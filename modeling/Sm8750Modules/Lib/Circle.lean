import Mathlib

/-!
# Positions on a circle

Counters that wrap are positions on a circle of `2 * half` points, and they are compared on the
understanding that no two of them lie more than half a turn apart. Nothing here knows what is
counted.
-/

namespace Circle

def ahead (half a b : ℕ) : ℕ :=
  (2 * half - b + a) % (2 * half)

def Gte (half a b : ℕ) : Prop :=
  ahead half a b ≤ half

def diff (half a b : ℕ) : ℤ :=
  if half < ahead half a b then (ahead half a b : ℤ) - 2 * half else ahead half a b

variable {half a b : ℕ}

theorem ahead_of_le (ha : a < 2 * half) (h : b ≤ a) : ahead half a b = a - b := by
  have hsum : 2 * half - b + a = (a - b) + 2 * half := by omega
  rw [ahead, hsum, Nat.add_mod_right, Nat.mod_eq_of_lt (by omega)]

theorem ahead_of_lt (hb : b < 2 * half) (h : a < b) : ahead half a b = 2 * half - b + a := by
  rw [ahead, Nat.mod_eq_of_lt (by omega)]

section

variable (ha : a < 2 * half)
include ha

theorem ahead_cases (hb : b < 2 * half) :
    (b ≤ a ∧ ahead half a b = a - b) ∨ (a < b ∧ ahead half a b = 2 * half - b + a) := by
  rcases Nat.lt_or_ge a b with h | h
  · exact .inr ⟨h, ahead_of_lt hb h⟩
  · exact .inl ⟨h, ahead_of_le ha h⟩

theorem ahead_self : ahead half a a = 0 := by
  rw [ahead_of_le ha le_rfl, Nat.sub_self]

theorem ahead_lt : ahead half a b < 2 * half :=
  Nat.mod_lt _ (by omega)

theorem ahead_eq_zero_iff (hb : b < 2 * half) : ahead half a b = 0 ↔ a = b := by
  rcases ahead_cases ha hb with ⟨h, he⟩ | ⟨h, he⟩ <;> omega

theorem ahead_add_ahead (hb : b < 2 * half) (hne : a ≠ b) :
    ahead half a b + ahead half b a = 2 * half := by
  rcases ahead_cases ha hb with ⟨h, he⟩ | ⟨h, he⟩ <;>
    rcases ahead_cases hb ha with ⟨h', he'⟩ | ⟨h', he'⟩ <;> omega

theorem ahead_add_cases {c : ℕ} (hb : b < 2 * half) (hc : c < 2 * half) :
    ahead half a b + ahead half b c = ahead half a c ∨
      ahead half a b + ahead half b c = ahead half a c + 2 * half := by
  rcases ahead_cases ha hb with ⟨h₁, e₁⟩ | ⟨h₁, e₁⟩ <;>
    rcases ahead_cases hb hc with ⟨h₂, e₂⟩ | ⟨h₂, e₂⟩ <;>
    rcases ahead_cases ha hc with ⟨h₃, e₃⟩ | ⟨h₃, e₃⟩ <;> omega

theorem diff_self : diff half a a = 0 := by
  simp [diff, ahead_self ha]

theorem diff_eq_zero_iff (hb : b < 2 * half) : diff half a b = 0 ↔ a = b := by
  have hlt := ahead_lt (b := b) ha
  rw [← ahead_eq_zero_iff ha hb]
  unfold diff
  split <;> omega

end

theorem diff_nonneg (h : Gte half a b) : 0 ≤ diff half a b := by
  have hle : ahead half a b ≤ half := h
  unfold diff
  split <;> omega

theorem diff_of_not_gte (ha : a < 2 * half) (hb : b < 2 * half) (h : ¬ Gte half b a) :
    diff half a b = ahead half a b ∧ 0 < ahead half a b ∧ ahead half a b < half := by
  have hgt : half < ahead half b a := not_le.1 h
  have hne : a ≠ b := by
    intro he
    rw [he, ahead_self hb] at hgt
    omega
  have hsum := ahead_add_ahead ha hb hne
  have hlt := ahead_lt (b := a) hb
  refine ⟨?_, by omega, by omega⟩
  unfold diff
  split <;> omega

theorem diff_nonpos_iff (ha : a < 2 * half) (hb : b < 2 * half) :
    diff half a b ≤ 0 ↔ Gte half b a ∧ ahead half b a ≠ half := by
  by_cases hne : a = b
  · subst hne
    rw [diff_self ha, Gte, ahead_self ha]
    omega
  · have hsum := ahead_add_ahead ha hb hne
    have hab := ahead_lt (b := b) ha
    have hba := ahead_lt (b := a) hb
    unfold diff Gte
    split <;> omega

/-- **Five positions in a cycle.**  `m` is at or ahead of `x`, `t` and `p`, `x` is at or ahead
of `t` and `p` at or ahead of `x`, but `p` is not at or ahead of `t`. Then two of them lie
opposite each other: `m` and `x` are one position, opposite `p`, or `m` and `t` are one
position, opposite `x`. -/
theorem opposite_of_crossing {m x t p : ℕ} (hm : m < 2 * half) (hx : x < 2 * half)
    (ht : t < 2 * half) (hp : p < 2 * half) (hmx : Gte half m x) (hmt : Gte half m t)
    (hmp : Gte half m p) (hxt : Gte half x t) (hpx : Gte half p x) (hpt : ¬ Gte half p t) :
    (m = x ∧ ahead half m p = half) ∨ (m = t ∧ ahead half x t = half) := by
  have hpxt := ahead_add_cases hp hx ht
  have hmpt := ahead_add_cases hm hp ht
  have hmpx := ahead_add_cases hm hp hx
  rw [← ahead_eq_zero_iff hm hx, ← ahead_eq_zero_iff hm ht]
  unfold Gte at *
  -- from `m` over `p` and `x` to `t` is more than a turn, so one of the two halves of the way is too
  omega

theorem gte_of_crossing {m x t p : ℕ} (hm : m < 2 * half) (hx : x < 2 * half)
    (ht : t < 2 * half) (hp : p < 2 * half) (hpt : ¬ Gte half p t)
    (h : (m = x ∧ ahead half m p = half) ∨ (m = t ∧ ahead half x t = half)) :
    Gte half m x ∧ Gte half m t ∧ Gte half x t ∧ Gte half p x := by
  have hmpt := ahead_add_cases hm hp ht
  have hmt := ahead_lt (b := t) hm
  have hpt' := ahead_lt (b := t) hp
  unfold Gte at *
  rcases h with ⟨rfl, hopp⟩ | ⟨rfl, hopp⟩
  · have hback := ahead_add_cases hm hp hm
    rw [ahead_self hm] at *
    omega
  · have hback := ahead_add_cases hm hx hm
    have hpmx := ahead_add_cases hp hm hx
    have hpx := ahead_lt (b := x) hp
    rw [ahead_self hm] at *
    omega

end Circle
