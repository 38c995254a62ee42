import Mathlib

/-!
# Numerals read from the left

The value of a list of digits, the most significant one first, and its accumulation modulo `m` that stops
where the remainder drops. A remainder that does not drop says nothing about an overflow.
-/

namespace Horner

open List

def value (b : ℕ) (ds : List ℕ) : ℕ := Nat.ofDigits b ds.reverse

/-- The remainder after each digit; `none` where it is less than the one before. -/
def accumulate (b m : ℕ) : List ℕ → ℕ → Option ℕ
  | [], v => some v
  | d :: ds, v => if (v * b + d) % m < v then none else accumulate b m ds ((v * b + d) % m)

def NeverDrops (b m : ℕ) (ds : List ℕ) : Prop :=
  ∀ k < ds.length, value b (ds.take k) % m ≤ value b (ds.take (k + 1)) % m

instance (b m : ℕ) (ds : List ℕ) : Decidable (NeverDrops b m ds) := inferInstanceAs (Decidable (∀ k < _, _))

variable {b m : ℕ}

@[simp] theorem value_nil : value b [] = 0 := rfl

@[simp] theorem value_concat (ds : List ℕ) (d : ℕ) : value b (ds ++ [d]) = value b ds * b + d := by
  rw [value, reverse_append, reverse_singleton, singleton_append, Nat.ofDigits_cons,
    ← value, Nat.mul_comm, Nat.add_comm]

theorem value_le_append (hb : 0 < b) (p ds : List ℕ) : value b p ≤ value b (p ++ ds) := by
  induction ds using List.reverseRecOn with
  | nil => rw [append_nil]
  | append_singleton ds d ih =>
    rw [← append_assoc, value_concat]
    exact ih.trans ((Nat.le_mul_of_pos_right _ hb).trans (Nat.le_add_right _ _))

theorem value_lt_pow (hb : 1 < b) {ds : List ℕ} (h : ∀ d ∈ ds, d < b) : value b ds < b ^ ds.length := by
  rw [← length_reverse]
  exact Nat.ofDigits_lt_base_pow_length hb fun d hd => h d (mem_reverse.mp hd)

theorem accumulate_append (p ds : List ℕ) (v : ℕ) : accumulate b m ds (value b p % m) = some v ↔
    (∀ k < ds.length, value b (p ++ ds.take k) % m ≤ value b (p ++ ds.take (k + 1)) % m) ∧
      value b (p ++ ds) % m = v := by
  induction ds generalizing p with
  | nil =>
    simp only [accumulate, Option.some.injEq, length_nil, Nat.not_lt_zero, false_imp_iff,
      implies_true, true_and, append_nil]
  | cons d ds ih =>
    have hnext : (value b p % m * b + d) % m = value b (p ++ [d]) % m := by
      rw [value_concat, Nat.add_mod, Nat.mod_mul_mod, ← Nat.add_mod]
    have htake : ∀ k, p ++ (d :: ds).take (k + 1) = p ++ [d] ++ ds.take k := fun k => by
      rw [take_succ_cons, append_cons]
    rw [accumulate, hnext, length_cons, Nat.forall_lt_succ_left, append_cons p d ds]
    simp only [htake, take_zero, append_nil]
    by_cases hdrop : value b (p ++ [d]) % m < value b p % m
    · rw [if_pos hdrop]
      exact iff_of_false (by simp) fun h => absurd h.1.1 (Nat.not_le.mpr hdrop)
    · rw [if_neg hdrop, ih (p ++ [d]), and_iff_right (Nat.le_of_not_lt hdrop)]

theorem accumulate_eq_some_iff (ds : List ℕ) (v : ℕ) : accumulate b m ds 0 = some v ↔
    NeverDrops b m ds ∧ value b ds % m = v := by
  have h := accumulate_append (b := b) (m := m) [] ds v
  rwa [value_nil, Nat.zero_mod] at h

theorem neverDrops_of_lt (hb : 0 < b) {ds : List ℕ} (h : value b ds < m) : NeverDrops b m ds := by
  intro k hk
  have hle : ∀ j, value b (ds.take j) ≤ value b ds := fun j => by
    have happend := value_le_append hb (ds.take j) (ds.drop j)
    rwa [take_append_drop] at happend
  rw [Nat.mod_eq_of_lt ((hle k).trans_lt h), Nat.mod_eq_of_lt ((hle (k + 1)).trans_lt h), take_add_one]
  exact value_le_append hb _ _

end Horner
