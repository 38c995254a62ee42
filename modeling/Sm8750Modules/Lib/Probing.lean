import Mathlib.Data.Nat.ModEq

/-!
# Linear probing

The slots of a table of `m` slots are visited from a start slot on, one after the other and round the
end of the table.
-/

namespace Probing

/-- The slot that a search from `start` visits in a step. -/
def slot (m start step : ℕ) : ℕ := (start + step) % m

theorem slot_lt {m : ℕ} (hm : 0 < m) (start step : ℕ) : slot m start step < m := Nat.mod_lt _ hm

theorem slot_succ (m start step : ℕ) : (slot m start step + 1) % m = slot m start (step + 1) := by
  rw [slot, slot, Nat.mod_add_mod, Nat.add_assoc]

theorem slot_injective {m start i j : ℕ} (hi : i < m) (hj : j < m)
    (h : slot m start i = slot m start j) : i = j := by
  have hmod : i ≡ j [MOD m] := Nat.ModEq.add_left_cancel' start h
  exact Nat.ModEq.eq_of_lt_of_lt hmod hi hj

theorem slot_surjective {m s : ℕ} (start : ℕ) (hs : s < m) : ∃ i < m, slot m start i = s := by
  have hm : 0 < m := Nat.lt_of_le_of_lt (Nat.zero_le s) hs
  have hstart : start % m < m := Nat.mod_lt _ hm
  refine ⟨(s + (m - start % m)) % m, Nat.mod_lt _ hm, ?_⟩
  rw [slot, Nat.add_mod_mod, ← Nat.mod_add_mod,
    show start % m + (s + (m - start % m)) = s + m by omega, Nat.add_mod_right]
  exact Nat.mod_eq_of_lt hs

/-- Visit the slots of `n` steps from a slot on, up to the first one that is accepted. -/
def visit (m : ℕ) (accept : ℕ → Bool) : ℕ → ℕ → ℕ × Bool
  | 0, s => (s, false)
  | 1, s => (s, accept s)
  | n + 2, s => if accept s then (s, true) else visit m accept (n + 1) ((s + 1) % m)

variable {m start s : ℕ} {b : Bool} {accept : ℕ → Bool}

def search (m start : ℕ) (accept : ℕ → Bool) (first last : ℕ) : ℕ × Bool :=
  visit m accept (last - first) (slot m start first)

theorem visit_slot {n first : ℕ} (h : visit m accept (n + 1) (slot m start first) = (s, b)) :
    ∃ i ≤ n, s = slot m start (first + i) ∧ (∀ j < i, accept (slot m start (first + j)) = false) ∧
      accept s = b ∧ (b = false → i = n) := by
  induction n generalizing first with
  | zero =>
    cases h
    exact ⟨0, le_rfl, rfl, fun j hj => absurd hj (Nat.not_lt_zero j), rfl, fun _ => rfl⟩
  | succ n ih =>
    rw [visit] at h
    split at h
    · rename_i hs
      cases h
      exact ⟨0, Nat.zero_le _, rfl, fun j hj => absurd hj (Nat.not_lt_zero j), hs, fun hb => by cases hb⟩
    · rename_i hs
      rw [slot_succ] at h
      obtain ⟨i, hi, hslot, hbefore, haccept, hlast⟩ := ih h
      refine ⟨i + 1, Nat.succ_le_succ hi, ?_, fun j hj => ?_, haccept, fun hb => ?_⟩
      · rw [hslot, Nat.add_assoc, Nat.add_comm 1 i]
      · rcases j with _ | j
        · rw [Nat.add_zero]
          exact Bool.eq_false_iff.mpr hs
        · rw [Nat.add_comm j 1, ← Nat.add_assoc]
          exact hbefore j (Nat.lt_of_succ_lt_succ hj)
      · rw [hlast hb]

theorem search_slot {first last : ℕ} (hlt : first < last)
    (h : search m start accept first last = (s, b)) :
    ∃ i, first ≤ i ∧ i < last ∧ s = slot m start i ∧
      (∀ j, first ≤ j → j < i → accept (slot m start j) = false) ∧ accept s = b ∧
      (b = false → i + 1 = last) := by
  rw [search, show last - first = last - first - 1 + 1 by omega] at h
  obtain ⟨i, hi, hslot, hbefore, haccept, hlast⟩ := visit_slot h
  refine ⟨first + i, Nat.le_add_right _ _, by omega, hslot, fun j hj hji => ?_, haccept, fun hb => ?_⟩
  · have := hbefore (j - first) (by omega)
    rwa [show first + (j - first) = j by omega] at this
  · have := hlast hb
    omega

theorem search_round_false (hm : 0 < m) (h : search m start accept 0 m = (s, false)) :
    ∀ t < m, accept t = false := by
  intro t ht
  obtain ⟨i, hi, rfl⟩ := slot_surjective start ht
  obtain ⟨k, -, hk, hs, hbefore, hfalse, hlast⟩ := search_slot hm h
  rcases Nat.lt_or_ge i k with hik | hik
  · exact hbefore i (Nat.zero_le i) hik
  · have heq : i = k := by
      have := hlast rfl
      omega
    rw [heq, ← hs]
    exact hfalse

theorem search_unique {i first last : ℕ} (hi : accept (slot m start i) = true)
    (hunique : ∀ j < last, accept (slot m start j) = true → j = i) (hlt : first < last) :
    (first ≤ i → i < last → search m start accept first last = (slot m start i, true)) ∧
      (i < first ∨ last ≤ i → (search m start accept first last).2 = false) := by
  rcases hs : search m start accept first last with ⟨s, b⟩
  obtain ⟨k, hfirst, hlast, hslot, hbefore, hb, hend⟩ := search_slot hlt hs
  cases b with
  | true =>
    have hki : k = i := hunique k hlast (hslot ▸ hb)
    subst hki
    exact ⟨fun _ _ => by rw [hslot], fun hout => by omega⟩
  | false =>
    refine ⟨fun hle hil => ?_, fun _ => rfl⟩
    have hk := hend rfl
    rcases Nat.lt_or_ge i k with hik | hik
    · rw [hbefore i hle hik] at hi
      cases hi
    · have heq : i = k := by omega
      rw [heq, ← hslot, hb] at hi
      cases hi

end Probing
