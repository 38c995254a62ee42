import Mathlib.Algebra.BigOperators.Ring.Finset
import Mathlib.Algebra.Order.BigOperators.Group.Finset

/-!
# Objects that change hands

Finitely many places with lists of objects in them. An object is moved from one place to another, or taken
from a place and not put anywhere.
-/

namespace Custody

open Function List

variable {P ι σ : Type*} [Fintype P] [DecidableEq P] [DecidableEq ι]

abbrev Contents (P ι : Type*) := P → List ι

def copies (c : Contents P ι) (x : ι) : ℕ := ∑ p, (c p).count x

/-- The objects with `own` are there once, the others are not. -/
def Exclusive (own : ι → Prop) (c : Contents P ι) : Prop :=
  ∀ x, copies c x ≤ 1 ∧ (copies c x = 1 ↔ own x)

/-- `x` goes from place `a` to place `b`. -/
structure Moves (c c' : Contents P ι) (x : ι) (a b : P) : Prop where
  ne : a ≠ b
  present : x ∈ c a
  taken : (c' a).Perm ((c a).erase x)
  given : (c' b).Perm (x :: c b)
  others : ∀ p, p ≠ a → p ≠ b → c' p = c p

/-- `x` is taken from place `a` and put nowhere. -/
structure Loses (c c' : Contents P ι) (x : ι) (a : P) : Prop where
  present : x ∈ c a
  taken : (c' a).Perm ((c a).erase x)
  others : ∀ p, p ≠ a → c' p = c p

variable {c c' : Contents P ι} {x y : ι} {a b p : P} {own : ι → Prop}

omit [DecidableEq P] in
theorem count_le_copies (c : Contents P ι) (x : ι) (p : P) : (c p).count x ≤ copies c x :=
  Finset.single_le_sum (f := fun p => (c p).count x) (fun _ _ => Nat.zero_le _) (Finset.mem_univ p)

theorem two_le_copies (hne : a ≠ b) (ha : x ∈ c a) (hb : x ∈ c b) : 2 ≤ copies c x := by
  have hpair : ∑ p ∈ {a, b}, (c p).count x ≤ copies c x :=
    Finset.sum_le_sum_of_subset (Finset.subset_univ _)
  rw [Finset.sum_pair hne] at hpair
  have := count_pos_iff.mpr ha
  have := count_pos_iff.mpr hb
  omega

theorem Exclusive.place_unique (h : Exclusive own c) (ha : x ∈ c a) (hb : x ∈ c b) : a = b := by
  by_contra hne
  have := two_le_copies hne ha hb
  have := (h x).1
  omega

omit [DecidableEq P] in
theorem Exclusive.owned (h : Exclusive own c) (ha : x ∈ c a) : own x := by
  have := count_pos_iff.mpr ha
  have := count_le_copies c x a
  have := (h x).1
  exact (h x).2.mp (by omega)

omit [Fintype P] [DecidableEq P] in
theorem count_erase_add (l : List ι) (hx : x ∈ l) (y : ι) :
    (l.erase x).count y + (if y = x then 1 else 0) = l.count y := by
  by_cases hy : y = x
  · subst hy
    have := count_pos_iff.mpr hx
    rw [count_erase_self, if_pos rfl]
    omega
  · rw [count_erase_of_ne hy, if_neg hy, Nat.add_zero]

theorem Moves.copies (h : Moves c c' x a b) (y : ι) : copies c' y = copies c y := by
  have hplace : ∀ p, (c' p).count y + (if p = a then if y = x then 1 else 0 else 0)
      = (c p).count y + (if p = b then if y = x then 1 else 0 else 0) := by
    intro p
    by_cases hpa : p = a
    · subst hpa
      rw [h.taken.count_eq, if_pos rfl, if_neg h.ne, count_erase_add _ h.present, Nat.add_zero]
    · by_cases hpb : p = b
      · subst hpb
        rw [h.given.count_eq, count_cons, if_neg hpa, if_pos rfl, Nat.add_zero]
        by_cases hyx : y = x
        · simp [hyx]
        · simp [hyx, Ne.symm hyx]
      · rw [h.others p hpa hpb, if_neg hpa, if_neg hpb]
  have hsum := Finset.sum_congr rfl fun p (_ : p ∈ Finset.univ) => hplace p
  rw [Finset.sum_add_distrib, Finset.sum_add_distrib, Finset.sum_ite_eq', Finset.sum_ite_eq',
    if_pos (Finset.mem_univ _), if_pos (Finset.mem_univ _)] at hsum
  exact Nat.add_right_cancel hsum

theorem Loses.copies (h : Loses c c' x a) : Custody.copies c' x + 1 = Custody.copies c x := by
  have hplace : ∀ p, (c' p).count x + (if p = a then 1 else 0) = (c p).count x := by
    intro p
    by_cases hpa : p = a
    · subst hpa
      have := count_erase_add _ h.present x
      rw [if_pos rfl] at this
      rw [h.taken.count_eq, if_pos rfl, this]
    · rw [h.others p hpa, if_neg hpa, Nat.add_zero]
  have hsum := Finset.sum_congr rfl fun p (_ : p ∈ Finset.univ) => hplace p
  rw [Finset.sum_add_distrib, Finset.sum_ite_eq', if_pos (Finset.mem_univ _)] at hsum
  exact hsum

theorem Moves.exclusive (h : Moves c c' x a b) (hc : Exclusive own c) : Exclusive own c' := by
  intro y
  rw [h.copies]
  exact hc y

/-- **After a loss one object is nowhere.** -/
theorem Loses.not_exclusive (h : Loses c c' x a) (hc : Exclusive own c) : ¬ Exclusive own c' := by
  intro hc'
  have := h.copies
  have := (hc x).1
  have := (hc' x).2.mpr (hc.owned h.present)
  omega

def Staged (stage : P → σ) (life : ι → σ) (c : Contents P ι) : Prop := ∀ p, ∀ x ∈ c p, life x = stage p

omit [Fintype P] in
theorem Moves.mem_iff (h : Moves c c' x a b) (hy : y ≠ x) (p : P) : y ∈ c' p ↔ y ∈ c p := by
  by_cases hpa : p = a
  · rw [hpa, h.taken.mem_iff, mem_erase_of_ne hy]
  · by_cases hpb : p = b
    · rw [hpb, h.given.mem_iff, mem_cons, or_iff_right hy]
    · rw [h.others p hpa hpb]

theorem Moves.staged {stage : P → σ} {life : ι → σ} (h : Moves c c' x a b) (hc : Exclusive own c)
    (hs : Staged stage life c) : Staged stage (update life x (stage b)) c' := by
  intro p y hy
  by_cases hyx : y = x
  · subst hyx
    have hb : y ∈ c' b := h.given.mem_iff.mpr (mem_cons_self ..)
    rw [update_self, (h.exclusive hc).place_unique hb hy]
  · rw [update_of_ne hyx]
    exact hs p y ((h.mem_iff hyx p).mp hy)

end Custody
