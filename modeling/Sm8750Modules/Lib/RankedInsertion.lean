import Mathlib.Data.List.Perm.Basic
import Mathlib.Order.Lattice

/-!
# Ranking by insertion, where only some entries are ranked

The entries `0, 1, 2, …` are inserted one after the other.
-/

namespace RankedInsertion

open List

variable {κ : Type*} [LinearOrder κ] (ranked : ℕ → Prop) [DecidablePred ranked] (key : ℕ → κ)

/-- The entries in front of which `x` is inserted. -/
def lower (x y : ℕ) : Bool := ranked y ∧ key y < key x

@[simp] theorem lower_iff {x y : ℕ} : lower ranked key x y = true ↔ ranked y ∧ key y < key x := by
  simp [lower]

@[simp] theorem lower_eq_false_iff {x y : ℕ} :
    lower ranked key x y = false ↔ ¬ (ranked y ∧ key y < key x) := by
  simp [lower]

def rankInsert (l : List ℕ) (x : ℕ) : List ℕ :=
  if ranked x then l.insertIdx (l.findIdx (lower ranked key x)) x else l ++ [x]

/-- The first `n` entries in order. -/
def rankAll : ℕ → List ℕ
  | 0 => []
  | n + 1 => rankInsert ranked key (rankAll n) n

/-- Position `a` comes before position `b` in the order.

* Two ranked entries: the greater key first, then the earlier position.
* A ranked entry before an unranked one: the earlier position, or a ranked entry earlier than the unranked
  one has a lower key.
* An unranked entry before a ranked one: the other way around.
* Two unranked entries: the earlier position. -/
def Outranks (a b : ℕ) : Prop :=
  if ranked a then
    if ranked b then key b < key a ∨ (key a = key b ∧ a < b)
    else a < b ∨ ∃ q < b, ranked q ∧ key q < key a
  else
    if ranked b then a < b ∧ ∀ q < a, ranked q → ¬ key q < key b
    else a < b

section Relation

variable {ranked key} {a b : ℕ}

theorem outranks_ranked (ha : ranked a) (hb : ranked b) :
    Outranks ranked key a b ↔ key b < key a ∨ (key a = key b ∧ a < b) := by
  rw [Outranks, if_pos ha, if_pos hb]

theorem outranks_before_unranked (ha : ranked a) (hb : ¬ ranked b) :
    Outranks ranked key a b ↔ a < b ∨ ∃ q < b, ranked q ∧ key q < key a := by
  rw [Outranks, if_pos ha, if_neg hb]

theorem unranked_outranks (ha : ¬ ranked a) (hb : ranked b) :
    Outranks ranked key a b ↔ a < b ∧ ∀ q < a, ranked q → ¬ key q < key b := by
  rw [Outranks, if_neg ha, if_pos hb]

theorem outranks_unranked (ha : ¬ ranked a) (hb : ¬ ranked b) : Outranks ranked key a b ↔ a < b := by
  rw [Outranks, if_neg ha, if_neg hb]

theorem Outranks.of_key_lt {x : ℕ} (h : Outranks ranked key a b) (ha : ranked a) (hx : ranked x)
    (hkey : key a < key x) : Outranks ranked key x b := by
  by_cases hb : ranked b
  · rw [outranks_ranked ha hb] at h
    rw [outranks_ranked hx hb]
    obtain h | ⟨heq, -⟩ := h
    · exact .inl (h.trans hkey)
    · exact .inl (heq ▸ hkey)
  · rw [outranks_before_unranked ha hb] at h
    rw [outranks_before_unranked hx hb]
    obtain h | ⟨q, hq, hrank, hlt⟩ := h
    · exact .inr ⟨a, h, ha, hkey⟩
    · exact .inr ⟨q, hq, hrank, hlt.trans hkey⟩

end Relation

section Insert

variable {ranked key} {l : List ℕ} {x : ℕ}

theorem rankInsert_split (hx : ranked x) :
    ∃ front back, l = front ++ back ∧ rankInsert ranked key l x = front ++ x :: back ∧
      (∀ y ∈ front, ranked y → key x ≤ key y) ∧
      (∀ z tail, back = z :: tail → ranked z ∧ key z < key x) := by
  induction l with
  | nil => exact ⟨[], [], rfl, by simp [rankInsert, hx], by simp, by simp⟩
  | cons y ys ih =>
    by_cases hy : ranked y ∧ key y < key x
    · refine ⟨[], y :: ys, rfl, ?_, by simp, ?_⟩
      · simp [rankInsert, hx, findIdx_cons, lower, hy]
      · rintro z tail heq
        obtain ⟨rfl, rfl⟩ := List.cons.inj heq
        exact hy
    · obtain ⟨front, back, rfl, hinsert, hfront, hback⟩ := ih
      refine ⟨y :: front, back, rfl, ?_, ?_, hback⟩
      · rw [rankInsert, if_pos hx] at hinsert ⊢
        simp [findIdx_cons, lower, hy] at hinsert ⊢
        exact hinsert
      · intro z hz hrank
        obtain rfl | hz := mem_cons.mp hz
        · exact le_of_not_gt fun h => hy ⟨hrank, h⟩
        · exact hfront z hz hrank

theorem rankInsert_perm : (rankInsert ranked key l x).Perm (x :: l) := by
  by_cases hx : ranked x
  · obtain ⟨front, back, rfl, hinsert, -⟩ := @rankInsert_split κ _ ranked _ key l x hx
    rw [hinsert]
    exact perm_middle
  · rw [rankInsert, if_neg hx]
    exact perm_append_comm

end Insert

theorem rankAll_perm (n : ℕ) : (rankAll ranked key n).Perm (List.range n) := by
  induction n with
  | zero => exact .refl _
  | succ n ih =>
    rw [range_succ]
    apply rankInsert_perm.trans
    exact (ih.cons n).trans (perm_append_singleton n (List.range n)).symm

@[simp] theorem mem_rankAll {n i : ℕ} : i ∈ rankAll ranked key n ↔ i < n := by
  rw [(rankAll_perm ranked key n).mem_iff, mem_range]

@[simp] theorem length_rankAll (n : ℕ) : (rankAll ranked key n).length = n := by
  rw [(rankAll_perm ranked key n).length_eq, length_range]

/-- **The insertion sorts by `Outranks`.** The new position is the last one, so what holds between the
others does not change. -/
theorem rankAll_pairwise (n : ℕ) : (rankAll ranked key n).Pairwise (Outranks ranked key) := by
  induction n with
  | zero => exact List.Pairwise.nil
  | succ n ih =>
    have hmem : ∀ y ∈ rankAll ranked key n, y < n := fun y hy => (mem_rankAll ranked key).mp hy
    rw [rankAll]
    by_cases hn : ranked n
    · obtain ⟨front, back, hsplit, hinsert, hfront, hback⟩ :=
        @rankInsert_split κ _ ranked _ key (rankAll ranked key n) n hn
      rw [hsplit] at ih hmem
      obtain ⟨hf, hb, hfb⟩ := pairwise_append.mp ih
      rw [hinsert, pairwise_append, pairwise_cons]
      have hbehind : ∀ y ∈ back, Outranks ranked key n y := by
        intro y hy
        cases back with
        | nil => simp at hy
        | cons z tail =>
          obtain ⟨hz, hlt⟩ := hback z tail rfl
          obtain rfl | hy := mem_cons.mp hy
          · exact (outranks_ranked hn hz).mpr (.inl hlt)
          · exact ((pairwise_cons.mp hb).1 y hy).of_key_lt hz hn hlt
      have hahead : ∀ y ∈ front, Outranks ranked key y n := by
        intro y hy
        have hyn := hmem y (mem_append_left back hy)
        by_cases hrank : ranked y
        · rw [outranks_ranked hrank hn]
          exact (hfront y hy hrank).lt_or_eq.imp id fun heq => ⟨heq.symm, hyn⟩
        · rw [unranked_outranks hrank hn]
          refine ⟨hyn, fun q hq hqrank => ?_⟩
          -- a ranked entry earlier than `y` stands before it, so it is one that `n` does not pass
          have hqmem : q ∈ front ++ back := by
            rw [← hsplit, mem_rankAll]
            omega
          obtain hqf | hqb := mem_append.mp hqmem
          · exact (hfront q hqf hqrank).not_gt
          · have := ((unranked_outranks hrank hqrank).mp (hfb y hy q hqb)).1
            omega
      refine ⟨hf, ⟨hbehind, hb⟩, fun y hy z hz => ?_⟩
      obtain rfl | hz := mem_cons.mp hz
      · exact hahead y hy
      · exact hfb y hy z hz
    · rw [rankInsert, if_neg hn, pairwise_append]
      refine ⟨ih, pairwise_singleton _ _, fun y hy z hz => ?_⟩
      obtain rfl := mem_singleton.mp hz
      have hyn := hmem y hy
      by_cases hrank : ranked y
      · exact (outranks_before_unranked hrank hn).mpr (.inl hyn)
      · exact (outranks_unranked hrank hn).mpr hyn

theorem find?_rankAll {n w : ℕ} {p : ℕ → Bool} (h : (rankAll ranked key n).find? p = some w) :
    w < n ∧ p w = true ∧ ∀ i < n, p i = true → i ≠ w → Outranks ranked key w i := by
  obtain ⟨hw, front, back, hsplit, hfront⟩ := List.find?_eq_some_iff_append.mp h
  have hsorted := rankAll_pairwise ranked key n
  have hmem : ∀ i, i ∈ front ++ w :: back ↔ i < n := by
    intro i
    rw [← hsplit, mem_rankAll]
  rw [hsplit, pairwise_append, pairwise_cons] at hsorted
  refine ⟨(hmem w).mp (by simp), hw, fun i hi hp hne => ?_⟩
  have := (hmem i).mpr hi
  simp only [mem_append, mem_cons] at this
  obtain hif | rfl | hib := this
  · exact absurd hp (by simpa using hfront i hif)
  · exact absurd rfl hne
  · exact hsorted.2.1.1 i hib

end RankedInsertion
