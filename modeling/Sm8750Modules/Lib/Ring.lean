import Mathlib.Data.Nat.Basic
import Mathlib.Data.List.Basic

/-!
# Rings of slots

A queue in a ring of `n` slots is the part between a read index and a write index. One slot stays free,
so that equal indexes are an empty queue.
-/

namespace Ring

open Function List

variable {α : Type*} {n r w k : ℕ}

def next (n i : ℕ) : ℕ := if i + 1 < n then i + 1 else 0

def used (n r w : ℕ) : ℕ := if r ≤ w then w - r else n - (r - w)

/-- What `k` slots hold, from slot `r` on. -/
def contents (n : ℕ) (cell : ℕ → α) : ℕ → ℕ → List α
  | _, 0 => []
  | r, k + 1 => cell r :: contents n cell (next n r) k

theorem next_lt (h : 0 < n) (i : ℕ) : next n i < n := by
  rw [next]
  split
  · assumption
  · exact h

theorem used_lt (hr : r < n) (hw : w < n) : used n r w < n := by
  rw [used]
  split_ifs <;> omega

theorem used_self (n r : ℕ) : used n r r = 0 := by
  rw [used, if_pos le_rfl, Nat.sub_self]

theorem eq_of_used (hr : r < n) (h : used n r w = 0) : r = w := by
  rw [used] at h
  split_ifs at h <;> omega

theorem used_next_right (hr : r < n) (hw : w < n) (h : used n r w + 1 < n) :
    used n r (next n w) = used n r w + 1 := by
  rw [used] at h
  rw [used, used, next]
  split_ifs at h ⊢ <;> omega

theorem used_next_left (hr : r < n) (hw : w < n) (h : r ≠ w) :
    used n (next n r) w + 1 = used n r w := by
  rw [used, used, next]
  split_ifs <;> omega

theorem length_contents (n : ℕ) (cell : ℕ → α) (r k : ℕ) : (contents n cell r k).length = k := by
  induction k generalizing r with
  | zero => rfl
  | succ k ih =>
    rw [contents, length_cons, ih]

theorem contents_congr {cell cell' : ℕ → α} (hcell : ∀ i < n, i ≠ w → cell' i = cell i) (hr : r < n)
    (hw : w < n) (hk : k ≤ used n r w) : contents n cell' r k = contents n cell r k := by
  induction k generalizing r with
  | zero => rfl
  | succ k ih =>
    have hne : r ≠ w := by
      rintro rfl
      rw [used_self] at hk
      exact absurd hk (Nat.not_succ_le_zero k)
    have hstep := used_next_left hr hw hne
    rw [contents, contents, hcell r hr hne, ih (next_lt (by omega) r) (by omega)]

variable (cell : ℕ → α)

theorem contents_snoc (hr : r < n) (hw : w < n) (hk : used n r w = k) :
    contents n cell r (k + 1) = contents n cell r k ++ [cell w] := by
  induction k generalizing r with
  | zero =>
    rw [eq_of_used hr hk]
    rfl
  | succ k ih =>
    have hne : r ≠ w := by
      rintro rfl
      rw [used_self] at hk
      exact absurd hk (Nat.succ_ne_zero k).symm
    have hstep := used_next_left hr hw hne
    rw [contents, ih (next_lt (by omega) r) (by omega)]
    rfl

/-- **A write appends** what it puts into the slot at the write index. -/
theorem contents_push {cell cell' : ℕ → α} (hcell : ∀ i < n, i ≠ w → cell' i = cell i) (hr : r < n)
    (hw : w < n) (h : used n r w + 1 < n) :
    contents n cell' r (used n r (next n w)) = contents n cell r (used n r w) ++ [cell' w] := by
  rw [used_next_right hr hw h, contents_snoc cell' hr hw rfl, contents_congr hcell hr hw le_rfl]

theorem contents_pop (hr : r < n) (hw : w < n) (h : r ≠ w) :
    contents n cell r (used n r w) = cell r :: contents n cell (next n r) (used n (next n r) w) := by
  rw [← used_next_left hr hw h, contents]

/-! ### Blocks

A write and a read may also take several slots at once, in two parts where the ring ends. -/

def slot (n r k : ℕ) : ℕ := if r + k < n then r + k else r + k - n

section

variable (hr : r < n)
include hr

theorem slot_zero : slot n r 0 = r := by
  rw [slot, Nat.add_zero, if_pos hr]

theorem slot_lt (hk : k < n) : slot n r k < n := by
  rw [slot]
  split <;> omega

theorem slot_succ (hk : k < n) : slot n r (k + 1) = slot n (next n r) k := by
  rw [slot, slot, next]
  split_ifs <;> omega

theorem slot_slot {a b : ℕ} (hab : a + b < n) : slot n (slot n r a) b = slot n r (a + b) := by
  simp only [slot]
  split_ifs <;> omega

theorem slot_used (hw : w < n) : slot n r (used n r w) = w := by
  rw [slot, used]
  split_ifs <;> omega

theorem used_slot_right (hw : w < n) (h : used n r w + k < n) :
    used n r (slot n w k) = used n r w + k := by
  rw [used] at h
  rw [used, used, slot]
  split_ifs at h ⊢ <;> omega

theorem used_slot_left (hw : w < n) (h : k ≤ used n r w) : used n (slot n r k) w = used n r w - k := by
  rw [used] at h
  rw [used, used, slot]
  split_ifs at h ⊢ <;> omega

theorem contents_add {a b : ℕ} (hab : a + b < n) :
    contents n cell r (a + b) = contents n cell r a ++ contents n cell (slot n r a) b := by
  induction a generalizing r with
  | zero =>
    rw [Nat.zero_add, slot_zero hr]
    rfl
  | succ a ih =>
    rw [Nat.succ_add, contents, contents, ih (next_lt (by omega) r) (by omega),
      slot_succ hr (by omega), cons_append]

theorem contents_update {x : α} {cell : ℕ → α} {j : ℕ} (hk : k ≤ j) (hj : j < n) :
    contents n (update cell (slot n r j) x) r k = contents n cell r k := by
  induction k generalizing r j with
  | zero => rfl
  | succ k ih =>
    obtain ⟨i, rfl⟩ : ∃ i, j = i + 1 := ⟨j - 1, by omega⟩
    have hne : r ≠ slot n r (i + 1) := by
      rw [slot]
      split <;> omega
    rw [contents, contents, update_of_ne hne, slot_succ hr (by omega),
      ih (next_lt (by omega) r) (Nat.le_of_succ_le_succ hk) (by omega)]

theorem contents_update_self {x : α} {cell : ℕ → α} (hk : k + 1 < n) :
    contents n (update cell (slot n r k) x) r (k + 1) = contents n cell r k ++ [x] := by
  rw [contents_add _ hr hk, contents_update hr le_rfl (Nat.lt_of_succ_lt hk), contents, contents,
    update_self]

theorem getElem?_contents {i : ℕ} (hi : i < k) (hk : k ≤ n) :
    (contents n cell r k)[i]? = some (cell (slot n r i)) := by
  induction k generalizing r i with
  | zero => exact absurd hi (Nat.not_lt_zero i)
  | succ k ih =>
    cases i with
    | zero =>
      rw [slot_zero hr]
      rfl
    | succ i =>
      rw [slot_succ hr (by omega), contents, List.getElem?_cons_succ]
      exact ih (next_lt (by omega) r) (by omega) (by omega)

end

theorem slot_inj {i j : ℕ} (hi : i < n) (hj : j < n) (h : slot n r i = slot n r j) : i = j := by
  simp only [slot] at h
  split_ifs at h <;> omega

theorem contents_eq_map (hr : r < n) (hk : k ≤ n) :
    contents n cell r k = (List.range k).map fun i => cell (slot n r i) := by
  apply List.ext_getElem?
  intro i
  by_cases hi : i < k
  · simp [getElem?_contents cell hr hi hk, hi]
  · simp [length_contents, hi]

/-- **A block is written** at once: the slots behind the write index hold it, and no other slot has
changed. -/
theorem contents_block {cell cell' block : ℕ → α} (hr : r < n) (hw : w < n) (h : used n r w + k < n)
    (hin : ∀ i < k, cell' (slot n w i) = block i)
    (hout : ∀ j, (∀ i < k, j ≠ slot n w i) → cell' j = cell j) :
    contents n cell' r (used n r (slot n w k)) =
      contents n cell r (used n r w) ++ (List.range k).map block := by
  have hold : contents n cell' r (used n r w) = contents n cell r (used n r w) := by
    rw [contents_eq_map cell' hr (by omega), contents_eq_map cell hr (by omega)]
    refine map_congr_left fun i hi => hout _ fun j hj heq => ?_
    rw [mem_range] at hi
    rw [← slot_used hr hw, slot_slot hr (by omega)] at heq
    have := slot_inj (by omega) (by omega) heq
    omega
  have hnew : contents n cell' w k = (List.range k).map block := by
    rw [contents_eq_map cell' hw (by omega)]
    exact map_congr_left fun i hi => hin i (mem_range.mp hi)
  rw [used_slot_right hr hw h, contents_add cell' hr h, slot_used hr hw, hold, hnew]

end Ring
