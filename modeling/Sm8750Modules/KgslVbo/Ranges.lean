import Sm8750Modules.Lib.Intervals

/-!
# The ranges of a virtual buffer object

A VBO is an address range whose pages are bound to pages of child buffers, and to the zero page or
to nothing elsewhere. An interval tree says which range belongs to which child; it is kept beside
the page table, and each bind edits both.
-/

namespace KgslVbo

open Intervals List

def pageSize : ℕ := 4096

/-- What a page of the VBO is mapped to: an entry is named by its id. -/
inductive PageMap where
  | unmapped
  | zero
  | child (entry page : ℕ)
deriving DecidableEq, Repr

/-- The page table, and which of the coming calls fail. -/
structure Mmu where
  pageMap : ℕ → PageMap
  fails : List Bool

/-- The page lies in the bytes from `start` on. -/
def InSpan (start length p : ℕ) : Prop := start ≤ p * pageSize ∧ p * pageSize < start + length
deriving Decidable

namespace Mmu

variable (m : Mmu)

variable (start length : ℕ)

def update (f : ℕ → PageMap) : Mmu × Bool :=
  if m.fails.head? = some true then ({ m with fails := m.fails.tail }, false)
  else
    ({ pageMap := fun p => if InSpan start length p then f p else m.pageMap p
       fails := m.fails.tail }, true)

def unmapRange : Mmu × Bool := m.update start length fun _ => .unmapped

def mapZeroPageToRange : Mmu × Bool := m.update start length fun _ => .zero

def mapChild (start entry childOffset length : ℕ) : Mmu × Bool :=
  m.update start length fun p => .child entry ((childOffset + (p * pageSize - start)) / pageSize)

end Mmu

/-! ## Ranges -/

structure BindRange where
  start : ℕ
  last : ℕ
  entry : ℕ
deriving DecidableEq, Repr

namespace BindRange

variable (r : BindRange)

/-- `bind_range_len` -/
def len : ℕ := r.last - r.start + 1

def Covers (p : ℕ) : Prop := r.start ≤ p * pageSize ∧ p * pageSize ≤ r.last
deriving Decidable

end BindRange

/-- `interval_tree_insert` -/
def insertRange (r : BindRange) (ranges : List BindRange) : List BindRange :=
  insertBy BindRange.start r ranges

/-- The counts of `bind_range_create` and `bind_range_destroy`. -/
def countCreate (count : ℕ → ℤ) (entry : ℕ) : ℕ → ℤ :=
  Function.update count entry (count entry + 1)

def countDestroy (count : ℕ → ℤ) (entry : ℕ) : ℕ → ℤ :=
  Function.update count entry (count entry - 1)

/-- What a bind edits: the ranges of the VBO, the page table, and the `vbo_count` of the entries. -/
structure Binding where
  ranges : List BindRange
  mmu : Mmu
  vboCount : ℕ → ℤ

abbrev NoMapZero := Bool

variable (noMapZero : NoMapZero)

def unmapIf (m : Mmu) (start length : ℕ) : Mmu × Bool :=
  if noMapZero then m.unmapRange start length else (m, true)

/-- The loop body of `kgsl_memdesc_add_range`; it goes on unless an unmap fails. -/
def addBody (start last : ℕ) (cur : BindRange) (ranges : List BindRange)
    (x : Mmu × (ℕ → ℤ)) : List BindRange × (Mmu × (ℕ → ℤ)) × Bool :=
  let removed := ranges.erase cur
  if start ≤ cur.start then
    if cur.last ≤ last then
      -- the whole range
      let r := unmapIf noMapZero x.1 cur.start cur.len
      if r.2 then (removed, (r.1, countDestroy x.2 cur.entry), true)
      else (insertRange cur removed, (r.1, x.2), false)
    else
      -- its first part
      let r := unmapIf noMapZero x.1 cur.start (last - cur.start + 1)
      if r.2 then (insertRange { cur with start := last + 1 } removed, (r.1, x.2), true)
      else (insertRange cur removed, (r.1, x.2), false)
  else
    -- the far side of a range that is split
    let split := if last < cur.last then insertRange ⟨last + 1, cur.last, cur.entry⟩ removed else removed
    let count := if last < cur.last then countCreate x.2 cur.entry else x.2
    let r := unmapIf noMapZero x.1 start (min cur.last last - start + 1)
    if r.2 then (insertRange { cur with last := start - 1 } split, (r.1, count), true)
    else (insertRange cur split, (r.1, count), false)

def addRange (start last entry offset : ℕ) (b : Binding) : Binding :=
  let count := countCreate b.vboCount entry
  let cleared := if noMapZero then (b.mmu, true) else b.mmu.unmapRange start (last - start + 1)
  if !cleared.2 then { b with mmu := cleared.1, vboCount := countDestroy count entry }
  else
    let walked := walk BindRange.start BindRange.last (addBody noMapZero start last) start last
      (b.ranges.length + 1) (iterFirst BindRange.start BindRange.last start last b.ranges) b.ranges
      (cleared.1, count)
    if !walked.2.2 then ⟨walked.1, walked.2.1.1, countDestroy walked.2.1.2 entry⟩
    else
      let mapped := walked.2.1.1.mapChild start entry offset (last - start + 1)
      if mapped.2 then ⟨insertRange ⟨start, last, entry⟩ walked.1, mapped.1, walked.2.1.2⟩
      else ⟨walked.1, mapped.1, countDestroy walked.2.1.2 entry⟩

/-- The loop body of `kgsl_memdesc_remove_range`. -/
def removeBody (entry : Option ℕ) (cur : BindRange) (ranges : List BindRange)
    (x : Mmu × (ℕ → ℤ)) : List BindRange × (Mmu × (ℕ → ℤ)) × Bool :=
  if entry = none ∨ entry = some cur.entry then
    let r := x.1.unmapRange cur.start cur.len
    if r.2 then
      let m := if noMapZero then r.1 else (r.1.mapZeroPageToRange cur.start cur.len).1
      (ranges.erase cur, (m, countDestroy x.2 cur.entry), true)
    else (ranges, (r.1, x.2), true)
  else (ranges, x, true)

def removeRange (start last : ℕ) (entry : Option ℕ) (b : Binding) : Binding :=
  let walked := walk BindRange.start BindRange.last (removeBody noMapZero entry) start last
    (b.ranges.length + 1) (iterFirst BindRange.start BindRange.last start last b.ranges) b.ranges
    (b.mmu, b.vboCount)
  ⟨walked.1, walked.2.1.1, walked.2.1.2⟩

def trim (start last : ℕ) (r : BindRange) : List BindRange :=
  (if r.start < start then [{ r with last := min r.last (start - 1) }] else []) ++
    if last < r.last then [{ r with start := max r.start (last + 1) }] else []

section Trim

variable {start last : ℕ} {r q : BindRange}

theorem mem_trim : q ∈ trim start last r ↔
    (r.start < start ∧ q = { r with last := min r.last (start - 1) }) ∨
      (last < r.last ∧ q = { r with start := max r.start (last + 1) }) := by
  rw [trim, mem_append]
  refine or_congr ?_ ?_
  · split
    · rename_i h
      rw [mem_singleton, and_iff_right h]
    · rename_i h
      simp only [h, false_and, not_mem_nil]
  · split
    · rename_i h
      rw [mem_singleton, and_iff_right h]
    · rename_i h
      simp only [h, false_and, not_mem_nil]

theorem of_mem_trim (h : q ∈ trim start last r) (hr : r.start ≤ r.last) :
    q.entry = r.entry ∧ r.start ≤ q.start ∧ q.start ≤ q.last ∧ q.last ≤ r.last ∧
      (q.last < start ∨ last < q.start) := by
  rcases mem_trim.mp h with ⟨hlt, rfl⟩ | ⟨hlt, rfl⟩
  · refine ⟨rfl, le_rfl, ?_, min_le_left _ _, .inl ?_⟩
    · exact le_min hr (Nat.le_sub_one_of_lt hlt)
    · exact (min_le_right _ _).trans_lt (by omega)
  · refine ⟨rfl, le_max_left _ _, ?_, le_rfl, .inr ?_⟩
    · exact max_le hr hlt
    · exact lt_of_lt_of_le (Nat.lt_succ_self last) (le_max_right _ _)

theorem exists_mem_trim {p : ℕ} (hp : r.Covers p)
    (hout : p * pageSize < start ∨ last < p * pageSize) : ∃ q ∈ trim start last r, q.Covers p := by
  rcases hout with hlt | hlt
  · refine ⟨_, mem_trim.mpr (.inl ⟨hp.1.trans_lt hlt, rfl⟩), hp.1, ?_⟩
    exact le_min hp.2 (Nat.le_sub_one_of_lt hlt)
  · refine ⟨_, mem_trim.mpr (.inr ⟨hlt.trans_le hp.2, rfl⟩), ?_, hp.2⟩
    exact max_le hp.1 hlt

theorem trim_of_not_meets (hr : r.start ≤ r.last) (hle : start ≤ last)
    (h : ¬Meets BindRange.start BindRange.last start last r) : trim start last r = [r] := by
  rw [Meets, not_and_or] at h
  rcases Nat.lt_or_ge r.start start with hlt | hge
  · have hlast : r.last < start := by
      rcases h with h | h
      · omega
      · omega
    rw [trim, if_pos hlt, if_neg (by omega), min_eq_left (by omega)]
    rfl
  · have hstart : last < r.start := by
      rcases h with h | h
      · omega
      · omega
    rw [trim, if_neg (by omega), if_pos (by omega), max_eq_left (by omega)]
    rfl

theorem apart_flatMap_trim {ranges : List BindRange} (hle : start ≤ last)
    (h : Apart BindRange.start BindRange.last ranges) (hne : ∀ r ∈ ranges, r.start ≤ r.last) :
    Apart BindRange.start BindRange.last (ranges.flatMap (trim start last)) := by
  rw [Apart, pairwise_flatMap]
  refine ⟨fun r _ => ?_, ?_⟩
  · rw [trim]
    split
    · split
      · refine pairwise_pair.mpr ?_
        show min r.last (start - 1) < max r.start (last + 1)
        have := min_le_right r.last (start - 1)
        have := le_max_right r.start (last + 1)
        omega
      · exact pairwise_singleton _ _
    · split
      · exact pairwise_singleton _ _
      · exact List.Pairwise.nil
  · refine List.Pairwise.imp_of_mem (fun {a b} ha hb hab x hx y hy => ?_) h
    have hx' := of_mem_trim hx (hne a ha)
    have hy' := of_mem_trim hy (hne b hb)
    omega

end Trim

end KgslVbo
