import Sm8750Modules.KgslVbo.Survive

/-!
# What an unbind removes

A bind splits the ranges that it overlaps in part. An unbind does not: it takes out each range of its
child that meets the window, with the pages that lie outside of the window.
-/

namespace KgslVbo

open Intervals Runs List

/-- The ranges that an unbind takes out. -/
def Meant (start last : ℕ) (entry : Option ℕ) (r : BindRange) : Prop :=
  Meets BindRange.start BindRange.last start last r ∧ Matches entry r
deriving Decidable

def BoundTo (ranges : List BindRange) (p child : ℕ) : Prop :=
  ∃ r ∈ ranges, r.Covers p ∧ r.entry = child
deriving Decidable

section Walk

variable {noMapZero : NoMapZero} {size start last : ℕ} {K : ℕ → PageMap → Prop} {entry : Option ℕ}
  {b : Binding} {pre post : List BindRange} {a : BindRange} {x : Mmu × (ℕ → ℤ)}

/-- What an unbind has done behind the ranges `done`. -/
structure Removed (noMapZero : NoMapZero) (start last : ℕ) (entry : Option ℕ) (b : Binding)
    (done pre post : List BindRange) (m : Mmu) : Prop where
  list : b.ranges = done ++ post
  kept : pre = done.filter fun r => ¬Meant start last entry r
  pages : ∀ p, m.pageMap p = if ∃ r ∈ done, Meant start last entry r ∧ r.Covers p then
    background noMapZero else b.mmu.pageMap p
  fails : m.fails = []

variable {done : List BindRange} {m : Mmu}

section

variable (h : Removed noMapZero start last entry b done pre (a :: post) m)
include h

theorem Removed.keep
    (ha : ¬Meant start last entry a) :
    Removed noMapZero start last entry b (done ++ [a]) (pre ++ [a]) post m := by
  refine ⟨by simp [h.list], ?_, fun p => ?_, h.fails⟩
  · simp [h.kept, ha]
  · rw [h.pages p]
    simp [or_and_right, exists_or, ha]

theorem Removed.pageMap_remove
    (ha : Meant start last entry a) (p : ℕ) :
    (if a.Covers p then background noMapZero else m.pageMap p) =
      if ∃ r ∈ done ++ [a], Meant start last entry r ∧ r.Covers p then background noMapZero
        else b.mmu.pageMap p := by
  have hex : (∃ r ∈ done ++ [a], Meant start last entry r ∧ r.Covers p) ↔
      (∃ r ∈ done, Meant start last entry r ∧ r.Covers p) ∨ a.Covers p := by
    simp [or_and_right, exists_or, ha]
  rw [h.pages p]
  by_cases hcovers : a.Covers p
  · rw [if_pos hcovers, if_pos (hex.mpr (.inr hcovers))]
  · rw [if_neg hcovers]
    simp only [hex, hcovers, or_false]

theorem Removed.remove
    (ha : Meant start last entry a) (hle : a.start ≤ a.last) {m' : Mmu}
    (hm' : m' = if noMapZero then (m.unmapRange a.start a.len).1
      else ((m.unmapRange a.start a.len).1.mapZeroPageToRange a.start a.len).1) :
    Removed noMapZero start last entry b (done ++ [a]) pre post m' := by
  have hhead : m.fails.head? ≠ some true := by
    simp [h.fails]
  have hspan : ∀ p, InSpan a.start a.len p ↔ a.Covers p := inSpan_len hle
  refine ⟨by simp [h.list], by simp [h.kept, ha], fun p => ?_, ?_⟩
  · rw [← h.pageMap_remove ha p, hm', Mmu.unmapRange, Mmu.update_succeeds hhead]
    cases noMapZero with
    | true => simp [hspan, background]
    | false =>
      rw [if_neg Bool.false_ne_true, Mmu.mapZeroPageToRange, Mmu.update_succeeds (by simp [h.fails])]
      simp only [hspan, background, Bool.false_eq_true, if_false]
      split
      · rfl
      · rfl
  · rw [hm', Mmu.unmapRange, Mmu.update_succeeds hhead]
    cases noMapZero with
    | true => simp [h.fails]
    | false =>
      rw [if_neg Bool.false_ne_true, Mmu.mapZeroPageToRange, Mmu.update_succeeds (by simp [h.fails])]
      simp [h.fails]

end

variable (start last entry) in
/-- **An unbind whose calls succeed** takes out the ranges that it means, and the pages of these ranges
get the background. -/
theorem removeRange_nil (h : Consistent noMapZero size K b.ranges b.mmu.pageMap) (hfails : b.mmu.fails = [])
    {r : Binding} (hr : r = removeRange noMapZero start last entry b) :
    r.ranges = b.ranges.filter (fun q => ¬Meant start last entry q) ∧
      ∀ p, r.mmu.pageMap p = if ∃ q ∈ b.ranges, Meant start last entry q ∧ q.Covers p then
        background noMapZero else b.mmu.pageMap p := by
  have hinit : ∃ done, Removed noMapZero start last entry b done [] b.ranges b.mmu :=
    ⟨[], rfl, rfl, by simp, hfails⟩
  have hrule := @walk_rule _ _ _ BindRange.start BindRange.last (removeBody noMapZero entry) start last
    (fun pre post x => ∃ done, Removed noMapZero start last entry b done pre post x.1) (fun _ _ => False)
    ?_ ?_ ?_ _ _ _ (b.mmu, b.vboCount) hinit (Nat.lt_succ_self b.ranges.length)
  · obtain ⟨done, hdone⟩ := (hrule.resolve_right fun hE => hE.2).1
    have hall : b.ranges = done := by
      simpa using hdone.list
    rw [hr, hall]
    exact ⟨hdone.kept, hdone.pages⟩
  · intro pre a post x hx hmeets
    obtain ⟨done, hdone⟩ := hx
    exact ⟨done ++ [a], hdone.keep fun ha => hmeets ha.1⟩
  · intro pre a post x hx hmem
    obtain ⟨done, hdone⟩ := hx
    have hapart := h.apart
    rw [hdone.kept] at hmem
    rw [hdone.list] at hapart
    have hlt := (pairwise_append.mp hapart).2.2 a (mem_of_mem_filter hmem) a (by simp)
    have hle := h.nonempty a (hdone.list ▸ by simp)
    omega
  · intro pre a post x hx hmeets
    obtain ⟨done, hdone⟩ := hx
    left
    by_cases hmatch : Matches entry a
    · have hnot : a ∉ pre := by
        intro hmem
        have hapart := h.apart
        rw [hdone.kept] at hmem
        rw [hdone.list] at hapart
        have hlt := (pairwise_append.mp hapart).2.2 a (mem_of_mem_filter hmem) a (by simp)
        have hle := h.nonempty a (hdone.list ▸ by simp)
        omega
      have hle := h.nonempty a (hdone.list ▸ by simp)
      have herase : (pre ++ a :: post).erase a = pre ++ post := by
        rw [erase_append_right _ hnot, erase_cons_head]
      have hstep := hdone.remove ⟨hmeets, hmatch⟩ hle rfl
      have hmatch' : entry = none ∨ entry = some a.entry := hmatch
      have hunmap : (x.1.unmapRange a.start a.len).2 = true := by
        rw [Mmu.unmapRange, Mmu.update_succeeds (by simp [hdone.fails])]
      rw [removeBody, if_pos hmatch']
      dsimp only
      rw [hunmap, if_pos rfl, herase]
      exact ⟨pre, rfl, rfl, done ++ [a], hstep⟩
    · have hmatch' : ¬(entry = none ∨ entry = some a.entry) := hmatch
      rw [removeBody, if_neg hmatch']
      exact ⟨pre ++ [a], by simp, rfl, done ++ [a], hdone.keep fun ha => hmatch ha.2⟩

end Walk

/-- **What an unbind should do** to the VBO `v`. -/
structure UnbindsExactly (e : Entry) (v : ℕ) (slot : BindSlot) (s s' : State) : Prop where
  unbound : ∀ p, InWindow slot.start slot.last p →
    (∃ r ∈ s.ranges v, r.Covers p ∧ Matches slot.entry r) →
    (∀ child, ¬BoundTo (s'.ranges v) p child) ∧ s'.pageMap v p = background e.noMapZero
  other : ∀ p, ¬(InWindow slot.start slot.last p ∧ ∃ r ∈ s.ranges v, r.Covers p ∧ Matches slot.entry r) →
    s'.pageMap v p = s.pageMap v p ∧ ∀ child, BoundTo (s'.ranges v) p child ↔ BoundTo (s.ranges v) p child

/-- The ranges that the unbind takes out lie in its window. -/
def Inside (ranges : List BindRange) (slot : BindSlot) : Prop :=
  ∀ r ∈ ranges, Meant slot.start slot.last slot.entry r → slot.start ≤ r.start ∧ r.last ≤ slot.last
deriving Decidable

section Exact

variable {noMapZero : NoMapZero} {size start last : ℕ} {K : ℕ → PageMap → Prop} {ranges : List BindRange}
  {pageMap : ℕ → PageMap} {r : BindRange}

theorem exists_page_outside (hr : Accepted size r.start r.last) (hw : Accepted size start last)
    (hmeets : Meets BindRange.start BindRange.last start last r)
    (hout : ¬(start ≤ r.start ∧ r.last ≤ last)) : ∃ p, r.Covers p ∧ ¬InWindow start last p := by
  by_cases hstart : start ≤ r.start
  · have hlast : last + 1 ≤ r.last := by
      omega
    obtain ⟨p, hp⟩ := hw.aligned.2
    have hpage : p * pageSize = last + 1 := by
      rw [hp, Nat.mul_comm]
    refine ⟨p, ⟨?_, by omega⟩, fun hin => ?_⟩
    · have := hmeets.1
      omega
    · have := hin.2
      omega
  · obtain ⟨p, hp⟩ := hr.aligned.1
    have hpage : p * pageSize = r.start := by
      rw [hp, Nat.mul_comm]
    refine ⟨p, ⟨hpage.ge, hpage.trans_le hr.le⟩, fun hin => ?_⟩
    have := hin.1
    omega

theorem meets_of_page {p : ℕ} (hp : r.Covers p) (hin : InWindow start last p) :
    Meets BindRange.start BindRange.last start last r :=
  ⟨hp.1.trans hin.2, hin.1.trans hp.2⟩

theorem Consistent.unique (h : Consistent noMapZero size K ranges pageMap) {q : BindRange} {p : ℕ}
    (hr : r ∈ ranges) (hq : q ∈ ranges) (hrp : r.Covers p) (hqp : q.Covers p) : r = q :=
  h.apart.eq_of_mem hr hq hrp hqp

variable {s : State} {v i : ℕ} {e : Entry} {slot : BindSlot} {rest : List BindSlot} {op : BindOp}

/-- **An unbind of a consistent VBO is exact iff** the ranges it takes out lie in its window. -/
theorem Consistent.unbindsExactly_iff_inside {s' : State}
    (h : Consistent e.noMapZero e.size K (s.ranges v) (s.pageMap v))
    (hw : Accepted e.size slot.start slot.last)
    (hranges : s'.ranges v = (s.ranges v).filter fun q => ¬Meant slot.start slot.last slot.entry q)
    (hpages : ∀ p, s'.pageMap v p = if ∃ q ∈ s.ranges v, Meant slot.start slot.last slot.entry q ∧ q.Covers p
      then background e.noMapZero else s.pageMap v p) :
    UnbindsExactly e v slot s s' ↔ Inside (s.ranges v) slot := by
  have hmem : ∀ q, q ∈ s'.ranges v ↔ q ∈ s.ranges v ∧ ¬Meant slot.start slot.last slot.entry q := by
    simp [hranges]
  constructor
  · intro hexact r hr hmeant
    by_contra hout
    obtain ⟨p, hp, hnot⟩ := exists_page_outside (h.inside r hr) hw hmeant.1 hout
    -- the page was bound to the child and is not bound any more
    obtain ⟨-, hsame⟩ := hexact.other p fun hboth => hnot hboth.1
    obtain ⟨q, hq, hqp, -⟩ := (hsame r.entry).mpr ⟨r, hr, hp, rfl⟩
    have heq := h.unique hr ((hmem q).mp hq).1 hp hqp
    rw [← heq] at hq
    exact ((hmem r).mp hq).2 hmeant
  · intro hinside
    refine ⟨fun p hin hex => ?_, fun p hnot => ?_⟩
    · obtain ⟨r, hr, hp, hmatch⟩ := hex
      have hmeant : Meant slot.start slot.last slot.entry r := ⟨meets_of_page hp hin, hmatch⟩
      refine ⟨fun child hbound => ?_, ?_⟩
      · obtain ⟨q, hq, hqp, -⟩ := hbound
        have heq := h.unique hr ((hmem q).mp hq).1 hp hqp
        rw [← heq] at hq
        exact ((hmem r).mp hq).2 hmeant
      · rw [hpages p, if_pos ⟨r, hr, hmeant, hp⟩]
    · have hnone : ∀ q ∈ s.ranges v, q.Covers p → ¬Meant slot.start slot.last slot.entry q := by
        intro q hq hqp hmeant
        have hbounds := hinside q hq hmeant
        exact hnot ⟨⟨hbounds.1.trans hqp.1, hqp.2.trans hbounds.2⟩, q, hq, hqp, hmeant.2⟩
      refine ⟨?_, fun child => ⟨fun hbound => ?_, fun hbound => ?_⟩⟩
      · rw [hpages p, if_neg fun hex => ?_]
        obtain ⟨q, hq, hmeant, hqp⟩ := hex
        exact hnone q hq hqp hmeant
      · obtain ⟨q, hq, hqp⟩ := hbound
        exact ⟨q, ((hmem q).mp hq).1, hqp⟩
      · obtain ⟨q, hq, hqp⟩ := hbound
        exact ⟨q, (hmem q).mpr ⟨hq, hnone q hq hqp.1⟩, hqp⟩

theorem next_unbind (he : s.entries op.target = some e) (hop : s.ops[i]? = some op)
    (hwork : op.work = some (slot :: rest)) (hunbind : slot.op = .unbind) :
    (next s (.work i [])).ranges op.target =
        (removeRange e.noMapZero slot.start slot.last slot.entry (s.binding op.target [])).ranges ∧
      (next s (.work i [])).pageMap op.target =
        (removeRange e.noMapZero slot.start slot.last slot.entry (s.binding op.target [])).mmu.pageMap := by
  have hslot : s.runSlot op.target slot [] = s.edited op.target
      (removeRange e.noMapZero slot.start slot.last slot.entry (s.binding op.target [])) [] := by
    simp [State.runSlot, he, hunbind]
  rw [next_work hop hwork, hslot]
  simp [State.edited]

/-- **An unbind is exact iff** each range of its child that meets the window lies in the window. -/
theorem unbindsExactly_iff (h : (bindMachine Careful).Reachable s) (hop : s.ops[i]? = some op)
    (hwork : op.work = some (slot :: rest)) (hunbind : slot.op = .unbind)
    (he : s.entries op.target = some e) :
    UnbindsExactly e op.target slot s (next s (.work i [])) ↔ Inside (s.ranges op.target) slot := by
  have hsound := sound_of_reachable h
  have hmem := List.mem_of_getElem? hop
  obtain ⟨e', he', hvbo, hslots⟩ := hsound.target op hmem
  have heq : e' = e := Option.some.inj (he'.symm.trans he)
  rw [heq] at hvbo hslots
  have hslot := hslots slot (hsound.work op hmem _ hwork slot mem_cons_self)
  have hconsistent := (hsound.flagged op.target e he hvbo).2
  obtain ⟨hranges, hpages⟩ := next_unbind he hop hwork hunbind
  obtain ⟨hfilter, hmap⟩ := @removeRange_nil _ _ slot.start slot.last _ slot.entry
    (s.binding op.target []) hconsistent rfl _ rfl
  refine hconsistent.unbindsExactly_iff_inside hslot.window ?_ fun p => ?_
  · rw [hranges, hfilter]
    rfl
  · rw [hpages, hmap p]
    rfl

/-- A child of two pages is bound, and an unbind of some of its bytes is next. -/
def boundChild (length : UInt64) : List Action :=
  [.alloc 2 ⟨8192, false, false, false, false⟩, .allocVbo 1 8192 false false,
    .createBindOp 1 [⟨0, 0, 8192, 2, .bind⟩, ⟨0, 0, length, 2, .unbind⟩], .bindRanges 0, .work 0 []]

/-- The whole child is unbound. -/
theorem unbindsExactly_boundChild :
    UnbindsExactly ⟨8192, true, false, false, false⟩ 1 ⟨some 2, 0, 8191, 0, .unbind, 0⟩
        ((bindMachine Careful).exec initial (boundChild 8192))
        (next ((bindMachine Careful).exec initial (boundChild 8192)) (.work 0 [])) ↔
      Inside (((bindMachine Careful).exec initial (boundChild 8192)).ranges 1)
        ⟨some 2, 0, 8191, 0, .unbind, 0⟩ := by
  have hreach := (Machine.Reachable.init (M := bindMachine Careful) rfl).exec (boundChild 8192) (by decide)
  exact @unbindsExactly_iff _ 0 _ _ [] ⟨1, [⟨some 2, 0, 8191, 0, .bind, 0⟩, ⟨some 2, 0, 8191, 0, .unbind, 0⟩],
    some [⟨some 2, 0, 8191, 0, .unbind, 0⟩], 2⟩ hreach rfl rfl rfl rfl

/-- The unbind of the first page takes the second page with it. -/
theorem not_unbindsExactly : ¬∀ (s : State) (i : ℕ) (op : BindOp) (slot : BindSlot) (rest : List BindSlot)
    (e : Entry), (bindMachine fun _ a => MmuSucceeds a).Reachable s → s.ops[i]? = some op →
    op.work = some (slot :: rest) → slot.op = .unbind → s.entries op.target = some e →
    UnbindsExactly e op.target slot s (next s (.work i [])) := by
  intro hall
  have hreach := (Machine.Reachable.init (M := bindMachine fun _ a => MmuSucceeds a) rfl).exec
    (boundChild 4096) (by decide)
  have hexact := hall _ 0 ⟨1, [⟨some 2, 0, 8191, 0, .bind, 0⟩, ⟨some 2, 0, 4095, 0, .unbind, 0⟩],
    some [⟨some 2, 0, 4095, 0, .unbind, 0⟩], 2⟩ ⟨some 2, 0, 4095, 0, .unbind, 0⟩ []
    ⟨8192, true, false, false, false⟩ hreach rfl rfl rfl rfl
  have hkept := (hexact.other 1 (by decide)).1
  revert hkept
  decide

end Exact

end KgslVbo
