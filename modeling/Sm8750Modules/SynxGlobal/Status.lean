import Sm8750Modules.SynxGlobal.Signals

/-!
# Synx global memory — the status of a composite object

The creation of objects and their merges keep the invariant of the signals, and with it the status of a
composite object is that of its leaves.
-/

namespace Sm8750Modules.SynxGlobal

open Gmem Function List

variable {s : State} {g g' : Gmem} {idx p : ℕ} {e : Coredata}

/-! ### Creating objects -/

theorem allocEntry_self (g : Gmem) (idx handle : ℕ) : (g.allocEntry idx handle).table idx =
    { status := active, refcount := 1, subscribers := {0}, handle := handle } := setEntry_self ..

theorem allocEntry_of_ne {q : ℕ} (h : q ≠ idx) (handle : ℕ) :
    (g.allocEntry idx handle).table q = g.table q := setEntry_of_ne h

theorem Shape.isChild_allocEntry (h : Shape g) (hfree : Free g idx) (handle c q : ℕ) :
    (g.allocEntry idx handle).IsChild c q ↔ g.IsChild c q := by
  rcases eq_or_ne c idx with rfl | hne
  · rw [IsChild, IsChild, allocEntry_self, h.free c hfree.2.2]
  · rw [IsChild, IsChild, allocEntry_of_ne hne]

theorem bitmap_allocEntry (g : Gmem) (idx handle i : ℕ) :
    (g.allocEntry idx handle).bitmap i = if i = idx then true else g.bitmap i := by
  show update g.bitmap idx true i = _
  split
  · rename_i heq
    rw [heq, update_self]
  · rename_i hne
    rw [update_of_ne hne]

theorem Shape.allocEntry (h : Shape g) (hfree : Free g idx) (handle : ℕ) :
    Shape (g.allocEntry idx handle) where
  range i hi := by
    rw [bitmap_allocEntry] at hi
    split at hi
    · rename_i heq
      rw [heq]
      exact hfree.2.1
    · exact h.range i hi
  free i hi := by
    rw [bitmap_allocEntry] at hi
    split at hi
    · cases hi
    · rename_i hne
      rw [allocEntry_of_ne hne]
      exact h.free i hi
  zero := by
    rw [allocEntry_of_ne (Nat.ne_of_lt hfree.1)]
    exact h.zero
  parent c q hc := by
    rw [h.isChild_allocEntry hfree] at hc
    rw [bitmap_allocEntry]
    split
    · rfl
    · exact h.parent c q hc
  started i hi hb := by
    rcases eq_or_ne i idx with rfl | hne
    · rw [allocEntry_self]
    · rw [bitmap_allocEntry, if_neg hne] at hb
      rw [allocEntry_of_ne hne]
      exact h.started i hi hb
  refs i hi hb := by
    rcases eq_or_ne i idx with rfl | hne
    · rw [allocEntry_self]
      rfl
    · rw [bitmap_allocEntry, if_neg hne] at hb
      rw [allocEntry_of_ne hne]
      exact h.refs i hi hb

theorem Shape.waiting_allocEntry (h : Shape g) (hfree : Free g idx) (handle q : ℕ) (hq : q ≠ 0) :
    (g.allocEntry idx handle).waiting q = g.waiting q := by
  apply waiting_congr
  intro i
  rcases eq_or_ne i idx with rfl | hne
  · have hnone : ∀ e : Coredata, e.parents = List.replicate maxParents 0 → e.links q = 0 := by
      intro e he
      rw [Coredata.links, he, count_eq_zero.mpr (fun hmem => hq (eq_of_mem_replicate hmem))]
      exact ite_self 0
    rw [allocEntry_self, h.free i hfree.2.2, hnone _ rfl, hnone _ rfl]
  · rw [allocEntry_of_ne hne]

theorem Shape.not_isChild_free (h : Shape g) (hfree : Free g idx) (c : ℕ) : ¬g.IsChild c idx := by
  intro hc
  have hbit := h.parent c idx hc
  rw [hfree.2.2] at hbit
  cases hbit

theorem Inv.createStep (h : Inv s) (hnone : s.pending = []) (hfree : Free s.g idx) (handle : ℕ) :
    Inv { s with g := s.g.allocEntry idx handle } := by
  have hchild := h.toShape.isChild_allocEntry hfree handle
  have hleaf : ∀ l, (s.g.allocEntry idx handle).Leaf l ↔ s.g.Leaf l := by
    intro l
    simp only [Leaf, hchild]
  have hne : ∀ c q, s.g.IsChild c q → q ≠ idx := by
    rintro c q hc rfl
    exact h.toShape.not_isChild_free hfree c hc
  have hnec : ∀ c q, s.g.IsChild c q → c ≠ idx := by
    rintro c q hc rfl
    have hbit := (h.toShape.child hc).2
    rw [hfree.2.2] at hbit
    cases hbit
  refine { toShape := h.toShape.allocEntry hfree handle, count := ?_, settled := ?_, fresh := ?_,
           failed := ?_, signal := ?_ }
  · intro q hq
    show ((s.g.allocEntry idx handle).table q).numChild =
      (s.g.allocEntry idx handle).waiting q + s.pending.count q
    rw [h.toShape.waiting_allocEntry hfree handle q hq]
    have hcount := h.count q hq
    rcases eq_or_ne q idx with rfl | hqi
    · rw [h.free q hfree.2.2] at hcount
      rw [allocEntry_self]
      exact hcount
    · rw [allocEntry_of_ne hqi]
      exact hcount
  · intro c q hc
    rw [hchild] at hc
    rw [allocEntry_of_ne (hne c q hc), allocEntry_of_ne (hnec c q hc)]
    exact h.settled c q hc
  · intro c q hc
    rw [hchild] at hc
    rw [allocEntry_of_ne (hne c q hc), allocEntry_of_ne (hnec c q hc)]
    exact h.fresh c q hc
  · intro c q hc hst hsucc
    rw [hchild] at hc
    rw [allocEntry_of_ne (hne c q hc)] at hst hsucc ⊢
    obtain ⟨l, hl, hbelow, heq⟩ := h.failed c q hc hst hsucc
    have hli : l ≠ idx := by
      rintro rfl
      obtain ⟨c, hc, -⟩ := Relation.TransGen.head'_iff.mp hbelow
      exact hnec l c hc rfl
    refine ⟨l, (hleaf l).mpr hl, Below.mono (fun c q hc => (hchild c q).mpr hc) hbelow, ?_⟩
    rw [allocEntry_of_ne hli]
    exact heq
  · intro q hq
    rw [hnone] at hq
    exact absurd hq not_mem_nil

theorem globalMerge_true {idxs : List ℕ} (hne : idxs ≠ []) (h : (g.globalMerge idxs p).2 = true) :
    ∃ g₁, Linked g g₁ idxs p ∧ (∀ i ∈ idxs, i < maxObjs) ∧
      (g.globalMerge idxs p).1 =
        g₁.mergePublish p (idxs.foldl (fun acc i => acc.add (g.table i)) ({} : MergeAcc)) := by
  rw [globalMerge, if_neg hne] at h ⊢
  split at h
  · rename_i g₁ acc hlinks
    obtain ⟨hlt, hlinked, rfl⟩ := mergeLinks_true hlinks
    exact ⟨g₁, hlinked, hlt, rfl⟩
  · cases h

/-- What a merge into a new object comes to. -/
structure Merged (g g' : Gmem) (idxs : List ℕ) (p : ℕ) : Prop where
  shape : Shape g'
  isChild : ∀ c q, g'.IsChild c q ↔ g.IsChild c q ∨ q = p ∧ c ∈ idxs
  status : ∀ i, i ≠ p → (g'.table i).status = (g.table i).status
  numChild : ∀ i, i ≠ p → (g'.table i).numChild = (g.table i).numChild
  parentStatus : (g'.table p).status =
    (idxs.foldl (fun acc i => acc.add (g.table i)) ({} : MergeAcc)).parentStatus
  waiting : ∀ q, q ≠ 0 → q ≠ p → g'.waiting q = g.waiting q
  parentWaiting : (g'.table p).numChild = g'.waiting p

/-- An object that was just created, with others that are merged into it. -/
structure New (g : Gmem) (p : ℕ) (idxs : List ℕ) : Prop where
  pos : 0 < p
  bitmap : g.bitmap p = true
  childless : ∀ c, ¬g.IsChild c p
  orphan : ∀ q, ¬g.IsChild p q
  numChild : (g.table p).numChild = 0
  waiting : g.waiting p = 0
  others : ∀ i ∈ idxs, 0 < i ∧ g.bitmap i = true ∧ i ≠ p

theorem Shape.linked (h : Shape g) {idxs : List ℕ} (hl : Linked g g' idxs p) (hnew : New g p idxs) :
    Shape g' where
  range i hi := by
    rw [hl.bitmap] at hi
    exact h.range i hi
  free i hi := by
    rw [hl.bitmap] at hi
    have hni : i ∉ idxs := by
      intro hmem
      rw [(hnew.others i hmem).2.1] at hi
      cases hi
    rw [hl.same i hni]
    exact h.free i hi
  zero := by
    rw [hl.same 0 fun hmem => absurd (hnew.others 0 hmem).1 (Nat.lt_irrefl 0)]
    exact h.zero
  parent c q hc := by
    rw [hl.bitmap]
    rcases (hl.isChild (Nat.ne_of_gt hnew.pos) c q).mp hc with hc | ⟨rfl, -⟩
    · exact h.parent c q hc
    · exact hnew.bitmap
  started i hi hb := by
    rw [hl.bitmap] at hb
    rw [hl.status]
    exact h.started i hi hb
  refs i hi hb := by
    rw [hl.bitmap] at hb
    have hr := h.refs i hi hb
    rw [hl.entry i]
    exact hr

theorem merged_of_linked {idxs : List ℕ} (h : Shape g) (hnew : New g p idxs) (hl : Linked g g' idxs p)
    (hlt : ∀ i ∈ idxs, i < maxObjs) :
    Merged g (g'.mergePublish p (idxs.foldl (fun acc i => acc.add (g.table i)) ({} : MergeAcc))) idxs p := by
  have hp0 : p ≠ 0 := Nat.ne_of_gt hnew.pos
  have hg'p : g'.table p = g.table p := hl.same p fun hmem => (hnew.others p hmem).2.2 rfl
  have hstatus : active ≤ (idxs.foldl (fun acc i => acc.add (g.table i)) ({} : MergeAcc)).parentStatus := by
    by_cases ht : (idxs.foldl (fun acc i => acc.add (g.table i)) ({} : MergeAcc)).parentStatus = active
    · exact Nat.le_of_eq ht.symm
    · obtain ⟨i, hi, hst⟩ := child_of_merge ht
      rw [← hst]
      exact h.started i (hnew.others i hi).1 (hnew.others i hi).2.1
  have hcount := foldl_numChild g idxs {}
  rw [show ({} : MergeAcc).numChild = 0 from rfl, Nat.zero_add] at hcount
  have href := h.refs p hnew.pos hnew.bitmap
  rw [if_pos hnew.numChild] at href
  generalize hacc : idxs.foldl (fun acc i => acc.add (g.table i)) ({} : MergeAcc) = acc at hcount hstatus ⊢
  obtain ⟨e, hnum, hst, hrefs, hparents, hs⟩ : ∃ e : Coredata, e.numChild = acc.numChild ∧
      e.status = acc.parentStatus ∧ e.refcount = (if acc.numChild = 0 then 1 else 2) ∧
      e.parents = (g.table p).parents ∧ Sets g' (g'.mergePublish p acc) p e := by
    refine ⟨_, ?_, ?_, ?_, ?_, rfl, rfl, rfl⟩
    · show (g'.table p).numChild + acc.numChild = acc.numChild
      rw [hg'p, hnew.numChild, Nat.zero_add]
    · rfl
    · show (if (g'.table p).numChild + acc.numChild ≠ 0 then incRef (g'.table p).refcount
        else (g'.table p).refcount) = _
      rw [hg'p, hnew.numChild, href, Nat.zero_add, ite_not]
      rfl
    · show (g'.table p).parents = (g.table p).parents
      rw [hg'p]
  have hnolinks : ∀ q, q ≠ 0 → ∀ e : Coredata, e.parents = (g.table p).parents → e.links q = 0 := by
    intro q hq e he
    rw [Coredata.links, he, count_eq_zero.mpr (fun hmem => hnew.orphan q ⟨hq, hmem⟩)]
    exact ite_self 0
  have hwaiting : ∀ q, q ≠ 0 → (g'.mergePublish p acc).waiting q = g'.waiting q := by
    intro q hq
    have hw := hs.waiting (h.range p hnew.bitmap) q
    rwa [hnolinks q hq _ (by rw [hg'p]), hnolinks q hq _ hparents, Nat.add_zero, Nat.add_zero] at hw
  refine ⟨?_, fun c q => ?_, fun i hi => ?_, fun i hi => ?_, ?_, fun q hq hqp => ?_, ?_⟩
  · refine (h.linked hl hnew).sets hs hnew.pos (by rw [hl.bitmap]; exact hnew.bitmap) ?_ ?_
    · rw [hst]
      exact hstatus
    · rw [hrefs, hnum]
  · rw [hs.isChild, hl.isChild hp0]
  · rw [hs.of_ne hi, hl.status]
  · rw [hs.of_ne hi, hl.numChild]
  · rw [hs.self, hst, hacc]
  · rw [hwaiting q hq, hl.waiting hlt hq, if_neg hqp, Nat.add_zero]
  · rw [hs.self, hwaiting p hp0, hl.waiting hlt hp0, if_pos rfl, hnew.waiting, Nat.zero_add, hnum, hcount]

/-- **Objects are merged** into one that is new: its status is that of the children that were signalled
before, and it waits for the others. -/
theorem Inv.merged (h : Inv s) (hnone : s.pending = []) {idxs : List ℕ} (hnew : New s.g p idxs)
    (hcond : (signaledStatuses s.g idxs).head? = some success →
      (∀ t ∈ signaledStatuses s.g idxs, t ≤ signaledMax) ∨ ∃ t ∈ signaledStatuses s.g idxs, IsError t)
    (hm : Merged s.g g' idxs p) : Inv { s with g := g' } := by
  have hmono : ∀ {l q}, s.g.Below l q → g'.Below l q := by
    intro l q hb
    exact Below.mono (fun c q hc => (hm.isChild c q).mpr (.inl hc)) hb
  have hne : ∀ c q, s.g.IsChild c q → q ≠ p ∧ c ≠ p := by
    intro c q hc
    refine ⟨?_, ?_⟩
    · rintro rfl
      exact hnew.childless c hc
    · rintro rfl
      exact hnew.orphan q hc
  have hcp : ∀ c ∈ idxs, c ≠ p := fun c hc => (hnew.others c hc).2.2
  have hpend : ∀ i, i ≠ p → ((g'.table i).Pending ↔ (s.g.table i).Pending) := by
    intro i hi
    rw [Coredata.Pending, Coredata.Pending, hm.status i hi, hm.numChild i hi]
  -- a leaf below an object is not the new one, and remains a leaf
  have hleaf : ∀ l q, s.g.Leaf l → s.g.Below l q → l ≠ p ∧ g'.Leaf l := by
    intro l q hl hbelow
    obtain ⟨c, hc, -⟩ := Relation.TransGen.head'_iff.mp hbelow
    have hlp := (hne l c hc).2
    refine ⟨hlp, fun c hc => ?_⟩
    rcases (hm.isChild c l).mp hc with hc | ⟨heq, -⟩
    · exact hl c hc
    · exact hlp heq
  refine { toShape := hm.shape, count := ?_, settled := ?_, fresh := ?_, failed := ?_, signal := ?_ }
  · intro q hq
    have hold := h.count q hq
    show (g'.table q).numChild = g'.waiting q + s.pending.count q
    rw [hnone, count_nil, Nat.add_zero] at hold ⊢
    rcases eq_or_ne q p with rfl | hqp
    · exact hm.parentWaiting
    · rw [hm.numChild q hqp, hm.waiting q hq hqp]
      exact hold
  · intro c q hc hdone hst
    left
    rcases (hm.isChild c q).mp hc with hc | ⟨rfl, hmem⟩
    · obtain ⟨hqp, hcp⟩ := hne c q hc
      rw [hm.status q hqp] at hst
      rw [hm.status c hcp]
      rcases h.settled c q hc (fun hp => hdone ((hpend c hcp).mpr hp)) hst with hok | ⟨hin, -⟩
      · exact hok
      · rw [hnone] at hin
        exact absurd hin not_mem_nil
    · rw [hpend c (hcp c hmem), Coredata.Pending, not_or] at hdone
      rw [hm.status c (hcp c hmem)]
      rw [hm.parentStatus] at hst
      rcases hst with hst | hst
      · exact absurd (active_of_merge hst hmem) hdone.1
      · have hstarted := h.started c (hnew.others c hmem).1 (hnew.others c hmem).2.1
        exact success_of_merge hst hcond hmem hstarted hdone.1
  · intro c q hc hdone hst
    rcases (hm.isChild c q).mp hc with hc | ⟨rfl, hmem⟩
    · obtain ⟨hqp, hcp⟩ := hne c q hc
      rw [hm.status q hqp] at hst
      exact h.fresh c q hc (fun hp => hdone ((hpend c hcp).mpr hp)) hst
    · rw [hpend c (hcp c hmem), Coredata.Pending, not_or] at hdone
      rw [hm.parentStatus] at hst
      exact absurd (active_of_merge hst hmem) hdone.1
  · intro c q hc hst hsucc
    rcases (hm.isChild c q).mp hc with hc | ⟨rfl, hmem⟩
    · obtain ⟨hqp, -⟩ := hne c q hc
      rw [hm.status q hqp] at hst hsucc ⊢
      obtain ⟨l, hl, hbelow, heq⟩ := h.failed c q hc hst hsucc
      obtain ⟨hlp, hl'⟩ := hleaf l q hl hbelow
      exact ⟨l, hl', hmono hbelow, by rw [hm.status l hlp]; exact heq⟩
    · rw [hm.parentStatus] at hst hsucc ⊢
      obtain ⟨i, hi, heq⟩ := child_of_merge hst
      have hiq : g'.IsChild i q := (hm.isChild i q).mpr (.inr ⟨rfl, hi⟩)
      by_cases hil : s.g.Leaf i
      · refine ⟨i, fun c hc => ?_, Below.of_child hiq, by rw [hm.status i (hcp i hi)]; exact heq⟩
        rcases (hm.isChild c i).mp hc with hc | ⟨hip, -⟩
        · exact hil c hc
        · exact hcp i hi hip
      · -- a child that is a composite object has its status from a leaf
        rw [Leaf, not_forall_not] at hil
        obtain ⟨c', hc'⟩ := hil
        rw [← heq] at hst hsucc
        obtain ⟨l, hl, hbelow, heql⟩ := h.failed c' i hc' hst hsucc
        obtain ⟨hlp, hl'⟩ := hleaf l i hl hbelow
        exact ⟨l, hl', (hmono hbelow).up hiq, by rw [hm.status l hlp]; exact heql.trans heq⟩
  · intro q hq
    rw [hnone] at hq
    exact absurd hq not_mem_nil

theorem inv_init : Inv { g := .init } := by
  have hnone : ∀ c q, ¬Gmem.init.IsChild c q := fun c q => not_isChild_of_empty rfl
  have hzero : ∀ i, 0 < i → Gmem.init.bitmap i = true → False := by
    intro i hi hb
    exact absurd (beq_iff_eq.mp hb) (Nat.ne_of_gt hi)
  refine
    { range := ?_, free := fun _ _ => rfl, zero := rfl, parent := fun c q hc => absurd hc (hnone c q)
      started := fun i hi hb => (hzero i hi hb).elim, refs := fun i hi hb => (hzero i hi hb).elim
      count := ?_, settled := fun c q hc => absurd hc (hnone c q)
      fresh := fun c q hc => absurd hc (hnone c q), failed := fun c q hc => absurd hc (hnone c q)
      signal := fun q hq => absurd hq not_mem_nil }
  · intro i hi
    rw [beq_iff_eq.mp hi]
    decide
  · intro q hq
    have hwaiting : Gmem.init.waiting q = 0 := by
      unfold waiting
      apply Finset.sum_eq_zero
      intro c _
      rw [Coredata.links]
      show (if _ then (List.replicate maxParents 0).count q else 0) = 0
      rw [count_eq_zero.mpr (fun hmem => hq (eq_of_mem_replicate hmem))]
      exact ite_self 0
    show 0 = Gmem.init.waiting q + ([] : List ℕ).count q
    rw [hwaiting, count_nil]

theorem new_of_free (h : Inv s) (hfree : Free s.g p) (handle : ℕ) {idxs : List ℕ}
    (hidxs : ∀ i ∈ idxs, 0 < i ∧ i < maxObjs ∧ s.g.bitmap i = true) :
    New (s.g.allocEntry p handle) p idxs where
  pos := hfree.1
  bitmap := by rw [bitmap_allocEntry, if_pos rfl]
  childless c hc := by
    rw [h.toShape.isChild_allocEntry hfree] at hc
    exact h.toShape.not_isChild_free hfree c hc
  orphan q := by
    rw [h.toShape.isChild_allocEntry hfree]
    exact not_isChild_of_empty (h.free p hfree.2.2)
  numChild := by rw [allocEntry_self]
  waiting := by
    have hp0 := Nat.ne_of_gt hfree.1
    have hcount := h.count p hp0
    rw [h.free p hfree.2.2] at hcount
    rw [h.toShape.waiting_allocEntry hfree handle p hp0]
    exact (Nat.add_eq_zero_iff.mp hcount.symm).1
  others i hi := by
    obtain ⟨hpos, -, hbit⟩ := hidxs i hi
    refine ⟨hpos, ?_, ?_⟩
    · rw [bitmap_allocEntry, hbit, ite_self]
    · rintro rfl
      rw [hfree.2.2] at hbit
      cases hbit

theorem Inv.step (h : Inv s) (op : Op) (hc : Calls s op) (hk : KeepsErrors s op) : Inv (s.next op) := by
  cases op with
  | create idx handle => exact h.createStep hc.1 hc.2 handle
  | merge parent handle idxs =>
    obtain ⟨hnone, hfree, hidxs, hok⟩ := hc
    have hcreate := h.createStep hnone hfree handle
    by_cases hne : idxs = []
    · show Inv { s with g := ((s.g.allocEntry parent handle).globalMerge idxs parent).1 }
      rw [globalMerge, if_pos hne]
      exact hcreate
    · obtain ⟨g₁, hl, hlt, heq⟩ := globalMerge_true hne hok
      show Inv { s with g := ((s.g.allocEntry parent handle).globalMerge idxs parent).1 }
      rw [heq]
      have hnew := new_of_free h hfree handle hidxs
      have hsame : signaledStatuses (s.g.allocEntry parent handle) idxs = signaledStatuses s.g idxs := by
        rw [signaledStatuses, signaledStatuses]
        refine congrArg _ (map_congr_left fun i hi => ?_)
        rw [allocEntry_of_ne (hnew.others i hi).2.2]
      have hm := merged_of_linked (hcreate.toShape) hnew hl hlt
      have hcond := hk
      rw [KeepsErrors, ← hsame] at hcond
      exact hcreate.merged hnone hnew hcond hm
  | signal idx status =>
    rw [State.next]
    split
    · rename_i hsig
      exact h.signalStep hc.1 hc.2.1 hc.2.2 hsig
    · exact h
  | tell =>
    rw [State.next]
    rcases hp : s.pending with _ | ⟨p, rest⟩
    · exact absurd hp hc
    · exact h.tellStep hp hk

theorem Inv.success_below (h : Inv s) {l : ℕ} (hl : s.g.Below l p) (hnum : (s.g.table p).numChild = 0)
    (hst : (s.g.table p).status = success) : (s.g.table l).status = success := by
  have hdone : ∀ {c q}, s.g.IsChild c q → (s.g.table q).numChild = 0 → (s.g.table q).status = success →
      (s.g.table c).numChild = 0 ∧ (s.g.table c).status = success := by
    intro c q hc hnum hst
    have hcount := h.count q hc.1
    rw [hnum] at hcount
    obtain ⟨hw, hp⟩ := Nat.add_eq_zero_iff.mp hcount.symm
    have hcp := not_pending_of_waiting hw (h.range c (h.toShape.child hc).2) hc
    refine ⟨?_, ?_⟩
    · by_contra hne
      exact hcp (.inr hne)
    · rcases h.settled c q hc hcp (.inr hst) with hok | ⟨hmem, -⟩
      · exact hok
      · exact absurd hmem (count_eq_zero.mp hp)
  induction hl with
  | single hc => exact (hdone hc hnum hst).2
  | tail _ hc ih =>
    obtain ⟨hn, hs⟩ := hdone hc hnum hst
    exact ih hn hs

theorem Inv.statusOk (h : Inv s) : StatusOk s := by
  have hactive : ∀ p, (∃ c, s.g.IsChild c p) → (s.g.table p).numChild = 0 →
      (s.g.table p).status ≠ active := by
    rintro p ⟨c, hc⟩ hnum hst
    have hcount := h.count p hc.1
    rw [hnum] at hcount
    obtain ⟨hw, hp⟩ := Nat.add_eq_zero_iff.mp hcount.symm
    have hcp := not_pending_of_waiting hw (h.range c (h.toShape.child hc).2) hc
    exact absurd (h.fresh c p hc hcp hst) (count_eq_zero.mp hp)
  have hfailed : ∀ p, (∃ c, s.g.IsChild c p) → (s.g.table p).numChild = 0 →
      (s.g.table p).status ≠ success → ∃ l, s.g.Leaf l ∧ s.g.Below l p ∧
        (s.g.table l).status = (s.g.table p).status ∧ (s.g.table l).status ≠ success := by
    rintro p ⟨c, hc⟩ hnum hne
    obtain ⟨l, hl, hbelow, heq⟩ := h.failed c p hc (hactive p ⟨c, hc⟩ hnum) hne
    exact ⟨l, hl, hbelow, heq, by rw [heq]; exact hne⟩
  refine ⟨fun p hc hnum => ⟨fun hst l _ hbelow => h.success_below hbelow hnum hst, fun hall => ?_⟩, hfailed⟩
  by_contra hne
  obtain ⟨l, hl, hbelow, -, hbad⟩ := hfailed p hc hnum hne
  exact hbad (hall l hl hbelow)

/-- **Errors reach all ancestors**: in every state of every run whose steps meet the condition, a composite
object that waits for no child has the status of its leaves. -/
theorem statusOk_of_reachable (h : (machine KeepsErrors).Reachable s) : StatusOk s := by
  refine Inv.statusOk (h.invariant (I := Inv) ?_ ?_)
  · rintro _ rfl
    exact inv_init
  · intro s op hs ⟨hc, hk⟩
    exact hs.step op hc hk

/-! ### A failure that is not passed on -/

/-- The objects that an operation changes. -/
def touched (s : State) : Op → List ℕ
  | .create idx _ => [idx]
  | .merge parent _ idxs => parent :: idxs
  | .signal idx _ => [idx]
  | .tell => s.pending.take 1

theorem updateStatusCore_of_ne {i status : ℕ} (h : i ≠ idx) :
    (g.updateStatusCore idx status).1.table i = g.table i := by
  simp only [updateStatusCore]
  split
  · split
    · rw [dropRef]
      split
      · exact setEntry_of_ne h
      · exact setEntry_of_ne h
    · exact setEntry_of_ne h
  · exact setEntry_of_ne h

theorem next_table {op : Op} (hc : Calls s op) {i : ℕ} (hi : i ∉ touched s op) :
    (s.next op).g.table i = s.g.table i := by
  cases op with
  | create idx handle => exact allocEntry_of_ne (fun heq => hi (mem_singleton.mpr heq)) handle
  | merge parent handle idxs =>
    rw [touched, mem_cons, not_or] at hi
    obtain ⟨hip, hidxs⟩ := hi
    show ((s.g.allocEntry parent handle).globalMerge idxs parent).1.table i = s.g.table i
    by_cases hne : idxs = []
    · rw [globalMerge, if_pos hne]
      exact allocEntry_of_ne hip handle
    · obtain ⟨g₁, hl, -, heq⟩ := globalMerge_true hne hc.2.2.2
      rw [heq, mergePublish, setEntry_of_ne hip, hl.same i hidxs, allocEntry_of_ne hip]
  | signal idx status =>
    rw [State.next]
    split
    · exact updateStatusCore_of_ne (fun heq => hi (mem_singleton.mpr heq))
    · rfl
  | tell =>
    rw [State.next]
    rw [touched] at hi
    rcases hp : s.pending with _ | ⟨p, rest⟩
    · rfl
    · rw [hp] at hi
      exact updateStatusCore_of_ne (fun heq => hi (mem_singleton.mpr heq))

/-- The objects that the operations of a list change. -/
def touchedBy : State → List Op → List ℕ
  | _, [] => []
  | s, op :: ops => touched s op ++ touchedBy (s.next op) ops

theorem exec_table {allowed : State → Op → Prop} {ops : List Op} (ha : (machine allowed).Allows s ops)
    {i : ℕ} (hi : i ∉ touchedBy s ops) : ((machine allowed).exec s ops).g.table i = s.g.table i := by
  induction ops generalizing s with
  | nil => rfl
  | cons op ops ih =>
    rw [touchedBy, mem_append, not_or] at hi
    obtain ⟨⟨hc, -⟩, hrest⟩ := ha
    have hnext := next_table hc hi.1
    exact (ih hrest hi.2).trans hnext

instance (s : State) (op : Op) : Decidable (Calls s op) := by
  cases op <;> dsimp only [Calls] <;> infer_instance

instance (s : State) (op : Op) : Decidable (KeepsErrors s op) := by
  cases op <;> dsimp only [KeepsErrors] <;> infer_instance

instance (allowed : State → Op → Prop) [∀ s op, Decidable (allowed s op)] (s : State) (op : Op) :
    Decidable ((machine allowed).guard s op) := inferInstanceAs (Decidable (Calls s op ∧ allowed s op))

theorem reachable_init (allowed : State → Op → Prop) : (machine allowed).Reachable { g := .init } :=
  .init rfl

def mergeTwice : List Op :=
  [.create 1 101, .create 2 102, .merge 3 103 [1, 2], .merge 4 104 [3]]

def cancelFirst : List Op := [.signal 1 4, .tell, .signal 2 success, .tell, .tell]

/-- **A failure can be lost**: the third object is cancelled with its first child, and tells the fourth one
of the success of its second. -/
theorem not_statusOk : ∃ s, (machine fun _ _ => True).Reachable s ∧ ¬StatusOk s := by
  have hallows : (machine fun _ _ => True).Allows { g := .init } (mergeTwice ++ cancelFirst) := by
    decide
  refine ⟨_, (reachable_init _).exec _ hallows, fun hok => ?_⟩
  have hchild : ((machine fun _ _ => True).exec { g := .init } (mergeTwice ++ cancelFirst)).g.IsChild 3 4 :=
    ⟨by decide, by decide⟩
  have hbelow : ((machine fun _ _ => True).exec { g := .init } (mergeTwice ++ cancelFirst)).g.Below 1 4 :=
    Below.up (Below.of_child ⟨by decide, by decide⟩) hchild
  have hleaf : ((machine fun _ _ => True).exec { g := .init } (mergeTwice ++ cancelFirst)).g.Leaf 1 := by
    intro c hc
    by_cases hmem : c ∈ touchedBy { g := .init } (mergeTwice ++ cancelFirst)
    · have hnone : ∀ c ∈ touchedBy { g := .init } (mergeTwice ++ cancelFirst), 1 ∉
          (((machine fun _ _ => True).exec { g := .init } (mergeTwice ++ cancelFirst)).g.table
            c).parents := by
        decide
      exact hnone c hmem hc.2
    · exact not_isChild_of_empty (exec_table hallows hmem) hc
  have hst := ((hok.agrees 4 ⟨3, hchild⟩ (by decide)).mp (by decide)) 1 hleaf hbelow
  revert hst
  decide

def cancelLast : List Op := [.signal 1 success, .tell, .signal 2 4, .tell, .tell]

theorem statusOk_of_reachable_cancelLast :
    ∃ s, (machine KeepsErrors).Reachable s ∧ (s.g.table 4).status = 4 ∧ StatusOk s :=
  ⟨_, (reachable_init _).exec (mergeTwice ++ cancelLast) (by decide), by decide,
    statusOk_of_reachable ((reachable_init _).exec (mergeTwice ++ cancelLast) (by decide))⟩

end Sm8750Modules.SynxGlobal
