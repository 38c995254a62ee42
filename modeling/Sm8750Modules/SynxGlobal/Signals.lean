import Sm8750Modules.SynxGlobal.Links
import Sm8750Modules.Lib.Runs

/-!
# Synx global memory — signals

A composite object takes the status of the first of its children, and later only errors. What a child
passes on to its parent is the status that was signalled last, which is not always its own.
-/

namespace Sm8750Modules.SynxGlobal

open Gmem List

/-- The table, the status that was signalled last, and the objects that are told of it next. -/
structure State where
  g : Gmem
  status : ℕ := active
  pending : List ℕ := []

/-- A leaf or a composite object is created, an object is signalled, or the next parent is told. -/
inductive Op where
  | create (idx handle : ℕ)
  | merge (parent handle : ℕ) (idxs : List ℕ)
  | signal (idx status : ℕ)
  | tell

def State.next (s : State) : Op → State
  | .create idx handle => { s with g := s.g.allocEntry idx handle }
  | .merge parent handle idxs =>
    { s with g := ((s.g.allocEntry parent handle).globalMerge idxs parent).1 }
  | .signal idx status =>
    if s.g.CanSignal idx status then
      { g := (s.g.updateStatusCore idx status).1
        status := status
        pending := (s.g.updateStatusCore idx status).2 }
    else s
  | .tell =>
    match s.pending with
    | [] => s
    | p :: rest =>
      { s with
        g := (s.g.updateStatusCore p s.status).1
        pending := (s.g.updateStatusCore p s.status).2 ++ rest }

def Free (g : Gmem) (idx : ℕ) : Prop := 0 < idx ∧ idx < maxObjs ∧ g.bitmap idx = false
deriving Decidable

/-- The calls: one after the other, a merge is of objects that exist, and succeeds. -/
def Calls (s : State) : Op → Prop
  | .create idx _ => s.pending = [] ∧ Free s.g idx
  | .merge parent handle idxs => s.pending = [] ∧ Free s.g parent ∧
      (∀ i ∈ idxs, 0 < i ∧ i < maxObjs ∧ s.g.bitmap i = true) ∧
      ((s.g.allocEntry parent handle).globalMerge idxs parent).2 = true
  | .signal idx _ => s.pending = [] ∧ 0 < idx ∧ s.g.bitmap idx = true
  | .tell => s.pending ≠ []

/-- The operations in any order, as far as they are allowed. -/
def machine (allowed : State → Op → Prop) : Runs.Machine State Op where
  init s := s = { g := .init }
  guard s op := Calls s op ∧ allowed s op
  next := State.next

/-- The status of a composite object that waits for no child is that of its leaves: it is success exactly if
all of them were signalled with success, and otherwise the status of one that was not. -/
structure StatusOk (s : State) : Prop where
  agrees : ∀ p, (∃ c, s.g.IsChild c p) → (s.g.table p).numChild = 0 →
    ((s.g.table p).status = success ↔ ∀ l, s.g.Leaf l → s.g.Below l p → (s.g.table l).status = success)
  failed : ∀ p, (∃ c, s.g.IsChild c p) → (s.g.table p).numChild = 0 → (s.g.table p).status ≠ success →
    ∃ l, s.g.Leaf l ∧ s.g.Below l p ∧ (s.g.table l).status = (s.g.table p).status ∧
      (s.g.table l).status ≠ success

def signaledStatuses (g : Gmem) (idxs : List ℕ) : List ℕ :=
  (idxs.map fun i => (g.table i).status).filter (· ≠ active)

/-- A notification of a client is not taken for success: the parent is not told of one after a success, and
in a merge none comes after a success without an error. And a child that is a composite object itself does
not pass a success on after one of its own children failed. -/
def KeepsErrors (s : State) : Op → Prop
  | .tell => ∀ p ∈ s.pending.head?,
      ((s.g.table p).status = success → s.status ≤ signaledMax) ∧
        ((s.g.table p).numChild = 1 → (∃ q ∈ (s.g.table p).parents, q ≠ 0) → s.status = success →
          (s.g.table p).status = active ∨ (s.g.table p).status = success)
  | .merge _ _ idxs => (signaledStatuses s.g idxs).head? = some success →
      (∀ t ∈ signaledStatuses s.g idxs, t ≤ signaledMax) ∨ ∃ t ∈ signaledStatuses s.g idxs, IsError t
  | _ => True

/-! ### The fold of a merge -/

variable {acc : MergeAcc} {e : Coredata}

theorem MergeAcc.parentStatus_add_active (h : e.status = active) :
    (acc.add e).parentStatus = acc.parentStatus := if_pos h

theorem MergeAcc.parentStatus_add_error (h : e.status ≠ active)
    (he : IsError e.status) : (acc.add e).parentStatus = e.status := by
  show (if e.status = active then _ else if IsError e.status then _ else _) = _
  rw [if_neg h, if_pos he]

theorem MergeAcc.parentStatus_add (h : e.status ≠ active)
    (he : ¬IsError e.status) :
    (acc.add e).parentStatus = if acc.parentStatus = active then e.status else acc.parentStatus := by
  show (if e.status = active then _ else if IsError e.status then _ else _) = _
  rw [if_neg h, if_neg he]

theorem foldl_parentStatus (g : Gmem) (idxs : List ℕ) (acc : MergeAcc) :
    let t := (idxs.foldl (fun acc i => acc.add (g.table i)) acc).parentStatus
    (t = acc.parentStatus ∨ ∃ i ∈ idxs, (g.table i).status = t ∧ t ≠ active) ∧
      ((∃ u ∈ signaledStatuses g idxs, IsError u) → IsError t) ∧
      ((∀ u ∈ signaledStatuses g idxs, ¬IsError u) →
        t = if acc.parentStatus = active then (signaledStatuses g idxs).head?.getD active
          else acc.parentStatus) := by
  induction idxs generalizing acc with
  | nil =>
    refine ⟨.inl rfl, fun ⟨u, hu, _⟩ => absurd hu not_mem_nil, fun _ => ?_⟩
    show acc.parentStatus = if acc.parentStatus = active then active else acc.parentStatus
    split
    · assumption
    · rfl
  | cons i idxs ih =>
    simp only [foldl_cons]
    obtain ⟨hfrom, herr, hnone⟩ := ih (acc.add (g.table i))
    by_cases hactive : (g.table i).status = active
    · have hsame : signaledStatuses g (i :: idxs) = signaledStatuses g idxs := by
        rw [signaledStatuses, map_cons, filter_cons_of_neg (by simp [hactive])]
        rfl
      rw [hsame]
      rw [MergeAcc.parentStatus_add_active hactive] at hfrom hnone
      refine ⟨?_, herr, hnone⟩
      rcases hfrom with hfrom | ⟨j, hj, hst⟩
      · exact .inl hfrom
      · exact .inr ⟨j, mem_cons_of_mem i hj, hst⟩
    · have hcons : signaledStatuses g (i :: idxs) =
          (g.table i).status :: signaledStatuses g idxs := by
        rw [signaledStatuses, map_cons, filter_cons_of_pos (by simpa using hactive)]
        rfl
      rw [hcons]
      by_cases hierr : IsError (g.table i).status
      · rw [MergeAcc.parentStatus_add_error hactive hierr] at hfrom hnone
        have hown : ∃ j ∈ i :: idxs, (g.table j).status =
            (idxs.foldl (fun acc i => acc.add (g.table i)) (acc.add (g.table i))).parentStatus ∧
            (idxs.foldl (fun acc i => acc.add (g.table i)) (acc.add (g.table i))).parentStatus ≠
              active := by
          rcases hfrom with hfrom | ⟨j, hj, hst⟩
          · exact ⟨i, mem_cons_self, hfrom.symm, hfrom ▸ hactive⟩
          · exact ⟨j, mem_cons_of_mem i hj, hst⟩
        refine ⟨.inr hown, fun _ => ?_, fun hno => absurd hierr (hno _ mem_cons_self)⟩
        by_cases hrest : ∃ u ∈ signaledStatuses g idxs, IsError u
        · exact herr hrest
        · have hlast := hnone fun u hu he => hrest ⟨u, hu, he⟩
          rw [if_neg hactive] at hlast
          rw [hlast]
          exact hierr
      · rw [MergeAcc.parentStatus_add hactive hierr] at hfrom hnone
        refine ⟨?_, ?_, ?_⟩
        · rcases hfrom with hfrom | ⟨j, hj, hst⟩
          · split at hfrom
            · exact .inr ⟨i, mem_cons_self, hfrom.symm, hfrom ▸ hactive⟩
            · exact .inl hfrom
          · exact .inr ⟨j, mem_cons_of_mem i hj, hst⟩
        · rintro ⟨u, hu, he⟩
          rcases mem_cons.mp hu with rfl | hu
          · exact absurd he hierr
          · exact herr ⟨u, hu, he⟩
        · intro hno
          have hlast := hnone fun u hu => hno u (mem_cons_of_mem _ hu)
          rw [hlast]
          by_cases hacc : acc.parentStatus = active
          · rw [if_pos hacc, if_neg hactive, if_pos hacc]
            rfl
          · rw [if_neg hacc, if_neg hacc, if_neg hacc]

variable {idxs : List ℕ} {g : Gmem}

theorem mem_signaledStatuses {t : ℕ} :
    t ∈ signaledStatuses g idxs ↔ (∃ i ∈ idxs, (g.table i).status = t) ∧ t ≠ active := by
  rw [signaledStatuses, mem_filter, mem_map, decide_eq_true_eq]

theorem active_of_merge
    (h : (idxs.foldl (fun acc i => acc.add (g.table i)) ({} : MergeAcc)).parentStatus = active) {i : ℕ}
    (hi : i ∈ idxs) : (g.table i).status = active := by
  obtain ⟨-, herr, hnone⟩ := foldl_parentStatus g idxs {}
  by_contra hne
  have hmem : (g.table i).status ∈ signaledStatuses g idxs :=
    mem_signaledStatuses.mpr ⟨⟨i, hi, rfl⟩, hne⟩
  by_cases hex : ∃ u ∈ signaledStatuses g idxs, IsError u
  · have hlt := (herr hex).1
    rw [h] at hlt
    exact absurd hlt (by decide)
  · have hfirst := hnone fun u hu he => hex ⟨u, hu, he⟩
    rw [h, if_pos rfl] at hfirst
    rcases hl : signaledStatuses g idxs with _ | ⟨u, rest⟩
    · rw [hl] at hmem
      exact absurd hmem not_mem_nil
    · rw [hl] at hfirst
      have hu : u ∈ signaledStatuses g idxs := by
        rw [hl]
        exact mem_cons_self
      exact (mem_signaledStatuses.mp hu).2 hfirst.symm

theorem success_of_merge
    (h : (idxs.foldl (fun acc i => acc.add (g.table i)) ({} : MergeAcc)).parentStatus = success)
    (hcond : (signaledStatuses g idxs).head? = some success →
      (∀ t ∈ signaledStatuses g idxs, t ≤ signaledMax) ∨ ∃ t ∈ signaledStatuses g idxs, IsError t)
    {i : ℕ} (hi : i ∈ idxs) (hstarted : active ≤ (g.table i).status)
    (hne : (g.table i).status ≠ active) : (g.table i).status = success := by
  obtain ⟨-, herr, hnone⟩ := foldl_parentStatus g idxs {}
  have hmem : (g.table i).status ∈ signaledStatuses g idxs :=
    mem_signaledStatuses.mpr ⟨⟨i, hi, rfl⟩, hne⟩
  have hex : ¬∃ u ∈ signaledStatuses g idxs, IsError u := by
    intro hex
    have hlt := (herr hex).1
    rw [h] at hlt
    exact absurd hlt (Nat.lt_irrefl _)
  have hfirst := hnone fun u hu he => hex ⟨u, hu, he⟩
  rw [h, if_pos rfl] at hfirst
  have hhead : (signaledStatuses g idxs).head? = some success := by
    rcases hl : (signaledStatuses g idxs).head? with _ | u
    · rw [hl] at hfirst
      exact absurd hfirst (by decide)
    · rw [hl] at hfirst
      exact congrArg some hfirst.symm
  have hle := (hcond hhead).resolve_right hex _ hmem
  by_contra hns
  refine hex ⟨_, hmem, ?_, hle⟩
  have hlt : success ≤ (g.table i).status := Nat.lt_of_le_of_ne hstarted (Ne.symm hne)
  exact Nat.lt_of_le_of_ne hlt (Ne.symm hns)

theorem child_of_merge
    (h : (idxs.foldl (fun acc i => acc.add (g.table i)) ({} : MergeAcc)).parentStatus ≠ active) :
    ∃ i ∈ idxs, (g.table i).status =
      (idxs.foldl (fun acc i => acc.add (g.table i)) ({} : MergeAcc)).parentStatus := by
  obtain ⟨hfrom, -, -⟩ := foldl_parentStatus g idxs {}
  rcases hfrom with heq | ⟨i, hi, heq, -⟩
  · exact absurd heq h
  · exact ⟨i, hi, heq⟩

/-- Which entries of the table are in use, and the references on them. -/
structure Shape (g : Gmem) : Prop where
  range : ∀ i, g.bitmap i = true → i < maxObjs
  free : ∀ i, g.bitmap i = false → g.table i = {}
  zero : g.table 0 = {}
  parent : ∀ c p, g.IsChild c p → g.bitmap p = true
  started : ∀ i, 0 < i → g.bitmap i = true → active ≤ (g.table i).status
  refs : ∀ i, 0 < i → g.bitmap i = true →
    (g.table i).refcount = if (g.table i).numChild = 0 then 1 else 2

/-- A composite object waits for its pending children, and for those whose signal it is not told of yet.
Until it is, its status may be behind that of its other children. -/
structure Inv (s : State) : Prop extends Shape s.g where
  count : ∀ p, p ≠ 0 → (s.g.table p).numChild = s.g.waiting p + s.pending.count p
  settled : ∀ c p, s.g.IsChild c p → ¬(s.g.table c).Pending →
    (s.g.table p).status = active ∨ (s.g.table p).status = success →
    (s.g.table c).status = success ∨ p ∈ s.pending ∧ s.status ≠ success
  fresh : ∀ c p, s.g.IsChild c p → ¬(s.g.table c).Pending → (s.g.table p).status = active →
    p ∈ s.pending
  failed : ∀ c p, s.g.IsChild c p → (s.g.table p).status ≠ active → (s.g.table p).status ≠ success →
    ∃ l, s.g.Leaf l ∧ s.g.Below l p ∧ (s.g.table l).status = (s.g.table p).status
  signal : ∀ p ∈ s.pending, active < s.status ∧
    ∃ l, s.g.Leaf l ∧ s.g.Below l p ∧ (s.g.table l).status = s.status

variable {s : State} {g g' : Gmem} {idx p : ℕ} {e : Coredata}

theorem Shape.child (h : Shape g) {c : ℕ} (hc : g.IsChild c p) : 0 < c ∧ g.bitmap c = true := by
  constructor
  · apply Nat.pos_of_ne_zero
    rintro rfl
    exact not_isChild_of_empty h.zero hc
  · by_contra hfree
    exact not_isChild_of_empty (h.free c (by simpa using hfree)) hc

theorem Shape.sets (h : Shape g) (hs : Sets g g' idx e) (hpos : 0 < idx) (hbit : g.bitmap idx = true)
    (hstatus : active ≤ e.status) (href : e.refcount = if e.numChild = 0 then 1 else 2) : Shape g' where
  range i hi := h.range i (by rwa [hs.bitmap] at hi)
  free i hi := by
    rw [hs.bitmap] at hi
    have hne : i ≠ idx := by
      rintro rfl
      rw [hbit] at hi
      cases hi
    rw [hs.of_ne hne]
    exact h.free i hi
  zero := by
    rw [hs.of_ne (Nat.ne_of_lt hpos)]
    exact h.zero
  parent c q hc := by
    rw [hs.bitmap]
    exact h.parent c q ((hs.isChild c q).mp hc)
  started i hi hb := by
    rw [hs.bitmap] at hb
    rcases eq_or_ne i idx with rfl | hne
    · rw [hs.self]
      exact hstatus
    · rw [hs.of_ne hne]
      exact h.started i hi hb
  refs i hi hb := by
    rw [hs.bitmap] at hb
    rcases eq_or_ne i idx with rfl | hne
    · rw [hs.self]
      exact href
    · rw [hs.of_ne hne]
      exact h.refs i hi hb

variable {status : ℕ}

theorem Inv.signalStep (h : Inv s) (hnone : s.pending = []) (hpos : 0 < idx)
    (hbit : s.g.bitmap idx = true) (hsig : s.g.CanSignal idx status) :
    Inv { g := (s.g.updateStatusCore idx status).1, status := status,
          pending := (s.g.updateStatusCore idx status).2 } := by
  obtain ⟨hlt, hstatus, hnum, hactive⟩ := hsig
  obtain ⟨hs, hps⟩ := updateStatusCore_leaf status hnum
  rw [hps]
  have hpending : (s.g.table idx).Pending := .inl hactive
  have hdone : ¬({ s.g.table idx with status := status, waiters := ∅ } : Coredata).Pending := by
    rintro (hst | hn)
    · exact absurd hst (Nat.ne_of_gt hstatus)
    · exact hn hnum
  have hleaf : s.g.Leaf idx := by
    intro c hc
    have hcount := h.count idx (Nat.ne_of_gt hpos)
    rw [hnum] at hcount
    have hcp := not_pending_of_waiting (by omega) (h.range c (h.child hc).2) hc
    have hmem := h.fresh c idx hc hcp hactive
    rw [hnone] at hmem
    exact absurd hmem not_mem_nil
  have hmem : ∀ q, q ∈ (s.g.table idx).parents.filter (· ≠ 0) ↔ s.g.IsChild idx q := by
    intro q
    rw [mem_filter, decide_eq_true_eq]
    exact and_comm
  have hshape : Shape (s.g.updateStatusCore idx status).1 :=
    h.toShape.sets hs hpos hbit (Nat.le_of_lt hstatus) (h.refs idx hpos hbit)
  refine { toShape := hshape, count := ?_, settled := ?_, fresh := ?_, failed := ?_, signal := ?_ }
  · intro q hq
    have hcount := h.count q hq
    have hw := hs.waiting hlt q
    rw [hnone, count_nil] at hcount
    rw [links_of_pending hpending, links_of_not_pending hdone] at hw
    rw [count_filter_parents _ hq]
    show ((s.g.updateStatusCore idx status).1.table q).numChild =
      (s.g.updateStatusCore idx status).1.waiting q + _
    rcases eq_or_ne q idx with rfl | hne
    · rw [hs.self]
      show (s.g.table q).numChild = _
      omega
    · rw [hs.of_ne hne]
      omega
  · intro c q hc hcp hst
    rw [hs.isChild] at hc
    have hq : q ≠ idx := fun heq => hleaf c (heq ▸ hc)
    rw [hs.of_ne hq] at hst
    rcases eq_or_ne c idx with rfl | hne
    · rw [hs.self]
      by_cases hsucc : status = success
      · exact .inl hsucc
      · exact .inr ⟨(hmem q).mpr hc, hsucc⟩
    · rw [hs.of_ne hne] at hcp ⊢
      rcases h.settled c q hc hcp hst with hok | ⟨hin, -⟩
      · exact .inl hok
      · rw [hnone] at hin
        exact absurd hin not_mem_nil
  · intro c q hc hcp hst
    rw [hs.isChild] at hc
    have hq : q ≠ idx := fun heq => hleaf c (heq ▸ hc)
    rw [hs.of_ne hq] at hst
    rcases eq_or_ne c idx with rfl | hne
    · exact (hmem q).mpr hc
    · rw [hs.of_ne hne] at hcp
      have hin := h.fresh c q hc hcp hst
      rw [hnone] at hin
      exact absurd hin not_mem_nil
  · intro c q hc hst hne
    rw [hs.isChild] at hc
    have hq : q ≠ idx := fun heq => hleaf c (heq ▸ hc)
    rw [hs.of_ne hq] at hst hne ⊢
    obtain ⟨l, hl, hbelow, heq⟩ := h.failed c q hc hst hne
    have hli : l ≠ idx := by
      rintro rfl
      exact hst (heq.symm.trans hactive)
    exact ⟨l, (hs.leaf l).mpr hl, hs.below hbelow, by rw [hs.of_ne hli]; exact heq⟩
  · intro q hq
    refine ⟨hstatus, idx, (hs.leaf idx).mpr hleaf, hs.below (Below.of_child ((hmem q).mp hq)), ?_⟩
    rw [hs.self]

theorem childSignaled_status_ne_active (h : active < status) (e : Coredata) :
    (childSignaled e status).status ≠ active := by
  show (if e.status = active ∨ IsError status then status else e.status) ≠ active
  split
  · exact Nat.ne_of_gt h
  · rename_i hno
    exact fun heq => hno (.inl heq)

theorem childSignaled_status_success (h : active < status)
    (hmax : e.status = success → status ≤ signaledMax)
    (hs : (childSignaled e status).status = success) :
    status = success ∧ (e.status = active ∨ e.status = success) := by
  change (if e.status = active ∨ IsError status then status else e.status) = success at hs
  split at hs
  · rename_i hor
    refine ⟨hs, .inl (hor.resolve_right fun he => ?_)⟩
    rw [hs] at he
    exact absurd he.1 (Nat.lt_irrefl _)
  · rename_i hno
    rw [not_or] at hno
    have hle := hmax hs
    refine ⟨?_, .inr hs⟩
    by_contra hne
    refine hno.2 ⟨?_, hle⟩
    have hlt : success ≤ status := h
    exact Nat.lt_of_le_of_ne hlt (Ne.symm hne)

theorem childSignaled_status_cases (e : Coredata) (status : ℕ) :
    (childSignaled e status).status = status ∨
      e.status ≠ active ∧ (childSignaled e status).status = e.status := by
  show (if e.status = active ∨ IsError status then status else e.status) = status ∨
    e.status ≠ active ∧ (if e.status = active ∨ IsError status then status else e.status) = e.status
  split
  · exact .inl rfl
  · rename_i hno
    exact .inr ⟨fun heq => hno (.inl heq), rfl⟩

theorem Shape.below (h : Shape g) {l : ℕ} (hl : g.Below l p) :
    0 < p ∧ g.bitmap p = true ∧ ¬g.Leaf p := by
  obtain ⟨c, -, hc⟩ := Relation.TransGen.tail'_iff.mp hl
  exact ⟨Nat.pos_of_ne_zero hc.1, h.parent c p hc, fun hleaf => hleaf c hc⟩

theorem Inv.told (h : Inv s) {rest ps : List ℕ} (hp : s.pending = p :: rest)
    (hmax : (s.g.table p).status = success → s.status ≤ signaledMax)
    (hlast : (s.g.table p).numChild = 1 → (∃ q ∈ (s.g.table p).parents, q ≠ 0) → s.status = success →
      (s.g.table p).status = active ∨ (s.g.table p).status = success)
    (hs : Sets s.g g' p e) (hstatus : e.status = (childSignaled (s.g.table p) s.status).status)
    (hnum : e.numChild + 1 = (s.g.table p).numChild) (href : e.refcount = if e.numChild = 0 then 1 else 2)
    (hmore : e.numChild ≠ 0 → ps = [])
    (hdone : e.numChild = 0 → ps = (s.g.table p).parents.filter (· ≠ 0)) :
    Inv { s with g := g', pending := ps ++ rest } := by
  have hmemp : p ∈ s.pending := by
    rw [hp]
    exact mem_cons_self
  obtain ⟨hst, l₀, hleaf₀, hbelow₀, hl₀⟩ := h.signal p hmemp
  obtain ⟨hpos, hbit, hnotleaf⟩ := h.toShape.below hbelow₀
  have hactive : e.status ≠ active := by
    rw [hstatus]
    exact childSignaled_status_ne_active hst _
  have hpending : (s.g.table p).Pending := .inr (by omega)
  have hep : e.Pending ↔ e.numChild ≠ 0 := by
    rw [Coredata.Pending, or_iff_right hactive]
  have hmem : ∀ q, q ∈ (s.g.table p).parents.filter (· ≠ 0) ↔ s.g.IsChild p q := by
    intro q
    rw [mem_filter, decide_eq_true_eq]
    exact and_comm
  have hkeep : ∀ q, q ≠ p → q ∈ s.pending → q ∈ ps ++ rest := by
    intro q hne hq
    rw [hp] at hq
    exact mem_append_right ps ((mem_cons.mp hq).resolve_left hne)
  have hleaf : ∀ l, s.g.Leaf l → l ≠ p := by
    rintro l hl rfl
    exact hnotleaf hl
  refine
    { toShape := h.toShape.sets hs hpos hbit ?_ href
      count := ?_, settled := ?_, fresh := ?_, failed := ?_, signal := ?_ }
  · rw [hstatus]
    rcases childSignaled_status_cases (s.g.table p) s.status with heq | ⟨-, heq⟩
    · rw [heq]
      exact Nat.le_of_lt hst
    · rw [heq]
      exact h.started p hpos hbit
  · intro q hq
    have hcount := h.count q hq
    have hw := hs.waiting (h.range p hbit) q
    rw [links_of_pending hpending] at hw
    have htotal : g'.waiting q + ps.count q = s.g.waiting q := by
      by_cases hz : e.numChild = 0
      · rw [links_of_not_pending (fun he => hep.mp he hz), Nat.add_zero] at hw
        rw [hdone hz, count_filter_parents _ hq, hw]
      · rw [links_of_pending (hep.mpr hz), hs.parents] at hw
        rw [hmore hz, count_nil, Nat.add_zero]
        exact Nat.add_right_cancel hw
    show (g'.table q).numChild = g'.waiting q + (ps ++ rest).count q
    rw [count_append, ← Nat.add_assoc, htotal]
    rw [hp] at hcount
    rcases eq_or_ne q p with rfl | hne
    · rw [count_cons_self] at hcount
      rw [hs.self]
      omega
    · rw [count_cons_of_ne hne.symm] at hcount
      rw [hs.of_ne hne]
      omega
  · intro c q hc hcp hstq
    rw [hs.isChild] at hc
    rcases eq_or_ne q p with rfl | hq
    · -- the object that was told: all of its children that are done have succeeded
      rw [hs.self] at hstq
      have hsucc := hstq.resolve_left hactive
      rw [hstatus] at hsucc
      obtain ⟨hss, hbefore⟩ := childSignaled_status_success hst hmax hsucc
      left
      rcases eq_or_ne c q with rfl | hne
      · rw [hs.self, hstatus]
        exact hsucc
      · rw [hs.of_ne hne] at hcp ⊢
        rcases h.settled c q hc hcp hbefore with hok | ⟨-, hbad⟩
        · exact hok
        · exact absurd hss hbad
    · rw [hs.of_ne hq] at hstq
      rcases eq_or_ne c p with rfl | hne
      · -- the object that was told is done, and tells its parents
        rw [hs.self] at hcp ⊢
        have hz : e.numChild = 0 := by
          by_contra hz
          exact hcp (hep.mpr hz)
        by_cases hss : s.status = success
        · left
          have hbefore := hlast (by omega) ⟨q, hc.2, hc.1⟩ hss
          rw [hstatus]
          rcases childSignaled_status_cases (s.g.table c) s.status with heq | ⟨hne, heq⟩
          · exact heq.trans hss
          · exact heq.trans (hbefore.resolve_left hne)
        · right
          refine ⟨?_, hss⟩
          show q ∈ ps ++ rest
          rw [hdone hz]
          exact mem_append_left rest ((hmem q).mpr hc)
      · rw [hs.of_ne hne] at hcp ⊢
        rcases h.settled c q hc hcp hstq with hok | ⟨hin, hbad⟩
        · exact .inl hok
        · exact .inr ⟨hkeep q hq hin, hbad⟩
  · intro c q hc hcp hstq
    rw [hs.isChild] at hc
    rcases eq_or_ne q p with rfl | hq
    · rw [hs.self] at hstq
      exact absurd hstq hactive
    · rw [hs.of_ne hq] at hstq
      rcases eq_or_ne c p with rfl | hne
      · rw [hs.self] at hcp
        have hz : e.numChild = 0 := by
          by_contra hz
          exact hcp (hep.mpr hz)
        show q ∈ ps ++ rest
        rw [hdone hz]
        exact mem_append_left rest ((hmem q).mpr hc)
      · rw [hs.of_ne hne] at hcp
        exact hkeep q hq (h.fresh c q hc hcp hstq)
  · intro c q hc hne hsucc
    rw [hs.isChild] at hc
    have hfrom : ∃ l, s.g.Leaf l ∧ s.g.Below l q ∧ (s.g.table l).status = (g'.table q).status := by
      rcases eq_or_ne q p with rfl | hq
      · rw [hs.self] at hne hsucc ⊢
        rcases childSignaled_status_cases (s.g.table q) s.status with heq | ⟨hact, heq⟩
        · exact ⟨l₀, hleaf₀, hbelow₀, by rw [hstatus, heq, hl₀]⟩
        · rw [hstatus, heq] at hsucc ⊢
          exact h.failed c q hc hact hsucc
      · rw [hs.of_ne hq] at hne hsucc ⊢
        exact h.failed c q hc hne hsucc
    obtain ⟨l, hl, hbelow, heq⟩ := hfrom
    exact ⟨l, (hs.leaf l).mpr hl, hs.below hbelow, by rw [hs.of_ne (hleaf l hl)]; exact heq⟩
  · intro q hq
    refine ⟨hst, ?_⟩
    have hfrom : ∃ l, s.g.Leaf l ∧ s.g.Below l q ∧ (s.g.table l).status = s.status := by
      rcases mem_append.mp hq with hin | hin
      · have hz : e.numChild = 0 := by
          by_contra hz
          rw [hmore hz] at hin
          exact absurd hin not_mem_nil
        rw [hdone hz, hmem] at hin
        exact ⟨l₀, hleaf₀, hbelow₀.up hin, hl₀⟩
      · obtain ⟨-, hl⟩ := h.signal q (by rw [hp]; exact mem_cons_of_mem p hin)
        exact hl
    obtain ⟨l, hl, hbelow, heq⟩ := hfrom
    exact ⟨l, (hs.leaf l).mpr hl, hs.below hbelow, by rw [hs.of_ne (hleaf l hl)]; exact heq⟩

theorem Inv.tellStep (h : Inv s) {rest : List ℕ} (hp : s.pending = p :: rest) (hk : KeepsErrors s .tell) :
    Inv { s with
          g := (s.g.updateStatusCore p s.status).1
          pending := (s.g.updateStatusCore p s.status).2 ++ rest } := by
  have hhead : p ∈ s.pending.head? := by
    rw [hp]
    rfl
  obtain ⟨hmax, hlast⟩ := hk p hhead
  have hmemp : p ∈ s.pending := by
    rw [hp]
    exact mem_cons_self
  obtain ⟨-, l, -, hbelow, -⟩ := h.signal p hmemp
  obtain ⟨hpos, hbit, -⟩ := h.toShape.below hbelow
  have hcount := h.count p (Nat.ne_of_gt hpos)
  rw [hp, count_cons_self] at hcount
  have href := h.refs p hpos hbit
  rw [if_neg (by omega)] at href
  by_cases hone : (s.g.table p).numChild = 1
  · have hdec : decRef (s.g.table p).refcount = 1 := by
      rw [href]
      rfl
    obtain ⟨hs, hps⟩ := updateStatusCore_last s.status hone (by rw [hdec]; decide)
    have hzero : (childSignaled (s.g.table p) s.status).numChild = 0 := by
      show (s.g.table p).numChild - 1 = 0
      omega
    refine h.told hp hmax hlast hs rfl ?_ ?_ (fun hne => absurd hzero hne) (fun _ => hps)
    · show (s.g.table p).numChild - 1 + 1 = (s.g.table p).numChild
      omega
    · show decRef (s.g.table p).refcount = if (childSignaled (s.g.table p) s.status).numChild = 0 then 1
        else 2
      rw [if_pos hzero, hdec]
  · obtain ⟨hs, hps⟩ := updateStatusCore_more s.status (by omega : 1 < (s.g.table p).numChild)
    have hmore : (childSignaled (s.g.table p) s.status).numChild ≠ 0 := by
      show (s.g.table p).numChild - 1 ≠ 0
      omega
    refine h.told hp hmax hlast hs rfl ?_ ?_ (fun _ => hps) (fun hz => absurd hz hmore)
    · show (s.g.table p).numChild - 1 + 1 = (s.g.table p).numChild
      omega
    · rw [if_neg hmore]
      exact href

end Sm8750Modules.SynxGlobal
