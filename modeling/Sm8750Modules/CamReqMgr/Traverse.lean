import Sm8750Modules.CamReqMgr.PdTables
import Mathlib.Data.List.Basic

/-!
# Camera request manager — traversing the tables of a link

To apply a request, every table of the link is asked whether its devices are ready for the slot
that lies as many frames back as its delay is smaller than the greatest one.
-/

namespace Sm8750Modules.CamReqMgr

open Function List

/-- `struct cam_req_mgr_slot`: the fields of an input queue slot that the traversal reads. -/
structure InQSlot where
  skipIdx : Int
  reqId : Int

structure Apply where
  idx : Int
  pd : Int
  reqId : Int
  skipIdx : Int

structure TraverseResult where
  reqId : Int
  pd : Int
  maskedValue : ℕ

structure Traverse where
  idx : Int
  result : BitVec 32
  resultData : TraverseResult
  applyData : Int → Apply

def eagain : Int := -11

def einval : Int := -22

def decIdx (val step maxVal : Int) : Int := if val - step < 0 then maxVal + (val - step) else val - step

def setSuccessBit (ret : BitVec 32) (pd : Int) : BitVec 32 := ret ||| (1#32 <<< pd.toNat)

def setFailureBit (ret : BitVec 32) (pd : Int) : BitVec 32 := ret &&& ~~~(1#32 <<< pd.toNat)

/-- The slot is ready, the request is skipped in the input queue, or the table skips traversals. -/
def SlotReady (inQ : Int → InQSlot) (tbl : ReqTbl) (idx : Int) : Prop :=
  (tbl.slot idx).state = .ready ∨ (inQ idx).skipIdx = 1 ∨ 0 < tbl.skipTraverse
deriving Decidable

/-- What a table writes for the slot `idx` when the traversal has succeeded. -/
def applyEntry (inQ : Int → InQSlot) (tbl : ReqTbl) (idx : Int) (old : Apply) : Apply where
  idx := idx
  pd := tbl.pd
  reqId := if 0 < tbl.skipTraverse then -1 else (inQ idx).reqId
  skipIdx := old.skipIdx

def consumeSkip (tbl : ReqTbl) : ReqTbl :=
  if 0 < tbl.skipTraverse then { tbl with skipTraverse := tbl.skipTraverse - 1 } else tbl

/-- What a table reports that is not ready. -/
def failureData (inQ : Int → InQSlot) (tbl : ReqTbl) (idx : Int) : TraverseResult where
  reqId := (inQ idx).reqId
  pd := tbl.pd
  maskedValue := tbl.devMask &&& (tbl.slot idx).reqReadyMap

/-- `__cam_req_mgr_traverse` from the first table of the list. -/
def traverse (inQ : Int → InQSlot) (validateOnly : Bool) :
    List ReqTbl → Traverse → Int × List ReqTbl × Traverse
  | [], td => (einval, [], { td with result := 0 })
  | tbl :: rest, td =>
    let currIdx := td.idx
    if SlotReady inQ tbl currIdx then
      let (rc, rest', td') := match rest with
        | [] => (0, [], td)
        | next :: rest => traverse inQ validateOnly (next :: rest)
            { td with idx := decIdx currIdx tbl.pdDelta tbl.numSlots }
      if 0 ≤ rc then
        let td' := { td' with result := setSuccessBit td'.result tbl.pd }
        if validateOnly then (0, tbl :: rest', td')
        else
          (0, consumeSkip tbl :: rest', { td' with
            applyData := Function.update td'.applyData tbl.pd
              (applyEntry inQ tbl currIdx (td'.applyData tbl.pd)) })
      else (rc, tbl :: rest', td')
    else
      (eagain, tbl :: rest, { td with
        resultData := failureData inQ tbl currIdx
        result := setFailureBit td.result tbl.pd })

/-- The slot of the table of delay `pd` on a traversal that starts at `idx` with the delay `maxPd`. -/
def slotIdx (maxPd idx pd : Int) : Int := (idx - (maxPd - pd)) % maxReqSlots

variable {tbl : ReqTbl}

theorem decIdx_slotIdx (maxPd idx : Int) {next : ReqTbl} (htbl : tbl.Fits) (hnext : next.Fits)
    (hlt : next.pd < tbl.pd) (hdelta : tbl.pdDelta = tbl.pd - next.pd) :
    decIdx (slotIdx maxPd idx tbl.pd) tbl.pdDelta tbl.numSlots = slotIdx maxPd idx next.pd := by
  obtain ⟨hslots, hpd0, hpd⟩ := htbl
  obtain ⟨-, hnext0, -⟩ := hnext
  simp only [decIdx, slotIdx, hdelta, hslots, maxReqSlots, camPipelineDelayMax] at *
  split <;> omega

theorem slotIdx_self {maxPd idx : Int} (h : 0 ≤ idx ∧ idx < maxReqSlots) :
    slotIdx maxPd idx maxPd = idx := by
  simp only [slotIdx, maxReqSlots] at *
  omega

variable {rest : List ReqTbl}

theorem DescendingDeltas.pd_lt (h : DescendingDeltas (tbl :: rest)) : ∀ t ∈ rest, t.pd < tbl.pd := by
  induction rest generalizing tbl with
  | nil =>
    intro t ht
    cases ht
  | cons next rest ih =>
    obtain ⟨hlt, -, htail⟩ := h
    intro t ht
    rcases mem_cons.mp ht with rfl | ht
    · exact hlt
    · exact Int.lt_trans (ih htail t ht) hlt

section Outcomes

variable {inQ : Int → InQSlot} {validateOnly : Bool} {maxPd idx : Int}

/-- The tables and entries that a successful traversal leaves. -/
structure Applied (inQ : Int → InQSlot) (validateOnly : Bool) (maxPd idx : Int) (l : List ReqTbl)
    (applyData : Int → Apply) (out : Int × List ReqTbl × Traverse) : Prop where
  rc : out.1 = 0
  tables : out.2.1 = if validateOnly then l else l.map consumeSkip
  entries : ∀ t ∈ l, out.2.2.applyData t.pd = if validateOnly then applyData t.pd
    else applyEntry inQ t (slotIdx maxPd idx t.pd) (applyData t.pd)
  others : ∀ p, (∀ t ∈ l, t.pd ≠ p) → out.2.2.applyData p = applyData p

theorem Applied.cons {applyData : Int → Apply} {td' : Traverse}
    {rest' : List ReqTbl} {rc : Int} (hpd : ∀ t ∈ rest, t.pd ≠ tbl.pd)
    (h : Applied inQ validateOnly maxPd idx rest applyData (rc, rest', td')) (result : BitVec 32) :
    Applied inQ validateOnly maxPd idx (tbl :: rest) applyData
      (if validateOnly then (0, tbl :: rest', { td' with result := result })
      else (0, consumeSkip tbl :: rest', { td' with
        result := result
        applyData := update td'.applyData tbl.pd
          (applyEntry inQ tbl (slotIdx maxPd idx tbl.pd) (td'.applyData tbl.pd)) })) := by
  have hself : td'.applyData tbl.pd = applyData tbl.pd := h.others tbl.pd hpd
  have htables : rest' = if validateOnly then rest else rest.map consumeSkip := h.tables
  cases validateOnly with
  | true =>
    refine ⟨rfl, ?_, fun t ht => ?_, fun p hp => ?_⟩
    · rw [htables]
      rfl
    · rcases mem_cons.mp ht with rfl | ht
      · exact hself
      · exact h.entries t ht
    · exact h.others p fun t ht => hp t (mem_cons_of_mem _ ht)
  | false =>
    refine ⟨rfl, ?_, fun t ht => ?_, fun p hp => ?_⟩
    · rw [htables]
      rfl
    · show update td'.applyData tbl.pd _ t.pd = _
      rcases mem_cons.mp ht with rfl | ht
      · rw [update_self, hself]
        rfl
      · rw [update_of_ne (hpd t ht)]
        exact h.entries t ht
    · show update td'.applyData tbl.pd _ p = _
      rw [update_of_ne (hp tbl mem_cons_self).symm]
      exact h.others p fun t ht => hp t (mem_cons_of_mem _ ht)

/-- **All tables ready.** The traversal succeeds and every table writes its entry. -/
theorem traverse_of_ready (td : Traverse)
    (h : DescendingDeltas (tbl :: rest)) (hfits : ∀ t ∈ tbl :: rest, t.Fits)
    (hidx : td.idx = slotIdx maxPd idx tbl.pd)
    (hready : ∀ t ∈ tbl :: rest, SlotReady inQ t (slotIdx maxPd idx t.pd)) :
    Applied inQ validateOnly maxPd idx (tbl :: rest) td.applyData
      (traverse inQ validateOnly (tbl :: rest) td) := by
  induction rest generalizing tbl td with
  | nil =>
    have hself := hready tbl mem_cons_self
    have hnone : Applied inQ validateOnly maxPd idx [] td.applyData
        ((0 : Int), [], { td with idx := slotIdx maxPd idx tbl.pd }) :=
      ⟨rfl, by cases validateOnly <;> rfl, fun t ht => (by cases ht), fun p _ => rfl⟩
    simp only [traverse, hidx, if_pos hself]
    rw [if_pos (Int.le_refl 0)]
    exact hnone.cons (fun t ht => by cases ht) _
  | cons next rest ih =>
    have hself := hready tbl mem_cons_self
    have hpd : ∀ t ∈ next :: rest, t.pd ≠ tbl.pd := fun t ht => Int.ne_of_lt (h.pd_lt t ht)
    obtain ⟨hlt, hdelta, htail⟩ := h
    have hstep := decIdx_slotIdx maxPd idx (hfits tbl mem_cons_self)
      (hfits next (mem_cons_of_mem _ mem_cons_self)) hlt hdelta
    have hrest : Applied inQ validateOnly maxPd idx (next :: rest) td.applyData
        (traverse inQ validateOnly (next :: rest) { td with idx := slotIdx maxPd idx next.pd }) :=
      ih { td with idx := slotIdx maxPd idx next.pd } htail
        (fun t ht => hfits t (mem_cons_of_mem _ ht)) rfl fun t ht => hready t (mem_cons_of_mem _ ht)
    rcases hout : traverse inQ validateOnly (next :: rest)
      { td with idx := slotIdx maxPd idx next.pd } with ⟨rc, rest', td'⟩
    rw [hout] at hrest
    have hrc : 0 ≤ rc := Int.le_of_eq hrest.rc.symm
    rw [traverse]
    simp only [hidx, if_pos hself, hstep, hout, if_pos hrc]
    exact hrest.cons hpd _

theorem traverse_head_not_ready {td : Traverse}
    (h : ¬ SlotReady inQ tbl td.idx) :
    traverse inQ validateOnly (tbl :: rest) td
      = (eagain, tbl :: rest, { td with
          resultData := failureData inQ tbl td.idx
          result := setFailureBit td.result tbl.pd }) := by
  cases rest <;> rw [traverse, if_neg h]

/-- **A table that is not ready.** The first such table ends the traversal: it is reported, and nothing
has been written. -/
theorem traverse_of_not_ready {pre post : List ReqTbl} {bad : ReqTbl}
    (td : Traverse) (hl : tbl :: rest = pre ++ bad :: post) (h : DescendingDeltas (tbl :: rest))
    (hfits : ∀ t ∈ tbl :: rest, t.Fits) (hidx : td.idx = slotIdx maxPd idx tbl.pd)
    (hready : ∀ t ∈ pre, SlotReady inQ t (slotIdx maxPd idx t.pd))
    (hbad : ¬ SlotReady inQ bad (slotIdx maxPd idx bad.pd)) :
    ∃ td', traverse inQ validateOnly (tbl :: rest) td = (eagain, tbl :: rest, td') ∧
      td'.applyData = td.applyData ∧
      td'.resultData = failureData inQ bad (slotIdx maxPd idx bad.pd) := by
  induction pre generalizing tbl rest td with
  | nil =>
    obtain ⟨rfl, rfl⟩ := List.cons.inj hl
    rw [traverse_head_not_ready (by rw [hidx]; exact hbad), hidx]
    exact ⟨_, rfl, rfl, rfl⟩
  | cons u pre ih =>
    obtain ⟨rfl, hrest⟩ := List.cons.inj hl
    have hself := hready tbl mem_cons_self
    cases rest with
    | nil => cases pre <;> cases hrest
    | cons next rest =>
      obtain ⟨hlt, hdelta, htail⟩ := h
      have hstep := decIdx_slotIdx maxPd idx (hfits tbl mem_cons_self)
        (hfits next (mem_cons_of_mem _ mem_cons_self)) hlt hdelta
      obtain ⟨td', heq, happly, hdata⟩ : ∃ td', traverse inQ validateOnly (next :: rest)
          { td with idx := slotIdx maxPd idx next.pd } = (eagain, next :: rest, td') ∧
            td'.applyData = td.applyData ∧
            td'.resultData = failureData inQ bad (slotIdx maxPd idx bad.pd) :=
        ih { td with idx := slotIdx maxPd idx next.pd } hrest htail
          (fun t ht => hfits t (mem_cons_of_mem _ ht)) rfl fun t ht => hready t (mem_cons_of_mem _ ht)
      rw [traverse]
      simp only [hidx, if_pos hself, hstep, heq]
      rw [if_neg (by decide)]
      exact ⟨td', rfl, happly, hdata⟩

end Outcomes

/-- What the traversal of a link owes to its tables, from the head `l` of greatest delay `maxPd`. -/
structure TraverseSpec (inQ : Int → InQSlot) (validateOnly : Bool) (l : List ReqTbl) (maxPd : Int)
    (td : Traverse) : Prop where
  /-- it succeeds exactly when every table is ready for its slot -/
  succeeds_iff : 0 ≤ (traverse inQ validateOnly l td).1
    ↔ ∀ t ∈ l, SlotReady inQ t (slotIdx maxPd td.idx t.pd)
  /-- a failure, or a validation, writes no entry and no skip counter -/
  unchanged : ((traverse inQ validateOnly l td).1 < 0 ∨ validateOnly = true) →
    (traverse inQ validateOnly l td).2.1 = l ∧
      (traverse inQ validateOnly l td).2.2.applyData = td.applyData
  /-- a failure reports the first table that is not ready -/
  reports : ∀ pre bad post, l = pre ++ bad :: post →
    (∀ t ∈ pre, SlotReady inQ t (slotIdx maxPd td.idx t.pd)) →
    ¬ SlotReady inQ bad (slotIdx maxPd td.idx bad.pd) →
    (traverse inQ validateOnly l td).2.2.resultData
      = failureData inQ bad (slotIdx maxPd td.idx bad.pd)
  /-- a success writes the entry of every delay, and takes one from every positive skip counter -/
  applies : 0 ≤ (traverse inQ validateOnly l td).1 → validateOnly = false →
    (traverse inQ validateOnly l td).2.1 = l.map consumeSkip ∧
      (∀ t ∈ l, (traverse inQ validateOnly l td).2.2.applyData t.pd
        = applyEntry inQ t (slotIdx maxPd td.idx t.pd) (td.applyData t.pd)) ∧
      ∀ p, (∀ t ∈ l, t.pd ≠ p) →
        (traverse inQ validateOnly l td).2.2.applyData p = td.applyData p

theorem exists_first_not {α : Type*} {P : α → Prop} (l : List α) (h : ¬ ∀ t ∈ l, P t) :
    ∃ pre bad post, l = pre ++ bad :: post ∧ (∀ t ∈ pre, P t) ∧ ¬ P bad := by
  induction l with
  | nil => exact absurd (fun t ht => by cases ht) h
  | cons t rest ih =>
    by_cases ht : P t
    · have hrest : ¬ ∀ u ∈ rest, P u := by
        intro hall
        apply h
        intro u hu
        rcases mem_cons.mp hu with rfl | hu
        · exact ht
        · exact hall u hu
      obtain ⟨pre, bad, post, rfl, hpre, hbad⟩ := ih hrest
      refine ⟨t :: pre, bad, post, rfl, fun u hu => ?_, hbad⟩
      rcases mem_cons.mp hu with rfl | hu
      · exact ht
      · exact hpre u hu
    · exact ⟨[], t, rest, rfl, fun u hu => (by cases hu), ht⟩

theorem traverseSpec_of_descending {inQ : Int → InQSlot} {validateOnly : Bool}
    {td : Traverse} (h : DescendingDeltas (tbl :: rest))
    (hfits : ∀ t ∈ tbl :: rest, t.Fits) (hidx : 0 ≤ td.idx ∧ td.idx < maxReqSlots) :
    TraverseSpec inQ validateOnly (tbl :: rest) tbl.pd td := by
  have hself : td.idx = slotIdx tbl.pd td.idx tbl.pd := (slotIdx_self hidx).symm
  by_cases hready : ∀ t ∈ tbl :: rest, SlotReady inQ t (slotIdx tbl.pd td.idx t.pd)
  · have hout : Applied inQ validateOnly tbl.pd td.idx (tbl :: rest) td.applyData
        (traverse inQ validateOnly (tbl :: rest) td) := traverse_of_ready td h hfits hself hready
    refine ⟨⟨fun _ => hready, fun _ => by have := hout.rc; omega⟩, ?_, ?_, ?_⟩
    · intro hwhy
      have hval : validateOnly = true := by
        rcases hwhy with hneg | hval
        · rw [hout.rc] at hneg
          exact absurd hneg (by decide)
        · exact hval
      refine ⟨by rw [hout.tables, hval]; rfl, funext fun p => ?_⟩
      by_cases hp : ∃ t ∈ tbl :: rest, t.pd = p
      · obtain ⟨t, ht, rfl⟩ := hp
        rw [hout.entries t ht, hval]
        rfl
      · exact hout.others p fun t ht heq => hp ⟨t, ht, heq⟩
    · intro pre bad post hl _ hbad
      have hmem : bad ∈ tbl :: rest := by
        rw [hl]
        exact mem_append_right _ mem_cons_self
      exact absurd (hready bad hmem) hbad
    · intro _ hval
      refine ⟨by rw [hout.tables, hval]; rfl, fun t ht => ?_, hout.others⟩
      rw [hout.entries t ht, hval]
      rfl
  · obtain ⟨pre, bad, post, hl, hpre, hbad⟩ := exists_first_not _ hready
    have hout : ∀ pre bad post, tbl :: rest = pre ++ bad :: post →
        (∀ t ∈ pre, SlotReady inQ t (slotIdx tbl.pd td.idx t.pd)) →
        ¬ SlotReady inQ bad (slotIdx tbl.pd td.idx bad.pd) →
        ∃ td', traverse inQ validateOnly (tbl :: rest) td = (eagain, tbl :: rest, td') ∧
          td'.applyData = td.applyData ∧
          td'.resultData = failureData inQ bad (slotIdx tbl.pd td.idx bad.pd) :=
      fun pre bad post hl hpre hbad => traverse_of_not_ready td hl h hfits hself hpre hbad
    obtain ⟨td', heq, happly, -⟩ := hout pre bad post hl hpre hbad
    have hneg : ¬ (0 : Int) ≤ eagain := by decide
    refine ⟨?_, ?_, ?_, ?_⟩
    · rw [heq]
      exact ⟨fun hrc => absurd hrc hneg, fun hall => absurd hall hready⟩
    · intro _
      rw [heq]
      exact ⟨rfl, happly⟩
    · intro pre' bad' post' hl' hpre' hbad'
      obtain ⟨td'', heq', -, hdata⟩ := hout pre' bad' post' hl' hpre' hbad'
      rw [heq']
      exact hdata
    · intro hrc
      rw [heq] at hrc
      exact absurd hrc hneg

theorem fits_congr {l l' : List ReqTbl} (heq : l'.map layout = l.map layout)
    (h : ∀ t ∈ l, t.Fits) : ∀ t ∈ l', t.Fits := by
  intro t ht
  obtain ⟨u, hu, hlayout⟩ : ∃ u ∈ l, layout u = layout t := by
    rw [← mem_map, ← heq]
    exact mem_map_of_mem ht
  simp only [layout, Prod.mk.injEq] at hlayout
  obtain ⟨hslots, hpd⟩ := h u hu
  exact ⟨hlayout.2.2 ▸ hslots, hlayout.1 ▸ hpd⟩

end Sm8750Modules.CamReqMgr
