import Sm8750Modules.Lib.StaleLookup
import Sm8750Modules.CamReqMgr.Traverse

/-!
# Camera request manager — telling the sync links

Links that run in sync hold the same requests, each in its own input queue, and their devices have
the same names.
-/

namespace CrmSync

open Sm8750Modules.CamReqMgr (CrmReqState decIdx einval)
open List StaleLookup

/-! ### Input queues -/

inductive CrmSlotStatus
  | noReq
  | reqAdded
  | reqPending
  | reqReady
  | reqApplied
  | invalid
  deriving DecidableEq

def maximumLinksPerSession : ℕ := 4

def syncModeNoSync : ℤ := 0

def syncModeSync : ℤ := 1

/-- `struct cam_req_mgr_slot`: what adding and cancelling a request read and write. -/
structure Slot where
  skipIdx : ℤ
  status : CrmSlotStatus
  reqId : BitVec 64
  syncMode : ℤ
  additionalTimeout : ℤ
  numSyncLinks : Fin maximumLinksPerSession
  syncLinkHdls : Fin (maximumLinksPerSession - 1) → ℤ
  skipSet : Bool

/-- `struct cam_req_mgr_req_queue`. -/
structure InQ where
  numSlots : ℕ
  slot : ℤ → Slot
  rdIdx : ℤ
  rd_range : 0 < numSlots → 0 ≤ rdIdx ∧ rdIdx < numSlots

def InQ.HoldsAt (inQ : InQ) (reqId : BitVec 64) (idx : ℤ) : Prop :=
  0 ≤ idx ∧ idx < inQ.numSlots ∧ (inQ.slot idx).reqId = reqId

/-- The loop of `__cam_req_mgr_find_slot_for_req`, with the turns that are left. -/
def findFrom (inQ : InQ) (reqId : BitVec 64) : ℕ → ℤ → Option ℤ
  | 0, _ => none
  | n + 1, idx =>
    if (inQ.slot idx).reqId = reqId then some idx else findFrom inQ reqId n (decIdx idx 1 inQ.numSlots)

/-- `__cam_req_mgr_find_slot_for_req`; `none` is its -1. -/
def findSlotForReq (inQ : InQ) (reqId : BitVec 64) : Option ℤ :=
  findFrom inQ reqId inQ.numSlots inQ.rdIdx

variable {idx : ℤ}

theorem decIdx_range {n : ℕ} (h : 0 ≤ idx ∧ idx < n) : 0 ≤ decIdx idx 1 n ∧ decIdx idx 1 n < n := by
  unfold decIdx
  split <;> omega

variable {reqId : BitVec 64} {inQ : InQ}

theorem holdsAt_of_findFrom {n : ℕ} {i : ℤ}
    (hidx : 0 ≤ idx ∧ idx < inQ.numSlots) (h : findFrom inQ reqId n idx = some i) :
    inQ.HoldsAt reqId i := by
  induction n generalizing idx with
  | zero => simp [findFrom] at h
  | succ n ih =>
    rw [findFrom] at h
    split at h
    · next hreq =>
      obtain rfl : idx = i := by simpa using h
      exact ⟨hidx.1, hidx.2, hreq⟩
    · exact ih (decIdx_range hidx) h

theorem not_holdsAt_of_findFrom {n : ℕ}
    (hidx : 0 ≤ idx ∧ idx < inQ.numSlots) (h : findFrom inQ reqId n idx = none) {i : ℤ}
    (hi : 0 ≤ i ∧ i < inQ.numSlots)
    (hpassed : if i ≤ idx then idx - i < n else idx - i + inQ.numSlots < n) :
    (inQ.slot i).reqId ≠ reqId := by
  induction n generalizing idx with
  | zero => split at hpassed <;> omega
  | succ n ih =>
    rw [findFrom] at h
    split at h
    · simp at h
    · next hne =>
      by_cases hself : i = idx
      · exact hself ▸ hne
      · apply ih (decIdx_range hidx) h
        have hdec : decIdx idx 1 inQ.numSlots = if idx = 0 then (inQ.numSlots : ℤ) - 1 else idx - 1 := by
          unfold decIdx
          split <;> split <;> omega
        rw [hdec]
        split at hpassed <;> split <;> split <;> omega

theorem findSlotForReq_holdsAt {i : ℤ}
    (h : findSlotForReq inQ reqId = some i) : inQ.HoldsAt reqId i := by
  unfold findSlotForReq at h
  cases hn : inQ.numSlots with
  | zero => simp [hn, findFrom] at h
  | succ n => exact holdsAt_of_findFrom (inQ.rd_range (by omega)) h

theorem findSlotForReq_eq_none_iff : findSlotForReq inQ reqId = none ↔ ∀ i, ¬ inQ.HoldsAt reqId i := by
  constructor
  · intro h i hi
    obtain ⟨hi0, hilt, hreq⟩ := hi
    have hrd := inQ.rd_range (by omega)
    refine not_holdsAt_of_findFrom hrd h ⟨hi0, hilt⟩ ?_ hreq
    split <;> omega
  · intro h
    cases hfind : findSlotForReq inQ reqId with
    | none => rfl
    | some i => exact absurd (findSlotForReq_holdsAt hfind) (h i)

/-! ### Links and tables -/

def maxDevForSpecialOps : ℕ := 4

/-- `struct crm_tbl_slot_special_ops`: the first `num_dev` handles of the array. -/
structure SpecialOps where
  devHdl : List ℤ
  applyAtEof : Bool
  num_dev_le : devHdl.length ≤ maxDevForSpecialOps

/-- One more handle, if there is room. -/
def SpecialOps.push (ops : SpecialOps) (hdl : ℤ) : SpecialOps :=
  if h : ops.devHdl.length = maxDevForSpecialOps then ops
  else { ops with
    devHdl := ops.devHdl ++ [hdl]
    num_dev_le := by
      have := ops.num_dev_le
      rw [List.length_append, List.length_singleton]
      omega }

/-- `struct cam_req_mgr_tbl_slot`: what adding a request reads and writes. -/
structure TblSlot where
  reqReadyMap : ℕ
  state : CrmReqState
  injectDelayAtSof : ℕ
  injectDelayAtEof : ℕ
  ops : SpecialOps

/-- A table of a link: the entry of the link in `g_links`, and which of its tables. -/
structure TblRef where
  link : ℕ
  tbl : ℕ
  deriving DecidableEq

structure SlotRef where
  tbl : TblRef
  idx : ℤ
  deriving DecidableEq

/-- `struct cam_req_mgr_connected_device`; `pdTbl` is one of the tables of the link. -/
structure Device where
  devHdl : ℤ
  devBit : ℕ
  pdTbl : ℕ
  name : String
  devId : ℕ
  pDelay : ℤ

/-- `struct cam_req_mgr_core_link`. -/
structure Link where
  linkHdl : ℤ
  lDev : List Device
  inQ : InQ
  syncLink : List ℕ
  maxDelay : ℤ
  prevApplyReqId : ℤ → BitVec 64
  openReqCnt : BitVec 32
  hdl_ne : ∀ d ∈ lDev, d.devHdl ≠ einval
  hdl_inj : ∀ d ∈ lDev, ∀ e ∈ lDev, d.devHdl = e.devHdl → d.name = e.name ∧ d.pdTbl = e.pdTbl

/-- The links in `g_links`, the slots of their tables, the devices each table waits for, and the links
behind the link handles. -/
structure Crm where
  link : ℕ → Link
  slot : SlotRef → TblSlot
  devMask : TblRef → ℕ
  linkPriv : ℤ → Option ℕ

variable (c : Crm)

def Crm.setSlot (r : SlotRef) (s : TblSlot) : Crm :=
  { c with slot := Function.update c.slot r s }

theorem Crm.setSlot_slot_of_ne {c : Crm} {r x : SlotRef} {s : TblSlot} (h : x ≠ r) :
    (c.setSlot r s).slot x = c.slot x := by
  simp [Crm.setSlot, h]

structure AddRequest where
  devHdl : ℤ
  reqId : BitVec 64
  skipAtSof : ℕ
  skipAtEof : ℕ
  triggerEof : Bool
  triggerSkip : Bool

def devHandleToName (devHdl : ℤ) (link : Link) : String :=
  match link.lDev.find? (fun dev => devHdl = dev.devHdl) with
  | some dev => dev.name
  | none => "Invalid dev_hdl"

def nameToDevHandle (devName : String) (link : Link) : ℤ :=
  match link.lDev.find? (fun dev => devName = dev.name) with
  | some dev => dev.devHdl
  | none => einval

def tblOfHandle (link : Link) (hdl : ℤ) : Option ℕ :=
  (link.lDev.find? fun dev => dev.devHdl = hdl).map Device.pdTbl

theorem tblOfHandle_nameToDevHandle {link : Link} {devName : String} {t : ℕ}
    (h : tblOfHandle link (nameToDevHandle devName link) = some t) :
    ∃ d ∈ link.lDev, d.name = devName ∧ d.pdTbl = t := by
  obtain ⟨e, he, rfl⟩ := Option.map_eq_some_iff.mp h
  have hmem := List.mem_of_find?_eq_some he
  have hhdl : e.devHdl = nameToDevHandle devName link := by simpa using List.find?_some he
  unfold nameToDevHandle at hhdl
  split at hhdl
  · next dev hdev =>
    have hname : devName = dev.name := by simpa using List.find?_some hdev
    have hsame := link.hdl_inj e hmem dev (List.mem_of_find?_eq_some hdev) hhdl
    exact ⟨e, hmem, by rw [hsame.1, hname], rfl⟩
  · exact absurd hhdl (link.hdl_ne e hmem)

theorem tblOfHandle_nameToDevHandle_eq_none_iff {link : Link} {devName : String} :
    tblOfHandle link (nameToDevHandle devName link) = none ↔ ∀ d ∈ link.lDev, d.name ≠ devName := by
  constructor
  · intro h d hd hname
    have hnone := Option.map_eq_none_iff.mp h
    unfold nameToDevHandle at hnone
    split at hnone
    · next dev hdev =>
      have := List.find?_eq_none.mp hnone dev (List.mem_of_find?_eq_some hdev)
      simp at this
    · next hfind =>
      have := List.find?_eq_none.mp hfind d hd
      simp [hname] at this
  · intro h
    cases htbl : tblOfHandle link (nameToDevHandle devName link) with
    | none => rfl
    | some t =>
      obtain ⟨d, hd, hname, -⟩ := tblOfHandle_nameToDevHandle htbl
      exact absurd hname (h d hd)

/-! ### The loop over the sync links -/

/-- The `type` argument: `enum cam_req_mgr_sync_type` in an unsigned integer. -/
inductive SyncType
  | delayAtSof
  | delayAtEof
  | applyAtEof
  | other (type : ℕ)
  deriving DecidableEq

def SyncType.known : SyncType → Bool
  | .other _ => false
  | _ => true

def ebadslt : ℤ := -57

/-- The switch of the loop: what becomes of the sync slot; `none` for a type that is not known. -/
def syncWrite (type : SyncType) (slot syncSlot : TblSlot) (syncDevHdl : ℤ) : Option TblSlot :=
  match type with
  | .delayAtSof => some { syncSlot with injectDelayAtSof := slot.injectDelayAtSof }
  | .delayAtEof => some { syncSlot with injectDelayAtEof := slot.injectDelayAtEof }
  | .applyAtEof =>
    some { syncSlot with
      ops := { syncSlot.ops with applyAtEof := slot.ops.applyAtEof }.push syncDevHdl }
  | .other _ => none

/-- What the loop does on one link: the slots of tables it writes. -/
structure Visit where
  link : ℕ
  written : List SlotRef

/-- What the loop leaves, with the links it came to. -/
structure SyncOutcome where
  crm : Crm
  rc : ℤ
  visits : List Visit

/-- The loop of `cam_req_mgr_sync_info_for_sync_mode`, over the sync links that are left. `tbl` and `rc`
are declared before it and keep their values from turn to turn. -/
def syncLoop (own : ℕ) (addReq : AddRequest) (slot : SlotRef) (type : SyncType) :
    Option TblRef → ℤ → Crm → List ℕ → SyncOutcome
  | _, rc, c, [] => ⟨c, rc, []⟩
  | tbl, rc, c, l :: ls =>
    match findSlotForReq (c.link l).inQ addReq.reqId with
    | none => ⟨c, ebadslt, [⟨l, []⟩]⟩
    | some idx =>
      let devName := devHandleToName addReq.devHdl (c.link own)
      let syncDevHdl := nameToDevHandle devName (c.link l)
      match ((tblOfHandle (c.link l) syncDevHdl).map (TblRef.mk l)).or tbl with
      | none => ⟨c, einval, [⟨l, []⟩]⟩
      | some tbl =>
        match syncWrite type (c.slot slot) (c.slot ⟨tbl, idx⟩) syncDevHdl with
        | some s =>
          let out := syncLoop own addReq slot type (some tbl) rc (c.setSlot ⟨tbl, idx⟩ s) ls
          { out with visits := ⟨l, [⟨tbl, idx⟩]⟩ :: out.visits }
        | none =>
          let out := syncLoop own addReq slot type (some tbl) einval c ls
          { out with visits := ⟨l, []⟩ :: out.visits }

def syncInfoForSyncMode (own : ℕ) (addReq : AddRequest) (slot : SlotRef) (type : SyncType) :
    SyncOutcome :=
  syncLoop own addReq slot type none 0 c (c.link own).syncLink

def HasRequest (addReq : AddRequest) (l : ℕ) : Prop :=
  ∃ idx, (c.link l).inQ.HoldsAt addReq.reqId idx

def DeviceTable (own : ℕ) (addReq : AddRequest) (l : ℕ) (tbl : TblRef) : Prop :=
  ∃ d ∈ (c.link l).lDev, d.name = devHandleToName addReq.devHdl (c.link own) ∧ tbl = ⟨l, d.pdTbl⟩

def Reachable (own : ℕ) (addReq : AddRequest) (l : ℕ) : Prop :=
  HasRequest c addReq l ∧ ∃ tbl, DeviceTable c own addReq l tbl

structure Propagates (c : Crm) (own : ℕ) (addReq : AddRequest) (type : SyncType) (out : SyncOutcome) :
    Prop where
  /-- The loop comes to all links, or ends with an error at the first it cannot reach. -/
  visits : ((∀ l ∈ (c.link own).syncLink, Reachable c own addReq l) ∧
      out.visits.map Visit.link = (c.link own).syncLink) ∨
    ∃ p l q, (c.link own).syncLink = p ++ l :: q ∧ (∀ x ∈ p, Reachable c own addReq x) ∧
      ¬ Reachable c own addReq l ∧ out.visits.map Visit.link = p ++ [l] ∧ out.rc < 0
  own_slot : ∀ v ∈ out.visits, ∀ r ∈ v.written,
    DeviceTable c own addReq v.link r.tbl ∧ (c.link v.link).inQ.HoldsAt addReq.reqId r.idx
  written : type.known → ∀ v ∈ out.visits, Reachable c own addReq v.link → v.written ≠ []
  /-- All other slots stay. -/
  frame : ∀ r, (∀ v ∈ out.visits, r ∉ v.written) → out.crm.slot r = c.slot r
  /-- Nothing but slots of tables is written. -/
  slots_only : out.crm = { c with slot := out.crm.slot }

/-- A sync link has the request but no such device, behind links that have both. -/
def StaleTable (own : ℕ) (addReq : AddRequest) (type : SyncType) : Prop :=
  ∃ p l q, (c.link own).syncLink = p ++ l :: q ∧ p ≠ [] ∧ (∀ x ∈ p, Reachable c own addReq x) ∧
    HasRequest c addReq l ∧ (∀ tbl, ¬ DeviceTable c own addReq l tbl) ∧
    (type.known ∨ q ≠ [])

/-! ### The loop and the lookups -/

def requestGate (addReq : AddRequest) (l : ℕ) : Prop :=
  (findSlotForReq (c.link l).inQ addReq.reqId).isSome

instance (c : Crm) (addReq : AddRequest) : DecidablePred (requestGate c addReq) :=
  fun l => inferInstanceAs (Decidable ((findSlotForReq (c.link l).inQ addReq.reqId).isSome = true))

/-- The lookup of a round. -/
def lookTbl (own : ℕ) (addReq : AddRequest) (l : ℕ) : Option TblRef :=
  (tblOfHandle (c.link l)
    (nameToDevHandle (devHandleToName addReq.devHdl (c.link own)) (c.link l))).map (TblRef.mk l)

theorem requestGate_iff {c : Crm} {addReq : AddRequest} {l : ℕ} :
    requestGate c addReq l ↔ HasRequest c addReq l := by
  unfold requestGate HasRequest
  rw [Option.isSome_iff_ne_none, Ne, findSlotForReq_eq_none_iff]
  push Not
  exact Iff.rfl

variable {own : ℕ}

theorem deviceTable_of_lookTbl {c : Crm} {addReq : AddRequest} {l : ℕ} {tbl : TblRef}
    (h : lookTbl c own addReq l = some tbl) : DeviceTable c own addReq l tbl := by
  obtain ⟨t, ht, rfl⟩ := Option.map_eq_some_iff.mp h
  obtain ⟨d, hd, hname, rfl⟩ := tblOfHandle_nameToDevHandle ht
  exact ⟨d, hd, hname, rfl⟩

theorem lookTbl_eq_none_iff {c : Crm} {addReq : AddRequest} {l : ℕ} :
    lookTbl c own addReq l = none ↔ ∀ tbl, ¬ DeviceTable c own addReq l tbl := by
  unfold lookTbl DeviceTable
  rw [Option.map_eq_none_iff, tblOfHandle_nameToDevHandle_eq_none_iff]
  constructor
  · intro h tbl htbl
    obtain ⟨d, hd, hname, -⟩ := htbl
    exact h d hd hname
  · intro h d hd hname
    exact h ⟨l, d.pdTbl⟩ ⟨d, hd, hname, rfl⟩

theorem found_iff {c : Crm} {addReq : AddRequest} {l : ℕ} :
    Found (requestGate c addReq) (lookTbl c own addReq) l ↔ Reachable c own addReq l := by
  unfold Found Reachable
  rw [requestGate_iff]
  apply and_congr_right'
  constructor
  · intro h
    obtain ⟨tbl, htbl⟩ := h
    exact ⟨tbl, deviceTable_of_lookTbl htbl⟩
  · intro h
    obtain ⟨tbl, htbl⟩ := h
    exact Option.ne_none_iff_exists'.mp fun hnone => lookTbl_eq_none_iff.mp hnone tbl htbl

theorem staleAt_iff {c : Crm} {addReq : AddRequest} {ls p q : List ℕ} {l : ℕ} :
    StaleAt (requestGate c addReq) (lookTbl c own addReq) ls p l q ↔
      ls = p ++ l :: q ∧ (∀ x ∈ p, Reachable c own addReq x) ∧ HasRequest c addReq l ∧
        ∀ tbl, ¬ DeviceTable c own addReq l tbl := by
  unfold StaleAt
  simp only [found_iff, requestGate_iff, lookTbl_eq_none_iff]

def visitOf (addReq : AddRequest) (type : SyncType) (round : ℕ × Option TblRef) : Visit where
  link := round.1
  written :=
    match round.2, findSlotForReq (c.link round.1).inQ addReq.reqId with
    | some tbl, some idx => if type.known then [⟨tbl, idx⟩] else []
    | _, _ => []

theorem visitOf_none (c : Crm) (addReq : AddRequest) (type : SyncType) (l : ℕ) :
    visitOf c addReq type (l, none) = ⟨l, []⟩ := by
  simp [visitOf]

theorem visitOf_some {c : Crm} {addReq : AddRequest} (type : SyncType) {l : ℕ} (tbl : TblRef)
    (h : findSlotForReq (c.link l).inQ addReq.reqId = some idx) :
    visitOf c addReq type (l, some tbl) = ⟨l, if type.known then [⟨tbl, idx⟩] else []⟩ := by
  simp [visitOf, h]

theorem syncWrite_eq_none_iff {type : SyncType} {slot syncSlot : TblSlot} {hdl : ℤ} :
    syncWrite type slot syncSlot hdl = none ↔ type.known = false := by
  cases type <;> simp [syncWrite, SyncType.known]

theorem syncLoop_cons {addReq : AddRequest} {slot : SlotRef} {type : SyncType}
    {tbl : Option TblRef} {rc : ℤ} {c : Crm} {l : ℕ} {ls : List ℕ} :
    (¬ requestGate c addReq l ∧ syncLoop own addReq slot type tbl rc c (l :: ls) = ⟨c, ebadslt, [⟨l, []⟩]⟩) ∨
    (requestGate c addReq l ∧ (lookTbl c own addReq l).or tbl = none ∧
      syncLoop own addReq slot type tbl rc c (l :: ls) = ⟨c, einval, [⟨l, []⟩]⟩) ∨
    ∃ t idx c' rc' out, requestGate c addReq l ∧ (lookTbl c own addReq l).or tbl = some t ∧
      findSlotForReq (c.link l).inQ addReq.reqId = some idx ∧
      out = syncLoop own addReq slot type (some t) rc' c' ls ∧ c' = { c with slot := c'.slot } ∧
      (∀ r, r ∉ (if type.known then [(⟨t, idx⟩ : SlotRef)] else []) → c'.slot r = c.slot r) ∧
      (type.known = false → rc' < 0) ∧ (type.known → rc' = rc) ∧
      syncLoop own addReq slot type tbl rc c (l :: ls) =
        { out with visits := ⟨l, if type.known then [⟨t, idx⟩] else []⟩ :: out.visits } := by
  rw [syncLoop]
  cases hfind : findSlotForReq (c.link l).inQ addReq.reqId with
  | none => exact .inl ⟨by simp [requestGate, hfind], rfl⟩
  | some idx =>
    have hgate : requestGate c addReq l := by simp [requestGate, hfind]
    have hlook : (tblOfHandle (c.link l) (nameToDevHandle (devHandleToName addReq.devHdl (c.link own))
      (c.link l))).map (TblRef.mk l) = lookTbl c own addReq l := rfl
    simp only [hlook]
    cases hor : (lookTbl c own addReq l).or tbl with
    | none => exact .inr (.inl ⟨hgate, rfl, rfl⟩)
    | some t =>
      simp only
      cases hwrite : syncWrite type (c.slot slot) (c.slot ⟨t, idx⟩)
        (nameToDevHandle (devHandleToName addReq.devHdl (c.link own)) (c.link l)) with
      | none =>
        have hknown : type.known = false := syncWrite_eq_none_iff.mp hwrite
        refine .inr (.inr ⟨t, idx, c, einval, _, hgate, rfl, rfl, rfl, rfl, by simp, ?_, ?_, ?_⟩)
        · simp [einval]
        · simp [hknown]
        · simp [hknown]
      | some s =>
        have hknown : type.known = true := by
          cases h : type.known with
          | true => rfl
          | false => simp [syncWrite_eq_none_iff.mpr h] at hwrite
        refine .inr (.inr ⟨t, idx, c.setSlot ⟨t, idx⟩ s, rc, _, hgate, rfl, rfl, rfl, rfl, ?_, ?_, ?_, ?_⟩)
        · intro r hr
          exact Crm.setSlot_slot_of_ne (by simpa [hknown] using hr)
        · simp [hknown]
        · exact fun _ => rfl
        · simp [hknown]

theorem requestGate_congr {c c' : Crm} {addReq : AddRequest} {l : ℕ} (h : c.link = c'.link) :
    requestGate c addReq l ↔ requestGate c' addReq l := by
  unfold requestGate
  rw [h]

theorem lookTbl_congr {c c' : Crm} {addReq : AddRequest} {l : ℕ} (h : c.link = c'.link) :
    lookTbl c own addReq l = lookTbl c' own addReq l := by
  unfold lookTbl
  rw [h]

theorem syncLoop_spec {addReq : AddRequest} {slot : SlotRef} {type : SyncType}
    {tbl : Option TblRef} {rc : ℤ} {c c₀ : Crm} {ls : List ℕ} (hlink : c.link = c₀.link) {out : SyncOutcome}
    (hout : out = syncLoop own addReq slot type tbl rc c ls) :
    out.visits = (rounds (requestGate c₀ addReq) (lookTbl c₀ own addReq) tbl ls).map
        (visitOf c₀ addReq type) ∧
      (∀ r, (∀ v ∈ out.visits, r ∉ v.written) → out.crm.slot r = c.slot r) ∧
      ((∃ l, (l, none) ∈ rounds (requestGate c₀ addReq) (lookTbl c₀ own addReq) tbl ls) → out.rc < 0) ∧
      (type.known = false → ls ≠ [] → out.rc < 0) ∧ (rc < 0 → out.rc < 0) ∧
      out.crm = { c with slot := out.crm.slot } := by
  induction ls generalizing tbl rc c out with
  | nil => simp [hout, syncLoop]
  | cons l ls ih =>
    rcases @syncLoop_cons own addReq slot type tbl rc c l ls with ⟨hgate, heq⟩ | ⟨hgate, hor, heq⟩ |
      ⟨t, idx, c', rc', out', hgate, hor, hfind, hout', hslot', hframe, hrc, hrc', heq⟩
    all_goals rw [requestGate_congr hlink] at hgate
    · rw [rounds_cons_closed hgate, hout, heq]
      simp [visitOf_none, ebadslt]
    · rw [lookTbl_congr hlink] at hor
      rw [rounds_cons_none hgate hor, hout, heq]
      simp [visitOf_none, einval]
    · rw [lookTbl_congr hlink] at hor
      rw [hlink] at hfind
      have hlink' : c'.link = c₀.link := by rw [hslot', hlink]
      obtain ⟨hvisits, hslots, hfail, hknown, hneg, honly⟩ := ih hlink' hout'
      rw [rounds_cons_some hgate hor, hout, heq]
      refine ⟨?_, ?_, ?_, ?_, ?_, ?_⟩
      · rw [map_cons, visitOf_some type t hfind, hvisits]
      · intro r hr
        obtain ⟨hhead, htail⟩ := forall_mem_cons.mp hr
        exact (hslots r htail).trans (hframe r hhead)
      · intro hnone
        obtain ⟨x, hx⟩ := hnone
        exact hfail ⟨x, by simpa using hx⟩
      · exact fun hk _ => hneg (hrc hk)
      · intro h
        cases hk : type.known with
        | false => exact hneg (hrc hk)
        | true => exact hneg (hrc' hk ▸ h)
      · show out'.crm = _
        rw [honly, hslot']

theorem visitOf_own_slot {c : Crm} {addReq : AddRequest} {type : SyncType} {ls : List ℕ}
    {round : ℕ × Option TblRef}
    (h : round ∈ freshRounds (requestGate c addReq) (lookTbl c own addReq) ls) {r : SlotRef}
    (hr : r ∈ (visitOf c addReq type round).written) :
    DeviceTable c own addReq round.1 r.tbl ∧ (c.link round.1).inQ.HoldsAt addReq.reqId r.idx := by
  obtain ⟨l, tbl⟩ := round
  cases tbl with
  | none => simp [visitOf_none] at hr
  | some tbl =>
    obtain ⟨hgate, hlook⟩ := mem_freshRounds h
    obtain ⟨idx, hfind⟩ := Option.isSome_iff_exists.mp hgate
    rw [visitOf_some type tbl hfind] at hr
    have hslot : r = ⟨tbl, idx⟩ := by
      cases hk : type.known <;> simp [hk] at hr
      exact hr
    rw [hslot]
    exact ⟨deviceTable_of_lookTbl hlook, findSlotForReq_holdsAt hfind⟩

theorem visitOf_written {c : Crm} {addReq : AddRequest} {type : SyncType} {tbl : Option TblRef}
    {ls : List ℕ} {round : ℕ × Option TblRef} (hknown : type.known = true)
    (h : round ∈ rounds (requestGate c addReq) (lookTbl c own addReq) tbl ls)
    (hreach : Reachable c own addReq round.1) : (visitOf c addReq type round).written ≠ [] := by
  obtain ⟨l, o⟩ := round
  have hfound : Found (requestGate c addReq) (lookTbl c own addReq) l := found_iff.mpr hreach
  cases o with
  | none => exact absurd hfound (not_found_of_mem_rounds h)
  | some t =>
    obtain ⟨idx, hfind⟩ := Option.isSome_iff_exists.mp hfound.1
    simp [visitOf_some type t hfind, hknown]

theorem map_link_visitOf {c : Crm} {addReq : AddRequest} {type : SyncType}
    {rs : List (ℕ × Option TblRef)} :
    (rs.map (visitOf c addReq type)).map Visit.link = rs.map Prod.fst := by
  rw [map_map]
  rfl

theorem propagates_of_fresh {c : Crm} {addReq : AddRequest} {slot : SlotRef} {type : SyncType}
    (h : rounds (requestGate c addReq) (lookTbl c own addReq) none (c.link own).syncLink =
      freshRounds (requestGate c addReq) (lookTbl c own addReq) (c.link own).syncLink) :
    Propagates c own addReq type (syncInfoForSyncMode c own addReq slot type) := by
  obtain ⟨hvisits, hframe, hfail, -, -, honly⟩ :=
    @syncLoop_spec own addReq slot type none 0 c c (c.link own).syncLink rfl _ rfl
  have hlinks : (syncInfoForSyncMode c own addReq slot type).visits.map Visit.link =
      (freshRounds (requestGate c addReq) (lookTbl c own addReq) (c.link own).syncLink).map Prod.fst := by
    rw [← h, ← map_link_visitOf, ← hvisits]
    rfl
  constructor
  · rw [hlinks]
    rcases @freshRounds_cases _ _ (requestGate c addReq) _ (lookTbl c own addReq) (c.link own).syncLink
      with ⟨hall, heq⟩ | ⟨p, l, q, hl, hp, hnot, heq⟩
    · exact .inl ⟨fun l hl => found_iff.mp (hall l hl), by simp [heq]⟩
    · refine .inr ⟨p, l, q, hl, fun x hx => found_iff.mp (hp x hx), fun hr => hnot (found_iff.mpr hr),
        by simp [heq], hfail ⟨l, ?_⟩⟩
      rw [h, heq]
      simp
  · intro v hv r hr
    rw [show (syncInfoForSyncMode c own addReq slot type).visits = _ from hvisits, h] at hv
    obtain ⟨round, hround, rfl⟩ := mem_map.mp hv
    exact visitOf_own_slot hround hr
  · intro hknown v hv hreach
    rw [show (syncInfoForSyncMode c own addReq slot type).visits = _ from hvisits] at hv
    obtain ⟨round, hround, rfl⟩ := mem_map.mp hv
    exact visitOf_written hknown hround hreach
  · exact hframe
  · exact honly

theorem propagates_of_unknown {c : Crm} {addReq : AddRequest} {slot : SlotRef} {type : SyncType}
    {p : List ℕ} {l : ℕ} (hknown : type.known = false) (hp : p ≠ [])
    (h : StaleAt (requestGate c addReq) (lookTbl c own addReq) (c.link own).syncLink p l []) :
    Propagates c own addReq type (syncInfoForSyncMode c own addReq slot type) := by
  obtain ⟨hvisits, hframe, -, hrc, -, honly⟩ :=
    @syncLoop_spec own addReq slot type none 0 c c (c.link own).syncLink rfl _ rfl
  have hsplit := (staleAt_iff.mp h).1
  obtain ⟨b, hrounds⟩ := @rounds_of_stale _ _ _ _ _ none _ _ _ _ h hp
  have hlinks : (syncInfoForSyncMode c own addReq slot type).visits.map Visit.link = p ++ [l] := by
    rw [show (syncInfoForSyncMode c own addReq slot type).visits = _ from hvisits, map_link_visitOf,
      hrounds]
    simp
  have hempty : ∀ v ∈ (syncInfoForSyncMode c own addReq slot type).visits, v.written = [] := by
    intro v hv
    rw [show (syncInfoForSyncMode c own addReq slot type).visits = _ from hvisits] at hv
    obtain ⟨round, -, rfl⟩ := mem_map.mp hv
    unfold visitOf
    split <;> simp [hknown]
  constructor
  · refine .inr ⟨p, l, [], hsplit, (staleAt_iff.mp h).2.1, fun hr => ?_, hlinks,
      hrc hknown (by rw [hsplit]; simp)⟩
    obtain ⟨tbl, htbl⟩ := hr.2
    exact (staleAt_iff.mp h).2.2.2 tbl htbl
  · intro v hv r hr
    simp [hempty v hv] at hr
  · simp [hknown]
  · exact hframe
  · exact honly

theorem not_propagates_of_stale {c : Crm} {addReq : AddRequest} {type : SyncType}
    (slot : SlotRef) (hstale : StaleTable c own addReq type) :
    ¬ Propagates c own addReq type (syncInfoForSyncMode c own addReq slot type) := by
  intro hprop
  obtain ⟨p, l, q, hsplit, hp, hreach, hreq, hdev, hseen⟩ := hstale
  have hat := staleAt_iff.mpr ⟨hsplit, hreach, hreq, hdev⟩
  have hnot : ¬ Reachable c own addReq l := fun hr => hr.2.elim hdev
  obtain ⟨hvisits, -⟩ :=
    @syncLoop_spec own addReq slot type none 0 c c (c.link own).syncLink rfl _ rfl
  obtain ⟨b, hrounds⟩ := @rounds_of_stale _ _ _ _ _ none _ _ _ _ hat hp
  rw [hrounds, map_append, map_cons] at hvisits
  cases hseen with
  | inl hknown =>
    -- the stale table is written at the index of the link that lacks the device
    obtain ⟨idx, hfind⟩ := Option.isSome_iff_exists.mp (requestGate_iff.mpr hreq)
    have hvisit : (⟨l, [⟨b, idx⟩]⟩ : Visit) ∈ (syncInfoForSyncMode c own addReq slot type).visits := by
      rw [show (syncInfoForSyncMode c own addReq slot type).visits = _ from hvisits,
        visitOf_some type b hfind]
      simp [hknown]
    exact hdev b (hprop.own_slot _ hvisit ⟨b, idx⟩ (by simp)).1
  | inr hq =>
    -- the loop goes on to the links behind it
    have hrest := @rounds_ne_nil _ _ (requestGate c addReq) _ (lookTbl c own addReq) (some b) q hq
    have hlinks : (syncInfoForSyncMode c own addReq slot type).visits.map Visit.link = p ++ l ::
        (rounds (requestGate c addReq) (lookTbl c own addReq) (some b) q).map Prod.fst := by
      rw [show (syncInfoForSyncMode c own addReq slot type).visits = _ from hvisits, map_append,
        map_cons, map_link_visitOf, map_link_visitOf]
      simp [visitOf]
    cases hprop.visits with
    | inl hall => exact hnot (hall.1 l (by rw [hsplit]; simp))
    | inr hfirst =>
      obtain ⟨p', l', q', -, hp', -, hlinks', -⟩ := hfirst
      rw [hlinks] at hlinks'
      exact hnot (hp' l (mem_of_append_eq hlinks' (by simpa using hrest)))

/-- **The sync links are told, each in its own table, iff no sync link behind others that have both has
the request without the device**: for such a link the table of an earlier one is still in the variable.
(For a type outside the enumeration nothing is written, and the loop must not go on behind that link.) -/
theorem propagates_iff (c : Crm) (own : ℕ) (addReq : AddRequest) (slot : SlotRef) (type : SyncType) :
    Propagates c own addReq type (syncInfoForSyncMode c own addReq slot type) ↔
      ¬ StaleTable c own addReq type := by
  constructor
  · exact fun hprop hstale => not_propagates_of_stale slot hstale hprop
  · intro hstale
    by_cases hfresh : rounds (requestGate c addReq) (lookTbl c own addReq) none (c.link own).syncLink =
        freshRounds (requestGate c addReq) (lookTbl c own addReq) (c.link own).syncLink
    · exact propagates_of_fresh hfresh
    · have hexists : ∃ p l q, p ≠ [] ∧
          StaleAt (requestGate c addReq) (lookTbl c own addReq) (c.link own).syncLink p l q := by
        by_contra hnone
        push Not at hnone
        exact hfresh (rounds_eq_freshRounds fun p l q hat =>
          ⟨by_contra fun hp => hnone p l q hp hat, rfl⟩)
      obtain ⟨p, l, q, hp, hat⟩ := hexists
      obtain ⟨hsplit, hreach, hreq, hdev⟩ := staleAt_iff.mp hat
      have hknown : type.known = false := by
        by_contra hk
        exact hstale ⟨p, l, q, hsplit, hp, hreach, hreq, hdev, .inl (by simpa using hk)⟩
      have hq : q = [] := by
        by_contra hne
        exact hstale ⟨p, l, q, hsplit, hp, hreach, hreq, hdev, .inr hne⟩
      exact propagates_of_unknown hknown hp (hq ▸ hat)

/-- A queue of the full size with one request in it, read from slot 0. -/
def oneRequest (reqId : BitVec 64) (idx : ℤ) : InQ where
  numSlots := 48
  slot i := ⟨0, .reqAdded, if i = idx then reqId else -1, syncModeSync, 0, ⟨2, by decide⟩, fun _ => 0, false⟩
  rdIdx := 0
  rd_range := by decide

def noOps : SpecialOps := ⟨[], false, by simp⟩

/-- A link with at most one device, of table 0. -/
def smallLink (linkHdl : ℤ) (devHdl : ℕ) (name : Option String) (inQ : InQ) (syncLink : List ℕ) : Link where
  linkHdl := linkHdl
  lDev := name.toList.map fun n => ⟨devHdl, 0, 0, n, 4, 2⟩
  inQ := inQ
  syncLink := syncLink
  maxDelay := 2
  prevApplyReqId _ := -1
  openReqCnt := 1
  hdl_ne d hd := by
    obtain ⟨n, -, rfl⟩ := List.mem_map.mp hd
    simp only [einval]
    omega
  hdl_inj d hd e he _ := by
    obtain ⟨n, hn, rfl⟩ := List.mem_map.mp hd
    obtain ⟨m, hm, rfl⟩ := List.mem_map.mp he
    cases name <;> simp_all

/-- Link 0 syncs with link 1, which has its sensor, and then with link 2, which has no device. -/
def sensorMissing : Crm where
  link
    | 0 => smallLink 10 257 (some "sensor") (oneRequest 7 2) [1, 2]
    | 1 => smallLink 11 258 (some "sensor") (oneRequest 7 3) [0, 2]
    | _ => smallLink 12 259 none (oneRequest 7 5) [0, 1]
  slot _ := ⟨0, .pending, 1, 0, noOps⟩
  devMask _ := 1
  linkPriv _ := none

/-- Slot 5 of the table of link 1 is written for link 2. -/
theorem not_propagates_sensorMissing :
    ¬ Propagates sensorMissing 0 ⟨257, 7, 1, 0, false, false⟩ .delayAtSof
      (syncInfoForSyncMode sensorMissing 0 ⟨257, 7, 1, 0, false, false⟩ ⟨⟨0, 0⟩, 2⟩ .delayAtSof) := by
  apply not_propagates_of_stale
  have hreach : Reachable sensorMissing 0 ⟨257, 7, 1, 0, false, false⟩ 1 := by
    refine ⟨⟨3, ?_⟩, ⟨1, 0⟩, ?_⟩
    · simp [InQ.HoldsAt, sensorMissing, smallLink, oneRequest]
    · simp [DeviceTable, sensorMissing, smallLink, devHandleToName]
  refine ⟨[1], 2, [], by simp [sensorMissing, smallLink], by simp, by simpa using hreach, ⟨5, ?_⟩, ?_,
    .inl (by simp [SyncType.known])⟩
  · simp [InQ.HoldsAt, sensorMissing, smallLink, oneRequest]
  · simp [DeviceTable, sensorMissing, smallLink]

end CrmSync
