import Sm8750Modules.CamReqMgr.SyncLinks

/-!
# Camera request manager — what a rejected operation leaves behind

Adding a request, cancelling one and reserving a link all change the state before the last check that can
still reject them.
-/

namespace CrmSync

open Sm8750Modules.CamReqMgr (CrmReqState einval)

def InQ.setSlot (inQ : InQ) (idx : ℤ) (s : Slot) : InQ :=
  { inQ with slot := Function.update inQ.slot idx s }

def Crm.setInQ (c : Crm) (l : ℕ) (idx : ℤ) (s : Slot) : Crm :=
  { c with link := Function.update c.link l { c.link l with inQ := (c.link l).inQ.setSlot idx s } }

def skipNext (c : Crm) (own : ℕ) (addReq : AddRequest) : Crm :=
  if addReq.triggerSkip then
    match findSlotForReq (c.link own).inQ (addReq.reqId + 1#64) with
    | some nextIdx => c.setInQ own nextIdx { (c.link own).inQ.slot nextIdx with skipSet := true }
    | none => c
  else c

def tellSyncLinks (c : Crm) (own : ℕ) (addReq : AddRequest) (slot : SlotRef) (mode : ℤ) (type : SyncType) :
    Crm × ℤ :=
  if mode = syncModeSync then
    let out := syncInfoForSyncMode c own addReq slot type
    (out.crm, out.rc)
  else (c, 0)

/-- A delay of a table slot, and how the sync links are told of it. -/
structure DelayField where
  get : TblSlot → ℕ
  set : TblSlot → ℕ → TblSlot
  type : SyncType
  known : type.known = true
  get_set : ∀ s delay, get (set s delay) = delay
  ops_set : ∀ s delay, (set s delay).ops = s.ops
  /-- A slot that is told of its own delay keeps it. -/
  self : ∀ s hdl s', syncWrite type s s hdl = some s' → s = s'

def delayAtSof : DelayField where
  get := TblSlot.injectDelayAtSof
  set s delay := { s with injectDelayAtSof := delay }
  type := .delayAtSof
  known := by simp [SyncType.known]
  get_set _ _ := by simp
  ops_set _ _ := by simp
  self s hdl s' h := by simpa [syncWrite] using h

def delayAtEof : DelayField where
  get := TblSlot.injectDelayAtEof
  set s delay := { s with injectDelayAtEof := delay }
  type := .delayAtEof
  known := by simp [SyncType.known]
  get_set _ _ := by simp
  ops_set _ _ := by simp
  self s hdl s' h := by simpa [syncWrite] using h

/-- The block for `skip_at_sof`, and the one for `skip_at_eof`. -/
def injectDelay (c : Crm) (own : ℕ) (addReq : AddRequest) (slot : SlotRef) (mode : ℤ) (f : DelayField)
    (skip : ℕ) : Crm × ℤ :=
  if f.get (c.slot slot) < skip &&& 0xFF then
    tellSyncLinks (c.setSlot slot (f.set (c.slot slot) (skip &&& 0xFF))) own addReq slot mode f.type
  else (c, 0)

/-- The block for `trigger_eof`: the flag is set before the room for one more device is checked. -/
def addAtEof (c : Crm) (own : ℕ) (addReq : AddRequest) (slot : SlotRef) (mode : ℤ) : Crm × ℤ :=
  if addReq.triggerEof then
    let s := { c.slot slot with ops := { (c.slot slot).ops with applyAtEof := true } }
    if s.ops.devHdl.length = maxDevForSpecialOps then (c.setSlot slot s, einval)
    else
      tellSyncLinks (c.setSlot slot { s with ops := s.ops.push addReq.devHdl }) own addReq slot mode
        .applyAtEof
  else (c, 0)

/-- The end of the function: the device has the request, and the slot is ready when all have it. -/
def markReady (c : Crm) (slot : SlotRef) (devBit : ℕ) : Crm :=
  let map := ((c.slot slot).reqReadyMap ||| 2 ^ devBit) % 2 ^ 32
  c.setSlot slot { c.slot slot with
    reqReadyMap := map
    state := if map = c.devMask slot.tbl then .ready else .pending }

/-- `cam_req_mgr_process_add_req`, with the link and the payload it is given. -/
def processAddReq (c : Crm) (priv : Option ℕ) (data : Option AddRequest) : Crm × ℤ :=
  match priv, data with
  | some own, some addReq =>
    match (c.link own).lDev.find? (fun device => device.devHdl = addReq.devHdl) with
    | none => (c, einval)
    | some device =>
      match findSlotForReq (c.link own).inQ addReq.reqId with
      | none => (c, ebadslt)
      | some idx =>
        let slot : SlotRef := ⟨⟨own, device.pdTbl⟩, idx⟩
        let mode := ((c.link own).inQ.slot idx).syncMode
        let sof := injectDelay (skipNext c own addReq) own addReq slot mode delayAtSof addReq.skipAtSof
        if sof.2 < 0 then sof
        else
          let eof := injectDelay sof.1 own addReq slot mode delayAtEof addReq.skipAtEof
          if eof.2 < 0 then eof
          else
            let apply := addAtEof eof.1 own addReq slot mode
            if apply.2 < 0 then apply else (markReady apply.1 slot device.devBit, apply.2)
  | _, _ => (c, einval)

/-! ### Cancelling a request -/

def enoent : ℤ := -2

def eperm : ℤ := -1

def enodev : ℤ := -19

def deviceIfe : ℕ := 4

def camPipelineDelayMax : ℤ := 3

def disconnected (linkHdl : ℤ) (syncSlot : Slot) : Slot :=
  { syncSlot with
    syncMode := syncModeNoSync
    numSyncLinks := ⟨0, by decide⟩
    syncLinkHdls := fun j => if syncSlot.syncLinkHdls j = linkHdl then 0 else syncSlot.syncLinkHdls j }

/-- One turn of `__cam_req_mgr_disconnect_req_on_sync_link`, for the sync link behind handle `hdl`. -/
def disconnectOn (c : Crm) (own : ℕ) (idx hdl : ℤ) : Crm :=
  match c.linkPriv hdl with
  | none => c
  | some l =>
    match findSlotForReq (c.link l).inQ ((c.link own).inQ.slot idx).reqId with
    | none => c
    | some syncIdx =>
      let syncSlot := (c.link l).inQ.slot syncIdx
      if syncSlot.syncMode = syncModeSync then
        c.setInQ l syncIdx (disconnected (c.link own).linkHdl syncSlot)
      else c

/-- `__cam_req_mgr_disconnect_req_on_sync_link` from turn `i` on, for slot `idx` of the link. -/
def disconnectFrom (c : Crm) (own : ℕ) (idx : ℤ) (i : ℕ) : Crm :=
  if h : i < ((c.link own).inQ.slot idx).numSyncLinks then
    disconnectFrom
      (disconnectOn c own idx (((c.link own).inQ.slot idx).syncLinkHdls ⟨i, by
        have := ((c.link own).inQ.slot idx).numSyncLinks.isLt
        simp only [maximumLinksPerSession] at *
        omega⟩))
      own idx (i + 1)
  else c
termination_by maximumLinksPerSession - i
decreasing_by
  have := ((c.link own).inQ.slot idx).numSyncLinks.isLt
  omega

def getDevPd (link : Link) (devId : ℕ) : ℤ :=
  match link.lDev.find? (fun dev => dev.devId = devId) with
  | some dev => dev.pDelay
  | none => enodev

/-- The loop for the highest delay whose devices can still be flushed, with the turns that are left. -/
def highestPd (link : Link) (reqId : BitVec 64) : ℕ → ℤ → ℤ
  | 0, pd => pd
  | n + 1, pd =>
    if reqId.toInt ≤ (link.prevApplyReqId (pd + 1)).toInt then pd else highestPd link reqId n (pd + 1)

/-- The devices that `__cam_req_mgr_flush_dev_with_max_pd` tells to flush. -/
def flushDevWithMaxPd (link : Link) (maxPd : ℤ) : List ℤ :=
  (link.lDev.filter fun device => device.pDelay ≤ maxPd).map Device.devHdl

/-- What a cancel leaves: the state, its result, and the devices that were told to flush. -/
structure CancelOutcome where
  crm : Crm
  rc : ℤ
  flushed : List ℤ

/-- The end of a cancel that goes through: the slot is skipped from now on. -/
def cancelSlot (c : Crm) (own : ℕ) (idx pd : ℤ) : CancelOutcome :=
  let slot := (c.link own).inQ.slot idx
  let c' := c.setInQ own idx { slot with additionalTimeout := 0, reqId := -1, skipIdx := 1 }
  let link := { c'.link own with openReqCnt := (c'.link own).openReqCnt - 1 }
  ⟨{ c' with link := Function.update c'.link own link }, 0, flushDevWithMaxPd (c.link own) pd⟩

/-- Before the checks of a cancel, the sync links let go of the request. -/
def cancelDisconnects (c : Crm) (own : ℕ) (idx : ℤ) : Crm :=
  if 0 < ((c.link own).inQ.slot idx).reqId.toInt ∧ ((c.link own).inQ.slot idx).numSyncLinks.val ≠ 0 then
    disconnectFrom c own idx 0
  else c

/-- The checks of a cancel, by the status of the slot, and what follows when they let it through. -/
def cancelByStatus (c : Crm) (own : ℕ) (reqId : BitVec 64) (idx : ℤ) : CancelOutcome :=
  let link := c.link own
  match (link.inQ.slot idx).status with
  | .reqPending | .reqApplied =>
    let pd := getDevPd link deviceIfe
    if pd < 0 ∨ camPipelineDelayMax ≤ pd then ⟨c, pd, []⟩
    else if reqId.toInt ≤ (link.prevApplyReqId pd).toInt then ⟨c, eperm, []⟩
    else cancelSlot c own idx (highestPd link reqId (link.maxDelay - pd).toNat pd)
  | .reqReady | .reqAdded => cancelSlot c own idx camPipelineDelayMax
  | .noReq | .invalid => ⟨c, einval, []⟩

/-- `__cam_req_mgr_try_cancel_req`, for the request of a flush. -/
def tryCancelReq (c : Crm) (own : ℕ) (reqId : BitVec 64) : CancelOutcome :=
  match findSlotForReq (c.link own).inQ reqId with
  | none => ⟨c, enoent, []⟩
  | some idx => cancelByStatus (cancelDisconnects c own idx) own reqId idx

def maximumLinksCapacity : ℕ := 8

/-- `struct cam_req_mgr_core_session`: which links it has. -/
structure Session where
  numLinks : ℕ
  links : Fin maximumLinksPerSession → Option (Fin maximumLinksCapacity)

/-- An entry of `g_links`: whether it is taken, whether it has an input queue, and its number of devices. -/
structure PoolLink where
  isUsed : Bool
  inQ : Bool
  numDevs : ℕ

structure Pool where
  gLinks : Fin maximumLinksCapacity → PoolLink
  session : Session

def firstIdx {n : ℕ} (p : Fin n → Bool) : Option (Fin n) := (List.finRange n).find? p

/-- `cam_req_mgr_core_link_reset`, and the entry is taken. -/
def takeLink (pool : Pool) (i : Fin maximumLinksCapacity) : Pool :=
  { pool with gLinks := Function.update pool.gLinks i ⟨true, false, 0⟩ }

/-- `__cam_req_mgr_reserve_link`: `present` says that neither pointer is NULL, `memory` that the input
queue can be allocated. -/
def reserveLink (pool : Pool) (present memory : Bool) : Pool × Option (Fin maximumLinksCapacity) :=
  if present = false then (pool, none)
  else if maximumLinksPerSession ≤ pool.session.numLinks then (pool, none)
  else
    match firstIdx fun i => !(pool.gLinks i).isUsed with
    | none => (pool, none)
    | some i =>
      let pool := takeLink pool i
      if memory = false then (pool, none)
      else
        let pool := { pool with gLinks := Function.update pool.gLinks i ⟨true, true, 0⟩ }
        match firstIdx fun j => (pool.session.links j).isNone with
        -- the queue is freed, the pointer to it and the entry stay as they are
        | none => (pool, none)
        | some j =>
          ({ pool with session :=
              ⟨pool.session.numLinks + 1, Function.update pool.session.links j (some i)⟩ }, some i)

/-- The link and its sync links: those it is in sync with, and those behind the handles in its queue. -/
def Peer (c : Crm) (own l : ℕ) : Prop :=
  l = own ∨ l ∈ (c.link own).syncLink ∨
    ∃ idx i, c.linkPriv (((c.link own).inQ.slot idx).syncLinkHdls i) = some l

structure Unchanged (c c' : Crm) (own : ℕ) : Prop where
  tables : ∀ r : SlotRef, Peer c own r.tbl.link → c'.slot r = c.slot r
  queues : ∀ l, Peer c own l → (c'.link l).inQ = (c.link l).inQ

/-- One of the operations, with its arguments and the state it finds. -/
inductive Operation
  | addReq (c : Crm) (priv : Option ℕ) (data : Option AddRequest)
  | tryCancelReq (c : Crm) (own : ℕ) (reqId : BitVec 64)
  | reserveLink (pool : Pool) (present memory : Bool)

/-- A rejection changes nothing. -/
def Rejection : Operation → Prop
  | .addReq c priv data =>
    (processAddReq c priv data).2 < 0 →
      ∀ own ∈ priv, Unchanged c (processAddReq c priv data).1 own
  | .tryCancelReq c own reqId =>
    (CrmSync.tryCancelReq c own reqId).rc ≠ 0 → Unchanged c (CrmSync.tryCancelReq c own reqId).crm own
  | .reserveLink pool present memory =>
    (CrmSync.reserveLink pool present memory).2 = none →
      ∀ i, ((CrmSync.reserveLink pool present memory).1.gLinks i).isUsed = (pool.gLinks i).isUsed

/-- The loop over the sync links returns an error. -/
def SyncFails (c : Crm) (own : ℕ) (addReq : AddRequest) : Prop :=
  (∃ l ∈ (c.link own).syncLink, ¬ HasRequest c addReq l) ∨
    ∃ l, (c.link own).syncLink.head? = some l ∧ ∀ tbl, ¬ DeviceTable c own addReq l tbl

theorem syncLoop_rc_of_some {own : ℕ} {addReq : AddRequest} {slot : SlotRef} {type : SyncType}
    {t : TblRef} {rc : ℤ} {c c₀ : Crm} {ls : List ℕ} (hknown : type.known = true) (hrc : 0 ≤ rc)
    (hlink : c.link = c₀.link) :
    (syncLoop own addReq slot type (some t) rc c ls).rc < 0 ↔ ∃ l ∈ ls, ¬ HasRequest c₀ addReq l := by
  induction ls generalizing t c with
  | nil => simp [syncLoop, hrc]
  | cons l ls ih =>
    rw [List.exists_mem_cons_iff]
    rcases @syncLoop_cons own addReq slot type (some t) rc c l ls with ⟨hgate, heq⟩ | ⟨-, hor, -⟩ |
      ⟨t', idx, c', rc', out', hgate, -, -, hout', hslot', -, -, hrc', heq⟩
    · rw [requestGate_congr hlink, requestGate_iff] at hgate
      rw [heq]
      simp [ebadslt, hgate]
    · simp at hor
    · rw [requestGate_congr hlink, requestGate_iff] at hgate
      have hlink' : c'.link = c₀.link := by rw [hslot', hlink]
      have hrest := @ih t' c' hlink'
      rw [hrc' hknown] at hout'
      rw [← hout'] at hrest
      rw [heq]
      simp only [hgate, not_true_eq_false, false_or]
      exact hrest

theorem syncInfoForSyncMode_rc {c : Crm} {own : ℕ} {addReq : AddRequest} {slot : SlotRef}
    {type : SyncType} (hknown : type.known = true) :
    (syncInfoForSyncMode c own addReq slot type).rc < 0 ↔ SyncFails c own addReq := by
  unfold syncInfoForSyncMode SyncFails
  cases (c.link own).syncLink with
  | nil => simp [syncLoop]
  | cons l ls =>
    simp only [List.head?_cons, Option.some.injEq, exists_eq_left', List.exists_mem_cons_iff]
    rcases @syncLoop_cons own addReq slot type none 0 c l ls with ⟨hgate, heq⟩ | ⟨-, hor, heq⟩ |
      ⟨t', idx, c', rc', out', hgate, hor, -, hout', hslot', -, -, hrc', heq⟩
    · rw [requestGate_iff] at hgate
      rw [heq]
      simp [ebadslt, hgate]
    · rw [Option.or_none, lookTbl_eq_none_iff] at hor
      rw [heq]
      simp [einval, hor]
    · rw [requestGate_iff] at hgate
      rw [Option.or_none] at hor
      have hdev : ¬ ∀ tbl, ¬ DeviceTable c own addReq l tbl :=
        fun h => h t' (deviceTable_of_lookTbl hor)
      have hrest := @syncLoop_rc_of_some own addReq slot type t' 0 c' c ls hknown (Int.le_refl 0)
        (by rw [hslot'])
      rw [hrc' hknown] at hout'
      rw [← hout'] at hrest
      rw [heq]
      simp only [hgate, hdev, not_true_eq_false, false_or, or_false]
      exact hrest

theorem syncLoop_own_slot {own : ℕ} {addReq : AddRequest} {slot : SlotRef} {type : SyncType}
    {R : TblSlot → TblSlot → Prop} (hrefl : ∀ s, R s s) (htrans : ∀ s s' s'', R s s' → R s' s'' → R s s'')
    (hwrite : ∀ s hdl s', syncWrite type s s hdl = some s' → R s s')
    {tbl : Option TblRef} {rc : ℤ} {c : Crm} {ls : List ℕ} :
    R (c.slot slot) ((syncLoop own addReq slot type tbl rc c ls).crm.slot slot) := by
  induction ls generalizing tbl rc c with
  | nil => exact hrefl _
  | cons l ls ih =>
    rw [syncLoop]
    split
    · exact hrefl _
    · next idx hfind =>
      simp only
      split
      · exact hrefl _
      · next t ht =>
        split
        · next s hs =>
          refine htrans _ _ _ ?_ ih
          by_cases hself : slot = ⟨t, idx⟩
          · rw [← hself] at hs ⊢
            simpa [Crm.setSlot] using hwrite _ _ _ hs
          · rw [Crm.setSlot_slot_of_ne hself]
            exact hrefl _
        · exact ih

variable (c : Crm)

theorem syncInfoForSyncMode_slots_only (own : ℕ) (addReq : AddRequest) (slot : SlotRef)
    (type : SyncType) : (syncInfoForSyncMode c own addReq slot type).crm =
      { c with slot := (syncInfoForSyncMode c own addReq slot type).crm.slot } := by
  obtain ⟨-, -, -, -, -, honly⟩ :=
    @syncLoop_spec own addReq slot type none 0 c c (c.link own).syncLink rfl _ rfl
  exact honly

/-! ### The blocks of adding a request -/

def TellFails (c : Crm) (own : ℕ) (addReq : AddRequest) (mode : ℤ) : Prop :=
  mode = syncModeSync ∧ SyncFails c own addReq

def Raises (f : DelayField) (skip : ℕ) (s : TblSlot) : Prop := f.get s < skip &&& 0xFF

def Full (s : TblSlot) : Prop := s.ops.devHdl.length = maxDevForSpecialOps

theorem tellSyncLinks_spec {c : Crm} {own : ℕ} {addReq : AddRequest} {slot : SlotRef} {mode : ℤ}
    {type : SyncType} (hknown : type.known = true) {out : Crm × ℤ}
    (hout : out = tellSyncLinks c own addReq slot mode type) :
    out.1 = { c with slot := out.1.slot } ∧ (out.2 < 0 ↔ TellFails c own addReq mode) := by
  unfold tellSyncLinks at hout
  unfold TellFails
  split at hout
  · next hmode =>
    rw [hout, ← @syncInfoForSyncMode_rc c own addReq slot type hknown]
    exact ⟨syncInfoForSyncMode_slots_only c own addReq slot type, by simp [hmode]⟩
  · next hmode => simp [hout, hmode]

theorem tellSyncLinks_slot {c : Crm} {own : ℕ} {addReq : AddRequest} {slot : SlotRef} {mode : ℤ}
    {type : SyncType} {out : Crm × ℤ} (hout : out = tellSyncLinks c own addReq slot mode type)
    {R : TblSlot → TblSlot → Prop} (hrefl : ∀ s, R s s) (htrans : ∀ s s' s'', R s s' → R s' s'' → R s s'')
    (hwrite : ∀ s hdl s', syncWrite type s s hdl = some s' → R s s') :
    R (c.slot slot) (out.1.slot slot) := by
  rw [hout]
  unfold tellSyncLinks
  split
  · exact syncLoop_own_slot hrefl htrans hwrite
  · exact hrefl _

@[simp] theorem Crm.setSlot_slot_self (r : SlotRef) (s : TblSlot) : (c.setSlot r s).slot r = s := by
  simp [Crm.setSlot]

theorem injectDelay_spec {c : Crm} {own : ℕ} {addReq : AddRequest} {slot : SlotRef} {mode : ℤ}
    {f : DelayField} {skip : ℕ} {out : Crm × ℤ} (hout : out = injectDelay c own addReq slot mode f skip) :
    out.1 = { c with slot := out.1.slot } ∧
      (out.2 < 0 ↔ Raises f skip (c.slot slot) ∧ TellFails c own addReq mode) ∧
      (Raises f skip (c.slot slot) → out.1.slot slot = f.set (c.slot slot) (skip &&& 0xFF)) ∧
      (¬ Raises f skip (c.slot slot) → out.1 = c) := by
  unfold injectDelay at hout
  unfold Raises
  split at hout
  · next hraise =>
    obtain ⟨hslots, hrc⟩ := tellSyncLinks_spec f.known hout
    have hslot := tellSyncLinks_slot hout (R := Eq) (fun _ => rfl) (fun _ _ _ => Eq.trans) f.self
    rw [Crm.setSlot_slot_self] at hslot
    refine ⟨?_, ?_, fun _ => hslot.symm, fun h => absurd hraise h⟩
    · rw [hslots]
      rfl
    · rw [hrc]
      exact (and_iff_right hraise).symm
  · next hraise => simp [hout, hraise]

/-- A sync slot keeps what an EOF write does not touch, and has at least as many devices. -/
def KeepsDelays (s s' : TblSlot) : Prop :=
  s.injectDelayAtSof = s'.injectDelayAtSof ∧ s.injectDelayAtEof = s'.injectDelayAtEof ∧
    s.ops.devHdl.length ≤ s'.ops.devHdl.length

theorem KeepsDelays.refl (s : TblSlot) : KeepsDelays s s := by
  simp [KeepsDelays]

theorem KeepsDelays.trans (s s' s'' : TblSlot) (h : KeepsDelays s s') (h' : KeepsDelays s' s'') :
    KeepsDelays s s'' :=
  ⟨h.1.trans h'.1, h.2.1.trans h'.2.1, h.2.2.trans h'.2.2⟩

theorem SpecialOps.length_push (ops : SpecialOps) (hdl : ℤ) : (ops.push hdl).devHdl.length =
    if ops.devHdl.length = maxDevForSpecialOps then ops.devHdl.length else ops.devHdl.length + 1 := by
  unfold SpecialOps.push
  split <;> simp [*]

theorem keepsDelays_applyAtEof {s s' : TblSlot} {hdl : ℤ}
    (h : syncWrite .applyAtEof s s hdl = some s') : KeepsDelays s s' := by
  simp only [syncWrite, Option.some.injEq] at h
  rw [← h]
  refine ⟨rfl, rfl, ?_⟩
  rw [SpecialOps.length_push]
  split <;> simp

theorem addAtEof_spec {c : Crm} {own : ℕ} {addReq : AddRequest} {slot : SlotRef} {mode : ℤ}
    {out : Crm × ℤ} (hout : out = addAtEof c own addReq slot mode) :
    out.1 = { c with slot := out.1.slot } ∧
      (out.2 < 0 ↔ addReq.triggerEof ∧ (Full (c.slot slot) ∨ TellFails c own addReq mode)) ∧
      KeepsDelays (c.slot slot) (out.1.slot slot) ∧
      (addReq.triggerEof → ¬ Full (c.slot slot) →
        (c.slot slot).ops.devHdl.length < (out.1.slot slot).ops.devHdl.length) ∧
      (addReq.triggerEof → Full (c.slot slot) → out.1 = c.setSlot slot
        { c.slot slot with ops := { (c.slot slot).ops with applyAtEof := true } }) := by
  unfold addAtEof at hout
  cases heof : addReq.triggerEof with
  | false => simp [hout, heof, KeepsDelays]
  | true =>
    simp only [heof, if_true] at hout
    split at hout
    · next hfull =>
      have hfull' : Full (c.slot slot) := hfull
      refine ⟨by simp [hout, Crm.setSlot], by simp [hout, hfull', einval], ?_, fun _ h => absurd hfull' h,
        fun _ _ => by rw [hout]⟩
      rw [hout]
      simp [KeepsDelays]
    · next hfull =>
      have hfull' : ¬ Full (c.slot slot) := hfull
      obtain ⟨hslots, hrc⟩ := @tellSyncLinks_spec _ _ _ _ _ .applyAtEof (by simp [SyncType.known]) _ hout
      have hkeep := tellSyncLinks_slot hout KeepsDelays.refl KeepsDelays.trans
        (fun _ _ _ => keepsDelays_applyAtEof)
      rw [Crm.setSlot_slot_self] at hkeep
      obtain ⟨hsof, heof', hlen⟩ := hkeep
      rw [SpecialOps.length_push, if_neg hfull] at hlen
      have hgrow : (c.slot slot).ops.devHdl.length < (out.1.slot slot).ops.devHdl.length := hlen
      refine ⟨?_, ?_, ⟨hsof, heof', hgrow.le⟩, fun _ _ => hgrow, fun _ h => absurd h hfull'⟩
      · rw [hslots]
        rfl
      · rw [hrc]
        simp only [hfull', false_or, true_and]
        exact Iff.rfl

def MarksNext (c : Crm) (own : ℕ) (addReq : AddRequest) : Prop :=
  addReq.triggerSkip ∧ ∃ nextIdx, findSlotForReq (c.link own).inQ (addReq.reqId + 1#64) = some nextIdx ∧
    ((c.link own).inQ.slot nextIdx).skipSet = false

structure SameRequests (c c' : Crm) : Prop where
  lDev : ∀ l, (c'.link l).lDev = (c.link l).lDev
  syncLink : ∀ l, (c'.link l).syncLink = (c.link l).syncLink
  holdsAt : ∀ l reqId idx, (c'.link l).inQ.HoldsAt reqId idx ↔ (c.link l).inQ.HoldsAt reqId idx

theorem SameRequests.refl : SameRequests c c := ⟨fun _ => rfl, fun _ => rfl, fun _ _ _ => Iff.rfl⟩

theorem Crm.setInQ_link_self (l : ℕ) (idx : ℤ) (s : Slot) :
    (c.setInQ l idx s).link l = { c.link l with inQ := (c.link l).inQ.setSlot idx s } := by
  simp [Crm.setInQ]

variable {l : ℕ}

theorem Crm.setInQ_link_of_ne {l' : ℕ} (idx : ℤ) (s : Slot) (h : l' ≠ l) :
    (c.setInQ l idx s).link l' = c.link l' := by
  simp [Crm.setInQ, h]

theorem InQ.slot_setSlot (inQ : InQ) (idx i : ℤ) (s : Slot) :
    (inQ.setSlot idx s).slot i = if i = idx then s else inQ.slot i := by
  simp [InQ.setSlot, Function.update_apply]

theorem InQ.setSlot_self (inQ : InQ) (idx : ℤ) : inQ.setSlot idx (inQ.slot idx) = inQ := by
  simp [InQ.setSlot]

variable {idx : ℤ}

theorem SameRequests.setInQ {c : Crm} {s : Slot}
    (h : s.reqId = ((c.link l).inQ.slot idx).reqId) : SameRequests c (c.setInQ l idx s) := by
  have hlink : ∀ l', ((c.setInQ l idx s).link l').lDev = (c.link l').lDev ∧
      ((c.setInQ l idx s).link l').syncLink = (c.link l').syncLink ∧
      ∀ reqId i, ((c.setInQ l idx s).link l').inQ.HoldsAt reqId i ↔ (c.link l').inQ.HoldsAt reqId i := by
    intro l'
    by_cases hl : l' = l
    · rw [hl, Crm.setInQ_link_self]
      refine ⟨rfl, rfl, fun reqId i => ?_⟩
      unfold InQ.HoldsAt
      rw [InQ.slot_setSlot]
      split
      · next hi => rw [h, hi]; exact Iff.rfl
      · exact Iff.rfl
    · rw [Crm.setInQ_link_of_ne c idx s hl]
      exact ⟨rfl, rfl, fun _ _ => Iff.rfl⟩
  exact ⟨fun l' => (hlink l').1, fun l' => (hlink l').2.1, fun l' => (hlink l').2.2⟩

theorem SameRequests.tellFails {c c' : Crm} {own : ℕ} {addReq : AddRequest} {mode : ℤ}
    (h : SameRequests c c') : TellFails c' own addReq mode ↔ TellFails c own addReq mode := by
  unfold TellFails SyncFails HasRequest DeviceTable devHandleToName
  simp only [h.lDev, h.syncLink, h.holdsAt]

theorem skipNext_spec (own : ℕ) (addReq : AddRequest) :
    SameRequests c (skipNext c own addReq) ∧ (skipNext c own addReq).slot = c.slot ∧
      (MarksNext c own addReq → ((skipNext c own addReq).link own).inQ ≠ (c.link own).inQ) ∧
      (¬ MarksNext c own addReq → ∀ l, ((skipNext c own addReq).link l).inQ = (c.link l).inQ) := by
  unfold skipNext MarksNext
  split
  · next htrigger =>
    split
    · next nextIdx hfind =>
      refine ⟨SameRequests.setInQ rfl, rfl, ?_, ?_⟩
      · intro hmarks heq
        obtain ⟨-, next, hnext, hunset⟩ := hmarks
        obtain rfl : nextIdx = next := by simpa [hfind] using hnext
        rw [Crm.setInQ_link_self] at heq
        have hset := congrArg (fun q => (q.slot nextIdx).skipSet) heq
        simp [InQ.slot_setSlot, hunset] at hset
      · intro hmarks l
        have hset : ((c.link own).inQ.slot nextIdx).skipSet = true := by
          by_contra hunset
          exact hmarks ⟨htrigger, nextIdx, hfind, by simpa using hunset⟩
        have hsame : { (c.link own).inQ.slot nextIdx with skipSet := true } =
            (c.link own).inQ.slot nextIdx := by rw [← hset]
        rw [hsame]
        by_cases hl : l = own
        · rw [hl, Crm.setInQ_link_self, InQ.setSlot_self]
        · rw [Crm.setInQ_link_of_ne c _ _ hl]
    · next hnone => simp [hnone, SameRequests.refl]
  · next htrigger => simp [htrigger, SameRequests.refl]

def AddRejected (c : Crm) (own : ℕ) (addReq : AddRequest) (mode : ℤ) (s : TblSlot) : Prop :=
  (TellFails c own addReq mode ∧ (Raises delayAtSof addReq.skipAtSof s ∨
    Raises delayAtEof addReq.skipAtEof s ∨ addReq.triggerEof)) ∨ (addReq.triggerEof ∧ Full s)

/-- Something has been changed by then. -/
def AddChanges (c : Crm) (own : ℕ) (addReq : AddRequest) (s : TblSlot) : Prop :=
  MarksNext c own addReq ∨ Raises delayAtSof addReq.skipAtSof s ∨ Raises delayAtEof addReq.skipAtEof s ∨
    (addReq.triggerEof ∧ (¬ Full s ∨ s.ops.applyAtEof = false))

theorem Peer.self (own : ℕ) : Peer c own own := .inl rfl

theorem tellFails_of_slots {c c' : Crm} {own : ℕ} {addReq : AddRequest} {mode : ℤ}
    (h : c' = { c with slot := c'.slot }) : TellFails c' own addReq mode ↔ TellFails c own addReq mode := by
  rw [h]
  exact Iff.rfl

theorem injectDelays_spec {c : Crm} {own : ℕ} {addReq : AddRequest} {slot : SlotRef} {mode : ℤ}
    {sof eof : Crm × ℤ} (hsof : sof = injectDelay c own addReq slot mode delayAtSof addReq.skipAtSof)
    (heof : eof = injectDelay sof.1 own addReq slot mode delayAtEof addReq.skipAtEof) :
    eof.1 = { c with slot := eof.1.slot } ∧
      (sof.2 < 0 ↔ Raises delayAtSof addReq.skipAtSof (c.slot slot) ∧ TellFails c own addReq mode) ∧
      (eof.2 < 0 ↔ Raises delayAtEof addReq.skipAtEof (c.slot slot) ∧ TellFails c own addReq mode) ∧
      (Raises delayAtSof addReq.skipAtSof (c.slot slot) →
        (c.slot slot).injectDelayAtSof < (sof.1.slot slot).injectDelayAtSof ∧
        (c.slot slot).injectDelayAtSof < (eof.1.slot slot).injectDelayAtSof) ∧
      (Raises delayAtEof addReq.skipAtEof (c.slot slot) →
        (c.slot slot).injectDelayAtEof < (eof.1.slot slot).injectDelayAtEof) ∧
      (eof.1.slot slot).ops = (c.slot slot).ops ∧
      (¬ Raises delayAtSof addReq.skipAtSof (c.slot slot) →
        ¬ Raises delayAtEof addReq.skipAtEof (c.slot slot) → eof.1 = c) := by
  obtain ⟨hslots, hrc, hraise, hkeep⟩ := injectDelay_spec hsof
  obtain ⟨hslots', hrc', hraise', hkeep'⟩ := injectDelay_spec heof
  -- the first block leaves what the second one reads
  have hold : (sof.1.slot slot).injectDelayAtEof = (c.slot slot).injectDelayAtEof ∧
      (sof.1.slot slot).ops = (c.slot slot).ops := by
    by_cases h : Raises delayAtSof addReq.skipAtSof (c.slot slot)
    · simp [hraise h, delayAtSof]
    · simp [hkeep h]
  have hold' : (eof.1.slot slot).injectDelayAtSof = (sof.1.slot slot).injectDelayAtSof ∧
      (eof.1.slot slot).ops = (sof.1.slot slot).ops := by
    by_cases h : Raises delayAtEof addReq.skipAtEof (sof.1.slot slot)
    · simp [hraise' h, delayAtEof]
    · simp [hkeep' h]
  have hiff : Raises delayAtEof addReq.skipAtEof (sof.1.slot slot) ↔
      Raises delayAtEof addReq.skipAtEof (c.slot slot) := by
    simp only [Raises, delayAtEof, hold.1]
  refine ⟨?_, hrc, ?_, ?_, ?_, hold'.2.trans hold.2, ?_⟩
  · rw [hslots', hslots]
  · rw [hrc', hiff, tellFails_of_slots hslots]
  · intro h
    have hlt : (c.slot slot).injectDelayAtSof < (sof.1.slot slot).injectDelayAtSof := by
      rw [hraise h]
      exact h
    exact ⟨hlt, hold'.1 ▸ hlt⟩
  · intro h
    rw [hraise' (hiff.mpr h)]
    exact h
  · exact fun h h' => (hkeep' fun hr => h' (hiff.mp hr)).trans (hkeep h)

theorem Unchanged.slot_and_queue {c c' : Crm} {own : ℕ} {r : SlotRef} (h : Unchanged c c' own)
    (hr : r.tbl.link = own) : c'.slot r = c.slot r ∧ (c'.link own).inQ = (c.link own).inQ :=
  ⟨h.tables r (hr ▸ Peer.self c own), h.queues own (Peer.self c own)⟩

theorem addReq_iff {c : Crm} {own : ℕ} {addReq : AddRequest} {device : Device}
    (hdev : (c.link own).lDev.find? (fun device => device.devHdl = addReq.devHdl) = some device)
    (hidx : findSlotForReq (c.link own).inQ addReq.reqId = some idx) :
    Rejection (.addReq c (some own) (some addReq)) ↔
      ¬ (AddRejected c own addReq ((c.link own).inQ.slot idx).syncMode (c.slot ⟨⟨own, device.pdTbl⟩, idx⟩) ∧
        AddChanges c own addReq (c.slot ⟨⟨own, device.pdTbl⟩, idx⟩)) := by
  simp only [Rejection, processAddReq, hdev, hidx, Option.mem_some_iff, forall_eq']
  obtain ⟨hreq, hslot₁, hmarks, hkeeps⟩ := skipNext_spec c own addReq
  generalize skipNext c own addReq = c₁ at *
  generalize ((c.link own).inQ.slot idx).syncMode = mode
  generalize hr : (⟨⟨own, device.pdTbl⟩, idx⟩ : SlotRef) = slot
  have hown : slot.tbl.link = own := by rw [← hr]
  generalize hsof : injectDelay c₁ own addReq slot mode delayAtSof addReq.skipAtSof = sof
  generalize heof : injectDelay sof.1 own addReq slot mode delayAtEof addReq.skipAtEof = eof
  generalize happly : addAtEof eof.1 own addReq slot mode = apply
  obtain ⟨hslots, hsof_rc, heof_rc, hsof_raise, heof_raise, hops, hkeep⟩ :=
    injectDelays_spec hsof.symm heof.symm
  obtain ⟨happly_slots, happly_rc, ⟨hsame_sof, hsame_eof, -⟩, hgrow, hfull⟩ := addAtEof_spec happly.symm
  have htell := @SameRequests.tellFails c c₁ own addReq mode hreq
  rw [tellFails_of_slots hslots, htell] at happly_rc
  rw [htell, hslot₁] at hsof_rc heof_rc
  rw [hslot₁] at hsof_raise heof_raise hops hkeep
  have hfull_iff : Full (eof.1.slot slot) ↔ Full (c.slot slot) := by
    unfold Full
    rw [hops]
  rw [hfull_iff] at happly_rc hgrow hfull
  by_cases h₁ : sof.2 < 0
  · -- the sync links have rejected the SOF delay, which is stored
    obtain ⟨hraise, hfails⟩ := hsof_rc.mp h₁
    rw [if_pos h₁]
    refine iff_of_false (fun h => ?_) fun h => h ⟨.inl ⟨hfails, .inl hraise⟩, .inr (.inl hraise)⟩
    have hlt := (hsof_raise hraise).1
    rw [((h h₁).slot_and_queue hown).1] at hlt
    exact lt_irrefl _ hlt
  rw [if_neg h₁]
  by_cases h₂ : eof.2 < 0
  · -- they have rejected the EOF delay
    obtain ⟨hraise, hfails⟩ := heof_rc.mp h₂
    rw [if_pos h₂]
    refine iff_of_false (fun h => ?_)
      fun h => h ⟨.inl ⟨hfails, .inr (.inl hraise)⟩, .inr (.inr (.inl hraise))⟩
    have hlt := heof_raise hraise
    rw [((h h₂).slot_and_queue hown).1] at hlt
    exact lt_irrefl _ hlt
  rw [if_neg h₂]
  by_cases h₃ : apply.2 < 0
  · -- the EOF request finds no room, or the sync links have rejected it
    obtain ⟨heof_trigger, hwhy⟩ := happly_rc.mp h₃
    rw [if_pos h₃]
    have hrejected : AddRejected c own addReq mode (c.slot slot) := by
      cases hwhy with
      | inl h => exact .inr ⟨heof_trigger, h⟩
      | inr h => exact .inl ⟨h, .inr (.inr heof_trigger)⟩
    by_cases hchanges : AddChanges c own addReq (c.slot slot)
    · refine iff_of_false (fun h => ?_) fun h => h ⟨hrejected, hchanges⟩
      obtain ⟨hsame, hqueue⟩ := (h h₃).slot_and_queue hown
      rcases hchanges with hmark | hraise | hraise | ⟨-, hnot_full | hunset⟩
      · rw [happly_slots, hslots] at hqueue
        exact hmarks hmark hqueue
      · have hlt := (hsof_raise hraise).2
        rw [hsame_sof, hsame] at hlt
        exact lt_irrefl _ hlt
      · have hlt := heof_raise hraise
        rw [hsame_eof, hsame] at hlt
        exact lt_irrefl _ hlt
      · have hlt := hgrow heof_trigger hnot_full
        rw [hops, hsame] at hlt
        exact lt_irrefl _ hlt
      · by_cases hf : Full (c.slot slot)
        · rw [hfull heof_trigger hf, Crm.setSlot_slot_self] at hsame
          rw [← hsame] at hunset
          simp at hunset
        · have hlt := hgrow heof_trigger hf
          rw [hops, hsame] at hlt
          exact lt_irrefl _ hlt
    · refine iff_of_true (fun _ => ?_) fun h => hchanges h.2
      unfold AddChanges at hchanges
      push Not at hchanges
      obtain ⟨hmark, hno_sof, hno_eof, hno_apply⟩ := hchanges
      have hf := (hno_apply heof_trigger).1
      have hset : ((c.slot slot).ops.applyAtEof) = true := by simpa using (hno_apply heof_trigger).2
      have hsame : ∀ r, apply.1.slot r = c.slot r := by
        intro r
        rw [hfull heof_trigger hf, hkeep hno_sof hno_eof, ← hslot₁]
        by_cases hrs : r = slot
        · rw [hrs, Crm.setSlot_slot_self, hslot₁, ← hset]
        · exact Crm.setSlot_slot_of_ne hrs
      refine ⟨fun r _ => hsame r, fun l _ => ?_⟩
      rw [happly_slots, hslots]
      exact hkeeps hmark l
  · -- the request is taken
    rw [if_neg h₃]
    refine iff_of_true (fun h => absurd h h₃) fun h => ?_
    rcases h.1 with ⟨hfails, hraise | hraise | htrigger⟩ | hfull_rejected
    · exact h₁ (hsof_rc.mpr ⟨hraise, hfails⟩)
    · exact h₂ (heof_rc.mpr ⟨hraise, hfails⟩)
    · exact h₃ (happly_rc.mpr ⟨htrigger, .inr hfails⟩)
    · exact h₃ (happly_rc.mpr ⟨hfull_rejected.1, .inl hfull_rejected.2⟩)

/-! ### A rejected cancel -/

structure SlotStep (s s' : Slot) : Prop where
  reqId : s'.reqId = s.reqId
  status : s'.status = s.status
  left_alone : s'.syncMode = syncModeSync → s' = s

theorem SlotStep.refl (s : Slot) : SlotStep s s := ⟨rfl, rfl, fun _ => rfl⟩

theorem SlotStep.trans {s s' s'' : Slot} (h : SlotStep s s') (h' : SlotStep s' s'') : SlotStep s s'' where
  reqId := h'.reqId.trans h.reqId
  status := h'.status.trans h.status
  left_alone hsync := by
    have heq := h'.left_alone hsync
    rw [heq] at hsync ⊢
    exact h.left_alone hsync

theorem slotStep_disconnected (linkHdl : ℤ) (s : Slot) : SlotStep s (disconnected linkHdl s) where
  reqId := rfl
  status := rfl
  left_alone hsync := by simp [disconnected, syncModeNoSync, syncModeSync] at hsync

structure LinkStep (c c' : Crm) : Prop where
  lDev : ∀ l, (c'.link l).lDev = (c.link l).lDev
  prevApplyReqId : ∀ l, (c'.link l).prevApplyReqId = (c.link l).prevApplyReqId
  slot : ∀ l idx, SlotStep ((c.link l).inQ.slot idx) ((c'.link l).inQ.slot idx)
  tables : c'.slot = c.slot

theorem LinkStep.refl : LinkStep c c :=
  ⟨fun _ => rfl, fun _ => rfl, fun _ _ => SlotStep.refl _, rfl⟩

theorem LinkStep.trans {c c' c'' : Crm} (h : LinkStep c c') (h' : LinkStep c' c'') : LinkStep c c'' where
  lDev l := (h'.lDev l).trans (h.lDev l)
  prevApplyReqId l := (h'.prevApplyReqId l).trans (h.prevApplyReqId l)
  slot l idx := (h.slot l idx).trans (h'.slot l idx)
  tables := h'.tables.trans h.tables

theorem LinkStep.setInQ {c : Crm} {s : Slot}
    (h : SlotStep ((c.link l).inQ.slot idx) s) : LinkStep c (c.setInQ l idx s) := by
  refine ⟨fun l' => ?_, fun l' => ?_, fun l' i => ?_, rfl⟩
  all_goals by_cases hl : l' = l
  all_goals first
    | rw [Crm.setInQ_link_of_ne c idx s hl]
    | rw [hl, Crm.setInQ_link_self]
  · rw [InQ.slot_setSlot]
    split
    · next hi => exact hi ▸ h
    · exact SlotStep.refl _
  · exact SlotStep.refl _

/-- The sync link behind a handle holds the request of the slot, in sync mode. -/
def SyncsAt (c : Crm) (own : ℕ) (idx hdl : ℤ) (l : ℕ) (syncIdx : ℤ) : Prop :=
  c.linkPriv hdl = some l ∧
    findSlotForReq (c.link l).inQ ((c.link own).inQ.slot idx).reqId = some syncIdx ∧
    ((c.link l).inQ.slot syncIdx).syncMode = syncModeSync

theorem disconnectOn_cases (own : ℕ) (idx hdl : ℤ) :
    (∃ l syncIdx, SyncsAt c own idx hdl l syncIdx ∧ disconnectOn c own idx hdl =
      c.setInQ l syncIdx (disconnected (c.link own).linkHdl ((c.link l).inQ.slot syncIdx))) ∨
    ((∀ l syncIdx, ¬ SyncsAt c own idx hdl l syncIdx) ∧ disconnectOn c own idx hdl = c) := by
  unfold disconnectOn SyncsAt
  cases hpriv : c.linkPriv hdl with
  | none => simp
  | some l =>
    simp only
    cases hfind : findSlotForReq (c.link l).inQ ((c.link own).inQ.slot idx).reqId with
    | none =>
      refine .inr ⟨fun l' i h => ?_, rfl⟩
      obtain ⟨hl, hi, -⟩ := h
      obtain rfl : l = l' := by simpa using hl
      simp [hfind] at hi
    | some syncIdx =>
      by_cases hmode : ((c.link l).inQ.slot syncIdx).syncMode = syncModeSync
      · exact .inl ⟨l, syncIdx, ⟨rfl, hfind, hmode⟩, by simp [hmode]⟩
      · refine .inr ⟨fun l' i h => ?_, by simp [hmode]⟩
        obtain ⟨hl, hi, hsync⟩ := h
        obtain rfl : l = l' := by simpa using hl
        obtain rfl : syncIdx = i := by simpa [hfind] using hi
        exact hmode hsync

theorem disconnectOn_step (own : ℕ) (idx hdl : ℤ) : LinkStep c (disconnectOn c own idx hdl) := by
  rcases disconnectOn_cases c own idx hdl with ⟨l, syncIdx, -, heq⟩ | ⟨-, heq⟩
  · rw [heq]
    exact LinkStep.setInQ (slotStep_disconnected _ _)
  · rw [heq]
    exact LinkStep.refl c

theorem lt_maximumLinks {slot : Slot} {i : ℕ} (h : i < slot.numSyncLinks) :
    i < maximumLinksPerSession - 1 := by
  have hlt := slot.numSyncLinks.isLt
  simp only [maximumLinksPerSession] at *
  omega

theorem disconnectFrom_step (own : ℕ) (idx : ℤ) (i : ℕ) : LinkStep c (disconnectFrom c own idx i) := by
  induction c, i using disconnectFrom.induct own idx with
  | case1 c i h ih =>
    rw [disconnectFrom, dif_pos h]
    exact (disconnectOn_step c own idx _).trans ih
  | case2 c i h =>
    rw [disconnectFrom, dif_neg h]
    exact LinkStep.refl c

/-- Some turn from `i` on finds a slot in sync mode. -/
def DisconnectsFrom (c : Crm) (own : ℕ) (idx : ℤ) (i : ℕ) : Prop :=
  ∃ k : Fin (maximumLinksPerSession - 1), i ≤ k ∧ k < ((c.link own).inQ.slot idx).numSyncLinks.val ∧
    ∃ l syncIdx, SyncsAt c own idx (((c.link own).inQ.slot idx).syncLinkHdls k) l syncIdx

theorem disconnectFrom_of_none {c : Crm} {own : ℕ} {i : ℕ}
    (h : ¬ DisconnectsFrom c own idx i) : disconnectFrom c own idx i = c := by
  induction c, i using disconnectFrom.induct own idx with
  | case1 c i hi ih =>
    rw [disconnectFrom, dif_pos hi]
    have hturn := disconnectOn_cases c own idx
      (((c.link own).inQ.slot idx).syncLinkHdls ⟨i, lt_maximumLinks hi⟩)
    rcases hturn with ⟨l, syncIdx, hsync, -⟩ | ⟨-, heq⟩
    · exact absurd ⟨_, Nat.le_refl i, hi, l, syncIdx, hsync⟩ h
    · rw [heq] at ih ⊢
      apply ih
      intro hlater
      obtain ⟨k, hk, hrest⟩ := hlater
      exact h ⟨k, by omega, hrest⟩
  | case2 c i hi => rw [disconnectFrom, dif_neg hi]

theorem disconnectFrom_of_some {c : Crm} {own : ℕ} {i : ℕ} (h : DisconnectsFrom c own idx i) :
    ∃ k l syncIdx, c.linkPriv (((c.link own).inQ.slot idx).syncLinkHdls k) = some l ∧
      ((c.link l).inQ.slot syncIdx).syncMode = syncModeSync ∧
      (((disconnectFrom c own idx i).link l).inQ.slot syncIdx).syncMode ≠ syncModeSync := by
  induction c, i using disconnectFrom.induct own idx with
  | case1 c i hi ih =>
    rw [disconnectFrom, dif_pos hi]
    have hturn := disconnectOn_cases c own idx
      (((c.link own).inQ.slot idx).syncLinkHdls ⟨i, lt_maximumLinks hi⟩)
    rcases hturn with ⟨l, syncIdx, hsync, heq⟩ | ⟨hnone, heq⟩
    · refine ⟨_, l, syncIdx, hsync.1, hsync.2.2, fun hmode => ?_⟩
      -- no later turn puts the slot back
      rw [heq] at hmode
      have hstep := (disconnectFrom_step (c.setInQ l syncIdx
        (disconnected (c.link own).linkHdl ((c.link l).inQ.slot syncIdx))) own idx (i + 1)).slot l syncIdx
      rw [hstep.left_alone hmode, Crm.setInQ_link_self] at hmode
      simp [InQ.slot_setSlot, disconnected, syncModeNoSync, syncModeSync] at hmode
    · rw [heq] at ih ⊢
      apply ih
      obtain ⟨k, hk, hlt, l, syncIdx, hsync⟩ := h
      refine ⟨k, ?_, hlt, l, syncIdx, hsync⟩
      have hne : i ≠ k := by
        intro hik
        refine hnone l syncIdx ?_
        have hfin : k = ⟨i, by omega⟩ := Fin.ext hik.symm
        rw [hfin] at hsync
        exact hsync
      omega
  | case2 c i hi =>
    obtain ⟨k, hk, hlt, -⟩ := h
    omega

/-- The cancel is rejected: the slot has no request in flight, or the request has been applied, or the
link has no IFE with a delay in range. -/
def CancelRejected (link : Link) (idx : ℤ) (reqId : BitVec 64) : Prop :=
  match (link.inQ.slot idx).status with
  | .reqPending | .reqApplied =>
    getDevPd link deviceIfe < 0 ∨ camPipelineDelayMax ≤ getDevPd link deviceIfe ∨
      reqId.toInt ≤ (link.prevApplyReqId (getDevPd link deviceIfe)).toInt
  | .reqReady | .reqAdded => False
  | .noReq | .invalid => True

theorem cancelDisconnects_step (own : ℕ) (idx : ℤ) : LinkStep c (cancelDisconnects c own idx) := by
  unfold cancelDisconnects
  split
  · exact disconnectFrom_step c own idx 0
  · exact LinkStep.refl c

theorem CancelRejected.congr {c c' : Crm} {own : ℕ} {reqId : BitVec 64} (h : LinkStep c c') :
    CancelRejected (c'.link own) idx reqId ↔ CancelRejected (c.link own) idx reqId := by
  have hpd : getDevPd (c'.link own) deviceIfe = getDevPd (c.link own) deviceIfe := by
    unfold getDevPd
    rw [h.lDev]
  unfold CancelRejected
  rw [(h.slot own idx).status, hpd, h.prevApplyReqId]

theorem cancelByStatus_spec (own : ℕ) (reqId : BitVec 64) (idx : ℤ) :
    ((cancelByStatus c own reqId idx).rc ≠ 0 ↔ CancelRejected (c.link own) idx reqId) ∧
      ((cancelByStatus c own reqId idx).rc ≠ 0 → (cancelByStatus c own reqId idx).crm = c) := by
  have hpd : ∀ pd : ℤ, pd < 0 ∨ camPipelineDelayMax ≤ pd → pd ≠ 0 := by
    intro pd h
    simp only [camPipelineDelayMax] at h
    omega
  unfold cancelByStatus CancelRejected
  dsimp only
  cases ((c.link own).inQ.slot idx).status with
  | noReq | invalid => simp [einval]
  | reqReady | reqAdded => simp [cancelSlot]
  | reqPending | reqApplied =>
    simp only
    split
    · next hrange => simp [hpd _ hrange, ← or_assoc, hrange]
    · next hrange =>
      rw [← or_assoc]
      simp only [hrange, false_or]
      split
      · next happlied => simp [eperm, happlied]
      · next happlied => simp [cancelSlot, happlied]

theorem not_peer_changed {c c' : Crm} {own : ℕ} (h : Unchanged c c' own)
    (hpeer : Peer c own l) (hsync : ((c.link l).inQ.slot idx).syncMode = syncModeSync) :
    ((c'.link l).inQ.slot idx).syncMode = syncModeSync := by
  rw [h.queues l hpeer, hsync]

theorem tryCancelReq_iff {c : Crm} {own : ℕ} {reqId : BitVec 64}
    (hidx : findSlotForReq (c.link own).inQ reqId = some idx) :
    Rejection (.tryCancelReq c own reqId) ↔
      ¬ (CancelRejected (c.link own) idx reqId ∧ 0 < reqId.toInt ∧ DisconnectsFrom c own idx 0) := by
  obtain ⟨hrc, hcrm⟩ := cancelByStatus_spec (cancelDisconnects c own idx) own reqId idx
  rw [CancelRejected.congr (cancelDisconnects_step c own idx)] at hrc
  have hreq := (findSlotForReq_holdsAt hidx).2.2
  simp only [Rejection, tryCancelReq, hidx]
  by_cases hrejected : CancelRejected (c.link own) idx reqId
  · rw [hcrm (hrc.mpr hrejected)]
    simp only [hrc, hrejected, true_and, forall_const]
    by_cases hdisc : 0 < reqId.toInt ∧ DisconnectsFrom c own idx 0
    · refine iff_of_false (fun h => ?_) fun h => h hdisc
      obtain ⟨hpos, hfrom⟩ := hdisc
      obtain ⟨k, l, syncIdx, hpriv, hsync, hnot⟩ := disconnectFrom_of_some hfrom
      have hlinks : ((c.link own).inQ.slot idx).numSyncLinks.val ≠ 0 := by
        obtain ⟨k', -, hlt, -⟩ := hfrom
        omega
      unfold cancelDisconnects at h
      rw [if_pos ⟨by rwa [hreq], hlinks⟩] at h
      exact hnot (not_peer_changed h (.inr (.inr ⟨idx, k, hpriv⟩)) hsync)
    · refine iff_of_true ?_ hdisc
      have hsame : cancelDisconnects c own idx = c := by
        unfold cancelDisconnects
        split
        · next hpos => exact disconnectFrom_of_none fun h => hdisc ⟨hreq ▸ hpos.1, h⟩
        · exact Eq.refl c
      rw [hsame]
      exact ⟨fun _ _ => rfl, fun _ _ => rfl⟩
  · exact iff_of_true (fun h => absurd (hrc.mp h) hrejected) fun h => hrejected h.1

theorem firstIdx_eq_none_iff {n : ℕ} {p : Fin n → Bool} : firstIdx p = none ↔ ∀ i, p i = false := by
  simp [firstIdx, List.find?_eq_none]

theorem firstIdx_spec {n : ℕ} {p : Fin n → Bool} {i : Fin n} (h : firstIdx p = some i) : p i = true :=
  List.find?_some h

/-- An entry is free, and after it is taken there is no memory for its queue or no place in the session. -/
def LosesLink (pool : Pool) (present memory : Bool) : Prop :=
  present = true ∧ pool.session.numLinks < maximumLinksPerSession ∧ (∃ i, (pool.gLinks i).isUsed = false) ∧
    (memory = false ∨ ∀ j, pool.session.links j ≠ none)

theorem reserveLink_cases (pool : Pool) (present memory : Bool) :
    (reserveLink pool present memory = (pool, none) ∧ ¬ LosesLink pool present memory) ∨
    ((reserveLink pool present memory).2 = none ∧ LosesLink pool present memory ∧
      ∃ i, (pool.gLinks i).isUsed = false ∧ ((reserveLink pool present memory).1.gLinks i).isUsed = true) ∨
    ((reserveLink pool present memory).2 ≠ none ∧ ¬ LosesLink pool present memory) := by
  unfold reserveLink LosesLink
  by_cases hpresent : present = false
  · simp [hpresent]
  by_cases hnum : maximumLinksPerSession ≤ pool.session.numLinks
  · simp [hnum]
  rw [if_neg hpresent, if_neg hnum]
  have hpresent' : present = true := by simpa using hpresent
  have hnum' : pool.session.numLinks < maximumLinksPerSession := by omega
  cases hfree : firstIdx fun i => !(pool.gLinks i).isUsed with
  | none =>
    have hused : ∀ i, (pool.gLinks i).isUsed = true := by simpa using firstIdx_eq_none_iff.mp hfree
    simp [hused]
  | some i =>
    have hunused : (pool.gLinks i).isUsed = false := by simpa using firstIdx_spec hfree
    dsimp only
    by_cases hmemory : memory = false
    · rw [if_pos hmemory]
      exact .inr (.inl ⟨rfl, ⟨hpresent', hnum', ⟨i, hunused⟩, .inl hmemory⟩, i, hunused, by simp [takeLink]⟩)
    · rw [if_neg hmemory]
      have hlinks : (takeLink pool i).session.links = pool.session.links := rfl
      rw [hlinks]
      cases hplace : firstIdx fun j => (pool.session.links j).isNone with
      | none =>
        have hfull : ∀ j, pool.session.links j ≠ none := by
          intro j hj
          have := firstIdx_eq_none_iff.mp hplace j
          simp [hj] at this
        exact .inr (.inl ⟨rfl, ⟨hpresent', hnum', ⟨i, hunused⟩, .inr hfull⟩, i, hunused, by simp⟩)
      | some j =>
        have hnone : pool.session.links j = none := by simpa using firstIdx_spec hplace
        refine .inr (.inr ⟨by simp, fun h => ?_⟩)
        cases h.2.2.2 with
        | inl h => exact hmemory h
        | inr h => exact h j hnone

theorem reserveLink_iff (pool : Pool) (present memory : Bool) :
    Rejection (.reserveLink pool present memory) ↔ ¬ LosesLink pool present memory := by
  simp only [Rejection]
  rcases reserveLink_cases pool present memory with ⟨heq, hnot⟩ | ⟨hnone, hloses, i, hfree, htaken⟩ |
    ⟨hsome, hnot⟩
  · exact iff_of_true (fun _ _ => by rw [heq]) hnot
  · refine iff_of_false (fun h => ?_) fun h => h hloses
    rw [h hnone i, hfree] at htaken
    simp at htaken
  · exact iff_of_true (fun h => absurd h hsome) hnot

/-- The operation is rejected after it has changed something. -/
def Spoils : Operation → Prop
  | .addReq c (some own) (some addReq) =>
    ∃ device idx, (c.link own).lDev.find? (fun device => device.devHdl = addReq.devHdl) = some device ∧
      findSlotForReq (c.link own).inQ addReq.reqId = some idx ∧
      AddRejected c own addReq ((c.link own).inQ.slot idx).syncMode (c.slot ⟨⟨own, device.pdTbl⟩, idx⟩) ∧
      AddChanges c own addReq (c.slot ⟨⟨own, device.pdTbl⟩, idx⟩)
  | .addReq _ _ _ => False
  | .tryCancelReq c own reqId =>
    ∃ idx, findSlotForReq (c.link own).inQ reqId = some idx ∧ CancelRejected (c.link own) idx reqId ∧
      0 < reqId.toInt ∧ DisconnectsFrom c own idx 0
  | .reserveLink pool present memory => LosesLink pool present memory

theorem Unchanged.refl (own : ℕ) : Unchanged c c own := ⟨fun _ _ => rfl, fun _ _ => rfl⟩

/-- **A rejected operation changes nothing, except on exactly these inputs**: a request that is rejected
because the sync links cannot be told or an EOF request finds no room, after a greater delay, an EOF request
or the mark of the next request is stored; a cancel that is rejected by status or delay, after a sync link
that holds the request in sync mode has let go of it; a link that is taken and then lacks memory or a place
in the session. -/
theorem rejection_iff (op : Operation) : Rejection op ↔ ¬ Spoils op := by
  cases op with
  | addReq c priv data =>
    cases priv with
    | none => simp [Rejection, Spoils]
    | some own =>
      cases data with
      | none => exact iff_of_true (fun _ o _ => Unchanged.refl c o) id
      | some addReq =>
        cases hdev : (c.link own).lDev.find? (fun device => device.devHdl = addReq.devHdl) with
        | none =>
          refine iff_of_true (fun _ o _ => ?_) fun h => ?_
          · simp only [processAddReq, hdev]
            exact Unchanged.refl c o
          · obtain ⟨device, idx, hd, -⟩ := h
            simp [hdev] at hd
        | some device =>
          cases hidx : findSlotForReq (c.link own).inQ addReq.reqId with
          | none =>
            refine iff_of_true (fun _ o _ => ?_) fun h => ?_
            · simp only [processAddReq, hdev, hidx]
              exact Unchanged.refl c o
            · obtain ⟨-, idx, -, hi, -⟩ := h
              simp [hidx] at hi
          | some idx =>
            rw [addReq_iff hdev hidx]
            simp [Spoils, hdev, hidx]
  | tryCancelReq c own reqId =>
    cases hidx : findSlotForReq (c.link own).inQ reqId with
    | none =>
      refine iff_of_true (fun _ => ?_) fun h => ?_
      · simp only [tryCancelReq, hidx]
        exact Unchanged.refl c own
      · obtain ⟨idx, hi, -⟩ := h
        simp [hidx] at hi
    | some idx =>
      rw [tryCancelReq_iff hidx]
      simp [Spoils, hidx]
  | reserveLink pool present memory => exact reserveLink_iff pool present memory

def requestMissing : Crm where
  link
    | 0 => smallLink 10 257 (some "sensor") (oneRequest 7 0) [1]
    | _ => smallLink 11 258 (some "sensor") (oneRequest 6 0) [0]
  slot _ := ⟨0, .pending, 0, 0, noOps⟩
  devMask _ := 1
  linkPriv _ := none

def requestApplied : Crm where
  link
    | 0 => { smallLink 10 257 (some "ife") (oneRequest 7 0) [1] with
        inQ := { oneRequest 7 0 with
          slot := fun i => { (oneRequest 7 0).slot i with
            status := .reqApplied
            syncLinkHdls := fun _ => 11 } }
        prevApplyReqId := fun _ => 7 }
    | _ => smallLink 11 258 (some "ife") (oneRequest 7 0) [0]
  slot _ := ⟨0, .ready, 1, 0, noOps⟩
  devMask _ := 1
  linkPriv hdl := if hdl = 11 then some 1 else none

def freePool : Pool where
  gLinks _ := ⟨false, false, 0⟩
  session := ⟨0, fun _ => none⟩

theorem findSlotForReq_oneRequest (reqId : BitVec 64) :
    findSlotForReq (oneRequest reqId 0) reqId = some 0 := by
  simp [findSlotForReq, findFrom, oneRequest]

/-- A delay that the sync link cannot be told stays stored; a cancel that comes too late has disconnected
the sync link; a link stays taken when there is no memory for its queue. -/
theorem not_rejection_late :
    ¬ Rejection (.addReq requestMissing (some 0) (some ⟨257, 7, 1, 0, false, false⟩)) ∧
      ¬ Rejection (.tryCancelReq requestApplied 0 7) ∧
      ¬ Rejection (.reserveLink freePool true false) := by
  refine ⟨?_, ?_, ?_⟩
  · have hdev : (requestMissing.link 0).lDev.find? (fun device => device.devHdl = 257) =
        some ⟨257, 0, 0, "sensor", 4, 2⟩ := by simp [requestMissing, smallLink]
    have hmissing : ¬ HasRequest requestMissing ⟨257, 7, 1, 0, false, false⟩ 1 := by
      intro h
      obtain ⟨idx, -, -, hreq⟩ := h
      simp only [requestMissing, smallLink, oneRequest] at hreq
      split at hreq <;> simp at hreq
    rw [addReq_iff hdev (findSlotForReq_oneRequest 7), not_not]
    refine ⟨.inl ⟨⟨?_, .inl ⟨1, ?_, hmissing⟩⟩, .inl ?_⟩, .inr (.inl ?_)⟩
    · simp [requestMissing, smallLink, oneRequest]
    · simp [requestMissing, smallLink]
    · simp [Raises, delayAtSof, requestMissing]
    · simp [Raises, delayAtSof, requestMissing]
  · have hidx : findSlotForReq (requestApplied.link 0).inQ 7 = some 0 := by
      simp [findSlotForReq, findFrom, requestApplied, oneRequest]
    rw [tryCancelReq_iff hidx, not_not]
    refine ⟨?_, by decide, ⟨0, by decide⟩, by simp, ?_, 1, 0, ?_, ?_, ?_⟩
    · simp [CancelRejected, requestApplied, smallLink, getDevPd, deviceIfe, camPipelineDelayMax]
    · simp [requestApplied, oneRequest]
    · simp [requestApplied]
    · exact findSlotForReq_oneRequest 7
    · simp [requestApplied, smallLink, oneRequest]
  · rw [reserveLink_iff, not_not]
    exact ⟨rfl, by decide, ⟨⟨0, by decide⟩, rfl⟩, .inl rfl⟩

end CrmSync
