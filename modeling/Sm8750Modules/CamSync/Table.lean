import Mathlib.Logic.Function.Basic
import Mathlib.Data.Nat.Notation

/-!
# Camera sync — the table of fences

Fences live in the rows of one table. A group fence is merged out of individual ones: its row counts
how many of them are still to be signalled, and parent and child records in two lists tie the rows
together. Kernel callbacks and user payloads wait in a row until its fence completes.

An entry point that takes a row lock which is never released does not return: its result is `none`.
-/

namespace Sm8750Modules.CamSync

def camSyncMaxObjs : ℕ := 2048

def einval : Int := -22

def enomem : Int := -12

def ealready : Int := -114

def enoent : Int := -2

inductive SyncState where
  | invalid
  | active
  | signaledSuccess
  | signaledError
  | signaledCancel
deriving DecidableEq, Repr

def SyncState.ofStatus : ℕ → Option SyncState
  | 2 => some .signaledSuccess
  | 3 => some .signaledError
  | 4 => some .signaledCancel
  | _ => none

def SyncState.Failed (st : SyncState) : Prop := st = .signaledError ∨ st = .signaledCancel
deriving Decidable

def SyncState.Signaled (st : SyncState) : Prop := st = .signaledSuccess ∨ st.Failed
deriving Decidable

inductive SyncType where
  | indv
  | group
deriving DecidableEq, Repr

/-- `struct sync_callback_info`, with the number of its registration. -/
structure CallbackInfo where
  callbackFunc : ℕ
  cbData : ℕ
  ticket : ℕ
deriving DecidableEq, Repr

/-- `struct sync_user_payload`, with the number of its registration. -/
structure UserPayload where
  payloadData : BitVec 64 × BitVec 64
  ticket : ℕ
deriving DecidableEq, Repr

structure Row where
  type : SyncType := .indv
  state : SyncState := .invalid
  remaining : BitVec 32 := 0
  refCnt : BitVec 32 := 0
  parentsList : List ℕ := []
  childrenList : List ℕ := []
  callbackList : List CallbackInfo := []
  userPayloadList : List UserPayload := []
deriving DecidableEq, Repr

variable (row : Row)

def Row.tickets : List ℕ :=
  row.callbackList.map (·.ticket) ++ row.userPayloadList.map (·.ticket)

/-- One callback called or one payload sent. -/
structure Delivery where
  ticket : ℕ
  syncObj : ℕ
  status : SyncState
deriving DecidableEq, Repr

/-- What has happened so far. Objects and registrations are numbered in the order they are made, so
that two objects that lived in one row are told apart. -/
structure History where
  objects : ℕ
  /-- The object that was made last in a row. -/
  birth : ℕ → ℕ
  /-- The objects a group was merged out of; `none` for an individual object. -/
  members : ℕ → Option (List ℕ)
  /-- How an individual object was signalled. -/
  signaledAs : ℕ → Option SyncState
  tickets : ℕ
  owner : ℕ → ℕ
  /-- The registrations that were taken back, or lost with their object. -/
  withdrawn : List ℕ
  delivered : List Delivery

namespace History

variable (h : History)

def newObject (idx : ℕ) : History :=
  { h with objects := h.objects + 1, birth := Function.update h.birth idx h.objects }

def newGroup (idx : ℕ) (objs : List ℕ) : History :=
  { h.newObject idx with members := Function.update h.members h.objects (some (objs.map h.birth)) }

def signal (idx : ℕ) (st : SyncState) : History :=
  { h with signaledAs := Function.update h.signaledAs (h.birth idx) (some st) }

def register (idx : ℕ) : History :=
  { h with tickets := h.tickets + 1, owner := Function.update h.owner h.tickets (h.birth idx) }

def withdraw (tickets : List ℕ) : History :=
  { h with withdrawn := h.withdrawn ++ tickets }

def deliver (idx : ℕ) (st : SyncState) (tickets : List ℕ) : History :=
  { h with delivered := h.delivered ++ tickets.map fun t => ⟨t, idx, st⟩ }

end History

/-- `struct sync_device`: the rows, the bitmap of the rows in use, and the row locks that are held. -/
structure SyncDev where
  table : ℕ → Row
  bitmap : ℕ → Bool
  locked : ℕ → Bool
  hist : History

/-- The device after its probe: row 0 is never given out. -/
def SyncDev.probe : SyncDev where
  table := fun _ => {}
  bitmap := fun i => i = 0
  locked := fun _ => false
  hist := ⟨0, fun _ => 0, fun _ => none, fun _ => none, 0, fun _ => 0, [], []⟩

variable (syncObj : Int)

def InRange : Prop := 0 < syncObj ∧ syncObj < camSyncMaxObjs
deriving Decidable

def SyncDev.setRow (s : SyncDev) (idx : ℕ) (row : Row) : SyncDev :=
  { s with table := Function.update s.table idx row }

def SyncDev.setBit (s : SyncDev) (idx : ℕ) (b : Bool) : SyncDev :=
  { s with bitmap := Function.update s.bitmap idx b }

def SyncDev.setLock (s : SyncDev) (idx : ℕ) (b : Bool) : SyncDev :=
  { s with locked := Function.update s.locked idx b }

def findFirstZeroBit (bitmap : ℕ → Bool) : ℕ → ℕ → Option ℕ
  | 0, _ => none
  | n + 1, i => if bitmap i then findFirstZeroBit bitmap n (i + 1) else some i

/-- `cam_sync_init_row`, for an index in range. -/
def initRow (type : SyncType) : Row := { type := type, state := .active }

def create (s : SyncDev) : Option (Int × SyncDev) :=
  match findFirstZeroBit s.bitmap camSyncMaxObjs 0 with
  | none => some (enomem, s)
  | some idx =>
    let s := s.setBit idx true
    if s.locked idx then none
    else some (0, { s.setRow idx (initRow .indv) with hist := s.hist.newObject idx })

def checkValid (s : SyncDev) (syncObj : Int) : Option Int :=
  if ¬InRange syncObj then some einval
  else if s.locked syncObj.toNat then none
  else if ¬s.bitmap syncObj.toNat then some einval
  else if (s.table syncObj.toNat).state = .invalid then some einval
  else some 0

/-- The loop of `cam_sync_merge` that validates its objects. -/
def checkAllValid (s : SyncDev) : List Int → Option Int
  | [] => some 0
  | syncObj :: rest =>
    match checkValid s syncObj with
    | none => none
    | some rc => if rc ≠ 0 then some rc else checkAllValid s rest

def cleanupParentsList (syncObj : ℕ) : Row :=
  { row with parentsList := row.parentsList.erase syncObj }

def cleanupChildrenList (syncObj : ℕ) : Row :=
  { row with childrenList := row.childrenList.erase syncObj }

/-- Which of the records that `cam_sync_init_group_object` allocates can be had, by the child. -/
structure Mem where
  childInfo : ℕ → Bool
  parentInfo : ℕ → Bool

/-- One turn of the loop of `cam_sync_init_group_object`. -/
def addChild (mem : Mem) (idx child : ℕ) (s : SyncDev) : Int × SyncDev :=
  let childRow := s.table child
  let row := s.table idx
  if childRow.type = .group ∨ childRow.state = .invalid then (einval, s)
  else if childRow.state.Failed then (0, s.setRow idx { row with state := childRow.state })
  else if childRow.state ≠ .active then (0, s)
  else
    let row := { row with remaining := row.remaining + 1 }
    if ¬mem.childInfo child then (enomem, s.setRow idx row)
    else
      let row := { row with childrenList := row.childrenList ++ [child] }
      let s := s.setRow idx row
      if ¬mem.parentInfo child then (enomem, s)
      else (0, s.setRow child { childRow with parentsList := childRow.parentsList ++ [idx] })

/-- The loop of `cam_sync_init_group_object`. -/
def addChildren (mem : Mem) (idx : ℕ) :
    List ℕ → List ℕ → SyncDev → Option (Int × List ℕ × SyncDev)
  | done, [], s => some (0, done, s)
  | done, child :: todo, s =>
    if s.locked child then none
    else
      let (rc, s) := addChild mem idx child s
      if rc < 0 then some (rc, done, s) else addChildren mem idx (child :: done) todo s

def cleanChildrenInfo (idx : ℕ) : List ℕ → SyncDev → Option SyncDev
  | [], s => some s
  | child :: rest, s =>
    if s.locked child then none
    else cleanChildrenInfo idx rest (s.setRow child (cleanupParentsList (s.table child) idx))

/-- The end of `cam_sync_init_group_object`. -/
def settleGroup : Row :=
  if row.remaining = 0 ∧ ¬row.state.Failed then { row with state := .signaledSuccess } else row

def initGroupObject (mem : Mem) (idx : ℕ) (objs : List ℕ) (s : SyncDev) : Option (Int × SyncDev) :=
  let s := { s.setRow idx (initRow .group) with hist := s.hist.newGroup idx objs }
  match addChildren mem idx [] objs s with
  | none => none
  | some (rc, done, s) =>
    if rc < 0 then
      let s := s.setRow idx { s.table idx with state := .invalid }
      match cleanChildrenInfo idx done s with
      | none => none
      | some s => some (rc, s.setRow idx { s.table idx with childrenList := [] })
    else some (0, s.setRow idx (settleGroup (s.table idx)))

/-- `cam_sync_merge`. When the group cannot be set up, the bit is cleared and the row lock is not
released. -/
def merge (mem : Mem) (syncObj : List Int) (s : SyncDev) : Option (Int × SyncDev) :=
  if syncObj.length ≤ 1 then some (einval, s)
  else if ¬syncObj.Nodup then some (einval, s)
  else match checkAllValid s syncObj with
    | none => none
    | some rc =>
      if rc ≠ 0 then some (rc, s)
      else match findFirstZeroBit s.bitmap camSyncMaxObjs 0 with
        | none => some (enomem, s)
        | some idx =>
          let s := s.setBit idx true
          if s.locked idx then none
          else match initGroupObject mem idx (syncObj.map Int.toNat) (s.setLock idx true) with
            | none => none
            | some (rc, s) =>
              if rc < 0 then some (einval, s.setBit idx false) else some (0, s.setLock idx false)

def getObjRef (s : SyncDev) : Option (Int × SyncDev) :=
  if ¬InRange syncObj then some (einval, s)
  else
    let idx := syncObj.toNat
    let row := s.table idx
    if s.locked idx then none
    else if row.state ≠ .active then some (einval, s)
    else some (0, s.setRow idx { row with refCnt := row.refCnt + 1 })

/-- `cam_sync_put_obj_ref`, which takes no lock. -/
def putObjRef (s : SyncDev) : Option (Int × SyncDev) :=
  if ¬InRange syncObj then some (einval, s)
  else
    let row := s.table syncObj.toNat
    some (0, s.setRow syncObj.toNat { row with refCnt := row.refCnt - 1 })

/-- `cam_sync_util_dispatch_signaled_cb`, with the event queue open. -/
def dispatchSignaledCb (syncObj : ℕ) (status : SyncState) (s : SyncDev) : SyncDev :=
  let row := s.table syncObj
  if row.state = .invalid then s
  else
    { s.setRow syncObj { row with callbackList := [], userPayloadList := [] } with
      hist := s.hist.deliver syncObj status row.tickets }

/-- `cam_sync_util_update_parent_state`: the new state, or `none` for an error. -/
def updateParentState (state newState : SyncState) : Option SyncState :=
  match state with
  | .active | .signaledSuccess => some newState
  | .signaledError | .signaledCancel => some state
  | .invalid => none

def signalParentUtil (status : SyncState) : List ℕ → SyncDev → Option SyncDev
  | [], s => some s
  | parent :: rest, s =>
    if s.locked parent then none
    else
      let row := { s.table parent with remaining := (s.table parent).remaining - 1 }
      match updateParentState row.state status with
      | none => signalParentUtil status rest (s.setRow parent row)
      | some state =>
        let s := s.setRow parent { row with state := state }
        signalParentUtil status rest
          (if row.remaining = 0 then dispatchSignaledCb parent state s else s)

def signalValidateUtil (status : ℕ) : Except Int SyncState :=
  if row.state = .invalid then .error einval
  else if row.type = .group then .error einval
  else if row.state ≠ .active then .error ealready
  else match SyncState.ofStatus status with
    | none => .error einval
    | some st => .ok st

/-- `cam_sync_signal`, for objects that no dma fence or synx object is tied to. -/
def signal (status : ℕ) (s : SyncDev) : Option (Int × SyncDev) :=
  if ¬InRange syncObj then some (einval, s)
  else
    let idx := syncObj.toNat
    let row := s.table idx
    if s.locked idx then none
    else match signalValidateUtil row status with
      | .error rc => some (rc, s)
      | .ok st =>
        let row := { row with refCnt := row.refCnt - 1 }
        if row.refCnt ≠ 0 then some (0, s.setRow idx row)
        else
          let s := { s.setRow idx { row with state := st } with hist := s.hist.signal idx st }
          let s := dispatchSignaledCb idx st s
          let parentsList := (s.table idx).parentsList
          let s := s.setRow idx { s.table idx with parentsList := [] }
          (signalParentUtil st parentsList s).map fun s => (0, s)

/-- The loop of `cam_sync_deinit_object` from the children to their parent. -/
def unlinkChildren (idx : ℕ) : List ℕ → SyncDev → Option SyncDev
  | [], s => some s
  | child :: rest, s =>
    if s.locked child then none
    else if (s.table child).state = .invalid then unlinkChildren idx rest s
    else unlinkChildren idx rest (s.setRow child (cleanupParentsList (s.table child) idx))

/-- The loop of `cam_sync_deinit_object` from the parents to their child. -/
def unlinkParents (idx : ℕ) : List ℕ → SyncDev → Option SyncDev
  | [], s => some s
  | parent :: rest, s =>
    if s.locked parent then none
    else if (s.table parent).state = .invalid then unlinkParents idx rest s
    else unlinkParents idx rest (s.setRow parent (cleanupChildrenList (s.table parent) idx))

/-- `cam_sync_destroy`, which is `cam_sync_deinit_object`. -/
def destroy (s : SyncDev) : Option (Int × SyncDev) :=
  if ¬InRange syncObj then some (einval, s)
  else
    let idx := syncObj.toNat
    let row := s.table idx
    if s.locked idx then none
    else if row.state = .invalid then some (einval, s)
    else
      let s := s.setRow idx { row with state := .invalid, childrenList := [], parentsList := [] }
      match unlinkChildren idx row.childrenList s with
      | none => none
      | some s =>
        match unlinkParents idx row.parentsList s with
        | none => none
        | some s =>
          let tickets := (s.table idx).tickets
          some (0, { (s.setRow idx {}).setBit idx false with hist := s.hist.withdraw tickets })

/-- `cam_sync_register_callback`; `mem` says whether the record can be allocated. -/
def registerCallback (mem : Bool) (cbFunc userdata : ℕ) (syncObj : Int) (s : SyncDev) :
    Option (Int × SyncDev) :=
  if ¬InRange syncObj ∨ cbFunc = 0 then some (einval, s)
  else
    let idx := syncObj.toNat
    let row := s.table idx
    if s.locked idx then none
    else if row.state = .invalid then some (einval, s)
    else if ¬mem then some (enomem, s)
    else
      let hist := s.hist.register idx
      if row.state.Signaled ∧ row.remaining = 0 then
        some (0, { s with hist := hist.deliver idx row.state [s.hist.tickets] })
      else
        let cb := ⟨cbFunc, userdata, s.hist.tickets⟩
        some (0, { s.setRow idx { row with callbackList := row.callbackList ++ [cb] } with
          hist := hist })

def deregisterCallback (cbFunc userdata : ℕ) (syncObj : Int) (s : SyncDev) : Option (Int × SyncDev) :=
  if ¬InRange syncObj then some (einval, s)
  else
    let idx := syncObj.toNat
    let row := s.table idx
    if s.locked idx then none
    else if row.state = .invalid then some (einval, s)
    else
      let (found, kept) :=
        row.callbackList.partition fun cb => cb.callbackFunc = cbFunc ∧ cb.cbData = userdata
      some (if found = [] then enoent else 0,
        { s.setRow idx { row with callbackList := kept } with
          hist := s.hist.withdraw (found.map (·.ticket)) })

/-- `cam_sync_handle_register_user_payload`, after its arguments are copied. -/
def handleRegisterUserPayload (mem : Bool) (payload : BitVec 64 × BitVec 64) (syncObj : Int)
    (s : SyncDev) : Option (Int × SyncDev) :=
  if ¬InRange syncObj then some (einval, s)
  else if ¬mem then some (enomem, s)
  else
    let idx := syncObj.toNat
    let row := s.table idx
    if s.locked idx then none
    else if row.state = .invalid then some (einval, s)
    else
      let hist := s.hist.register idx
      if row.state.Signaled then
        some (0, { s with hist := hist.deliver idx row.state [s.hist.tickets] })
      else if row.userPayloadList.any fun p => p.payloadData = payload then some (ealready, s)
      else
        let info := ⟨payload, s.hist.tickets⟩
        some (0, { s.setRow idx { row with userPayloadList := row.userPayloadList ++ [info] } with
          hist := hist })

/-- `cam_sync_handle_deregister_user_payload`, after its arguments are copied. -/
def handleDeregisterUserPayload (payload : BitVec 64 × BitVec 64) (syncObj : Int) (s : SyncDev) :
    Option (Int × SyncDev) :=
  if ¬InRange syncObj then some (einval, s)
  else
    let idx := syncObj.toNat
    let row := s.table idx
    if s.locked idx then none
    else if row.state = .invalid then some (einval, s)
    else
      let (found, kept) := row.userPayloadList.partition fun p => p.payloadData = payload
      some (0, { s.setRow idx { row with userPayloadList := kept } with
        hist := s.hist.withdraw (found.map (·.ticket)) })

inductive Call where
  | create
  | merge (mem : Mem) (syncObj : List Int)
  | getObjRef (syncObj : Int)
  | putObjRef (syncObj : Int)
  | signal (syncObj : Int) (status : ℕ)
  | destroy (syncObj : Int)
  | registerCallback (mem : Bool) (cbFunc userdata : ℕ) (syncObj : Int)
  | deregisterCallback (cbFunc userdata : ℕ) (syncObj : Int)
  | registerPayload (mem : Bool) (payload : BitVec 64 × BitVec 64) (syncObj : Int)
  | deregisterPayload (payload : BitVec 64 × BitVec 64) (syncObj : Int)

/-- A call: its return code and the device, or `none` where it does not return. -/
def SyncDev.call (s : SyncDev) : Call → Option (Int × SyncDev)
  | .create => create s
  | .merge mem syncObj => merge mem syncObj s
  | .getObjRef syncObj => getObjRef syncObj s
  | .putObjRef syncObj => putObjRef syncObj s
  | .signal syncObj status => signal syncObj status s
  | .destroy syncObj => destroy syncObj s
  | .registerCallback mem cbFunc userdata syncObj => registerCallback mem cbFunc userdata syncObj s
  | .deregisterCallback cbFunc userdata syncObj => deregisterCallback cbFunc userdata syncObj s
  | .registerPayload mem payload syncObj => handleRegisterUserPayload mem payload syncObj s
  | .deregisterPayload payload syncObj => handleDeregisterUserPayload payload syncObj s

end Sm8750Modules.CamSync
