import Sm8750Modules.HwFence.Table

/-!
# Hardware fences — signalling

A fence is signalled once: the flag is set and the wait mask and the number of parents are read under the
lock of the entry, and then the parents and the waiting clients are told. A parent is a join fence; it is
signalled with the last of its children.
-/

namespace Sm8750Modules.HwFence.DriverData

/-- `_fence_ctl_signal`; `false` where the Rx queue has no room. -/
def fenceCtlSignal (d : DriverData) (client : Client) (hash : ℕ) (clientData : UInt64)
    (error : UInt32) (signalFromImport : Bool) : DriverData × Bool :=
  let toRxq := client.signaledUpdateRxq || (client.updateRxq && !signalFromImport)
  let toIpc := client.signaledSendIpc || !signalFromImport
  let msg : Notification := ⟨client.clientId, hash, error, clientData, false, toRxq, toIpc⟩
  if error ≠ 0 ∧ client.fenceErrorCb = true then
    ({ d with sent := d.sent ++ [{ msg with errorCb := true, rxq := false, ipc := false }] }, true)
  else if toRxq = true ∧ d.rxqRoom client.clientId = false then (d, false)
  else if toRxq = true ∨ toIpc = true then ({ d with sent := d.sent ++ [msg] }, true)
  else (d, true)

/-- `_signal_all_wait_clients` from a client on. -/
def signalWaitClients (d : DriverData) (hash : ℕ) (waitClientMask : Finset ℕ) (error : UInt32) :
    List ℕ → UInt64 → DriverData
  | [], _ => d
  | id :: rest, clientData =>
    if id ∈ waitClientMask then
      match d.clients id with
      | none => signalWaitClients d hash waitClientMask error rest clientData
      | some client =>
        let clientData := if client.hasClientData then (d.tbl hash).clientData else clientData
        signalWaitClients (d.fenceCtlSignal client hash clientData error false).1 hash waitClientMask
          error rest clientData
    else signalWaitClients d hash waitClientMask error rest clientData

def signalAllWaitClients (d : DriverData) (hash : ℕ) (waitClientMask : Finset ℕ) (error : UInt32) :
    DriverData :=
  d.signalWaitClients hash waitClientMask error (List.range (d.rxqClientsNum + 1)) 0

/-- `_update_and_get_join_fence_signal_status`. -/
def updateJoinFence (d : DriverData) (hash : ℕ) (childError : UInt32) : DriverData × Bool :=
  let e := d.tbl hash
  let e := { e with error := e.error ||| childError, pendingChildCnt := e.pendingChildCnt - 1 }
  (d.setFence hash e, e.pendingChildCnt == 0)

def signalParentFence (d : DriverData) (error : UInt32) (parent : Option ℕ) : DriverData :=
  match parent with
  | none => d
  | some parentHash =>
    match d.getHwFence parentHash with
    | none => d
    | some _ =>
      match d.updateJoinFence parentHash error with
      | (d, false) => d
      | (d, true) =>
        let join := d.tbl parentHash
        ((d.signalAllWaitClients parentHash join.waitClientMask join.error).destroyRefcount
          parentHash .fctl).1

def signalParentFences (d : DriverData) (hash : ℕ) (parentsCnt : ℕ) (error : UInt32) : DriverData :=
  ((d.tbl hash).parentList.take (min parentsCnt maxJoinParents)).foldl
    (fun d parent => d.signalParentFence error parent) d

/-- The section of `_signal_fence_if_unsignaled` under the lock; `some` are the wait mask and the number
of parents of a fence that was not signalled. -/
def takeSignal (d : DriverData) (hash : ℕ) (error : UInt32) : DriverData × Option (Finset ℕ × ℕ) :=
  let e := d.tbl hash
  if e.flagSignal then (d, none)
  else (d.setFence hash { e with flagSignal := true, error := error, parentsCnt := 0 },
    some (e.waitClientMask, e.parentsCnt))

def signalFenceIfUnsignaled (d : DriverData) (hash : ℕ) (error : UInt32) (releaseRef : Bool) :
    DriverData :=
  match d.takeSignal hash error with
  | (d, none) => d
  | (d, some (waitClientMask, parentsCnt)) =>
    let d := (d.signalParentFences hash parentsCnt error).signalAllWaitClients hash waitClientMask error
    if releaseRef then (d.destroyRefcount hash .fctl).1 else d

/-- A dma-fence, with `MSM_HW_FENCE_FLAG_ENABLED_BIT` and the answers that `dma_fence_is_signaled` gives
one after the other. -/
structure DmaFence where
  key : Key
  enabled : Bool := true
  error : UInt32 := 0
  isSignaled : ℕ → Bool := fun _ => false

def signalFence (d : DriverData) (fence : Option DmaFence) (hash : ℕ) (error : UInt32)
    (releaseRef : Bool) : DriverData × Ret :=
  match d.getHwFence hash with
  | none => (d, some .einval)
  | some e =>
    match fence with
    | none => (d.signalFenceIfUnsignaled hash error releaseRef, none)
    | some f =>
      if e.ctxId ≠ f.key.context ∨ e.seqId ≠ f.key.seqno then (d, some .einval)
      else (d.signalFenceIfUnsignaled hash error releaseRef, none)

def signalCallback (d : DriverData) (fence : DmaFence) (hash : ℕ) : DriverData :=
  match d.signalFence (some fence) hash fence.error false with
  | (d, some _) => d
  | (d, none) => (d.destroyRefcount hash .dmaFence).1

/-- The part of `hw_fence_add_callback` that sets the reference of the dma-fence. -/
def setDmaFenceRefcount (d : DriverData) (hash : ℕ) (internalOwned : Bool) : DriverData :=
  let e := d.tbl hash
  d.setFence hash
    { e with
      flagInternalOwned := e.flagInternalOwned || internalOwned
      refcount.dmaFence := true }

def errorReset : UInt32 := 1

/-- `hw_fence_utils_cleanup_fence`, with `MSM_HW_FENCE_RESET_WITHOUT_ERROR` and
`MSM_HW_FENCE_RESET_WITHOUT_DESTROY`. -/
def cleanupFence (d : DriverData) (clientId : ℕ) (withoutError withoutDestroy : Bool) (hash : ℕ) :
    DriverData :=
  let e := d.tbl hash
  let d' := if clientId ∈ e.waitClientMask then
      d.setFence hash { e with waitClientMask := e.waitClientMask.erase clientId } else d
  if clientId ∈ e.waitClientMask ∧ withoutDestroy = false then (d'.putAndUnlock hash).1
  else if e.fenceAllocator = clientId then
    let d := d'.signalFenceIfUnsignaled hash (if withoutError then 0 else errorReset) true
    if withoutDestroy then d else (d.destroyWithHash hash).1
  else d'

/-- `msm_hw_fence_reset_client`, without the queues. -/
def resetClient (d : DriverData) (clientId : ℕ) (withoutError withoutDestroy : Bool) : DriverData :=
  (List.range d.tblCnt).foldl
    (fun d hash => d.cleanupFence clientId withoutError withoutDestroy hash) d

def ssrCleanupTable (d : DriverData) : DriverData :=
  (List.range d.tblCnt).foldl (fun d hash => d.signalFenceIfUnsignaled hash errorReset false) d

end Sm8750Modules.HwFence.DriverData
