import Mathlib.Data.Finset.Basic
import Sm8750Modules.Lib.Probing

/-!
# Hardware fences — the table

The driver and the fence controller share a table of hw-fences. An entry is found by linear probing
from a hash of the context and the sequence number of its fence, and is told from others with the same
numbers by a key that only the driver knows.

The lock of an entry is held for one function here at most and is left out.
-/

namespace Sm8750Modules.HwFence

def hlosRefcountMask : ℕ := 2 ^ 30 - 1

def maxJoinParents : ℕ := 3

def joinFenceClientId : ℕ := 2 ^ 32 - 1

def findThreshold : ℕ := 10

/-- The errors the functions return. -/
inductive Errno where
  | einval
  | eagain
  | ealready
deriving DecidableEq, Repr

/-- A return code; `none` is zero. -/
abbrev Ret := Option Errno

/-- The reference word: the count of HLOS in the low bits, `HW_FENCE_DMA_FENCE_REFCOUNT` and
`HW_FENCE_FCTL_REFCOUNT`. -/
structure Refcount where
  hlos : ℕ := 0
  dmaFence : Bool := false
  fctl : Bool := false
deriving DecidableEq, Repr

/-- The flags among the references. -/
inductive RefFlag where
  | fctl
  | dmaFence
deriving DecidableEq, Repr

namespace Refcount

def IsZero (r : Refcount) : Prop := r.hlos = 0 ∧ r.dmaFence = false ∧ r.fctl = false
deriving Decidable

def has (r : Refcount) : RefFlag → Bool
  | .fctl => r.fctl
  | .dmaFence => r.dmaFence

def clear (r : Refcount) : RefFlag → Refcount
  | .fctl => { r with fctl := false }
  | .dmaFence => { r with dmaFence := false }

end Refcount

/-- `struct msm_hw_fence`, without its times. A parent that is `none` is
`HW_FENCE_INVALID_PARENT_FENCE`, and the wait mask is the set of its bits. -/
structure MsmHwFence where
  valid : Bool := false
  error : UInt32 := 0
  ctxId : UInt64 := 0
  seqId : UInt64 := 0
  waitClientMask : Finset ℕ := ∅
  fenceAllocator : ℕ := 0
  flagSignal : Bool := false
  flagInternalOwned : Bool := false
  parentList : List (Option ℕ) := List.replicate maxJoinParents none
  parentsCnt : ℕ := 0
  pendingChildCnt : ℕ := 0
  refcount : Refcount := {}
  clientData : UInt64 := 0
deriving DecidableEq

/-- `struct msm_hw_fence_client`. `hasClientData` says whether the client is the one with data. -/
structure Client where
  clientId : ℕ
  hasClientData : Bool := false
  skipFctlRef : Bool := false
  updateRxq : Bool := true
  signaledUpdateRxq : Bool := false
  signaledSendIpc : Bool := false
  fenceErrorCb : Bool := false
deriving DecidableEq, Repr

/-- What identifies a fence: its context, its sequence number and the key of the driver. -/
structure Key where
  context : UInt64
  seqno : UInt64
  hlosKey : UInt64
deriving DecidableEq, Repr

/-- `struct hw_dma_fence`: a dma-fence that the driver created, with the hash of its hw-fence, the
references of the dma-fence itself and whether it is in `dma_fence_table`. -/
structure HwDmaFence where
  hash : ℕ
  krefs : ℕ := 1
  hashed : Bool := true
deriving DecidableEq, Repr

/-- What `_fence_ctl_signal` sends to a client. -/
structure Notification where
  client : ℕ
  hash : ℕ
  error : UInt32
  clientData : UInt64
  errorCb : Bool
  rxq : Bool
  ipc : Bool
deriving DecidableEq, Repr

/-- `struct hw_fence_driver_data`, with the notifications sent so far. -/
structure DriverData where
  tblCnt : ℕ
  /-- `hw_fences_tbl` -/
  tbl : ℕ → MsmHwFence
  hlosKeyTbl : ℕ → UInt64
  fctlReady : Bool
  clients : ℕ → Option Client
  rxqClientsNum : ℕ
  /-- whether the Rx queue of a client has room -/
  rxqRoom : ℕ → Bool
  /-- the dma-fences that the driver created -/
  dmaFences : List HwDmaFence
  sent : List Notification
  tblCnt_pos : 0 < tblCnt

namespace DriverData

/-- The state after the initialisation: the memory of the table is zeroed. -/
def init (tblCnt : ℕ) (h : 0 < tblCnt) (clients : ℕ → Option Client) (rxqClientsNum : ℕ) :
    DriverData where
  tblCnt := tblCnt
  tbl _ := {}
  hlosKeyTbl _ := 0
  fctlReady := true
  clients := clients
  rxqClientsNum := rxqClientsNum
  rxqRoom _ := true
  dmaFences := []
  sent := []
  tblCnt_pos := h

variable (d : DriverData)

def setFence (hash : ℕ) (e : MsmHwFence) : DriverData :=
  { d with tbl := Function.update d.tbl hash e }

def setHlosKey (hash : ℕ) (hlosKey : UInt64) : DriverData :=
  { d with hlosKeyTbl := Function.update d.hlosKeyTbl hash hlosKey }

def setDmaFences (fences : List HwDmaFence) : DriverData :=
  { d with dmaFences := fences }

def getHwFence (hash : ℕ) : Option MsmHwFence :=
  if hash < d.tblCnt then some (d.tbl hash) else none

def calculateHash (context seqno : UInt64) (mSize : ℕ) : ℕ :=
  (4969 * seqno * (context + (context - 1)) + 907 * context).toNat % mSize

def hwFenceMatch (k : Key) (hash : ℕ) : Bool :=
  (d.tbl hash).ctxId == k.context && (d.tbl hash).seqId == k.seqno && d.hlosKeyTbl hash == k.hlosKey

/-- `_cleanup_hw_fence` clears everything but `valid`. -/
def cleanupHwFence (e : MsmHwFence) : MsmHwFence := { valid := e.valid }

/-! ### References -/

def freeIfZero (e : MsmHwFence) : MsmHwFence :=
  if e.refcount.IsZero then { cleanupHwFence e with valid := false } else e

def unreserveHwFence (hash : ℕ) : DriverData × Ret :=
  let e := d.tbl hash
  if e.refcount.hlos = 0 then (d, some .einval)
  else
    let e := { e with refcount.hlos := e.refcount.hlos - 1 }
    let d' := d.setFence hash (freeIfZero e)
    (if e.refcount.IsZero then d'.setHlosKey hash 0 else d', none)

def destroyRefcount (hash : ℕ) (ref : RefFlag) : DriverData × Ret :=
  match d.getHwFence hash with
  | none => (d, some .einval)
  | some e =>
    if e.refcount.has ref then
      (d.setFence hash (freeIfZero { e with refcount := e.refcount.clear ref }), none)
    else (d, some .einval)

def reserveHwFence (hash : ℕ) (clientId : ℕ) (k : Key) (pendingChildCnt : ℕ) : DriverData :=
  (d.setFence hash
    { cleanupHwFence (d.tbl hash) with
      valid := true
      ctxId := k.context
      seqId := k.seqno
      fenceAllocator := clientId
      refcount := { hlos := 1, fctl := true }
      pendingChildCnt := pendingChildCnt }).setHlosKey hash k.hlosKey

def fenceFound (hash : ℕ) : DriverData × Ret :=
  let e := d.tbl hash
  if e.refcount.hlos = hlosRefcountMask then (d, some .einval)
  else (d.setFence hash { e with refcount.hlos := e.refcount.hlos + 1 }, none)

/-- `dma_fence_put` on a dma-fence that the driver created. -/
def dmaFencePut (f : HwDmaFence) : DriverData :=
  if f.krefs = 1 then ((d.setDmaFences (d.dmaFences.erase f)).destroyRefcount f.hash .dmaFence).1
  else d.setDmaFences ({ f with krefs := f.krefs - 1 } :: d.dmaFences.erase f)

def dmaFenceTableDel (hash : ℕ) : DriverData :=
  match d.dmaFences.find? fun f => f.hashed && f.hash == hash with
  | none => d
  | some f =>
    (d.setDmaFences ({ f with hashed := false } :: d.dmaFences.erase f)).dmaFencePut
      { f with hashed := false }

def putAndUnlock (hash : ℕ) : DriverData × Ret :=
  let e := d.tbl hash
  if e.refcount.hlos = 0 then (d, some .einval)
  else
    let e := { e with refcount.hlos := e.refcount.hlos - 1 }
    if e.flagInternalOwned = true ∧ e.refcount.hlos = 0 then
      ((d.setFence hash (freeIfZero { e with flagInternalOwned := false })).dmaFenceTableDel hash, none)
    else (d.setFence hash (freeIfZero e), none)

def destroyWithHash (hash : ℕ) : DriverData × Ret :=
  match d.getHwFence hash with
  | none => (d, some .einval)
  | some _ => d.putAndUnlock hash

/-- `for_each_hw_fence`: the slot where the loop ends, and whether it was found. -/
def forEachHwFence (k : Key) (hash : ℕ) (startStep endStep : ℕ) (found : ℕ → Bool) : ℕ × Bool :=
  if endStep ≤ startStep ∨ d.tblCnt < endStep then (hash, false)
  else
    Probing.search d.tblCnt (calculateHash k.context k.seqno d.tblCnt) found startStep endStep

/-- How `_hw_fence_lookup_and_create_range` ends. -/
inductive Lookup where
  | success
  | failed
  | ealready
deriving DecidableEq, Repr

def lookupAndCreateRange (clientId : ℕ) (k : Key) (pendingChildCnt hash : ℕ)
    (startStep endStep : ℕ) (createSignaled : Bool) : DriverData × ℕ × Lookup :=
  match d.forEachHwFence k hash startStep endStep
    fun h => !(d.tbl h).valid || d.hwFenceMatch k h with
  | (h, false) => (d, h, .failed)
  | (h, true) =>
    if (d.tbl h).valid = false then (d.reserveHwFence h clientId k pendingChildCnt, h, .success)
    else if createSignaled then
      match d.fenceFound h with
      | (d', none) => (d', h, .success)
      | (d', some _) => (d', h, .failed)
    else (d, h, .ealready)

def lookupAndCreate (clientId : ℕ) (k : Key) (pendingChildCnt hash : ℕ) : DriverData × ℕ × Lookup :=
  d.lookupAndCreateRange clientId k pendingChildCnt hash 0 d.tblCnt false

def lookupAndProcessRange (k : Key) (startStep endStep : ℕ)
    (processFn : DriverData → ℕ → DriverData × Ret) : DriverData × Option ℕ :=
  match d.forEachHwFence k 0 startStep endStep fun h => d.hwFenceMatch k h with
  | (_, false) => (d, none)
  | (h, true) =>
    match processFn d h with
    | (d', none) => (d', some h)
    | (d', some _) => (d', none)

def lookupAndProcess (k : Key)
    (processFn : DriverData → ℕ → DriverData × Ret) : DriverData × Option ℕ :=
  d.lookupAndProcessRange k 0 d.tblCnt processFn

def hwFenceCreate (client : Client) (k : Key) (hash : ℕ) : DriverData × ℕ × Ret :=
  match d.lookupAndCreate client.clientId k 0 hash with
  | (d, h, status) =>
    let ret : Ret := if status = .success then none else some .einval
    if d.fctlReady = false then
      ((((d.destroyRefcount h .fctl).1.destroyWithHash h).1), h, some .eagain)
    else if client.skipFctlRef then
      match d.destroyRefcount h .fctl with
      | (d, ret) => (d, h, ret)
    else (d, h, ret)

def hwFenceDestroy (k : Key) : DriverData × Ret :=
  match d.lookupAndProcess k unreserveHwFence with
  | (d, some _) => (d, none)
  | (d, none) => (d, some .einval)

end DriverData

end Sm8750Modules.HwFence
