import Sm8750Modules.HwFence.Signal

/-!
# Hardware fences — waiting

A client waits on a fence, or on an array of fences through a join fence: an entry that is signalled with
the last of its children.
-/

namespace Sm8750Modules.HwFence.DriverData

def createSignaledHwFence (d : DriverData) (clientId : ℕ) (fence : DmaFence) : DriverData × Option ℕ :=
  match d.lookupAndCreateRange clientId fence.key 0 0 0 d.tblCnt true with
  | (d, h, .success) => (d.signalFenceIfUnsignaled h fence.error true, some h)
  | (d, _, _) => (d, none)

/-- How a search in ranges ends: with the fence, with a dma-fence that is signalled, or without. -/
inductive Found where
  | found (hash : ℕ)
  | signaled
  | missing
deriving DecidableEq, Repr

/-- The loop of `hw_fence_find_with_dma_fence` over the ranges from a step on; `i` counts the questions
whether the dma-fence is signalled. -/
def findRanges (d : DriverData) (fence : DmaFence) : ℕ → ℕ → ℕ → DriverData × Found
  | 0, _, _ => (d, .missing)
  | fuel + 1, step, i =>
    if d.tblCnt ≤ step then (d, .missing)
    else
      match d.lookupAndProcessRange fence.key step (min (step + findThreshold) d.tblCnt) fenceFound with
      | (d, some h) => (d, .found h)
      | (d, none) =>
        if fence.isSignaled i then (d, .signaled)
        else findRanges d fence fuel (step + findThreshold) (i + 1)

/-- `hw_fence_find_with_dma_fence`: the entry, if any, and `is_signaled`. -/
def findWithDmaFence (d : DriverData) (clientId : ℕ) (fence : DmaFence) (create : Bool) :
    DriverData × Option ℕ × Bool :=
  if create = false ∧ fence.isSignaled 0 = true then (d, none, true)
  else
    match d.findRanges fence d.tblCnt 0 1 with
    | (d, .found h) => (d, some h, false)
    | (d, .signaled) =>
      if create then
        let (d, h) := d.createSignaledHwFence clientId fence
        (d, h, true)
      else (d, none, true)
    | (d, .missing) => (d, none, false)

/-- The section of `hw_fence_register_wait_client` under the lock; `isSignaled` is what the search said. -/
def registerWait (d : DriverData) (client : Client) (hash : ℕ) (clientData : UInt64)
    (isSignaled : Bool) : DriverData × Bool :=
  let e := d.tbl hash
  if e.fenceAllocator = client.clientId then
    (d.setFence hash { e with refcount.fctl := true }, isSignaled)
  else
    (d.setFence hash
      { e with
        waitClientMask := insert client.clientId e.waitClientMask
        clientData := if clientData ≠ 0 then clientData else e.clientData }, e.flagSignal)

/-- `hw_fence_register_wait_client` after its search. -/
def registerFound (d : DriverData) (client : Client) (hash : ℕ) (clientData : UInt64)
    (isSignaled : Bool) : DriverData × ℕ × Ret :=
  match d.registerWait client hash clientData isSignaled with
  | (d, false) => (d, hash, none)
  | (d, true) =>
    match d.fenceCtlSignal client hash clientData (d.tbl hash).error true with
    | (d, true) => (d, hash, none)
    | (d, false) => ((d.destroyWithHash hash).1, hash, some .einval)

inductive WaitOn where
  | fence (f : DmaFence)
  | numbers (context seqno : UInt64)

/-- `hw_fence_register_wait_client`, with the hash it returns. -/
def registerWaitClient (d : DriverData) (on : WaitOn) (client : Client) (clientData : UInt64) :
    DriverData × ℕ × Ret :=
  if clientData ≠ 0 ∧ client.hasClientData = false then (d, 0, some .einval)
  else
    match on with
    | .fence f =>
      match d.findWithDmaFence client.clientId f true with
      | (d, none, _) => (d, 0, some .einval)
      | (d, some h, isSignaled) => d.registerFound client h clientData isSignaled
    | .numbers context seqno =>
      match d.lookupAndProcess ⟨context, seqno, context⟩ fenceFound with
      | (d, none) => (d, 0, some .einval)
      | (d, some h) => d.registerFound client h clientData false

def processFence (d : DriverData) (client : Client) (fence : DmaFence) (clientData : UInt64) :
    DriverData × ℕ × Ret :=
  if fence.enabled = false then (d, 0, some .einval)
  else d.registerWaitClient (.fence fence) client clientData

/-! ### Arrays -/

/-- A fence of an array, whether it is an array itself, and the answers of `dma_fence_is_signaled` if
the registration is cleaned up. -/
structure Child where
  fence : DmaFence
  isArray : Bool := false
  isSignaledAtCleanup : ℕ → Bool := fun _ => false

/-- `struct dma_fence_array`, with the key of its own dma-fence. -/
structure FenceArray where
  key : Key
  fences : List (Option Child)

/-- The loop of `_cleanup_join_and_child_fences` over the parents of a child, from the last one down. -/
def removeParent (joinHash : ℕ) : ℕ → MsmHwFence → MsmHwFence
  | 0, e => e
  | j + 1, e =>
    if e.parentList[j]? = some (some joinHash) then
      removeParent joinHash j
        { e with parentList := e.parentList.set j none, parentsCnt := e.parentsCnt - 1 }
    else removeParent joinHash j e

def cleanupChild (d : DriverData) (client : Client) (joinHash : ℕ) (child : Option Child) :
    DriverData :=
  match child with
  | none => d
  | some c =>
    match d.findWithDmaFence client.clientId { c.fence with isSignaled := c.isSignaledAtCleanup }
      false with
    | (d, some h, false) =>
      let e := d.tbl h
      ((d.setFence h (removeParent joinHash (min e.parentsCnt maxJoinParents) e)).putAndUnlock h).1
    | (d, _, _) => d

/-- `_cleanup_join_and_child_fences`, from the child where the processing stopped down to the first. -/
def cleanupJoinAndChildFences (d : DriverData) (client : Client) (iteration : ℕ) (array : FenceArray)
    (joinHash : ℕ) : DriverData :=
  let children := (array.fences.take (iteration + 1)).reverse
  ((children.foldl (fun d child => d.cleanupChild client joinHash child) d).destroyRefcount
    joinHash .fctl).1

/-- The section of `hw_fence_process_fence_array` under the lock of a child; `false` where it has too many
parents. -/
def addParent (d : DriverData) (joinHash hash : ℕ) : DriverData × Bool :=
  let e := d.tbl hash
  if maxJoinParents ≤ e.parentsCnt + 1 then ((d.putAndUnlock hash).1, false)
  else
    (((d.setFence hash
      { e with
        parentsCnt := e.parentsCnt + 1
        parentList := e.parentList.set e.parentsCnt (some joinHash) }).putAndUnlock hash).1, true)

/-- How the processing of a child ends. -/
inductive ChildStatus where
  | failed
  | signaled (last : Bool)
  | added
deriving DecidableEq, Repr

/-- `hw_fence_process_fence_array` for one child. -/
def processChild (d : DriverData) (client : Client) (joinHash : ℕ) (child : Option Child) :
    DriverData × ChildStatus :=
  match child with
  | none => (d, .failed)
  | some c =>
    if c.isArray = true ∨ c.fence.enabled = false then (d, .failed)
    else
      match d.findWithDmaFence client.clientId c.fence false with
      | (d, _, true) =>
        let (d, last) := d.updateJoinFence joinHash c.fence.error
        (d, .signaled last)
      | (d, none, false) => (d, .failed)
      | (d, some h, false) =>
        if (d.tbl h).flagSignal then
          let (d', last) := d.updateJoinFence joinHash (d.tbl h).error
          ((d'.putAndUnlock h).1, .signaled last)
        else
          match d.addParent joinHash h with
          | (d, false) => (d, .failed)
          | (d, true) => (d, .added)

/-- The loop of `hw_fence_process_fence_array` from child `i` on, with `signal_join_fence`; `none` is
success, and otherwise the child where it stopped. -/
def processChildren (client : Client) (joinHash : ℕ) :
    List (Option Child) → ℕ → Bool → DriverData → DriverData × Bool × Option ℕ
  | [], _, signalJoinFence, d => (d, signalJoinFence, none)
  | child :: rest, i, signalJoinFence, d =>
    match d.processChild client joinHash child with
    | (d, .failed) => (d, signalJoinFence, some i)
    | (d, .signaled last) => processChildren client joinHash rest (i + 1) last d
    | (d, .added) => processChildren client joinHash rest (i + 1) signalJoinFence d

/-- `hw_fence_process_fence_array`, with the hash of the join fence. -/
def processFenceArray (d : DriverData) (client : Client) (array : FenceArray) (clientData : UInt64) :
    DriverData × ℕ × Ret :=
  if clientData ≠ 0 ∧ client.hasClientData = false then (d, 0, some .einval)
  else
    match d.lookupAndCreate joinFenceClientId array.key array.fences.length 0 with
    | (d, joinHash, .success) =>
      let join := d.tbl joinHash
      let d := d.setFence joinHash
        { join with waitClientMask := insert client.clientId join.waitClientMask }
      match processChildren client joinHash array.fences 0 false d with
      | (d, _, some i) => (d.cleanupJoinAndChildFences client i array joinHash, joinHash, some .einval)
      | (d, signalJoinFence, none) =>
        let join := d.tbl joinHash
        let d := if clientData ≠ 0 then d.setFence joinHash { join with clientData := clientData } else d
        if signalJoinFence then
          let d := (d.fenceCtlSignal client joinHash clientData join.error true).1
          ((d.destroyRefcount joinHash .fctl).1, joinHash, none)
        else if array.fences = [] then
          (d.cleanupJoinAndChildFences client 0 array joinHash, joinHash, some .einval)
        else (d, joinHash, none)
    | (d, joinHash, _) => (d, joinHash, some .einval)

/-- An element of the list of `msm_hw_fence_wait_update_v2`. -/
inductive WaitItem where
  | fence (f : DmaFence)
  | array (a : FenceArray)

/-- One turn of the loop of `msm_hw_fence_wait_update_v2`. -/
def waitItem (d : DriverData) (client : Client) (clientData : UInt64) :
    WaitItem → DriverData × ℕ × Ret
  | .fence f => d.processFence client f clientData
  | .array a => d.processFenceArray client a clientData

/-- The loop of `msm_hw_fence_wait_update_v2`, with the handles so far. -/
def waitItems (client : Client) : List (WaitItem × UInt64) → List ℕ → DriverData →
    DriverData × List ℕ × Ret
  | [], handles, d => (d, handles, none)
  | (item, clientData) :: rest, handles, d =>
    match d.waitItem client clientData item with
    | (d, h, none) => waitItems client rest (handles ++ [h]) d
    | (d, _, some e) =>
      (handles.foldl (fun d h => (d.destroyWithHash h).1) d, handles, some e)

/-- `msm_hw_fence_wait_update_v2` for a caller that asks for the handles, with or without a list of data
for the client. -/
def waitUpdateV2 (d : DriverData) (client : Client) (items : List (WaitItem × UInt64))
    (clientDataList : Bool) : DriverData × List ℕ × Ret :=
  if d.fctlReady = false then (d, [], some .eagain)
  else if clientDataList = true ∧ client.hasClientData = false then (d, [], some .einval)
  else waitItems client (items.map fun i => (i.1, if clientDataList then i.2 else 0)) [] d

end Sm8750Modules.HwFence.DriverData
