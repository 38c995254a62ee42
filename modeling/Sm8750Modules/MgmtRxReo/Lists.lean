import Sm8750Modules.MgmtRxReo.Snapshots

/-!
# Management frame reordering: the lists

A frame for the host becomes an entry that waits in the ingress list until no other link owes it
a frame, or until it has waited too long, and then goes through the egress list to the upper
layers. Both lists are sorted by global timestamp, up to the wrap. A frame that arrives lowers
the wait counts of the entries before it to its own, and those of the entries after it, on its
own link, by the packet counters that it advanced.

An entry carries two fields that the code does not have and nothing reads: how much packet
counters have lowered its counts, and how many counters had been seen before its frame.
-/

namespace MgmtRxReo

def ingressListMaxSize : ℕ := 512

def egressListMaxSize : ℕ := 256

structure ReoParams where
  valid : Bool
  linkId : Link
  mgmtPktCtr : UInt16
  globalTimestamp : UInt32
  startTimestamp : UInt32
  endTimestamp : UInt32
  deriving DecidableEq, Repr

/-- `enum mgmt_rx_reo_ingress_drop_reason`, the reasons for one frame at its link. -/
inductive DropReason where
  | duplicatePktCtr
  | outOfOrderPktCtr
  deriving DecidableEq, Repr

inductive ListType where
  | invalid
  | ingress
  | egress
  deriving DecidableEq, Repr

structure FrameDescriptor where
  params : ReoParams
  /-- The type is `MGMT_RX_REO_FRAME_DESC_HOST_CONSUMED_FRAME`. -/
  hostConsumed : Bool
  reoRequired : Bool
  waitCount : WaitCount
  isStale : Bool
  isParallelRx : Bool
  queuedList : ListType
  pktCtrDelta : ℤ
  drop : Bool
  dropReason : Option DropReason

/-- The descriptor that an event handler zeroes and fills in. -/
def FrameDescriptor.ofFrame (params : ReoParams) (hostConsumed reoRequired : Bool) : FrameDescriptor :=
  { params := params, hostConsumed := hostConsumed, reoRequired := reoRequired
    waitCount := WaitCount.zero, isStale := false, isParallelRx := false
    queuedList := .invalid, pktCtrDelta := 0, drop := false, dropReason := none }

variable (desc : FrameDescriptor)

def handleOutOfOrderPktCtr (hostSs : SnapshotParams) : FrameDescriptor :=
  { desc with
    drop := true
    dropReason := some (if desc.params.mgmtPktCtr = hostSs.mgmtPktCtr then .duplicatePktCtr
      else .outOfOrderPktCtr) }

/-- What `updateHostSnapshot` leaves behind. -/
structure HostUpdate where
  success : Bool
  hostSs : SnapshotParams
  desc : FrameDescriptor

def ReoParams.snapshot (params : ReoParams) : SnapshotParams :=
  { valid := true, mgmtPktCtr := params.mgmtPktCtr, globalTimestamp := params.globalTimestamp }

/-- `wlan_mgmt_rx_reo_update_host_snapshot`, with the threshold of the psoc. -/
def updateHostSnapshot (pktCtrDeltaThresh : UInt16) (hostSs : SnapshotParams)
    (desc : FrameDescriptor) : HostUpdate :=
  if !desc.params.valid then { success := false, hostSs := hostSs, desc := desc }
  else if !hostSs.valid then
    { success := true, hostSs := desc.params.snapshot, desc := { desc with pktCtrDelta := 1 } }
  else
    -- a frame that is dropped goes on like any other one
    let desc := if comparePktCtrsGte hostSs.mgmtPktCtr desc.params.mgmtPktCtr then
      handleOutOfOrderPktCtr desc hostSs else desc
    let pktCtrDelta := subtractPktCtrs desc.params.mgmtPktCtr hostSs.mgmtPktCtr
    let desc := { desc with pktCtrDelta := pktCtrDelta }
    if pktCtrDelta = 1 then { success := true, hostSs := desc.params.snapshot, desc := desc }
    else if pktCtrDeltaThresh ≠ 0 ∧ pktCtrDelta > pktCtrDeltaThresh.toNat then
      { success := false, hostSs := hostSs, desc := desc }
    else { success := true, hostSs := desc.params.snapshot, desc := desc }

/-- The count of one link becomes `n`, and the total goes down by as much. -/
def WaitCount.lowerLink (w : WaitCount) (link : Link) (n : UInt32) : WaitCount :=
  let waitCountDiff := w.perLinkCount link - n
  { perLinkCount := Function.update w.perLinkCount link n
    totalCount := w.totalCount - waitCountDiff.toUInt64 }

/-- One turn of the loop of `mgmt_rx_reo_update_wait_count`. -/
def updateLinkWaitCount (new old : WaitCount) (link : Link) : WaitCount :=
  if old.perLinkCount link ≠ 0 then
    old.lowerLink link
      (if old.perLinkCount link < new.perLinkCount link then old.perLinkCount link
        else new.perLinkCount link)
  else old

@[irreducible] def updateWaitCount (old new : WaitCount) : WaitCount :=
  (List.finRange maxMloLinks).foldl (updateLinkWaitCount new) old

/-! ## Entries -/

/-- The bits of an entry's status. -/
structure Status where
  waitForFrameOnOtherLinks : Bool
  agedOut : Bool
  olderThanLatestAgedOutFrame : Bool
  ingressListOverflow : Bool
  olderThanReadyToDeliverFrames : Bool
  egressListOverflow : Bool
  deriving DecidableEq, Repr

/-- `struct mgmt_rx_reo_list_entry`. The identity stands for the address; the last two fields
are not in the code. -/
structure Entry where
  id : ℕ
  params : ReoParams
  waitCount : WaitCount
  status : Status
  isParallelRx : Bool
  lowered : Link → ℕ
  seenBefore : Link → ℤ

def prepareListEntry (id : ℕ) (seen : Link → ℤ) (desc : FrameDescriptor) : Entry :=
  { id := id
    params := desc.params
    waitCount := desc.waitCount
    status :=
      { waitForFrameOnOtherLinks := desc.waitCount.totalCount ≠ 0
        agedOut := false, olderThanLatestAgedOutFrame := false, ingressListOverflow := false
        olderThanReadyToDeliverFrames := false, egressListOverflow := false }
    isParallelRx := false
    lowered := fun _ => 0
    seenBefore := seen }

variable (e : Entry)

def Entry.setWaitCount (w : WaitCount) : Entry :=
  { e with
    waitCount := w
    status := if w.totalCount = 0 then { e.status with waitForFrameOnOtherLinks := false }
      else e.status }

def Entry.lowerTo (w : WaitCount) : Entry :=
  e.setWaitCount (updateWaitCount e.waitCount w)

def countLeft (oldWaitCount : UInt32) (pktCtrDelta : UInt16) : UInt32 :=
  if oldWaitCount ≥ pktCtrDelta.toUInt32 then oldWaitCount - pktCtrDelta.toUInt32 else 0

/-- The count of one link goes down by the packet counters that a frame of it advanced, as far
as it goes. -/
def Entry.lowerBy (link : Link) (pktCtrDelta : UInt16) (e : Entry) : Entry :=
  if e.waitCount.perLinkCount link ≠ 0 then
    let oldWaitCount := e.waitCount.perLinkCount link
    let newWaitCount := countLeft oldWaitCount pktCtrDelta
    { e.setWaitCount (e.waitCount.lowerLink link newWaitCount) with
      lowered := Function.update e.lowered link
        (e.lowered link + (oldWaitCount - newWaitCount).toNat) }
  else e

def Entry.readyToSendUp : Bool :=
  e.status.ingressListOverflow || e.status.egressListOverflow ||
    !e.status.waitForFrameOnOtherLinks || e.status.agedOut ||
    e.status.olderThanLatestAgedOutFrame || e.status.olderThanReadyToDeliverFrames

def Entry.notAfter (ts : UInt32) (cur : Entry) : Bool :=
  compareGlobalTimestampsGte ts cur.params.globalTimestamp

/-- `mgmt_rx_reo_check_sanity_list`: whether it succeeds. -/
def checkSanityList : List Entry → Bool
  | [] => true
  | [_] => true
  | prev :: cur :: rest =>
    compareGlobalTimestampsGte cur.params.globalTimestamp prev.params.globalTimestamp &&
      checkSanityList (cur :: rest)

def isStaleFrame (lastDeliveredFrame : Option ReoParams) (desc : FrameDescriptor) : FrameDescriptor :=
  match lastDeliveredFrame with
  | none => { desc with isStale := false, isParallelRx := false }
  | some last =>
    if !desc.reoRequired then { desc with isStale := false, isParallelRx := false }
    else if compareGlobalTimestampsGte last.startTimestamp desc.params.startTimestamp &&
        compareGlobalTimestampsGte desc.params.endTimestamp last.endTimestamp then
      { desc with isStale := false, isParallelRx := true }
    else
      { desc with
        isStale :=
          !compareGlobalTimestampsGte desc.params.startTimestamp last.startTimestamp
        isParallelRx := false }

/-- The first `n` entries are marked. -/
def markFirst (mark : Entry → Entry) : ℕ → List Entry → List Entry
  | 0, l => l
  | _ + 1, [] => []
  | n + 1, e :: rest => mark e :: markFirst mark n rest

def Entry.markEgressOverflow : Entry :=
  { e with status := { e.status with egressListOverflow := true } }

/-- `mgmt_rx_reo_handle_egress_overflow`, for a list that may have overflowed. -/
def handleEgressOverflow (egress : List Entry) : List Entry :=
  markFirst Entry.markEgressOverflow (egress.length - egressListMaxSize) egress

/-- What `updateEgressList` leaves behind. -/
structure EgressUpdate where
  success : Bool
  egress : List Entry
  desc : FrameDescriptor
  new : Option Entry

def insertEgress (new : Entry) (smaller : List Entry)
    (leastGreater : Entry) (greater : List Entry) : EgressUpdate :=
  let new := new.lowerTo leastGreater.waitCount
  let desc := { desc with waitCount := new.waitCount, queuedList := .egress }
  let new : Entry :=
    { new with
      isParallelRx := desc.isParallelRx
      status := { new.status with olderThanReadyToDeliverFrames := true } }
  { success := true
    egress := handleEgressOverflow (smaller ++ new :: leastGreater :: greater)
    desc := desc
    new := none }

def updateEgressList (lastReleasedFrame : Option ReoParams) (egress : List Entry)
    (desc : FrameDescriptor) (new : Option Entry) : Option EgressUpdate :=
  let desc := isStaleFrame lastReleasedFrame desc
  let tsNew := desc.params.globalTimestamp
  let unchanged : EgressUpdate := { success := true, egress := egress, desc := desc, new := new }
  if desc.isStale then do
    assertAlways ((egress.takeWhile (Entry.notAfter tsNew)).all Entry.isParallelRx = true)
    return unchanged
  else
    match new, egress.getLast? with
    | some entry, some last =>
      if compareGlobalTimestampsGte tsNew last.params.globalTimestamp then some unchanged
      else
        match egress.dropWhile (Entry.notAfter tsNew) with
        | [] => some { unchanged with success := false }
        | leastGreater :: greater =>
          some (insertEgress desc entry (egress.takeWhile (Entry.notAfter tsNew)) leastGreater greater)
    | _, _ => some unchanged

/-- The new entry as it goes into the ingress list, before the entries that are greater. -/
def newIngressEntry (greater : List Entry) : Option Entry → Option Entry
  | none => none
  | some new =>
    if desc.hostConsumed && !desc.isStale && desc.reoRequired && desc.queuedList ≠ .egress then
      let new := match greater with
        | [] => new
        | leastGreater :: _ => new.lowerTo leastGreater.waitCount
      some { new with isParallelRx := desc.isParallelRx }
    else none

def updateIngressList (ingress : List Entry) (desc : FrameDescriptor) (new : Option Entry) :
    Option (List Entry) := do
  let tsNew := desc.params.globalTimestamp
  let smaller := ingress.takeWhile (Entry.notAfter tsNew)
  let greater := ingress.dropWhile (Entry.notAfter tsNew)
  assertAlways (smaller.all (fun cur => !desc.isStale || cur.isParallelRx) = true)
  return smaller.map (Entry.lowerTo · desc.waitCount) ++
    ((newIngressEntry desc greater new).toList ++
      greater.map (Entry.lowerBy desc.params.linkId (UInt16.ofInt desc.pktCtrDelta)))

def Entry.markIngressOverflow : Entry :=
  { e with status := { e.status with ingressListOverflow := true } }

/-- The entries at the head of the ingress list that are ready, the first `overflow` of them
because the list has overflowed, and the entries that stay. -/
def readyEntries : ℕ → List Entry → List Entry × List Entry
  | _, [] => ([], [])
  | overflow, e :: rest =>
    let e := if overflow > 0 then e.markIngressOverflow else e
    if e.readyToSendUp then
      let (ready, stay) := readyEntries (overflow - 1) rest
      (e :: ready, stay)
    else ([], e :: rest)

/-- `mgmt_rx_reo_move_entries_ingress_to_egress_list`. -/
def moveEntries (ingress egress : List Entry) : List Entry × List Entry :=
  let (ready, stay) := readyEntries (ingress.length - ingressListMaxSize) ingress
  (stay, if ready = [] then egress else handleEgressOverflow (egress ++ ready))

/-- `mgmt_rx_reo_ageout_entries_ingress_list`. -/
def ageoutEntries (expired : Entry → Bool) : List Entry → List Entry
  | [] => []
  | cur :: rest =>
    let status := if expired cur then { cur.status with agedOut := true } else cur.status
    let status := if rest.any expired then
      { status with olderThanLatestAgedOutFrame := true } else status
    { cur with status := status } :: ageoutEntries expired rest

/-- One turn of the loop of `mgmt_rx_reo_release_egress_list_entries`: the list that is left and
the last released frame. `defer` is whether the delivery has to wait for another context. -/
def releaseEntry (defer : Bool) (egress : List Entry) (lastReleasedFrame : Option ReoParams) :
    Option (List Entry × Option ReoParams) :=
  match egress with
  | [] => some (egress, lastReleasedFrame)
  | first :: rest =>
    if !first.readyToSendUp then some (egress, lastReleasedFrame)
    else if defer && !first.status.egressListOverflow then some (egress, lastReleasedFrame)
    else
      match lastReleasedFrame with
      | none => some (rest, some first.params)
      | some last =>
        if compareGlobalTimestampsGte first.params.globalTimestamp last.globalTimestamp then
          some (rest, some first.params)
        else do
          assertAlways (first.isParallelRx = true)
          return (rest, lastReleasedFrame)

end MgmtRxReo
