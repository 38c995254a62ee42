import Sm8750Modules.Lib.Runs
import Sm8750Modules.MgmtRxReo.Lists

/-!
# Management frame reordering: the machine

The reordering context with everything that changes it: frames of the host and of the firmware
that arrive, the move from the ingress to the egress list, the two timers, and the delivery,
which runs under the lock of the egress list alone.

An arrival updates the host's snapshot, calculates the wait count and updates the egress list;
it then holds the lock of the ingress list until it has updated that one too, and deliveries may
come in between. A failed assertion stops the machine, so that it has no successor.

The tallies are not in the code: how far the deltas of the accepted frames of a link add up,
how often its snapshot was stored over an invalid one, and how far it has moved otherwise.
-/

namespace MgmtRxReo

open Runs

/-- What has been seen of a link. -/
structure Tally where
  deltas : ℤ
  starts : ℕ
  moved : ℤ
  deriving DecidableEq, Repr

def Tally.seen (t : Tally) : ℤ :=
  t.starts + t.moved

/-- A frame has gone through `updateHostSnapshot`. -/
def Tally.count (t : Tally) (hostSs : SnapshotParams) (u : HostUpdate) : Tally :=
  if u.success then
    { deltas := t.deltas + if u.desc.drop then 0 else u.desc.pktCtrDelta
      starts := t.starts + if hostSs.valid then 0 else 1
      moved := t.moved +
        if hostSs.valid then subtractPktCtrs u.hostSs.mgmtPktCtr hostSs.mgmtPktCtr else 0 }
  else t

/-- An arrival that holds the lock of the ingress list. -/
structure InFlight where
  desc : FrameDescriptor
  new : Option Entry

/-- `struct mgmt_rx_reo_context`, with the host snapshots of its links. -/
structure State where
  host : Link → SnapshotParams
  ingress : List Entry
  egress : List Entry
  lastReleasedFrame : Option ReoParams
  inFlight : Option InFlight
  nextId : ℕ
  tally : Link → Tally

/-- The context as it is created. -/
def State.init : State :=
  { host := fun _ => { valid := false, mgmtPktCtr := 0, globalTimestamp := 0 }
    ingress := [], egress := [], lastReleasedFrame := none, inFlight := none, nextId := 0
    tally := fun _ => { deltas := 0, starts := 0, moved := 0 } }

variable (s : State)

def State.entries : List Entry :=
  (s.inFlight.bind InFlight.new).toList ++ (s.ingress ++ s.egress)

inductive Action where
  /-- An event with a frame, the threshold of its psoc, what the links show, and whether an
  entry can be made. -/
  | arrive (params : ReoParams) (hostConsumed reoRequired : Bool) (pktCtrDeltaThresh : UInt16)
      (views : Link → LinkView) (entryMade : Bool)
  | enqueue
  | move
  | ageout (expired : Entry → Bool)
  | release (defer : Bool)
  | egressInactivity

/-- `mgmt_rx_reo_update_lists`, up to the release of the egress list's lock. -/
def updateLists (desc : FrameDescriptor) (new : Option Entry) : Option State := do
  let u ← updateEgressList s.lastReleasedFrame s.egress desc new
  let s := { s with egress := u.egress }
  if u.success && checkSanityList u.egress then
    return { s with inFlight := some { desc := u.desc, new := u.new } }
  else return s

def prepareAndUpdateLists (seen : Link → ℤ) (desc : FrameDescriptor)
    (entryMade : Bool) : Option State :=
  if desc.hostConsumed && desc.reoRequired then
    if entryMade then
      updateLists { s with nextId := s.nextId + 1 } desc
        (some (prepareListEntry s.nextId seen desc))
    else some s
  else updateLists s desc none

/-- The host's snapshot and the tally of the link of a frame, after `updateHostSnapshot`. -/
def State.updateHost (link : Link) (u : HostUpdate) : State :=
  { s with
    host := Function.update s.host link u.hostSs
    tally := Function.update s.tally link ((s.tally link).count (s.host link) u) }

/-- `wlan_mgmt_rx_reo_algo_entry`, up to the release of the egress list's lock. -/
def algoEntry (desc : FrameDescriptor) (pktCtrDeltaThresh : UInt16)
    (views : Link → LinkView) (entryMade : Bool) : Option State :=
  if !desc.params.valid then some s
  else
    let link := desc.params.linkId
    let seen := fun link => (s.tally link).seen
    let u := updateHostSnapshot pktCtrDeltaThresh (s.host link) desc
    let s := s.updateHost link u
    if !u.success || u.desc.drop then some s
    else do
      let r ← calculateWaitCount link desc.params.globalTimestamp views s.host
      let s := { s with host := r.host }
      if r.status = .success then
        prepareAndUpdateLists s seen { u.desc with waitCount := r.waitCount } entryMade
      else return s

def step : Action → Option State
  | .arrive params hostConsumed reoRequired thresh views entryMade =>
    if s.inFlight.isSome then none
    else algoEntry s (.ofFrame params hostConsumed reoRequired) thresh views entryMade
  | .enqueue =>
    match s.inFlight with
    | none => none
    | some a => do
      let ingress ← updateIngressList s.ingress a.desc a.new
      return { s with ingress := ingress, inFlight := none }
  | .move =>
    if s.inFlight.isSome then none
    else
      let (ingress, egress) := moveEntries s.ingress s.egress
      some { s with ingress := ingress, egress := egress }
  | .ageout expired =>
    if s.inFlight.isSome then none
    else some { s with ingress := ageoutEntries expired s.ingress }
  | .release defer => do
    let (egress, last) ← releaseEntry defer s.egress s.lastReleasedFrame
    return { s with egress := egress, lastReleasedFrame := last }
  | .egressInactivity => some { s with lastReleasedFrame := none }

/-- The runs of the reordering. -/
def machine : Machine State Action where
  init s := s = .init
  guard s a := (step s a).isSome
  next s a := (step s a).getD s

end MgmtRxReo
