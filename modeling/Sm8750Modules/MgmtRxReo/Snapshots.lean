import Sm8750Modules.Lib.Circle

/-!
# Management frame reordering: snapshots and wait counts

Management frames of a multi-link device arrive on several links and are put in the order of their
global timestamps.
-/

namespace MgmtRxReo

def pktCtrHalfRange : UInt16 := 0x8000

def pktCtrFullRange : ℤ := 0x10000

def globalTsHalfRange : UInt32 := 0x80000000

abbrev maxMloLinks : ℕ := 6

def uintMax : UInt32 := 0xffffffff

abbrev Link := Fin maxMloLinks

instance : NeZero maxMloLinks := ⟨by decide⟩

def comparePktCtrsGte (ctr1 ctr2 : UInt16) : Bool :=
  let delta := ctr1 - ctr2
  decide (delta ≤ pktCtrHalfRange)

def subtractPktCtrs (ctr1 ctr2 : UInt16) : ℤ :=
  let delta := ctr1 - ctr2
  if delta > pktCtrHalfRange then (delta.toNat : ℤ) - pktCtrFullRange else delta.toNat

def compareGlobalTimestampsGte (ts1 ts2 : UInt32) : Bool :=
  let delta := ts1 - ts2
  decide (delta ≤ globalTsHalfRange)

structure SnapshotParams where
  valid : Bool
  mgmtPktCtr : UInt16
  globalTimestamp : UInt32
  deriving DecidableEq, Repr

structure SharedSnapshots where
  macHw : SnapshotParams
  fwForwarded : SnapshotParams
  fwConsumed : SnapshotParams
  deriving DecidableEq, Repr

structure Snapshots extends SharedSnapshots where
  host : SnapshotParams
  deriving DecidableEq, Repr

def SnapshotParams.invalidate (ss : SnapshotParams) : SnapshotParams :=
  { ss with valid := false }

def behind (macHw ss : SnapshotParams) : Bool :=
  !compareGlobalTimestampsGte macHw.globalTimestamp ss.globalTimestamp ||
    !comparePktCtrsGte macHw.mgmtPktCtr ss.mgmtPktCtr

/-- Timestamps and counters order the host and a firmware snapshot differently. -/
def disagree (host fw : SnapshotParams) : Bool :=
  compareGlobalTimestampsGte host.globalTimestamp fw.globalTimestamp !=
    comparePktCtrsGte host.mgmtPktCtr fw.mgmtPktCtr

/-- What the invalidation does to a snapshot of the firmware, forwarded or consumed. -/
def invalidateFw (macHw host fw : SnapshotParams) : SnapshotParams :=
  if fw.valid then
    let fw := if behind macHw fw then fw.invalidate else fw
    if host.valid && fw.valid && disagree host fw then fw.invalidate else fw
  else fw

def invalidateStaleSnapshots (s : Snapshots) : Snapshots :=
  if !s.macHw.valid then s
  else
    let host := if s.host.valid && behind s.macHw s.host then s.host.invalidate else s.host
    { macHw := s.macHw
      fwForwarded := invalidateFw s.macHw host s.fwForwarded
      fwConsumed := invalidateFw s.macHw host s.fwConsumed
      host := host }

/-- Both comparisons of two snapshots hold. -/
def notBefore (later earlier : SnapshotParams) : Bool :=
  compareGlobalTimestampsGte later.globalTimestamp earlier.globalTimestamp &&
    comparePktCtrsGte later.mgmtPktCtr earlier.mgmtPktCtr

def hostCheckSanity (s : Snapshots) : Bool :=
  notBefore s.macHw s.host &&
    (!(s.fwForwarded.valid && !s.fwConsumed.valid) || notBefore s.fwForwarded s.host) &&
    (!(s.fwConsumed.valid && !s.fwForwarded.valid) || notBefore s.fwConsumed s.host) &&
    (!(s.fwForwarded.valid && s.fwConsumed.valid) ||
      (!(!compareGlobalTimestampsGte s.fwConsumed.globalTimestamp s.host.globalTimestamp &&
          !compareGlobalTimestampsGte s.fwForwarded.globalTimestamp s.host.globalTimestamp) &&
        !(!comparePktCtrsGte s.fwConsumed.mgmtPktCtr s.host.mgmtPktCtr &&
          !comparePktCtrsGte s.fwForwarded.mgmtPktCtr s.host.mgmtPktCtr)))

/-- `mgmt_rx_reo_snapshots_check_sanity`: whether it succeeds. -/
def snapshotsCheckSanity (s : Snapshots) : Bool :=
  if !s.macHw.valid then
    !(s.fwForwarded.valid || s.fwConsumed.valid || s.host.valid)
  else if !s.fwForwarded.valid && !s.fwConsumed.valid then
    !s.host.valid
  else
    (!s.fwForwarded.valid || notBefore s.macHw s.fwForwarded) &&
      (!s.fwConsumed.valid || notBefore s.macHw s.fwConsumed) &&
      (!s.host.valid || hostCheckSanity s)

def assertAlways (p : Prop) [Decidable p] : Option Unit :=
  if p then some () else none

/-- The estimate that the last frame consumed by the firmware gives, where it is not older than
the incoming one. -/
def pendingAfterConsumed (ts : UInt32) (s : Snapshots) (framesPending : ℤ) : Option ℤ :=
  if s.fwConsumed.valid && compareGlobalTimestampsGte s.fwConsumed.globalTimestamp ts then do
    let framesPending := subtractPktCtrs s.fwConsumed.mgmtPktCtr s.host.mgmtPktCtr - 1
    assertAlways (0 ≤ framesPending)
    if s.fwForwarded.valid &&
        !compareGlobalTimestampsGte s.fwForwarded.globalTimestamp ts then
      let framesPending := subtractPktCtrs s.fwForwarded.mgmtPktCtr s.host.mgmtPktCtr
      return if framesPending < 0 then 0 else framesPending
    else return framesPending
  else some framesPending

/-- The estimate that the last frame forwarded by the firmware gives, where it is not older than
the incoming one. -/
def pendingAfterForwarded (ts : UInt32) (s : Snapshots) (framesPending : ℤ) : Option ℤ :=
  if s.fwForwarded.valid && compareGlobalTimestampsGte s.fwForwarded.globalTimestamp ts then do
    let deltaFwdHost := subtractPktCtrs s.fwForwarded.mgmtPktCtr s.host.mgmtPktCtr - 1
    assertAlways (0 ≤ deltaFwdHost)
    let framesPending := min framesPending deltaFwdHost
    assertAlways (0 ≤ framesPending)
    return framesPending
  else some framesPending

/-- The frames of a link that an incoming frame with timestamp `ts` waits for, where the MAC
hardware and the host have valid snapshots. -/
def framesPending (ts : UInt32) (s : Snapshots) : Option ℤ :=
  if subtractPktCtrs s.macHw.mgmtPktCtr s.host.mgmtPktCtr = 0 then some 0
  else if compareGlobalTimestampsGte s.host.globalTimestamp ts then some 0
  else do
    let framesPending := subtractPktCtrs s.macHw.mgmtPktCtr s.host.mgmtPktCtr
    assertAlways (0 ≤ framesPending)
    if framesPending ≠ 0 ∧ compareGlobalTimestampsGte s.macHw.globalTimestamp ts then
      let framesPending := framesPending - 1
      assertAlways (0 ≤ framesPending)
      let framesPending ← pendingAfterConsumed ts s framesPending
      pendingAfterForwarded ts s framesPending
    else return framesPending

/-- The wait count of an incoming frame on one link, once the snapshots are filtered. -/
def waitOnLink (sameLink : Bool) (ts : UInt32) (s : Snapshots) : Option UInt32 :=
  if sameLink then some 0
  else if !s.macHw.valid then some 0
  else if !s.host.valid then some uintMax
  else do
    let pending ← framesPending ts s
    assertAlways (0 ≤ pending)
    return UInt32.ofNat pending.toNat

/-! ## The loop over the links -/

structure WaitCount where
  perLinkCount : Link → UInt32
  totalCount : UInt64

def WaitCount.zero : WaitCount :=
  { perLinkCount := fun _ => 0, totalCount := 0 }

def WaitCount.add (w : WaitCount) (link : Link) (n : UInt32) : WaitCount :=
  { perLinkCount := Function.update w.perLinkCount link n
    totalCount := w.totalCount + n.toUInt64 }

/-- What the loop finds at a link. -/
inductive LinkView where
  | idle
  | failed
  | ready (shared : SharedSnapshots)
  deriving DecidableEq, Repr

/-- How the loop ends: after the last link, with an error, or with a failed sanity check, which
marks the frame as dropped. -/
inductive LoopStatus where
  | success
  | failure
  | insane
  deriving DecidableEq, Repr

/-- What the loop over the links leaves behind. -/
structure WaitResult where
  status : LoopStatus
  host : Link → SnapshotParams
  waitCount : WaitCount

def filtered (shared : SharedSnapshots) (host : SnapshotParams) : Snapshots :=
  invalidateStaleSnapshots { shared with host := host }

def waitLoop (inFrameLink : Link) (ts : UInt32) (views : Link → LinkView) :
    List Link → (Link → SnapshotParams) → WaitCount → Option WaitResult
  | [], host, w => some { status := .success, host := host, waitCount := w }
  | link :: rest, host, w =>
    match views link with
    | .idle => waitLoop inFrameLink ts views rest host (w.add link 0)
    | .failed => some { status := .failure, host := host, waitCount := w }
    | .ready shared =>
      let s := filtered shared (host link)
      let host := Function.update host link s.host
      if !snapshotsCheckSanity s then
        some { status := .insane, host := host, waitCount := w }
      else do
        let n ← waitOnLink (link = inFrameLink) ts s
        waitLoop inFrameLink ts views rest host (w.add link n)

/-- `wlan_mgmt_rx_reo_algo_calculate_wait_count`, for a frame of a valid link. -/
def calculateWaitCount (inFrameLink : Link) (ts : UInt32) (views : Link → LinkView)
    (host : Link → SnapshotParams) : Option WaitResult :=
  waitLoop inFrameLink ts views (List.finRange maxMloLinks) host WaitCount.zero

theorem comparePktCtrsGte_iff (a b : UInt16) :
    comparePktCtrsGte a b = true ↔ Circle.Gte 0x8000 a.toNat b.toNat := by
  simp only [comparePktCtrsGte, decide_eq_true_eq, UInt16.le_iff_toNat_le, UInt16.toNat_sub,
    Circle.Gte, Circle.ahead]
  rfl

theorem compareGlobalTimestampsGte_iff (a b : UInt32) :
    compareGlobalTimestampsGte a b = true ↔ Circle.Gte 0x80000000 a.toNat b.toNat := by
  simp only [compareGlobalTimestampsGte, decide_eq_true_eq, UInt32.le_iff_toNat_le,
    UInt32.toNat_sub, Circle.Gte, Circle.ahead]
  rfl

theorem subtractPktCtrs_eq (a b : UInt16) :
    subtractPktCtrs a b = Circle.diff 0x8000 a.toNat b.toNat := by
  have hsub : (a - b).toNat = Circle.ahead 0x8000 a.toNat b.toNat := by
    rw [UInt16.toNat_sub]
    rfl
  simp only [subtractPktCtrs, gt_iff_lt, UInt16.lt_iff_toNat_lt, hsub, Circle.diff]
  rfl

theorem subtractPktCtrs_eq_zero_iff (a b : UInt16) : subtractPktCtrs a b = 0 ↔ a = b := by
  rw [subtractPktCtrs_eq, Circle.diff_eq_zero_iff a.toNat_lt b.toNat_lt, UInt16.toNat_inj]

theorem subtractPktCtrs_nonneg {a b : UInt16} (h : comparePktCtrsGte a b = true) :
    0 ≤ subtractPktCtrs a b := by
  rw [subtractPktCtrs_eq]
  exact Circle.diff_nonneg ((comparePktCtrsGte_iff a b).1 h)

theorem comparePktCtrsGte_of_subtract_nonpos {a b : UInt16} (h : subtractPktCtrs a b ≤ 0) :
    comparePktCtrsGte b a = true := by
  rw [subtractPktCtrs_eq, Circle.diff_nonpos_iff a.toNat_lt b.toNat_lt] at h
  exact (comparePktCtrsGte_iff b a).2 h.1

theorem ahead_toNat_eq_half_iff (a b : UInt32) :
    Circle.ahead 0x80000000 a.toNat b.toNat = 0x80000000 ↔ a - b = globalTsHalfRange := by
  rw [← UInt32.toNat_inj, UInt32.toNat_sub]
  rfl

end MgmtRxReo
