import Sm8750Modules.MgmtRxReo.Snapshots

/-!
# Management frame reordering: the assertions on the wait count

The snapshots come from memory that the firmware writes, so the computation of a wait count
filters them first and asserts afterwards that no estimate is negative.
-/

namespace MgmtRxReo

open List

variable {ts : UInt32} {s : Snapshots}

theorem assertAlways_pos {p : Prop} [Decidable p] (h : p) : assertAlways p = some () :=
  if_pos h

theorem assertAlways_neg {p : Prop} [Decidable p] (h : ¬ p) : assertAlways p = none :=
  if_neg h

/-- A firmware snapshot that an estimate is made from, with a counter that is not ahead of the
host's. -/
def NotAhead (ts : UInt32) (host fw : SnapshotParams) : Prop :=
  fw.valid = true ∧ compareGlobalTimestampsGte fw.globalTimestamp ts = true ∧
    subtractPktCtrs fw.mgmtPktCtr host.mgmtPktCtr ≤ 0

theorem pendingAfterConsumed_cases (ts : UInt32) (s : Snapshots) {n : ℤ} (hn : 0 ≤ n) :
    (NotAhead ts s.host s.fwConsumed ∧ pendingAfterConsumed ts s n = none) ∨
      (¬ NotAhead ts s.host s.fwConsumed ∧
        ∃ m, 0 ≤ m ∧ pendingAfterConsumed ts s n = some m) := by
  unfold pendingAfterConsumed
  by_cases h : (s.fwConsumed.valid && compareGlobalTimestampsGte s.fwConsumed.globalTimestamp ts) = true
  · rw [if_pos h]
    rw [Bool.and_eq_true] at h
    dsimp only
    by_cases hc : 0 ≤ subtractPktCtrs s.fwConsumed.mgmtPktCtr s.host.mgmtPktCtr - 1
    · refine .inr ⟨fun hna => absurd hna.2.2 (by omega), ?_⟩
      rw [assertAlways_pos hc, Option.bind_eq_bind, Option.bind_some]
      split
      · refine ⟨_, ?_, rfl⟩
        split <;> omega
      · exact ⟨_, hc, rfl⟩
    · refine .inl ⟨⟨h.1, h.2, by omega⟩, ?_⟩
      rw [assertAlways_neg hc]
      rfl
  · rw [if_neg h]
    rw [Bool.and_eq_true] at h
    exact .inr ⟨fun hna => h ⟨hna.1, hna.2.1⟩, n, hn, rfl⟩

theorem pendingAfterForwarded_cases (ts : UInt32) (s : Snapshots) {n : ℤ} (hn : 0 ≤ n) :
    (NotAhead ts s.host s.fwForwarded ∧ pendingAfterForwarded ts s n = none) ∨
      (¬ NotAhead ts s.host s.fwForwarded ∧
        ∃ m, 0 ≤ m ∧ pendingAfterForwarded ts s n = some m) := by
  unfold pendingAfterForwarded
  by_cases h : (s.fwForwarded.valid &&
      compareGlobalTimestampsGte s.fwForwarded.globalTimestamp ts) = true
  · rw [if_pos h]
    rw [Bool.and_eq_true] at h
    dsimp only
    by_cases hf : 0 ≤ subtractPktCtrs s.fwForwarded.mgmtPktCtr s.host.mgmtPktCtr - 1
    · have hmin := le_min hn hf
      refine .inr ⟨fun hna => absurd hna.2.2 (by omega), _, hmin, ?_⟩
      rw [assertAlways_pos hf, Option.bind_eq_bind, Option.bind_some, assertAlways_pos hmin]
      rfl
    · refine .inl ⟨⟨h.1, h.2, by omega⟩, ?_⟩
      rw [assertAlways_neg hf]
      rfl
  · rw [if_neg h]
    rw [Bool.and_eq_true] at h
    exact .inr ⟨fun hna => h ⟨hna.1, hna.2.1⟩, n, hn, rfl⟩

/-- A link whose snapshots make an assertion fail for a frame with timestamp `ts`. -/
def AssertsFail (ts : UInt32) (s : Snapshots) : Prop :=
  s.macHw.mgmtPktCtr ≠ s.host.mgmtPktCtr ∧
    compareGlobalTimestampsGte s.host.globalTimestamp ts = false ∧
    compareGlobalTimestampsGte s.macHw.globalTimestamp ts = true ∧
    (NotAhead ts s.host s.fwConsumed ∨ NotAhead ts s.host s.fwForwarded)

theorem framesPending_cases (ts : UInt32)
    (hm : comparePktCtrsGte s.macHw.mgmtPktCtr s.host.mgmtPktCtr = true) :
    (AssertsFail ts s ∧ framesPending ts s = none) ∨
      (¬ AssertsFail ts s ∧ ∃ n, 0 ≤ n ∧ framesPending ts s = some n) := by
  have hnonneg := subtractPktCtrs_nonneg hm
  have hzero := subtractPktCtrs_eq_zero_iff s.macHw.mgmtPktCtr s.host.mgmtPktCtr
  unfold framesPending
  by_cases hc : subtractPktCtrs s.macHw.mgmtPktCtr s.host.mgmtPktCtr = 0
  · rw [if_pos hc]
    exact .inr ⟨fun h => h.1 (hzero.1 hc), 0, le_rfl, rfl⟩
  rw [if_neg hc]
  by_cases hh : compareGlobalTimestampsGte s.host.globalTimestamp ts = true
  · rw [if_pos hh]
    exact .inr ⟨fun h => absurd hh (by rw [h.2.1]; nofun), 0, le_rfl, rfl⟩
  rw [if_neg hh]
  dsimp only
  rw [assertAlways_pos hnonneg, Option.bind_eq_bind, Option.bind_some]
  by_cases hts : compareGlobalTimestampsGte s.macHw.globalTimestamp ts = true
  · have hdec : 0 ≤ subtractPktCtrs s.macHw.mgmtPktCtr s.host.mgmtPktCtr - 1 := by omega
    rw [if_pos ⟨hc, hts⟩, assertAlways_pos hdec, Option.bind_some]
    have hfail : NotAhead ts s.host s.fwConsumed ∨ NotAhead ts s.host s.fwForwarded →
        AssertsFail ts s := fun hna =>
      ⟨fun h => hc (hzero.2 h), Bool.eq_false_iff.2 hh, hts, hna⟩
    rcases pendingAfterConsumed_cases ts s hdec with ⟨hna, he⟩ | ⟨hna, n, hn, he⟩
    · exact .inl ⟨hfail (.inl hna), by rw [he]; rfl⟩
    · rw [he, Option.bind_eq_bind, Option.bind_some]
      rcases pendingAfterForwarded_cases ts s hn with ⟨hnf, hf⟩ | ⟨hnf, hf⟩
      · exact .inl ⟨hfail (.inr hnf), hf⟩
      · exact .inr ⟨fun h => h.2.2.2.elim hna hnf, hf⟩
  · rw [if_neg fun h => hts h.2]
    exact .inr ⟨fun h => hts h.2.2.1, _, hnonneg, rfl⟩

section

variable (hm : comparePktCtrsGte s.macHw.mgmtPktCtr s.host.mgmtPktCtr = true)
include hm

theorem framesPending_eq_none_iff : framesPending ts s = none ↔ AssertsFail ts s := by
  rcases framesPending_cases ts hm with ⟨h, he⟩ | ⟨h, n, _, he⟩
  · exact ⟨fun _ => h, fun _ => he⟩
  · rw [he]
    exact ⟨nofun, fun hc => absurd hc h⟩

theorem framesPending_nonneg {n : ℤ} (h : framesPending ts s = some n) : 0 ≤ n := by
  rcases framesPending_cases ts hm with ⟨_, he⟩ | ⟨_, m, hm, he⟩
  · rw [he] at h
    cases h
  · rw [he] at h
    cases h
    exact hm

theorem framesPending_bind_eq_none_iff :
    (do
      let pending ← framesPending ts s
      assertAlways (0 ≤ pending)
      return UInt32.ofNat pending.toNat) = none ↔ AssertsFail ts s := by
  rw [← framesPending_eq_none_iff hm]
  cases hp : framesPending ts s with
  | none => simp
  | some n =>
    have hn := framesPending_nonneg hm hp
    simp [assertAlways_pos hn]

end

/-! ## After the filters -/

/-- The timestamps of a firmware snapshot at which the comparisons hold both ways. -/
def Opposite (ts : UInt32) (s : Snapshots) (fw : SnapshotParams) : Prop :=
  (s.macHw.globalTimestamp = fw.globalTimestamp ∧
      s.macHw.globalTimestamp - s.host.globalTimestamp = globalTsHalfRange) ∨
    (s.macHw.globalTimestamp = ts ∧ fw.globalTimestamp - ts = globalTsHalfRange)

/-- A valid firmware snapshot, consistent with the hardware's counter, that is not ahead of the
host's counter although its timestamp is opposite. -/
def OppositeBehind (ts : UInt32) (s : Snapshots) (fw : SnapshotParams) : Prop :=
  fw.valid = true ∧ comparePktCtrsGte s.macHw.mgmtPktCtr fw.mgmtPktCtr = true ∧
    subtractPktCtrs fw.mgmtPktCtr s.host.mgmtPktCtr ≤ 0 ∧ Opposite ts s fw

/-- **The snapshots of a link that get past the filters and fail an assertion**, for a frame with timestamp
`ts`. -/
def HalfRange (ts : UInt32) (s : Snapshots) : Prop :=
  s.macHw.valid = true ∧ s.host.valid = true ∧ notBefore s.macHw s.host = true ∧
    s.macHw.mgmtPktCtr ≠ s.host.mgmtPktCtr ∧
    compareGlobalTimestampsGte s.host.globalTimestamp ts = false ∧
    (OppositeBehind ts s s.fwConsumed ∨ OppositeBehind ts s s.fwForwarded)

theorem behind_eq_not_notBefore (macHw ss : SnapshotParams) :
    behind macHw ss = !notBefore macHw ss := by
  simp only [behind, notBefore, Bool.not_and]

theorem invalidateFw_eq (macHw host fw : SnapshotParams) :
    invalidateFw macHw host fw =
      { fw with valid := fw.valid && notBefore macHw fw && !(host.valid && disagree host fw) } := by
  obtain ⟨valid, ctr, ts⟩ := fw
  cases valid with
  | false => simp [invalidateFw]
  | true =>
    unfold invalidateFw
    rw [if_pos rfl, behind_eq_not_notBefore]
    dsimp only
    cases hb : notBefore macHw ⟨true, ctr, ts⟩ with
    | false => simp [SnapshotParams.invalidate]
    | true => cases hd : (host.valid && disagree host ⟨true, ctr, ts⟩) <;>
        simp [SnapshotParams.invalidate, hd]

theorem invalidateStaleSnapshots_eq (hmac : s.macHw.valid = true)
    (hhost : s.host.valid = true) (hbefore : notBefore s.macHw s.host = true) :
    invalidateStaleSnapshots s =
      { macHw := s.macHw
        fwForwarded := invalidateFw s.macHw s.host s.fwForwarded
        fwConsumed := invalidateFw s.macHw s.host s.fwConsumed
        host := s.host } := by
  simp [invalidateStaleSnapshots, hmac, hhost, behind_eq_not_notBefore, hbefore]

theorem of_host_valid (hmac : (invalidateStaleSnapshots s).macHw.valid = true)
    (hhost : (invalidateStaleSnapshots s).host.valid = true) :
    s.macHw.valid = true ∧ s.host.valid = true ∧ notBefore s.macHw s.host = true := by
  unfold invalidateStaleSnapshots at hmac hhost
  by_cases hm : s.macHw.valid = true
  · simp only [hm, Bool.not_true, Bool.false_eq_true, if_false, behind_eq_not_notBefore] at hhost
    cases hh : s.host.valid <;> cases hb : notBefore s.macHw s.host <;>
      simp_all [SnapshotParams.invalidate]
  · simp only [hm] at hmac
    simp_all

theorem compareGlobalTimestampsGte_eq_false_iff (a b : UInt32) :
    compareGlobalTimestampsGte a b = false ↔ ¬ Circle.Gte 0x80000000 a.toNat b.toNat := by
  rw [← compareGlobalTimestampsGte_iff, Bool.not_eq_true]

theorem notAhead_filtered_iff (hbefore : notBefore s.macHw s.host = true)
    (hhost : s.host.valid = true)
    (hts : compareGlobalTimestampsGte s.host.globalTimestamp ts = false)
    (fw : SnapshotParams) :
    (compareGlobalTimestampsGte s.macHw.globalTimestamp ts = true ∧
        NotAhead ts s.host (invalidateFw s.macHw s.host fw)) ↔ OppositeBehind ts s fw := by
  have hm := s.macHw.globalTimestamp.toNat_lt
  have hx := fw.globalTimestamp.toNat_lt
  have ht := ts.toNat_lt
  have hp := s.host.globalTimestamp.toNat_lt
  have hmp : Circle.Gte 0x80000000 s.macHw.globalTimestamp.toNat
      s.host.globalTimestamp.toNat := by
    rw [notBefore, Bool.and_eq_true] at hbefore
    exact (compareGlobalTimestampsGte_iff _ _).1 hbefore.1
  have hpt := (compareGlobalTimestampsGte_eq_false_iff _ _).1 hts
  simp only [NotAhead, OppositeBehind, invalidateFw_eq, Bool.and_eq_true, hhost, Bool.true_and,
    notBefore, Bool.not_eq_true', disagree, bne_eq_false_iff_eq,
    compareGlobalTimestampsGte_iff]
  constructor
  · rintro ⟨hmt, ⟨⟨hv, hmx, hmc⟩, hagree⟩, hxt, hle⟩
    refine ⟨hv, hmc, hle, ?_⟩
    have hpx : Circle.Gte 0x80000000 s.host.globalTimestamp.toNat fw.globalTimestamp.toNat := by
      rw [← compareGlobalTimestampsGte_iff, hagree]
      exact comparePktCtrsGte_of_subtract_nonpos hle
    rcases Circle.opposite_of_crossing hm hx ht hp hmx hmt hmp hxt hpx hpt with ⟨he, ha⟩ | ⟨he, ha⟩
    · exact .inl ⟨UInt32.toNat_inj.1 he, (ahead_toNat_eq_half_iff _ _).1 ha⟩
    · exact .inr ⟨UInt32.toNat_inj.1 he, (ahead_toNat_eq_half_iff _ _).1 ha⟩
  · rintro ⟨hv, hmc, hle, hopp⟩
    have hgte := comparePktCtrsGte_of_subtract_nonpos hle
    have hcases := Circle.gte_of_crossing hm hx ht hp hpt (hopp.imp
      (fun h => ⟨congrArg UInt32.toNat h.1, (ahead_toNat_eq_half_iff _ _).2 h.2⟩)
      (fun h => ⟨congrArg UInt32.toNat h.1, (ahead_toNat_eq_half_iff _ _).2 h.2⟩))
    refine ⟨hcases.2.1, ⟨⟨hv, hcases.1, hmc⟩, ?_⟩, hcases.2.2.1, hle⟩
    rw [hgte]
    exact (compareGlobalTimestampsGte_iff _ _).2 hcases.2.2.2

/-- **One link.**  The wait count of a frame of another link is computed with a failed assertion
exactly for snapshots half the range apart. -/
theorem waitOnLink_filtered_eq_none_iff (sameLink : Bool) (ts : UInt32)
    (shared : SharedSnapshots) (host : SnapshotParams) :
    waitOnLink sameLink ts (filtered shared host) = none ↔
      sameLink = false ∧ HalfRange ts { shared with host := host } := by
  generalize hs : ({ shared with host := host } : Snapshots) = s
  rw [show filtered shared host = invalidateStaleSnapshots s by rw [← hs]; rfl]
  unfold waitOnLink
  cases sameLink with
  | true => simp
  | false =>
    rw [if_neg Bool.false_ne_true]
    by_cases hmac : (invalidateStaleSnapshots s).macHw.valid = true
    · rw [hmac, Bool.not_true, if_neg Bool.false_ne_true]
      by_cases hhost : (invalidateStaleSnapshots s).host.valid = true
      · rw [hhost, Bool.not_true, if_neg Bool.false_ne_true]
        obtain ⟨hm, hh, hb⟩ := of_host_valid hmac hhost
        have hctr : comparePktCtrsGte s.macHw.mgmtPktCtr s.host.mgmtPktCtr = true := by
          rw [notBefore, Bool.and_eq_true] at hb
          exact hb.2
        rw [invalidateStaleSnapshots_eq hm hh hb]
        rw [framesPending_bind_eq_none_iff (by exact hctr)]
        constructor
        · rintro ⟨hne, hts, hmt, hna⟩
          exact ⟨rfl, hm, hh, hb, hne, hts, hna.imp
            (fun h => (notAhead_filtered_iff hb hh hts _).1 ⟨hmt, h⟩)
            (fun h => (notAhead_filtered_iff hb hh hts _).1 ⟨hmt, h⟩)⟩
        · rintro ⟨-, -, -, -, hne, hts, hopp⟩
          have hback := notAhead_filtered_iff hb hh hts
          refine ⟨hne, hts, ?_, hopp.imp (fun h => ((hback _).2 h).2) fun h => ((hback _).2 h).2⟩
          exact hopp.elim (fun h => ((hback _).2 h).1) fun h => ((hback _).2 h).1
      · rw [Bool.not_eq_true] at hhost
        rw [hhost, Bool.not_false, if_pos rfl]
        refine ⟨nofun, fun h => absurd ?_ (Bool.eq_false_iff.1 hhost)⟩
        rw [invalidateStaleSnapshots_eq h.2.1 h.2.2.1 h.2.2.2.1]
        exact h.2.2.1
    · rw [Bool.not_eq_true] at hmac
      rw [hmac, Bool.not_false, if_pos rfl]
      refine ⟨nofun, fun h => absurd ?_ (Bool.eq_false_iff.1 hmac)⟩
      rw [invalidateStaleSnapshots_eq h.2.1 h.2.2.1 h.2.2.2.1]
      exact h.2.1

/-- The loop goes on after a link. -/
def Passes (view : LinkView) (host : SnapshotParams) : Prop :=
  match view with
  | .idle => True
  | .failed => False
  | .ready shared => snapshotsCheckSanity (filtered shared host) = true

instance (view : LinkView) (host : SnapshotParams) : Decidable (Passes view host) := by
  unfold Passes
  split <;> infer_instance

/-- A link other than the frame's whose snapshots pass the check half the range apart. -/
def FailsAt (inFrameLink link : Link) (ts : UInt32) (view : LinkView) (host : SnapshotParams) : Prop :=
  link ≠ inFrameLink ∧ ∃ shared, view = .ready shared ∧
    snapshotsCheckSanity (filtered shared host) = true ∧
    HalfRange ts { shared with host := host }

theorem waitLoop_eq_none_iff (inFrameLink : Link) (ts : UInt32) (views : Link → LinkView)
    (links : List Link) (hsorted : links.Pairwise (· < ·)) (host : Link → SnapshotParams)
    (w : WaitCount) :
    waitLoop inFrameLink ts views links host w = none ↔
      ∃ link ∈ links, (∀ l ∈ links, l < link → Passes (views l) (host l)) ∧
        FailsAt inFrameLink link ts (views link) (host link) := by
  induction links generalizing host w with
  | nil => simp [waitLoop]
  | cons a rest ih =>
    obtain ⟨hlt, hrest⟩ := pairwise_cons.1 hsorted
    have ha : ∀ l ∈ a :: rest, l < a → Passes (views l) (host l) := by
      intro l hl hla
      rcases mem_cons.1 hl with rfl | hl
      · exact absurd hla (lt_irrefl _)
      · exact absurd (hla.trans (hlt l hl)) (lt_irrefl _)
    -- the loop goes on exactly past a link that passes, and never looks at it again
    have hstep : (∃ link ∈ a :: rest, (∀ l ∈ a :: rest, l < link → Passes (views l) (host l)) ∧
          FailsAt inFrameLink link ts (views link) (host link)) ↔
        FailsAt inFrameLink a ts (views a) (host a) ∨ (Passes (views a) (host a) ∧
          ∃ link ∈ rest, (∀ l ∈ rest, l < link → Passes (views l) (host l)) ∧
            FailsAt inFrameLink link ts (views link) (host link)) := by
      constructor
      · rintro ⟨link, hmem, hpass, hfail⟩
        rcases mem_cons.1 hmem with rfl | hmem
        · exact .inl hfail
        · exact .inr ⟨hpass a mem_cons_self (hlt link hmem), link, hmem,
            fun l hl => hpass l (mem_cons_of_mem _ hl), hfail⟩
      · rintro (hfail | ⟨hpa, link, hmem, hpass, hfail⟩)
        · exact ⟨a, mem_cons_self, ha, hfail⟩
        · refine ⟨link, mem_cons_of_mem _ hmem, fun l hl hll => ?_, hfail⟩
          rcases mem_cons.1 hl with rfl | hl
          · exact hpa
          · exact hpass l hl hll
    rw [hstep]
    unfold waitLoop
    cases hv : views a with
    | idle =>
      dsimp only
      rw [ih hrest]
      simp [FailsAt, Passes]
    | failed => simp [FailsAt, Passes]
    | ready shared =>
      dsimp only
      by_cases hsane : snapshotsCheckSanity (filtered shared (host a)) = true
      · rw [hsane, Bool.not_true, if_neg Bool.false_ne_true]
        have hpasses : Passes (.ready shared) (host a) := hsane
        have hfails : FailsAt inFrameLink a ts (.ready shared) (host a) ↔
            waitOnLink (decide (a = inFrameLink)) ts (filtered shared (host a)) = none := by
          rw [waitOnLink_filtered_eq_none_iff, decide_eq_false_iff_not]
          exact ⟨fun ⟨h, _, he, _, hh⟩ => ⟨h, by cases he; exact hh⟩,
            fun h => ⟨h.1, shared, rfl, hsane, h.2⟩⟩
        rw [hfails]
        cases hw : waitOnLink (decide (a = inFrameLink)) ts (filtered shared (host a)) with
        | none => simp
        | some n =>
          have hother : ∀ l ∈ rest,
              Function.update host a (filtered shared (host a)).host l = host l := fun l hl =>
            Function.update_of_ne (hlt l hl).ne' _ _
          rw [Option.bind_eq_bind, Option.bind_some, ih hrest]
          simp only [reduceCtorEq, false_or, hpasses, true_and]
          constructor
          · rintro ⟨link, hmem, hpass, hfail⟩
            rw [hother link hmem] at hfail
            exact ⟨link, hmem, fun l hl hll => hother l hl ▸ hpass l hl hll, hfail⟩
          · rintro ⟨link, hmem, hpass, hfail⟩
            refine ⟨link, hmem, fun l hl hll => ?_, ?_⟩
            · rw [hother l hl]
              exact hpass l hl hll
            · rw [hother link hmem]
              exact hfail
      · rw [Bool.not_eq_true] at hsane
        rw [hsane, Bool.not_false, if_pos rfl]
        simp [FailsAt, Passes, hsane]

/-- **The assertions on the wait count.**  For all snapshots of all links, every incoming frame
and every timestamp, the computation gets past its assertions exactly where no other link that
it arrives at, with snapshots that pass the sanity check, has them half the range apart. -/
theorem calculateWaitCount_isSome_iff (inFrameLink : Link) (ts : UInt32)
    (views : Link → LinkView) (host : Link → SnapshotParams) :
    (calculateWaitCount inFrameLink ts views host).isSome ↔
      ∀ link, (∀ l < link, Passes (views l) (host l)) →
        ¬ FailsAt inFrameLink link ts (views link) (host link) := by
  rw [calculateWaitCount, Option.isSome_iff_ne_none, ne_eq,
    waitLoop_eq_none_iff _ _ _ _ (pairwise_lt_finRange _)]
  simp only [mem_finRange, true_and, true_implies, not_exists, not_and]

/-- The firmware has consumed the hardware's last frame, half the range after the host's last
one and with the same counter as that. -/
def halfRangeViews : Link → LinkView :=
  fun link => if link = 1 then
    .ready
      { macHw := { valid := true, mgmtPktCtr := 1, globalTimestamp := 0x80000000 }
        fwForwarded := { valid := false, mgmtPktCtr := 0, globalTimestamp := 0 }
        fwConsumed := { valid := true, mgmtPktCtr := 0, globalTimestamp := 0x80000000 } }
  else .idle

/-- A frame of link 0 arrives just after the host's last frame of link 1: the filters leave all
snapshots of link 1 valid, the sanity check passes, and the estimate from the firmware's
snapshot is `-1`. -/
theorem not_calculateWaitCount_isSome :
    ¬ ∀ (inFrameLink : Link) (ts : UInt32) (views : Link → LinkView)
      (host : Link → SnapshotParams), (calculateWaitCount inFrameLink ts views host).isSome := by
  intro h
  have hrun := h 0 1 halfRangeViews
    fun _ => { valid := true, mgmtPktCtr := 0, globalTimestamp := 0 }
  revert hrun
  decide +kernel

end MgmtRxReo
