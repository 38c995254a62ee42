import Sm8750Modules.Mmrm.Aggregate

/-!
# The software clock manager of MMRM — the votes of a CRM client

A CRM client has a table of rates, one for each hardware driver and power state and one for software. The
highest of them is kept together with its index, and looked for again only when that one is lowered.
-/

namespace Mmrm

open Runs Function List

variable {K : Type*} {fw : Framework K} {s : State K} {e : Entry K} {data : ClientData} {clkVal c : ℕ}

/-- **The vote table**: the rate of the client is the highest vote, and stands at its index. -/
structure Votes (e : Entry K) : Prop where
  size : e.crmClientTblSize = e.hwDrvInstances * e.numPwrStates + 1
  highest : ∀ i < e.crmClientTblSize, e.crmClientTbl i ≤ e.clkRate
  lt : e.maxRateIdx < e.crmClientTblSize
  reached : e.crmClientTbl e.maxRateIdx = e.clkRate

def Entry.ValidCrm (e : Entry K) (data : ClientData) : Prop :=
  data.crmDrvIdx < e.hwDrvInstances ∧ data.pwrSt < e.numPwrStates

theorem Votes.voteIdx_lt (h : Votes e) (hvalid : e.ValidCrm data) : e.voteIdx data < e.crmClientTblSize := by
  obtain ⟨hdrv, hpwr⟩ := hvalid
  rw [Entry.voteIdx, h.size]
  split_ifs
  · omega
  · have hrow : e.numPwrStates * (data.crmDrvIdx + 1) ≤ e.numPwrStates * e.hwDrvInstances :=
      Nat.mul_le_mul_left _ hdrv
    rw [Nat.mul_comm e.hwDrvInstances]
    rw [Nat.mul_add_one] at hrow
    omega

/-- The loop over the other votes, by induction on what is left of them. -/
theorem otherVotes_spec (l : List ℕ) (best : ℕ × ℕ) :
    best.1 ≤ (e.otherVotes l best).1 ∧
    (∀ i ∈ l, i ≠ e.maxRateIdx → e.crmClientTbl i ≤ (e.otherVotes l best).1) ∧
    (e.otherVotes l best = best ∨
      ∃ i ∈ l, i ≠ e.maxRateIdx ∧ e.otherVotes l best = (e.crmClientTbl i, i)) := by
  induction l generalizing best with
  | nil => exact ⟨le_rfl, nofun, .inl rfl⟩
  | cons j rest ih =>
    rw [Entry.otherVotes]
    split_ifs with hmax hlt
    · obtain ⟨hbest, hall, hfrom⟩ := ih best
      refine ⟨hbest, fun i hi hne => ?_, hfrom.imp_right ?_⟩
      · rcases mem_cons.mp hi with rfl | hi
        · exact absurd hmax hne
        · exact hall i hi hne
      · rintro ⟨i, hi, h⟩
        exact ⟨i, mem_cons_of_mem j hi, h⟩
    · obtain ⟨hbest, hall, hfrom⟩ := ih (e.crmClientTbl j, j)
      refine ⟨hlt.le.trans hbest, fun i hi hne => ?_, .inr ?_⟩
      · rcases mem_cons.mp hi with rfl | hi
        · exact hbest
        · exact hall i hi hne
      · rcases hfrom with heq | ⟨i, hi, h⟩
        · exact ⟨j, mem_cons_self, hmax, heq⟩
        · exact ⟨i, mem_cons_of_mem j hi, h⟩
    · obtain ⟨hbest, hall, hfrom⟩ := ih best
      refine ⟨hbest, fun i hi hne => ?_, hfrom.imp_right ?_⟩
      · rcases mem_cons.mp hi with rfl | hi
        · exact (Nat.le_of_not_lt hlt).trans hbest
        · exact hall i hi hne
      · rintro ⟨i, hi, h⟩
        exact ⟨i, mem_cons_of_mem j hi, h⟩

theorem votes_update {e' : Entry K} {v : ℕ} (h : Votes e) (hv : v < e.crmClientTblSize)
    (htbl : e'.crmClientTbl = update e.crmClientTbl v clkVal)
    (hsize : e'.crmClientTblSize = e.crmClientTblSize) (hhw : e'.hwDrvInstances = e.hwDrvInstances)
    (hpwr : e'.numPwrStates = e.numPwrStates) (hval : clkVal ≤ e'.clkRate)
    (hothers : ∀ i < e.crmClientTblSize, i ≠ v → e.crmClientTbl i ≤ e'.clkRate)
    (hidx : (e'.maxRateIdx = v ∧ e'.clkRate = clkVal) ∨ (e'.maxRateIdx < e.crmClientTblSize ∧
      e'.maxRateIdx ≠ v ∧ e.crmClientTbl e'.maxRateIdx = e'.clkRate)) : Votes e' := by
  refine ⟨by rw [hsize, hhw, hpwr, h.size], fun i hi => ?_, ?_, ?_⟩
  · rw [hsize] at hi
    rw [htbl]
    by_cases hiv : i = v
    · rw [hiv, update_self]
      exact hval
    · rw [update_of_ne hiv]
      exact hothers i hi hiv
  · rw [hsize]
    rcases hidx with ⟨heq, -⟩ | ⟨hlt, -, -⟩
    · rw [heq]
      exact hv
    · exact hlt
  · rw [htbl]
    rcases hidx with ⟨heq, hrate⟩ | ⟨-, hne, hrate⟩
    · rw [heq, update_self, hrate]
    · rw [update_of_ne hne, hrate]

theorem Votes.setRate (h : Votes e) (hcrm : e.isCrmClient = true) (hvalid : e.ValidCrm data) (reqLevel : ℕ) :
    Votes (e.setRate data clkVal reqLevel) := by
  have hv := h.voteIdx_lt hvalid
  have hrate : (e.setRate data clkVal reqLevel).clkRate = (e.maxCrmRate data clkVal).1 := if_pos hcrm
  have hidx : (e.setRate data clkVal reqLevel).maxRateIdx = (e.maxCrmRate data clkVal).2 := if_pos hcrm
  refine votes_update h hv (if_pos hcrm) rfl rfl rfl ?_ ?_ ?_
  all_goals
    rw [hrate]
    try rw [hidx]
  · have hle := le_askedRate e data clkVal
    rwa [Entry.askedRate, if_pos hcrm] at hle
  · intro i hi hne
    rw [Entry.maxCrmRate]
    split_ifs with hgt hsame
    · exact (h.highest i hi).trans hgt.le
    · obtain ⟨-, hall, -⟩ := otherVotes_spec (e := e) (List.range e.crmClientTblSize) (0, e.maxRateIdx)
      have hother := hall i (mem_range.mpr hi) (hsame ▸ hne)
      simp only
      split_ifs with hle
      · exact hother.trans hle
      · exact hother
    · exact h.highest i hi
  · rw [Entry.maxCrmRate]
    split_ifs with hgt hsame
    · exact .inl ⟨rfl, rfl⟩
    · simp only
      split_ifs with hle
      · exact .inl ⟨hsame.symm, rfl⟩
      · right
        obtain ⟨-, -, hnone | ⟨i, hi, hne, heq⟩⟩ :=
          otherVotes_spec (e := e) (List.range e.crmClientTblSize) (0, e.maxRateIdx)
        · rw [hnone] at hle
          exact absurd (Nat.zero_le _) hle
        · rw [heq]
          exact ⟨mem_range.mp hi, hsame.symm ▸ hne, rfl⟩
    · exact .inr ⟨h.lt, Ne.symm hsame, h.reached⟩

/-- A call on a CRM client changes nothing, or sets its rate. -/
theorem setval_crm (fw : Framework K) (hcrm : (s.table c).isCrmClient = true) (data : ClientData) (clkVal : ℕ) :
    ((setval fw s (some c) (some data) clkVal).2 ≠ 0 ∧ (setval fw s (some c) (some data) clkVal).1 = s) ∨
    ∃ reqLevel, (s.table c).ValidCrm data ∧ (setval fw s (some c) (some data) clkVal).1.table =
      update s.table c ((s.table c).setRate data clkVal reqLevel) := by
  have herr : einval ≠ 0 := by decide
  have hskip : ¬ ((s.table c).clkRate = clkVal ∧ (s.table c).numHwBlocks = data.numHwBlocks ∧
      (s.table c).isCrmClient = false) := by
    rw [hcrm]
    simp
  by_cases hc : s.totClkClients ≤ c
  · left
    simp only [setval, if_pos hc]
    exact ⟨herr, trivial⟩
  cases hclk : (s.table c).clk with
  | none =>
    left
    simp only [setval, if_neg hc, hclk]
    exact ⟨herr, trivial⟩
  | some clk =>
    obtain ⟨level, hlevel⟩ : ∃ level, (if clkVal ≠ 0 then
        getReqLevel fw clk ((s.table c).askedRate data clkVal) else some 0) = level := ⟨_, rfl⟩
    simp only [setval, if_neg hc, hclk, hcrm, true_and, hlevel]
    rw [hcrm] at hskip
    rw [if_neg hskip]
    split_ifs with hinvalid
    · exact .inl ⟨herr, rfl⟩
    · cases level <;> exact .inl ⟨herr, rfl⟩
    cases level with
    | none => exact .inl ⟨herr, rfl⟩
    | some reqLevel =>
      cases hpeak : checkPeakCurrent s c reqLevel ((s.table c).askedRate data clkVal)
          data.numHwBlocks with
      | none =>
        simp only [hpeak]
        exact .inl ⟨herr, trivial⟩
      | some peak =>
        simp only [hpeak]
        rw [not_or, Nat.not_le, Nat.not_le] at hinvalid
        exact .inr ⟨reqLevel, hinvalid, rfl⟩

structure Entry.VotesKept (e : Entry K) : Prop where
  idle : e.client = false → e.clk = none ∧ e.clkRate = 0 ∧ e.isCrmClient = false
  votes : e.isCrmClient = true → Votes e

theorem Entry.VotesKept.touch (h : e.VotesKept) (refCount : ℕ) (reserve : Bool) :
    ({ e with refCount := refCount, reserve := reserve } : Entry K).VotesKept :=
  ⟨h.idle, fun hn => ⟨(h.votes hn).1, (h.votes hn).2, (h.votes hn).3, (h.votes hn).4⟩⟩

theorem Entry.VotesKept.registered (h : e.VotesKept) (hidle : e.client = false) (desc : ClientDesc K) :
    (e.registered fw desc).VotesKept := by
  obtain ⟨-, hrate, hcrm⟩ := h.idle hidle
  refine ⟨nofun, fun hnew => ?_⟩
  by_cases hdesc : 0 < desc.hwDrvInstances ∧ 0 < desc.numPwrStates
  · have hset : decide (0 < desc.hwDrvInstances ∧ 0 < desc.numPwrStates) = true := decide_eq_true hdesc
    refine ⟨?_, fun i _ => ?_, ?_, ?_⟩
    all_goals simp only [Entry.registered, hset, if_true, hrate]
    · exact le_rfl
    · exact Nat.succ_pos _
  · rw [Entry.registered] at hnew
    simp [hdesc, hcrm] at hnew

theorem votesKept_setEntry (h : ∀ j, (s.table j).VotesKept) (he : e.VotesKept) (j : ℕ) :
    ((s.setEntry c e).table j).VotesKept := by
  by_cases hjc : j = c
  · rw [hjc, table_setEntry_self]
    exact he
  · rw [table_setEntry_of_ne hjc]
    exact h j

theorem votesKept_next (h : ∀ j, (s.table j).VotesKept) (a : Action K) (j : ℕ) :
    ((next fw s a).table j).VotesKept := by
  cases a with
  | register desc multiple client crmTbl =>
    rw [next, register]
    split
    · exact h j
    split
    · exact h j
    rename_i c _
    have hc := h c
    simp only
    split_ifs with hclient
    · exact votesKept_setEntry h (hc.touch _ _) j
    · exact h j
    all_goals
      rw [Bool.not_eq_true] at hclient
      obtain ⟨-, hrate, hcrm⟩ := hc.idle hclient
      refine votesKept_setEntry h ?_ j
    · exact ⟨fun _ => ⟨rfl, hrate, hcrm⟩, fun hn => absurd (hcrm.symm.trans hn) (by decide)⟩
    · exact ⟨fun _ => ⟨rfl, hrate, hcrm⟩, fun hn => absurd (hcrm.symm.trans hn) (by decide)⟩
    · exact ⟨fun _ => ⟨rfl, hrate, hcrm⟩, fun hn => absurd (hcrm.symm.trans hn) (by decide)⟩
    · exact hc.registered hclient desc
  | deregister client =>
    rw [next, deregister.eq_def]
    split
    · exact h j
    rename_i c
    simp only
    split_ifs
    · exact h j
    · refine votesKept_setEntry h ?_ j
      exact ⟨fun _ => ⟨rfl, rfl, rfl⟩, fun hn => absurd hn Bool.false_ne_true⟩
    · exact votesKept_setEntry h ((h c).touch _ _) j
  | setval client clientData clkVal =>
    rcases setval_cases fw s client clientData clkVal with
      hs | ⟨-, c, reserve, rfl, -, -, hs⟩ | ⟨hrc, c, data, reqLevel, peak, rfl, rfl, -, hclk, -, -, hs⟩
    · rw [next, hs]
      exact h j
    · rw [next, hs]
      exact votesKept_setEntry h ((h c).touch _ _) j
    · have hc := h c
      have hkept : ((s.table c).setRate data clkVal reqLevel).VotesKept := by
        refine ⟨fun hidle => ?_, fun hcrm => ?_⟩
        · rw [(hc.idle hidle).1] at hclk
          cases hclk
        · rcases setval_crm fw hcrm data clkVal with ⟨hne, -⟩ | ⟨_, hvalid, -⟩
          · exact absurd hrc hne
          · exact (hc.votes hcrm).setRate hcrm hvalid reqLevel
      rw [next, hs]
      exact votesKept_setEntry h hkept j

/-- All calls in any order, from a table that nobody has registered for. -/
def anyMachine (fw : Framework K) : Machine (State K) (Action K) :=
  { clkMgrMachine fw with
    init := fun s => Initial s ∧ ∀ c, (s.table c).isCrmClient = false
    guard := fun _ _ => True }

/-- **The vote table** in every run: it is in order in every state, and after a successful call, where the
vote that the call names is the rate just asked for. -/
theorem votes_of_reachable (h : (anyMachine fw).Reachable s) (hcrm : (s.table c).isCrmClient = true) :
    Votes (s.table c) ∧ ∀ data clkVal, (setval fw s (some c) (some data) clkVal).2 = 0 →
      Votes ((setval fw s (some c) (some data) clkVal).1.table c) ∧
      ((setval fw s (some c) (some data) clkVal).1.table c).crmClientTbl ((s.table c).voteIdx data) =
        clkVal := by
  have hkept : ∀ j, (s.table j).VotesKept := by
    refine h.invariant (I := fun s => ∀ j, (s.table j).VotesKept) (fun s hs j => ?_)
      fun s a hs _ => votesKept_next hs a
    obtain ⟨-, hclk, hrate⟩ := hs.1.1 j
    rw [Option.isSome_eq_false_iff, Option.isNone_iff_eq_none] at hclk
    exact ⟨fun _ => ⟨hclk, hrate, hs.2 j⟩, fun hn => absurd ((hs.2 j).symm.trans hn) (by decide)⟩
  have hvotes := (hkept c).votes hcrm
  refine ⟨hvotes, fun data clkVal hrc => ?_⟩
  rcases setval_crm fw hcrm data clkVal with ⟨hne, -⟩ | ⟨reqLevel, hvalid, htable⟩
  · exact absurd hrc hne
  · rw [htable, update_self]
    refine ⟨hvotes.setRate hcrm hvalid reqLevel, ?_⟩
    rw [show ((s.table c).setRate data clkVal reqLevel).crmClientTbl = _ from if_pos hcrm, update_self]

/-- Two drivers of two power states each vote, and the higher vote is taken back. -/
def crmVotes : List (Action Unit) :=
  [.register ⟨0, 0, some (), 2, 2⟩ false true true, .setval (some 0) (some ⟨1, false, false, 1, 1⟩) 3,
    .setval (some 0) (some ⟨1, false, true, 0, 0⟩) 2, .setval (some 0) (some ⟨1, false, false, 1, 1⟩) 1]

theorem votes_crmVotes : Votes (((anyMachine someFramework).exec oneClock crmVotes).table 0) :=
  (votes_of_reachable ((Machine.Reachable.init (M := anyMachine someFramework)
    ⟨initial_oneClock, fun _ => rfl⟩).exec crmVotes ⟨trivial, trivial, trivial, trivial, trivial⟩)
    (by decide)).1

end Mmrm
