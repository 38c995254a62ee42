import Sm8750Modules.Mmrm.ClkMgr

/-!
# The software clock manager of MMRM — throttling

A client of high priority may go over the threshold: the manager looks through a list of clients
for one whose current drops by more than is needed, and takes its rate down to the lowest level.
-/

namespace Mmrm

variable {K : Type*}

def lowSvs : ℕ := 0

/-- `struct mmrm_sw_throttled_clients_data` -/
structure ThrottledClient where
  tableId : ℕ
  deltaCuMa : ℕ
  prevVddLevel : ℕ
deriving DecidableEq

/-- The table, whether an entry is `MMRM_CLIENT_PRIOR_HIGH`, its `freq`, the `tbl_entry_id` of
`throttle_clients_info`, and `throttled_clients`. -/
structure Manager (K : Type*) where
  info : State K
  high : ℕ → Bool
  freq : ℕ → ℕ → ℕ
  throttleClients : List ℕ
  throttled : List ThrottledClient

/-- `msm_mmrm_enable_throttle_feature`, and what the callback of a client (where it has one),
`clk_set_rate` and the allocation return in a call. -/
structure Surroundings where
  enabled : Bool
  notifier : ℕ → Option Bool
  setRate : ℕ → Bool
  alloc : Bool

/-- What `mmrm_sw_throttle_low_priority_client` comes to; `throttled` has the entry, its place in the list
and the current that it frees. -/
inductive ThrottleOutcome where
  | nobody
  | throttled (entry place freed : ℕ)
  | failed
deriving DecidableEq

namespace Manager

/-- The loop of `mmrm_sw_throttle_low_priority_client`, with `ok` for a zero `rc`. The error of a
`clk_set_rate` is carried to the next client. -/
def throttleLoop (m : Manager K) (env : Surroundings) (deltaCur : ℕ) :
    List (ℕ × ℕ) → Bool → ThrottleOutcome
  | [], ok => if ok then .nobody else .failed
  | (t, i) :: rest, ok =>
    let e := m.info.table t
    let nowCurMa := u32 (e.currentMa e.vddLevel m.info.peak.aggregLevel)
    let minCurMa := u32 (e.currentMa lowSvs m.info.peak.aggregLevel)
    if nowCurMa ≤ minCurMa ∨ nowCurMa - minCurMa ≤ deltaCur then throttleLoop m env deltaCur rest ok
    else if (env.notifier t).getD ok = false then throttleLoop m env deltaCur rest true
    else if e.reserve = false ∧ env.setRate t = false then throttleLoop m env deltaCur rest false
    else if env.alloc = false then .failed
    else .throttled t i (nowCurMa - minCurMa)

def throttleLowPriorityClient (m : Manager K) (env : Surroundings) (deltaCur : ℕ) : ThrottleOutcome :=
  m.throttleLoop env deltaCur m.throttleClients.zipIdx true

end Manager

def Entry.throttle (e : Entry K) (freq : ℕ) : Entry K :=
  { e with clkRate := freq, vddLevel := lowSvs, reserve := false }

namespace Manager

def throttle (m : Manager K) (t i freed : ℕ) : Manager K :=
  { m with
    info := m.info.setEntry t ((m.info.table t).throttle (m.freq t lowSvs))
    throttled := m.throttled ++ [⟨i, freed, (m.info.table t).vddLevel⟩] }

/-- The new peak data, and `mmrm_reinstate_throttled_client`, which tells the throttled clients that there
is room for and drops them from its list. -/
def grant (m : Manager K) (peak : Peak) : Manager K :=
  { m with
    info := { m.info with peak := peak }
    throttled := m.throttled.filter fun tc => peak.threshold < u32 (peak.aggregVal + tc.deltaCuMa) }

/-- `mmrm_sw_check_peak_current`; `none` is an error, which changes nothing. -/
def checkPeakCurrent (m : Manager K) (env : Surroundings) (c reqLevel clkVal numHwBlocks : ℕ) :
    Option (Manager K) :=
  let s := m.info
  let e := s.table c
  if vddLevelMax ≤ reqLevel then none
  else
    let adjLevel := checkReqLevel s e.clkSrcId reqLevel
    let newCur := if u32 clkVal ≠ 0 then u32 (e.currentMa reqLevel adjLevel * numHwBlocks) else 0
    let oldCur := if e.clkRate ≠ 0 then e.cur s.peak.aggregLevel else 0
    if adjLevel ≠ s.peak.aggregLevel ∧ vddLevelMax ≤ adjLevel then none
    else
      let peakCur :=
        if adjLevel ≠ s.peak.aggregLevel then u32 (calculateTotalCurrent s adjLevel c + newCur)
        else s.peak.aggregVal
      let deltaCur := if adjLevel ≠ s.peak.aggregLevel then 0 else u32 (newCur + (2 ^ 32 - oldCur))
      let total := u32 (peakCur + deltaCur)
      if signed total ≤ 0 then some { m with info := { s with peak := ⟨s.peak.threshold, 0, adjLevel⟩ } }
      else if total < s.peak.threshold then some (m.grant ⟨s.peak.threshold, total, adjLevel⟩)
      else if m.high c = true ∧ env.enabled = true then
        match m.throttleLowPriorityClient env deltaCur with
        | .nobody => some (m.grant ⟨s.peak.threshold, total, adjLevel⟩)
        | .throttled t i freed =>
          some ((m.throttle t i freed).grant
            ⟨s.peak.threshold, u32 (peakCur + u32 (deltaCur + (2 ^ 32 - freed))), adjLevel⟩)
        | .failed => none
      else none

def setEntry (m : Manager K) (c : ℕ) (e : Entry K) : Manager K := { m with info := m.info.setEntry c e }

/-- `mmrm_sw_clk_client_setval`, whose calls of the clock framework for the client itself succeed. -/
def setval (fw : Framework K) (m : Manager K) (env : Surroundings) (client : Option ℕ)
    (clientData : Option ClientData) (clkVal : ℕ) : Manager K × ℤ :=
  match client, clientData with
  | none, _ => (m, einval)
  | some _, none => (m, einval)
  | some c, some data =>
    let e := m.info.table c
    if m.info.totClkClients ≤ c then (m, einval)
    else
      match e.clk with
      | none => (m, einval)
      | some clk =>
        if e.isCrmClient = true ∧ (e.hwDrvInstances ≤ data.crmDrvIdx ∨ e.numPwrStates ≤ data.pwrSt) then
          (m, einval)
        else if e.clkRate = clkVal ∧ e.numHwBlocks = data.numHwBlocks ∧ e.isCrmClient = false then
          if e.reserve = data.reserveOnly then (m, 0)
          else (m.setEntry c { e with reserve := data.reserveOnly }, 0)
        else
          match if clkVal ≠ 0 then getReqLevel fw clk (e.askedRate data clkVal) else some 0 with
          | none => (m, einval)
          | some reqLevel =>
            if clkVal ≠ 0 ∧ ¬ (1 ≤ data.numHwBlocks ∧ data.numHwBlocks ≤ e.maxNumHwBlocks) then (m, einval)
            else
              match m.checkPeakCurrent env c reqLevel (e.askedRate data clkVal) data.numHwBlocks with
              | none => (m, einval)
              | some m' => (m'.setEntry c (e.setRate data clkVal reqLevel), 0)

def keepPriorities (m : Manager K) (s : State K) (high : Bool) (c : ℕ) : Bool :=
  (s.table c).client && if (m.info.table c).client then m.high c else high

/-- `mmrm_sw_clk_client_register`; `freqs` is what `mmrm_sw_update_freq` fills in. -/
def register (fw : Framework K) (freqs : Option K → ℕ → ℕ) (m : Manager K) (desc : ClientDesc K)
    (high multiple client crmTbl : Bool) : Manager K :=
  let s := Mmrm.register fw m.info desc multiple client crmTbl
  { m with
    info := s
    high := m.keepPriorities s high
    freq := fun c =>
      if (s.table c).client = true ∧ (m.info.table c).client = false then freqs desc.clk else m.freq c }

def deregister (m : Manager K) (client : Option ℕ) : Manager K :=
  let s := Mmrm.deregister m.info client
  { m with info := s, high := m.keepPriorities s false }

end Manager

end Mmrm
