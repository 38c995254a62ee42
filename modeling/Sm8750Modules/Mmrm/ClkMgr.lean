import Sm8750Modules.Lib.Runs

/-!
# The software clock manager of MMRM

Each clock that the device tree lists has an entry in a table. A client registers for an entry,
sets the rate of its clock, and deregisters.
-/

namespace Mmrm

open Runs

/-- `clk_round_rate`, `qcom_clk_get_voltage`, `mmrm_sw_vdd_corner`, and what `mmrm_sw_update_freq` and
`mmrm_sw_update_curr` fill `current_ma` with. -/
structure Framework (K : Type*) where
  roundRate : K → ℕ → ℕ
  voltage : K → ℕ → ℤ
  vddCorner : ℕ → ℤ
  current : Option K → ℕ → ℕ → ℕ → ℕ

def vddLevelMax : ℕ := 6

/-- `struct mmrm_sw_clk_client_tbl_entry`; `clk` is absent when `IS_ERR_OR_NULL` holds. -/
structure Entry (K : Type*) where
  clkSrcId : ℕ
  maxNumHwBlocks : ℕ
  clk : Option K
  currentMa : ℕ → ℕ → ℕ
  client : Bool
  clkRate : ℕ
  vddLevel : ℕ
  reserve : Bool
  refCount : ℕ
  numHwBlocks : ℕ
  isCrmClient : Bool
  hwDrvInstances : ℕ
  numPwrStates : ℕ
  maxRateIdx : ℕ
  crmClientTblSize : ℕ
  crmClientTbl : ℕ → ℕ

/-- `struct mmrm_sw_peak_current_data` -/
structure Peak where
  threshold : ℕ
  aggregVal : ℕ
  aggregLevel : ℕ
deriving DecidableEq

/-- `struct mmrm_sw_clk_mgr_info` -/
structure State (K : Type*) where
  table : ℕ → Entry K
  totClkClients : ℕ
  enabledClkClients : ℕ
  peak : Peak

structure ClientDesc (K : Type*) where
  clientDomain : ℕ
  clientId : ℕ
  clk : Option K
  hwDrvInstances : ℕ
  numPwrStates : ℕ

/-- `struct mmrm_client_data`; `reserveOnly` is the flag `MMRM_CLIENT_DATA_FLAG_RESERVE_ONLY`, and `swDrv`
is `drv_type == MMRM_CRM_SW_DRV`. -/
structure ClientData where
  numHwBlocks : ℕ
  reserveOnly : Bool
  swDrv : Bool
  crmDrvIdx : ℕ
  pwrSt : ℕ

variable {K : Type*}

def State.setEntry (s : State K) (c : ℕ) (e : Entry K) : State K :=
  { s with table := Function.update s.table c e }

/-- The error exits of `mmrm_sw_clk_client_register` that clear the entry. -/
def Entry.cleared (e : Entry K) : Entry K := { e with client := false, clk := none }

variable (fw : Framework K)

def Entry.registered (e : Entry K) (desc : ClientDesc K) : Entry K :=
  let crm : Bool := 0 < desc.hwDrvInstances ∧ 0 < desc.numPwrStates
  { e with
    client := true, refCount := 1, clk := desc.clk, currentMa := fw.current desc.clk e.clkSrcId
    isCrmClient := crm || e.isCrmClient
    maxRateIdx := if crm then 0 else e.maxRateIdx
    hwDrvInstances := if crm then desc.hwDrvInstances else e.hwDrvInstances
    numPwrStates := if crm then desc.numPwrStates else e.numPwrStates
    crmClientTblSize := if crm then desc.hwDrvInstances * desc.numPwrStates + 1 else e.crmClientTblSize
    crmClientTbl := if crm then fun _ => 0 else e.crmClientTbl }

def findEntry (s : State K) (id : ℕ) : Option ℕ :=
  (List.range s.totClkClients).find? fun c => (s.table c).clkSrcId = id

/-- `mmrm_sw_clk_client_register`; `multiple` is `msm_mmrm_allow_multiple_register`, and `client` and
`crmTbl` are what the allocations return. -/
def register (s : State K) (desc : ClientDesc K) (multiple client crmTbl : Bool) : State K :=
  if s.totClkClients = s.enabledClkClients then s
  else
    match findEntry s (desc.clientDomain <<< 16 ||| desc.clientId) with
    | none => s
    | some c =>
      let e := s.table c
      if e.client then if multiple then s.setEntry c { e with refCount := e.refCount + 1 } else s
      else if !client then s.setEntry c e.cleared
      else if 6 < desc.hwDrvInstances ∨ 5 < desc.numPwrStates then
        s.setEntry c { e.cleared with refCount := 1 }
      else if 0 < desc.hwDrvInstances ∧ 0 < desc.numPwrStates ∧ !crmTbl then
        s.setEntry c { e.cleared with refCount := 1, crmClientTblSize := 0 }
      else s.setEntry c (e.registered fw desc)

/-- `mmrm_sw_clk_client_deregister`, of a client with this `client_uid`. -/
def deregister (s : State K) (client : Option ℕ) : State K :=
  match client with
  | none => s
  | some c =>
    if s.totClkClients ≤ c then s
    else
      let e := s.table c
      if e.refCount - 1 = 0 then
        s.setEntry c { e with
          refCount := 0, vddLevel := 0, clkRate := 0, client := false, clk := none, isCrmClient := false
          maxRateIdx := 0, hwDrvInstances := 0, numPwrStates := 0, crmClientTblSize := 0 }
      else s.setEntry c { e with refCount := e.refCount - 1 }

def Entry.voteIdx (e : Entry K) (data : ClientData) : ℕ :=
  if data.swDrv then e.crmClientTblSize - 1 else e.numPwrStates * data.crmDrvIdx + data.pwrSt

/-- The loop over the other votes: the highest, and its index. -/
def Entry.otherVotes (e : Entry K) : List ℕ → ℕ × ℕ → ℕ × ℕ
  | [], best => best
  | i :: rest, best =>
    if i = e.maxRateIdx then e.otherVotes rest best
    else if best.1 < e.crmClientTbl i then e.otherVotes rest (e.crmClientTbl i, i)
    else e.otherVotes rest best

/-- `mmrm_sw_get_max_crm_rate`: the highest vote, and its index. -/
def Entry.maxCrmRate (e : Entry K) (data : ClientData) (clkVal : ℕ) : ℕ × ℕ :=
  if e.clkRate < clkVal then (clkVal, e.voteIdx data)
  else if e.voteIdx data = e.maxRateIdx then
    let best := e.otherVotes (List.range e.crmClientTblSize) (0, e.maxRateIdx)
    if best.1 ≤ clkVal then (clkVal, e.maxRateIdx) else best
  else (e.clkRate, e.maxRateIdx)

def getReqLevel (clk : K) (clkVal : ℕ) : Option ℕ :=
  let corner := fw.voltage clk (fw.roundRate clk clkVal)
  if corner < 0 ∨ fw.vddCorner (vddLevelMax - 1) < corner then none
  else if corner < fw.vddCorner 0 then some 0
  else (List.range vddLevelMax).find? fun level => corner = fw.vddCorner level

/-! ## Peak current -/

def Entry.Active (e : Entry K) : Prop := e.clk.isSome = true ∧ e.clkRate ≠ 0
deriving Decidable

/-- The loop of `mmrm_sw_check_req_level`. -/
def levelLoop (s : State K) (clkSrcId reqLevel : ℕ) : List ℕ → Option ℕ → Bool × Option ℕ
  | [], nextMax => (false, nextMax)
  | c :: rest, nextMax =>
    let e := s.table c
    if ¬ e.Active ∨ e.clkSrcId = clkSrcId then levelLoop s clkSrcId reqLevel rest nextMax
    else if e.vddLevel = s.peak.aggregLevel then (true, nextMax)
    else if e.vddLevel < s.peak.aggregLevel ∧ reqLevel < e.vddLevel then
      levelLoop s clkSrcId reqLevel rest (some e.vddLevel)
    else levelLoop s clkSrcId reqLevel rest nextMax

/-- `mmrm_sw_check_req_level`, of a level below `MMRM_VDD_LEVEL_MAX`. -/
def checkReqLevel (s : State K) (clkSrcId reqLevel : ℕ) : ℕ :=
  if reqLevel < s.peak.aggregLevel then
    match levelLoop s clkSrcId reqLevel (List.range s.totClkClients) none with
    | (true, _) => s.peak.aggregLevel
    | (false, some level) => if reqLevel < level then level else reqLevel
    | (false, none) => reqLevel
  else reqLevel

/-- A sum or product of `u32`. -/
def u32 (n : ℕ) : ℕ := n % 2 ^ 32

/-- The cast of a `u32` to `int`. -/
def signed (n : ℕ) : ℤ := if n < 2 ^ 31 then n else n - 2 ^ 32

def Entry.cur (e : Entry K) (level : ℕ) : ℕ := u32 (e.currentMa e.vddLevel level * e.numHwBlocks)

/-- The loop of `mmrm_sw_calculate_total_current`. -/
def currentLoop (s : State K) (level entryNew : ℕ) : List ℕ → ℕ → ℕ
  | [], sum => sum
  | c :: rest, sum =>
    if ¬ (s.table c).Active ∨ c = entryNew then currentLoop s level entryNew rest sum
    else currentLoop s level entryNew rest (u32 (sum + (s.table c).cur level))

def calculateTotalCurrent (s : State K) (level entryNew : ℕ) : ℕ :=
  currentLoop s level entryNew (List.range s.totClkClients) 0

/-- `mmrm_sw_check_peak_current`: the new peak data, or an error. -/
def checkPeakCurrent (s : State K) (c reqLevel clkVal numHwBlocks : ℕ) : Option Peak :=
  let e := s.table c
  if vddLevelMax ≤ reqLevel then none
  else
    let adjLevel := checkReqLevel s e.clkSrcId reqLevel
    let newCur := if u32 clkVal ≠ 0 then u32 (e.currentMa reqLevel adjLevel * numHwBlocks) else 0
    let oldCur := if e.clkRate ≠ 0 then e.cur s.peak.aggregLevel else 0
    if adjLevel ≠ s.peak.aggregLevel ∧ vddLevelMax ≤ adjLevel then none
    else
      let total :=
        if adjLevel ≠ s.peak.aggregLevel then u32 (calculateTotalCurrent s adjLevel c + newCur)
        else u32 (s.peak.aggregVal + newCur + (2 ^ 32 - oldCur))
      if signed total ≤ 0 then some ⟨s.peak.threshold, 0, adjLevel⟩
      else if s.peak.threshold ≤ total then none
      else some ⟨s.peak.threshold, total, adjLevel⟩

def Entry.setRate (e : Entry K) (data : ClientData) (clkVal reqLevel : ℕ) : Entry K :=
  { e with
    maxRateIdx := if e.isCrmClient then (e.maxCrmRate data clkVal).2 else e.maxRateIdx
    clkRate := if e.isCrmClient then (e.maxCrmRate data clkVal).1 else clkVal
    crmClientTbl := if e.isCrmClient then Function.update e.crmClientTbl (e.voteIdx data) clkVal
      else e.crmClientTbl
    vddLevel := reqLevel, reserve := data.reserveOnly, numHwBlocks := data.numHwBlocks }

def einval : ℤ := -22

/-- The rate that `mmrm_sw_clk_client_setval` asks for. -/
def Entry.askedRate (e : Entry K) (data : ClientData) (clkVal : ℕ) : ℕ :=
  if e.isCrmClient then (e.maxCrmRate data clkVal).1 else clkVal

/-- `mmrm_sw_clk_client_setval`, whose calls of the clock framework succeed. -/
def setval (s : State K) (client : Option ℕ) (clientData : Option ClientData)
    (clkVal : ℕ) : State K × ℤ :=
  match client, clientData with
  | none, _ => (s, einval)
  | some _, none => (s, einval)
  | some c, some data =>
    let e := s.table c
    if s.totClkClients ≤ c then (s, einval)
    else
      match e.clk with
      | none => (s, einval)
      | some clk =>
        if e.isCrmClient = true ∧ (e.hwDrvInstances ≤ data.crmDrvIdx ∨ e.numPwrStates ≤ data.pwrSt) then
          (s, einval)
        else if e.clkRate = clkVal ∧ e.numHwBlocks = data.numHwBlocks ∧ e.isCrmClient = false then
          if e.reserve = data.reserveOnly then (s, 0)
          else (s.setEntry c { e with reserve := data.reserveOnly }, 0)
        else
          match if clkVal ≠ 0 then getReqLevel fw clk (e.askedRate data clkVal) else some 0 with
          | none => (s, einval)
          | some reqLevel =>
            if clkVal ≠ 0 ∧ ¬ (1 ≤ data.numHwBlocks ∧ data.numHwBlocks ≤ e.maxNumHwBlocks) then (s, einval)
            else
              match checkPeakCurrent s c reqLevel (e.askedRate data clkVal) data.numHwBlocks with
              | none => (s, einval)
              | some peak => ({ s.setEntry c (e.setRate data clkVal reqLevel) with peak := peak }, 0)

inductive Action (K : Type*) where
  | register (desc : ClientDesc K) (multiple client crmTbl : Bool)
  | deregister (client : Option ℕ)
  | setval (client : Option ℕ) (clientData : Option ClientData) (clkVal : ℕ)

def next (s : State K) : Action K → State K
  | .register desc multiple client crmTbl => register fw s desc multiple client crmTbl
  | .deregister client => deregister s client
  | .setval client clientData clkVal => (setval fw s client clientData clkVal).1

def Entry.load (e : Entry K) (level : ℕ) : ℕ :=
  if e.client = true ∧ e.clkRate ≠ 0 then e.currentMa e.vddLevel level * e.numHwBlocks else 0

def State.totalLoad (s : State K) : ℕ :=
  ∑ c ∈ Finset.range s.totClkClients, (s.table c).load s.peak.aggregLevel

def State.Holds (s : State K) (client : Option ℕ) : Prop :=
  ∀ c ∈ client, c < s.totClkClients → (s.table c).client = true

/-- Calls are made with clients that `mmrm_sw_clk_client_register` returned, and no sum wraps, neither as
`u32` nor as `int`. -/
def Enabled (s : State K) : Action K → Prop
  | .register _ _ _ _ => True
  | .deregister client => s.Holds client
  | .setval client clientData clkVal =>
    s.Holds client ∧ (setval fw s client clientData clkVal).1.totalLoad < 2 ^ 31

/-- `mmrm_init_sw_clk_mgr`: a table that nobody has registered for. -/
def Initial (s : State K) : Prop :=
  (∀ c, (s.table c).client = false ∧ (s.table c).clk.isSome = false ∧ (s.table c).clkRate = 0) ∧
    s.peak.aggregVal = 0 ∧ s.peak.aggregLevel = 0

/-- The calls in any order. -/
def clkMgrMachine : Machine (State K) (Action K) where
  init := Initial
  guard := Enabled fw
  next := next fw

end Mmrm
