import Sm8750Modules.IpaNat.Nati

/-!
# The NAT state machine

The API in front of the table driver (`ipa_nat_statemach.c`). It keeps NAT tables in DDR, in
SRAM, or -- the *hybrid* states -- in both, and moves all rules between the two when the SRAM
table is full or when few rules are left. A rule that moves gets a new handle; two maps for
each memory translate between the handle the application knows and the current one.

Taking and giving the mutex are system calls in `ipa_nati_statemach` and `ipa_nat_switch_to`.
-/

namespace Sm8750Modules.IpaNat

/-- The memory that rules of a table in the given one are moved to. -/
def IpaNatMemIn.other : IpaNatMemIn → IpaNatMemIn
  | .ddr => .sram
  | .sram => .ddr

/-- The rule that `migrate_rule` reads off a record. -/
def v4Rule (r : IpaNatRule) : IpaNatIpv4Rule where
  targetIp := r.targetIp
  privateIp := r.privateIp
  targetPort := r.targetPort
  privatePort := r.privatePort
  publicPort := r.publicPort
  protocol := r.protocol
  pdnIndex := r.pdnIndex.toNat
  redirect := r.redirect.toUInt8
  enable := r.enable.toUInt8
  timeStamp := UInt32.ofNat r.timeStamp.toNat
  ucActivationIndex := UInt16.ofNat r.ucActivationIndex.toNat
  s := r.s
  ucp := r.ucp
  dstOnly := r.dstOnly
  srcOnly := r.srcOnly

/-- A rule is entered in both maps of a memory. -/
def Nati.mapRule (w : Nati) (nmi : IpaNatMemIn) (orig new : ℕ) : ℤ × Nati :=
  let (ret, o2n) := ipaNatMapAdd (w.obj.orig2newMap nmi) orig new
  if ret ≠ 0 then (ret, w)
  else
    let (ret, n2o) := ipaNatMapAdd (w.obj.new2origMap nmi) new orig
    (ret, w.setMaps nmi o2n n2o)

def migrateRule (dstTblHdl : ℕ) (table : IpaTable IpaNatRule) (tblRuleHdl : ℕ) (r : IpaNatRule)
    (_recordIndex : ℕ) (w : Nati) : ℤ × Nati :=
  let dst := table.nmi.other
  -- a dead head, enabled but with the protocol of a deleted rule
  if r.protocol = ipahalNatInvalidProtocol then (0, w)
  else
    let (ret, origRuleHdl) := ipaNatMapFind (w.obj.new2origMap table.nmi) tblRuleHdl
    if ret ≠ 0 then (ret, w)
    else
      let (ret, newRuleHdl, w) := natiAddIpv4Rule w dstTblHdl (v4Rule r)
      if ret ≠ 0 then (ret, w)
      else
        (w.setCntr dst (w.obj.totRulesInTable dst + 1)).mapRule dst origRuleHdl
          (newRuleHdl.getD 0)

def ipaNatiCopyIpv4Tbl (srcTblHdl dstTblHdl : ℕ)
    (copyCb : ℕ → IpaTable IpaNatRule → ℕ → IpaNatRule → ℕ → Nati → ℤ × Nati) (w : Nati) :
    ℤ × Nati :=
  let (ret, w) := natiClearIpv4Tbl w dstTblHdl
  if ret ≠ 0 then (ret, w) else natiWalkIpv4Tbl w srcTblHdl (copyCb dstTblHdl) w

inductive WhichTbl2Use where
  | useNatTable
  | useIndexTable
  deriving DecidableEq, Repr

/-- A record that a walk hands to the callback, with its handle and its index. -/
structure Visited where
  ruleHdl : ℕ
  record : IpaNatRule ⊕ IpaNatIndxTblRule
  recordIndex : ℕ

/-- `ipa_nati_trigger`, each with the arguments that its callbacks read from `arb_data_ptr`. -/
inductive IpaNatiTrigger where
  | null
  | addTable (publicIpAddr : UInt32) (numberOfEntries : ℕ) (memTypePtr : Option String)
  | delTable (tblHdl : ℕ)
  | clrTable (tblHdl : ℕ)
  | wlkTable (tblHdl : ℕ) (which : WhichTbl2Use) (walkCb : List Visited → ℤ)
  | tblStats (tblHdl : ℕ)
  | addRule (tblHdl : ℕ) (clntRule : IpaNatIpv4Rule)
  | delRule (tblHdl ruleHdl : ℕ)
  | tblSwitch
  | gotoDdr
  | gotoSram
  | getTstamp (tblHdl ruleHdl : ℕ)
  | last

/-- What a callback writes through the pointers among its arguments. -/
inductive NatiOut where
  | hdl (hdl : ℕ)
  | timeStamp (timeStamp : ℕ)
  | stats (nat idx : IpaNatiTblStats)
  | visited (visited : List Visited)

/-- What a callback, or the dispatcher, returns and leaves behind. -/
structure SmResult where
  ret : ℤ
  out : Option NatiOut
  world : Nati

/-- The handle of the rule or the table that was written. -/
def SmResult.hdl (r : SmResult) : ℕ :=
  match r.out with
  | some (.hdl h) => h
  | _ => 0

/-! ### Callbacks

`sm` is `ipa_nati_statemach`, which several callbacks call again. -/

def memTypeStrToIpaNatiState (str : Option String) : IpaNatiState :=
  let same (s : String) :=
    str.any fun str => str.toList.map Char.toLower == s.toList.map Char.toLower
  if same "HYBRID" then .hybrid else if same "SRAM" then .sramOnly else .ddrOnly

variable (nmi : IpaNatMemIn)

section Callbacks

variable (sm : IpaNatiTrigger → Nati → SmResult)

def smUndef (w : Nati) : SmResult := ⟨-1, none, w⟩

def smDelTbl (tblHdl : ℕ) (w : Nati) : SmResult :=
  let (ret, w) := natiDelIpv4Table w tblHdl
  if ret = 0 ∧ ¬ w.inHybridState then ⟨ret, none, w.back2UnstartedState⟩ else ⟨ret, none, w⟩

/-- The state that `_smFirstTbl` starts the machine in. -/
def firstState (w : Nati) (memTypePtr : Option String) : IpaNatiState :=
  if w.obj.holdState ∧ w.obj.stateToHold ≠ .null then w.obj.stateToHold
  else memTypeStrToIpaNatiState memTypePtr

variable (publicIpAddr : UInt32)

def smFirstTbl (numberOfEntries : ℕ) (memTypePtr : Option String) (w : Nati) : SmResult :=
  sm (.addTable publicIpAddr numberOfEntries memTypePtr) (w.setState (firstState w memTypePtr))

def smAddDdrTbl (numberOfEntries : ℕ) (w : Nati) : SmResult :=
  let (ret, hdl, w) := natiAddIpv4Tbl w .ddr publicIpAddr numberOfEntries
  let w := { w with obj := { w.obj with ddrTblHdl := hdl } }
  ⟨ret, if ret = 0 then some (.hdl hdl) else none, w⟩

def smAddSramTbl (w : Nati) : SmResult :=
  let (ret, sramSize, w) := ipaNatiGetSramSize w
  if ret ≠ 0 then ⟨ret, none, w⟩
  else
    let (ret, totSlotsInSram) := ipaCalcNumSramTableEntries sramSize
    let w := { w with obj := { w.obj with totSlotsInSram := totSlotsInSram } }
    if ret ≠ 0 then ⟨ret, none, w⟩
    else
      let w := { w with obj := { w.obj with backToSramThresh := totSlotsInSram / 4 } }
      let (ret, _, w) := w.sys
      if ret ≠ 0 then ⟨ret, none, w⟩
      else
        let (ret, hdl, w) := natiAddIpv4Tbl w .sram publicIpAddr totSlotsInSram
        let w := { w with obj := { w.obj with sramTblHdl := hdl } }
        -- that voting off the clock fails is only logged
        let (_, _, w) := w.sys
        ⟨ret, if ret = 0 then some (.hdl hdl) else none, w⟩

def smAddSramAndDdrTbl (numberOfEntries : ℕ) (w : Nati) : SmResult :=
  let sram := smAddSramTbl publicIpAddr ((w.clearMaps .sram).clearMaps .ddr)
  if sram.ret = 0 then
    if sram.world.obj.totSlotsInSram ≥ numberOfEntries then
      { sram with world := sram.world.setState .sramOnly }
    else
      let ddr := smAddDdrTbl publicIpAddr numberOfEntries sram.world
      if ddr.ret ≠ 0 then ⟨ddr.ret, sram.out, ddr.world⟩
      else
        let goto := sm .gotoSram ddr.world
        ⟨goto.ret, sram.out, goto.world⟩
  else
    let ddr := smAddDdrTbl publicIpAddr numberOfEntries sram.world
    if ddr.ret = 0 then { ddr with world := ddr.world.setState .ddrOnly } else ddr

def smDelSramAndDdrTbl (tblHdl : ℕ) (w : Nati) : SmResult :=
  let first := smDelTbl tblHdl ((w.clearMaps .sram).clearMaps .ddr)
  let second :=
    if first.ret = 0 then smDelTbl first.world.obj.ddrTblHdl first.world else first
  if second.ret = 0 then { second with world := second.world.back2UnstartedState } else second

def smClrTbl (tblHdl : ℕ) (w : Nati) : SmResult :=
  let (ret, w) := natiClearIpv4Tbl (w.clearMaps (tblHdlNmi tblHdl)) tblHdl
  ⟨ret, none, w⟩

def smClrTblHybrid (tblHdl : ℕ) (w : Nati) : SmResult := smClrTbl (w.hybridTblHdl tblHdl) w

def visit (walkCb : List Visited → ℤ) (v : Visited) (seen : List Visited) : ℤ × List Visited :=
  (walkCb (v :: seen), v :: seen)

def smWalkTbl (tblHdl : ℕ) (which : WhichTbl2Use) (walkCb : List Visited → ℤ) (w : Nati) : SmResult :=
  let (ret, seen) :=
    match which with
    | .useNatTable =>
      natiWalkIpv4Tbl w tblHdl (fun _ h r i => visit walkCb ⟨h, .inl r, i⟩) []
    | .useIndexTable =>
      natiWalkIpv4IndexTbl w tblHdl (fun _ h r i => visit walkCb ⟨h, .inr r, i⟩) []
  ⟨ret, some (.visited seen), w⟩

def smWalkTblHybrid (tblHdl : ℕ) (which : WhichTbl2Use) (walkCb : List Visited → ℤ) (w : Nati) :
    SmResult :=
  smWalkTbl (w.hybridTblHdl tblHdl) which walkCb w

def smStatTbl (tblHdl : ℕ) (w : Nati) : SmResult :=
  let (ret, stats) := natiIpv4TblStats w tblHdl
  ⟨ret, stats.map fun (nat, idx) => .stats nat idx, w⟩

def smStatTblHybrid (tblHdl : ℕ) (w : Nati) : SmResult := smStatTbl (w.hybridTblHdl tblHdl) w

/-- The rule that `_smAddRuleToTbl` adds for the application. -/
def freshRule (clntRule : IpaNatIpv4Rule) : IpaNatIpv4Rule :=
  { clntRule with redirect := 0, enable := 0, timeStamp := 0 }

def smAddRuleToTbl (tblHdl : ℕ) (clntRule : IpaNatIpv4Rule) (w : Nati) : SmResult :=
  let (ret, ruleHdl, w) := natiAddIpv4Rule w tblHdl (freshRule clntRule)
  let sub := w.chooseMemSub
  let w := if ret = 0 then w.setCntr sub (w.obj.totRulesInTable sub + 1) else w
  ⟨ret, ruleHdl.map .hdl, w⟩

def smDelRuleFromTbl (tblHdl ruleHdl : ℕ) (w : Nati) : SmResult :=
  let (ret, w) := natiDelIpv4Rule w tblHdl ruleHdl
  let sub := w.chooseMemSub
  let w := if ret = 0 then w.setCntr sub (w.obj.totRulesInTable sub + (2 ^ 32 - 1)) else w
  ⟨ret, none, w⟩

def smAddRuleHybrid (tblHdl : ℕ) (clntRule : IpaNatIpv4Rule) (w : Nati) : SmResult :=
  let r := smAddRuleToTbl (w.hybridTblHdl tblHdl) clntRule w
  if r.ret = 0 then
    let (ret, w) := r.world.mapRule r.world.chooseMemSub r.hdl r.hdl
    ⟨ret, r.out, w⟩
  else if r.world.obj.currState = .hybrid ∧ ¬ r.world.obj.holdState then
    -- the SRAM table is full: move to DDR and try there
    let switch := sm .tblSwitch r.world
    if switch.ret ≠ 0 then ⟨switch.ret, r.out, switch.world⟩
    else
      let again := sm (.addRule tblHdl clntRule) (switch.world.setState .hybridDdr)
      ⟨again.ret, again.out.or r.out, again.world⟩
  else r

def smDelRuleHybrid (tblHdl origRuleHdl : ℕ) (w : Nati) : SmResult :=
  let sub := w.chooseMemSub
  let (ret, newRuleHdl, o2n) := ipaNatMapDel (w.obj.orig2newMap sub) origRuleHdl
  if ret ≠ 0 then ⟨ret, none, w⟩
  else
    let (_, _, n2o) := ipaNatMapDel (w.obj.new2origMap sub) newRuleHdl
    let w := w.setMaps sub o2n n2o
    let r := smDelRuleFromTbl (w.hybridTblHdl tblHdl) newRuleHdl w
    if r.ret = 0 ∧ r.world.obj.currState = .hybridDdr then
      if r.world.obj.totRulesInTable r.world.chooseMemSub ≤ r.world.obj.backToSramThresh ∧
          ¬ r.world.obj.holdState then
        -- few rules are left: move back to SRAM
        let switch := sm .tblSwitch r.world
        if switch.ret = 0 then ⟨0, none, switch.world.setState .hybrid⟩
        else ⟨0, none, switch.world⟩
      else r
    else r

/-- `_smGoToDdr` and `_smGoToSram`: the hardware is to use the table in `nmi`. -/
def smGoTo (state : IpaNatiState) (w : Nati) : SmResult :=
  let (ret, w) := natiPostIpv4InitCmd w (w.tblHdl nmi)
  ⟨ret, none, if ret = 0 then w.setState state else w⟩

def smGoToDdr (w : Nati) : SmResult := smGoTo .ddr .hybridDdr w

def smGoToSram (w : Nati) : SmResult := smGoTo .sram .hybrid w

/-- The counter of a switch; the statistics were chosen before the state changed. -/
def Nati.countSwitch (w : Nati) (sub : IpaNatMemIn) (pass : Bool) : Nati :=
  let s := w.obj.swStats sub
  let s' : NatiSwitchStats :=
    if pass then { s with pass := (s.pass + 1) % 2 ^ 32 }
    else { s with fail := (s.fail + 1) % 2 ^ 32 }
  { w with obj := { w.obj with swStats := Function.update w.obj.swStats sub s' } }

/-- `_smSwitchFromSramToDdr` and `_smSwitchFromDdrToSram`. -/
def smSwitchFrom (src : IpaNatMemIn) (goto : IpaNatiTrigger) (w : Nati) : SmResult :=
  let sub := w.chooseMemSub
  let focus := sm goto w
  if focus.ret ≠ 0 then ⟨focus.ret, none, focus.world⟩
  else
    let dst := src.other
    let w := focus.world.clearMaps dst
    let (ret, w) := ipaNatiCopyIpv4Tbl (w.tblHdl src) (w.tblHdl dst) migrateRule w
    ⟨ret, none, w.countSwitch sub (ret = 0)⟩

def smSwitchFromSramToDdr (w : Nati) : SmResult := smSwitchFrom sm .sram .gotoDdr w

def smSwitchFromDdrToSram (w : Nati) : SmResult := smSwitchFrom sm .ddr .gotoSram w

def smGetTmStmp (tblHdl ruleHdl : ℕ) (w : Nati) : SmResult :=
  let (ret, timeStamp) := natiQueryTimestamp w tblHdl ruleHdl
  ⟨ret, timeStamp.map .timeStamp, w⟩

def smGetTmStmpHybrid (tblHdl origRuleHdl : ℕ) (w : Nati) : SmResult :=
  let (ret, newRuleHdl) := ipaNatMapFind (w.obj.orig2newMap w.chooseMemSub) origRuleHdl
  if ret ≠ 0 then ⟨ret, none, w⟩ else smGetTmStmp (w.hybridTblHdl tblHdl) newRuleHdl w

def stateMachTbl : IpaNatiState → IpaNatiTrigger → Nati → SmResult
  | .null, .addTable ip n mem => smFirstTbl sm ip n mem
  | .ddrOnly, .addTable ip n _ => smAddDdrTbl ip n
  | .ddrOnly, .delTable t => smDelTbl t
  | .ddrOnly, .clrTable t => smClrTbl t
  | .ddrOnly, .wlkTable t which cb => smWalkTbl t which cb
  | .ddrOnly, .tblStats t => smStatTbl t
  | .ddrOnly, .addRule t clnt => smAddRuleToTbl t clnt
  | .ddrOnly, .delRule t h => smDelRuleFromTbl t h
  | .ddrOnly, .getTstamp t h => smGetTmStmp t h
  | .sramOnly, .addTable ip _ _ => smAddSramTbl ip
  | .sramOnly, .delTable t => smDelTbl t
  | .sramOnly, .clrTable t => smClrTbl t
  | .sramOnly, .wlkTable t which cb => smWalkTbl t which cb
  | .sramOnly, .tblStats t => smStatTbl t
  | .sramOnly, .addRule t clnt => smAddRuleToTbl t clnt
  | .sramOnly, .delRule t h => smDelRuleFromTbl t h
  | .sramOnly, .getTstamp t h => smGetTmStmp t h
  | .hybrid, .addTable ip n _ => smAddSramAndDdrTbl sm ip n
  | .hybrid, .delTable t => smDelSramAndDdrTbl t
  | .hybrid, .clrTable t => smClrTblHybrid t
  | .hybrid, .wlkTable t which cb => smWalkTblHybrid t which cb
  | .hybrid, .tblStats t => smStatTblHybrid t
  | .hybrid, .addRule t clnt => smAddRuleHybrid sm t clnt
  | .hybrid, .delRule t h => smDelRuleHybrid sm t h
  | .hybrid, .tblSwitch => smSwitchFromSramToDdr sm
  | .hybrid, .gotoDdr => smGoToDdr
  | .hybrid, .gotoSram => smGoToSram
  | .hybrid, .getTstamp t h => smGetTmStmpHybrid t h
  | .hybridDdr, .delTable t => smDelSramAndDdrTbl t
  | .hybridDdr, .clrTable t => smClrTblHybrid t
  | .hybridDdr, .wlkTable t which cb => smWalkTblHybrid t which cb
  | .hybridDdr, .tblStats t => smStatTblHybrid t
  | .hybridDdr, .addRule t clnt => smAddRuleHybrid sm t clnt
  | .hybridDdr, .delRule t h => smDelRuleHybrid sm t h
  | .hybridDdr, .tblSwitch => smSwitchFromDdrToSram sm
  | .hybridDdr, .gotoDdr => smGoToDdr
  | .hybridDdr, .gotoSram => smGoToSram
  | .hybridDdr, .getTstamp t h => smGetTmStmpHybrid t h
  | _, _ => smUndef

def voteRequired (state : IpaNatiState) (trigger : IpaNatiTrigger) : Bool :=
  let sramCurrentlyActive := state = .sramOnly ∨ state = .hybrid
  match trigger with
  | .getTstamp _ _ | .addTable _ _ _ => false
  | .gotoSram | .tblSwitch => true
  | _ => sramCurrentlyActive

/-- What `ipa_nati_statemach` does between taking and giving the mutex. -/
def smLocked (trigger : IpaNatiTrigger) (w : Nati) : SmResult :=
  if voteRequired w.obj.currState trigger then
    let (ret, _, w) := w.sys
    if ret ≠ 0 then ⟨einval, none, w⟩
    else
      let r := stateMachTbl sm w.obj.currState trigger w
      let (_, _, w) := r.world.sys
      { r with world := w }
  else stateMachTbl sm w.obj.currState trigger w

/-- The body of `ipa_nati_statemach`. -/
def statemachBody (trigger : IpaNatiTrigger) (w : Nati) : SmResult :=
  let (ret, _, w) := w.sys
  if ret ≠ 0 then ⟨ret, none, w⟩
  else
    let r := smLocked sm trigger w
    let (ret, _, w) := r.world.sys
    ⟨ret, r.out, w⟩

end Callbacks

/-- `ipa_nati_statemach`, called at most `fuel` levels deep. -/
def statemachLevels : ℕ → IpaNatiTrigger → Nati → SmResult
  | 0, _, w => ⟨-1, none, w⟩
  | fuel + 1, trigger, w => statemachBody (statemachLevels fuel) trigger w

/-- `ipa_nati_statemach`. Its calls nest three levels deep (`ipaNatiStatemach_eq`). -/
def ipaNatiStatemach : IpaNatiTrigger → Nati → SmResult := statemachLevels 3

def compatibleNmi4Switch : IpaNatMemIn → IpaNatiState → Bool
  | .sram, .hybridDdr | .ddr, .hybrid | .ddr, .ddrOnly | .sram, .sramOnly => true
  | _, _ => false

def genHoldState (w : Nati) : IpaNatiState :=
  if ¬ w.inHybridState then w.obj.currState
  else if w.obj.currState = .hybrid then .sramOnly else .ddrOnly

def Nati.hold (w : Nati) (hold : Bool) (state : IpaNatiState) : Nati :=
  { w with obj := { w.obj with holdState := hold, stateToHold := state } }

/-- What `ipa_nat_switch_to` does between taking and giving the mutex. -/
def switchToLocked (holdState : Bool) (w : Nati) : Nati :=
  if w.obj.prevState = .null then
    w.hold holdState (if nmi = .ddr then .ddrOnly else .sramOnly)
  else if w.inHybridState then
    let r : SmResult :=
      if compatibleNmi4Switch nmi w.obj.currState then ipaNatiStatemach .tblSwitch w
      else ⟨0, none, w⟩
    if r.ret = 0 then
      r.world.hold holdState (if holdState then genHoldState r.world else r.world.obj.stateToHold)
    else r.world
  else if holdState then
    if compatibleNmi4Switch nmi w.obj.currState then w.hold holdState (genHoldState w) else w
  else w.hold holdState .null

/-- `ipa_nat_switch_to`. The return code is that of `give_mutex`. -/
def ipaNatSwitchTo (holdState : Bool) (w : Nati) : ℤ × Nati :=
  let (ret, _, w) := w.sys
  if ret ≠ 0 then (ret, w)
  else
    let (ret, _, w) := (switchToLocked nmi holdState w).sys
    (ret, w)

def ipaNatAddIpv4Rule (tblHdl : ℕ) (clntRule : IpaNatIpv4Rule) (w : Nati) : SmResult :=
  if ¬ validTblHdl tblHdl then ⟨einval, none, w⟩
  else
    let r := ipaNatiStatemach (.addRule tblHdl clntRule) w
    ⟨if r.ret ≠ 0 then einval else 0, r.out, r.world⟩

def ipaNatDelIpv4Rule (tblHdl ruleHdl : ℕ) (w : Nati) : SmResult :=
  if ¬ validTblHdl tblHdl ∨ ruleHdl = 0 then ⟨einval, none, w⟩
  else ipaNatiStatemach (.delRule tblHdl ruleHdl) w

end Sm8750Modules.IpaNat
