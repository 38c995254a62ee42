import Sm8750Modules.IpaNat.Accept
import Sm8750Modules.IpaNat.Client

/-!
# The dispatcher and its nested calls

`ipa_nati_statemach` runs the callback of the current state and the trigger between taking and
giving the mutex, and several callbacks run it again.
-/

namespace Sm8750Modules.IpaNat

@[simp] theorem smAddRuleToTbl_currState (tblHdl : ℕ) (clnt : IpaNatIpv4Rule) (w : Nati) :
    (smAddRuleToTbl tblHdl clnt w).world.obj.currState = w.obj.currState := by
  unfold smAddRuleToTbl
  dsimp only
  split <;> simp [Nati.setCntr]

/-! ### The nesting of the dispatcher -/

/-- How many levels of `ipa_nati_statemach` a trigger takes at most in a state. -/
def nesting (state : IpaNatiState) : IpaNatiTrigger → ℕ
  | .addTable _ _ _ => if state = .null then 3 else 2
  | .addRule _ _ => if state = .hybrid then 3 else 1
  | .delRule _ _ => 3
  | .tblSwitch => 2
  | _ => 1

theorem nesting_le (state : IpaNatiState) (trigger : IpaNatiTrigger) : nesting state trigger ≤ 3 := by
  unfold nesting
  split <;> (try split) <;> omega

theorem nesting_pos (state : IpaNatiState) (trigger : IpaNatiTrigger) : 0 < nesting state trigger := by
  unfold nesting
  split <;> (try split) <;> omega

theorem memTypeStrToIpaNatiState_ne_null (str : Option String) :
    memTypeStrToIpaNatiState str ≠ .null := by
  unfold memTypeStrToIpaNatiState
  dsimp only
  split
  · exact IpaNatiState.noConfusion
  · split <;> exact IpaNatiState.noConfusion

section Nesting

variable {sm₁ sm₂ : IpaNatiTrigger → Nati → SmResult}

theorem smFirstTbl_congr (ip : UInt32) (n : ℕ) (mem : Option String) (w : Nati)
    (h : ∀ w' : Nati, w'.obj.currState ≠ .null →
      sm₁ (.addTable ip n mem) w' = sm₂ (.addTable ip n mem) w') :
    smFirstTbl sm₁ ip n mem w = smFirstTbl sm₂ ip n mem w := by
  unfold smFirstTbl
  apply h
  show firstState w mem ≠ .null
  unfold firstState
  split
  · next hold => exact hold.2
  · exact memTypeStrToIpaNatiState_ne_null mem

theorem smAddSramAndDdrTbl_congr (ip : UInt32) (n : ℕ) (w : Nati)
    (h : ∀ w' : Nati, sm₁ .gotoSram w' = sm₂ .gotoSram w') :
    smAddSramAndDdrTbl sm₁ ip n w = smAddSramAndDdrTbl sm₂ ip n w := by
  unfold smAddSramAndDdrTbl
  simp only [h]

theorem smAddRuleHybrid_congr (t : ℕ) (clnt : IpaNatIpv4Rule) (w : Nati)
    (hswitch : w.obj.currState = .hybrid → ∀ w' : Nati, sm₁ .tblSwitch w' = sm₂ .tblSwitch w')
    (hadd : w.obj.currState = .hybrid → ∀ w' : Nati, w'.obj.currState = .hybridDdr →
      sm₁ (.addRule t clnt) w' = sm₂ (.addRule t clnt) w') :
    smAddRuleHybrid sm₁ t clnt w = smAddRuleHybrid sm₂ t clnt w := by
  unfold smAddRuleHybrid
  dsimp only
  by_cases hstate : w.obj.currState = .hybrid
  · rw [hswitch hstate, hadd hstate _ rfl]
  · simp only [smAddRuleToTbl_currState, hstate, false_and, if_false]

theorem smDelRuleHybrid_congr (t h : ℕ) (w : Nati)
    (hswitch : ∀ w' : Nati, sm₁ .tblSwitch w' = sm₂ .tblSwitch w') :
    smDelRuleHybrid sm₁ t h w = smDelRuleHybrid sm₂ t h w := by
  unfold smDelRuleHybrid
  simp only [hswitch]

theorem smSwitchFrom_congr (src : IpaNatMemIn) (goto : IpaNatiTrigger) (w : Nati)
    (h : ∀ w' : Nati, sm₁ goto w' = sm₂ goto w') :
    smSwitchFrom sm₁ src goto w = smSwitchFrom sm₂ src goto w := by
  unfold smSwitchFrom
  simp only [h]

theorem stateMachTbl_congr {state : IpaNatiState} {trigger : IpaNatiTrigger} {w : Nati}
    (hstate : w.obj.currState = state)
    (h : ∀ trigger' (w' : Nati), nesting w'.obj.currState trigger' < nesting state trigger →
      sm₁ trigger' w' = sm₂ trigger' w') :
    stateMachTbl sm₁ state trigger w = stateMachTbl sm₂ state trigger w := by
  cases trigger with
  | addTable ip n mem =>
    cases state with
    | null =>
      refine smFirstTbl_congr ip n mem w fun w' hw' => h _ w' ?_
      simp [nesting, hw']
    | hybrid => exact smAddSramAndDdrTbl_congr ip n w fun w' => h _ w' (by simp [nesting])
    | _ => rfl
  | addRule t clnt =>
    cases state with
    | hybrid =>
      refine smAddRuleHybrid_congr t clnt w (fun _ w' => h _ w' ?_) fun _ w' hw' => h _ w' ?_
      · simp [nesting]
      · simp [nesting, hw']
    | hybridDdr =>
      refine smAddRuleHybrid_congr t clnt w (fun hc => ?_) fun hc => ?_ <;>
      · rw [hstate] at hc
        cases hc
    | _ => rfl
  | delRule t hdl =>
    cases state with
    | hybrid | hybridDdr =>
      exact smDelRuleHybrid_congr t hdl w fun w' => h _ w' (by simp [nesting])
    | _ => rfl
  | tblSwitch =>
    cases state with
    | hybrid | hybridDdr =>
      exact smSwitchFrom_congr _ _ w fun w' => h _ w' (by simp [nesting])
    | _ => rfl
  | _ => cases state <;> rfl

theorem statemachBody_congr {trigger : IpaNatiTrigger} {w : Nati}
    (h : ∀ trigger' (w' : Nati),
      nesting w'.obj.currState trigger' < nesting w.obj.currState trigger →
      sm₁ trigger' w' = sm₂ trigger' w') :
    statemachBody sm₁ trigger w = statemachBody sm₂ trigger w := by
  have hlocked : smLocked sm₁ trigger w.sys.2.2 = smLocked sm₂ trigger w.sys.2.2 := by
    unfold smLocked
    dsimp only
    rw [stateMachTbl_congr (w := w.sys.2.2) rfl h, stateMachTbl_congr (w := w.sys.2.2.sys.2.2) rfl h]
  unfold statemachBody
  dsimp only
  rw [hlocked]

end Nesting

theorem statemachLevels_congr {n m : ℕ} {trigger : IpaNatiTrigger} {w : Nati}
    (hn : nesting w.obj.currState trigger ≤ n) (hm : nesting w.obj.currState trigger ≤ m) :
    statemachLevels n trigger w = statemachLevels m trigger w := by
  induction n generalizing m trigger w with
  | zero => exact absurd (nesting_pos w.obj.currState trigger) (by omega)
  | succ n ih =>
    cases m with
    | zero => exact absurd (nesting_pos w.obj.currState trigger) (by omega)
    | succ m =>
      exact statemachBody_congr fun trigger' w' hlt => ih (by omega) (by omega)

theorem ipaNatiStatemach_eq (trigger : IpaNatiTrigger) (w : Nati) :
    ipaNatiStatemach trigger w = statemachBody ipaNatiStatemach trigger w := by
  have hle := nesting_le w.obj.currState trigger
  exact statemachLevels_congr (n := 3) (m := 4) hle (by omega)

section ReturnCode

variable (trigger : IpaNatiTrigger) (w : Nati)

/-- What `take_mutex` answers. -/
def lockRet : ℤ := w.sys.1

/-- What `ipa_nat_vote_clock` answers, where a vote is required. -/
def voteRet : ℤ := if voteRequired w.obj.currState trigger then w.called.sys.1 else 0

def admitted : Nati :=
  if voteRequired w.obj.currState trigger then w.called.called else w.called

def callbackRet : ℤ :=
  (stateMachTbl ipaNatiStatemach w.obj.currState trigger (admitted trigger w)).ret

/-- What `give_mutex` answers. -/
def unlockRet : ℤ := (smLocked ipaNatiStatemach trigger w.called).world.sys.1

def MutexOk : Prop := lockRet w = 0 ∧ unlockRet trigger w = 0

theorem ipaNatiStatemach_ret_eq_zero_iff :
    (ipaNatiStatemach trigger w).ret = 0 ↔ MutexOk trigger w := by
  rw [ipaNatiStatemach_eq]
  unfold statemachBody MutexOk lockRet unlockRet
  dsimp only
  split
  · next h => exact iff_of_false h fun h' => h h'.1
  · next h =>
    rw [ne_eq, not_not] at h
    rw [and_iff_right h]
    rfl

end ReturnCode

/-! ### What the callbacks accept -/

section Accepted

variable (w : Nati)

variable (tblHdl : ℕ)

def DelTblAccepted : Prop :=
  validTblHdl tblHdl = true ∧ (w.natCache (tblHdlNmi tblHdl)).ip4Tbl.memDescValid = true ∧ w.Grants

def SramTblAccepted : Prop :=
  SramAccepted w ∧ w.called.Grants ∧
    TableAccepted w.called.called .sram (ipaCalcNumSramTableEntries w.sys.2.1).2

/-- The tables of the hybrid state can be created: the SRAM table alone where it is large
enough; both, and the focus moved to SRAM; or the DDR table alone, where SRAM has none. -/
def HybridTblAccepted (ip : UInt32) (n : ℕ) : Prop :=
  let w := (w.clearMaps .sram).clearMaps .ddr
  let sram := (smAddSramTbl ip w).world
  (SramTblAccepted w ∧ (sram.obj.totSlotsInSram ≥ n ∨
    TableAccepted sram .ddr n ∧ MutexOk .gotoSram (smAddDdrTbl ip n sram).world)) ∨
  ¬ SramTblAccepted w ∧ TableAccepted sram .ddr n

/-- The application's callback answers `0` on every filled slot of a table. -/
def VisitsAccepted {ρ υ : Type} (ifc : IpaTableEntryInterface ρ υ) (t : IpaTable ρ)
    (toRecord : ρ → IpaNatRule ⊕ IpaNatIndxTblRule) (walkCb : List Visited → ℤ) : Prop :=
  0 < t.tableEntries + t.expnTableEntries ∧
    ∀ k < t.tableEntries + t.expnTableEntries, ifc.entryIsValid (t.slot k) = true →
      walkCb (⟨makeEntryHdl t k, toRecord (t.slot k), k⟩ ::
        (ipaTableWalkLoop ifc t .whenSlotFilled
          (fun h r i => visit walkCb ⟨h, toRecord r, i⟩) k 0 []).2) = 0

/-- A handle names a table that can be walked. -/
def WalkAccepted (which : WhichTbl2Use) (walkCb : List Visited → ℤ) : Prop :=
  ∃ c, w.lookup tblHdl = some c ∧
    match which with
    | .useNatTable => VisitsAccepted (entryInterface w.drvi.pdns) c.table .inl walkCb
    | .useIndexTable => VisitsAccepted indexEntryInterface c.indexTable .inr walkCb

/-- A handle names a table whose statistics can be taken. -/
def StatAccepted : Prop :=
  ∃ c, w.lookup tblHdl = some c ∧ 0 < c.table.tableEntries + c.table.expnTableEntries ∧
    0 < c.indexTable.tableEntries + c.indexTable.expnTableEntries

/-- A rule of the application can be added to a table. -/
def AddRuleAccepted (clnt : IpaNatIpv4Rule) : Prop :=
  validTblHdl tblHdl = true ∧
    AddAccepted w.drvi (w.natCache (tblHdlNmi tblHdl)).ip4Tbl (freshRule clnt) ∧ w.Grants

/-- A rule can be deleted from a table. -/
def DelRuleAccepted (tblHdl ruleHdl : ℕ) : Prop :=
  validTblHdl tblHdl = true ∧ (w.natCache (tblHdlNmi tblHdl)).ip4Tbl.memDescValid = true ∧
    DelAccepted (w.natCache (tblHdlNmi tblHdl)).ip4Tbl ruleHdl ∧ w.Grants

/-- A rule can be added in a hybrid state: to the active table, under a handle that is in no map;
or, where the SRAM table refuses it, the mutex allows a switch and another attempt. -/
def AddRuleHybridAccepted (clnt : IpaNatIpv4Rule) : Prop :=
  let r := smAddRuleToTbl (w.hybridTblHdl tblHdl) clnt w
  (AddRuleAccepted w (w.hybridTblHdl tblHdl) clnt ∧
    w.obj.orig2newMap w.chooseMemSub r.hdl = none ∧
    w.obj.new2origMap w.chooseMemSub r.hdl = none) ∨
  (¬ AddRuleAccepted w (w.hybridTblHdl tblHdl) clnt ∧ w.obj.currState = .hybrid ∧
    w.obj.holdState = false ∧ MutexOk .tblSwitch r.world ∧
    MutexOk (.addRule tblHdl clnt)
      ((ipaNatiStatemach .tblSwitch r.world).world.setState .hybridDdr))

/-- All rules can be moved out of a memory. -/
def SwitchAccepted (src : IpaNatMemIn) (goto : IpaNatiTrigger) : Prop :=
  let w' := (ipaNatiStatemach goto w).world.clearMaps src.other
  MutexOk goto w ∧ CopyAccepted (w'.tblHdl src) (w'.tblHdl src.other) w'

/-- A handle names a rule whose time stamp can be read. -/
def TstampAccepted (tblHdl ruleHdl : ℕ) : Prop :=
  validTblHdl tblHdl = true ∧ (w.natCache (tblHdlNmi tblHdl)).ip4Tbl.memDescValid = true ∧
    breakRuleHdl (w.natCache (tblHdlNmi tblHdl)).ip4Tbl.table ruleHdl <
      (w.natCache (tblHdlNmi tblHdl)).ip4Tbl.table.totTblEnts

/-- The inputs on which the callback of a state and a trigger returns `0`. -/
def Accepted : IpaNatiState → IpaNatiTrigger → Prop
  | .null, .addTable ip n mem => MutexOk (.addTable ip n mem) (w.setState (firstState w mem))
  | .ddrOnly, .addTable _ n _ => TableAccepted w .ddr n
  | .sramOnly, .addTable _ _ _ => SramTblAccepted w
  | .hybrid, .addTable ip n _ => HybridTblAccepted w ip n
  | .ddrOnly, .delTable t | .sramOnly, .delTable t => DelTblAccepted w t
  | .hybrid, .delTable t | .hybridDdr, .delTable t =>
    let w := (w.clearMaps .sram).clearMaps .ddr
    DelTblAccepted w t ∧ DelTblAccepted (smDelTbl t w).world (smDelTbl t w).world.obj.ddrTblHdl
  | .ddrOnly, .clrTable t | .sramOnly, .clrTable t => (w.lookup t).isSome = true
  | .hybrid, .clrTable t | .hybridDdr, .clrTable t => (w.lookup (w.hybridTblHdl t)).isSome = true
  | .ddrOnly, .wlkTable t which cb | .sramOnly, .wlkTable t which cb => WalkAccepted w t which cb
  | .hybrid, .wlkTable t which cb | .hybridDdr, .wlkTable t which cb =>
    WalkAccepted w (w.hybridTblHdl t) which cb
  | .ddrOnly, .tblStats t | .sramOnly, .tblStats t => StatAccepted w t
  | .hybrid, .tblStats t | .hybridDdr, .tblStats t => StatAccepted w (w.hybridTblHdl t)
  | .ddrOnly, .addRule t clnt | .sramOnly, .addRule t clnt => AddRuleAccepted w t clnt
  | .hybrid, .addRule t clnt | .hybridDdr, .addRule t clnt => AddRuleHybridAccepted w t clnt
  | .ddrOnly, .delRule t h | .sramOnly, .delRule t h => DelRuleAccepted w t h
  | .hybrid, .delRule t h | .hybridDdr, .delRule t h =>
    ∃ new, w.obj.orig2newMap w.chooseMemSub h = some new ∧
      DelRuleAccepted w (w.hybridTblHdl t) new
  | .hybrid, .tblSwitch => SwitchAccepted w .sram .gotoDdr
  | .hybridDdr, .tblSwitch => SwitchAccepted w .ddr .gotoSram
  | .hybrid, .gotoDdr | .hybridDdr, .gotoDdr => (w.lookup w.obj.ddrTblHdl).isSome = true ∧ w.Grants
  | .hybrid, .gotoSram | .hybridDdr, .gotoSram =>
    (w.lookup w.obj.sramTblHdl).isSome = true ∧ w.Grants
  | .ddrOnly, .getTstamp t h | .sramOnly, .getTstamp t h => TstampAccepted w t h
  | .hybrid, .getTstamp t h | .hybridDdr, .getTstamp t h =>
    ∃ new, w.obj.orig2newMap w.chooseMemSub h = some new ∧
      TstampAccepted w (w.hybridTblHdl t) new
  | _, _ => False

end Accepted

section CallbackRet

variable (w : Nati)

theorem smDelTbl_ret_eq_zero_iff (tblHdl : ℕ) :
    (smDelTbl tblHdl w).ret = 0 ↔ DelTblAccepted w tblHdl := by
  have hret : (smDelTbl tblHdl w).ret = (natiDelIpv4Table w tblHdl).1 := by
    unfold smDelTbl
    dsimp only
    split <;> rfl
  rw [hret]
  exact natiDelIpv4Table_ret_eq_zero_iff w tblHdl

theorem smAddDdrTbl_ret_eq_zero_iff (ip : UInt32) (n : ℕ) :
    (smAddDdrTbl ip n w).ret = 0 ↔ TableAccepted w .ddr n :=
  natiAddIpv4Tbl_ret_eq_zero_iff w .ddr ip n

theorem smAddSramTbl_ret_eq_zero_iff (ip : UInt32) :
    (smAddSramTbl ip w).ret = 0 ↔ SramTblAccepted w := by
  unfold smAddSramTbl ipaNatiGetSramSize SramTblAccepted SramAccepted
  by_cases hgrant : w.sys.1 = 0
  · by_cases hsize : w.sys.2.1 = 0
    · simp [hgrant, hsize, einval]
    · by_cases hcalc : (ipaCalcNumSramTableEntries w.sys.2.1).1 = 0
      · simp only [hgrant, hsize, hcalc, ne_eq, not_true_eq_false, if_false, Nati.Grants,
          not_false_eq_true, true_and]
        split
        · next hvote => exact iff_of_false hvote fun h => hvote h.1
        · next hvote =>
          have hgrants : w.called.sys.1 = 0 := not_not.mp hvote
          rw [and_iff_right hgrants, natiAddIpv4Tbl_ret_eq_zero_iff]
          rfl
      · simp [hgrant, hsize, hcalc]
  · simp [hgrant, Nati.Grants]

theorem smAddSramAndDdrTbl_ret_eq_zero_iff (ip : UInt32) (n : ℕ) :
    (smAddSramAndDdrTbl ipaNatiStatemach ip n w).ret = 0 ↔ HybridTblAccepted w ip n := by
  unfold smAddSramAndDdrTbl HybridTblAccepted
  dsimp only
  generalize (w.clearMaps .sram).clearMaps .ddr = w0
  rw [← smAddSramTbl_ret_eq_zero_iff w0 ip]
  by_cases hsram : (smAddSramTbl ip w0).ret = 0
  · simp only [hsram, if_true, true_and, not_true_eq_false, false_and, or_false]
    by_cases hslots : (smAddSramTbl ip w0).world.obj.totSlotsInSram ≥ n
    · simp only [hslots, if_true, true_or]
    · simp only [hslots, if_false, false_or]
      rw [← smAddDdrTbl_ret_eq_zero_iff _ ip, ← ipaNatiStatemach_ret_eq_zero_iff]
      by_cases hddr : (smAddDdrTbl ip n (smAddSramTbl ip w0).world).ret = 0
      · simp [hddr]
      · simp [hddr]
  · simp only [hsram, if_false, false_and, not_false_eq_true, true_and, false_or]
    rw [← smAddDdrTbl_ret_eq_zero_iff _ ip]
    by_cases hddr : (smAddDdrTbl ip n (smAddSramTbl ip w0).world).ret = 0
    · simp [hddr]
    · simp [hddr]

theorem smDelSramAndDdrTbl_ret_eq_zero_iff (tblHdl : ℕ) :
    (smDelSramAndDdrTbl tblHdl w).ret = 0 ↔
      DelTblAccepted ((w.clearMaps .sram).clearMaps .ddr) tblHdl ∧
        DelTblAccepted (smDelTbl tblHdl ((w.clearMaps .sram).clearMaps .ddr)).world
          (smDelTbl tblHdl ((w.clearMaps .sram).clearMaps .ddr)).world.obj.ddrTblHdl := by
  unfold smDelSramAndDdrTbl
  dsimp only
  rw [← smDelTbl_ret_eq_zero_iff, ← smDelTbl_ret_eq_zero_iff]
  by_cases hfirst : (smDelTbl tblHdl ((w.clearMaps .sram).clearMaps .ddr)).ret = 0
  · simp only [hfirst, if_true, true_and]
    split
    · next h => simp [h]
    · next h => simp [h]
  · simp only [hfirst, if_false, false_and]

theorem smClrTbl_ret_eq_zero_iff (tblHdl : ℕ) :
    (smClrTbl tblHdl w).ret = 0 ↔ (w.lookup tblHdl).isSome = true :=
  natiClearIpv4Tbl_ret_eq_zero_iff (w.clearMaps (tblHdlNmi tblHdl)) tblHdl

theorem walk_visit_ret_eq_zero_iff {ρ υ : Type} (ifc : IpaTableEntryInterface ρ υ)
    (t : IpaTable ρ) (toRecord : ρ → IpaNatRule ⊕ IpaNatIndxTblRule) (cb : List Visited → ℤ) :
    (ipaTableWalk ifc t 0 .whenSlotFilled (fun h r i => visit cb ⟨h, toRecord r, i⟩) []).1 = 0 ↔
      VisitsAccepted ifc t toRecord cb := by
  rw [ipaTableWalk_ret_eq_zero_iff]
  refine and_congr_right fun _ => forall₂_congr fun k _ => ?_
  unfold walkStep
  by_cases hvalid : ifc.entryIsValid (t.slot k) = true
  · simp [hvalid, visit]
  · simp [hvalid]

theorem smWalkTbl_ret_eq_zero_iff (tblHdl : ℕ) (which : WhichTbl2Use) (cb : List Visited → ℤ) :
    (smWalkTbl tblHdl which cb w).ret = 0 ↔ WalkAccepted w tblHdl which cb := by
  unfold WalkAccepted
  cases which with
  | useNatTable =>
    simp only [← walk_visit_ret_eq_zero_iff]
    exact natiWalkIpv4Tbl_ret_eq_zero_iff w tblHdl (fun _ h r i => visit cb ⟨h, .inl r, i⟩) []
  | useIndexTable =>
    simp only [← walk_visit_ret_eq_zero_iff]
    exact natiWalkIpv4IndexTbl_ret_eq_zero_iff w tblHdl (fun _ h r i => visit cb ⟨h, .inr r, i⟩)
      []

theorem smStatTbl_ret_eq_zero_iff (tblHdl : ℕ) : (smStatTbl tblHdl w).ret = 0 ↔ StatAccepted w tblHdl :=
  natiIpv4TblStats_ret_eq_zero_iff w tblHdl

theorem smAddRuleToTbl_ret_eq_zero_iff (tblHdl : ℕ) (clnt : IpaNatIpv4Rule) :
    (smAddRuleToTbl tblHdl clnt w).ret = 0 ↔ AddRuleAccepted w tblHdl clnt :=
  natiAddIpv4Rule_ret_eq_zero_iff w tblHdl (freshRule clnt)

theorem smDelRuleFromTbl_ret_eq_zero_iff (tblHdl ruleHdl : ℕ) :
    (smDelRuleFromTbl tblHdl ruleHdl w).ret = 0 ↔ DelRuleAccepted w tblHdl ruleHdl :=
  natiDelIpv4Rule_ret_eq_zero_iff w tblHdl ruleHdl

theorem smAddRuleToTbl_obj (tblHdl : ℕ) (clnt : IpaNatIpv4Rule) :
    ∃ cntr, (smAddRuleToTbl tblHdl clnt w).world.obj =
      { w.obj with totRulesInTable := cntr } := by
  unfold smAddRuleToTbl
  dsimp only
  split
  · exact ⟨_, by simp only [Nati.setCntr, natiAddIpv4Rule_obj]; rfl⟩
  · exact ⟨w.obj.totRulesInTable, by rw [natiAddIpv4Rule_obj]⟩

theorem smAddRuleHybrid_ret_eq_zero_iff (tblHdl : ℕ) (clnt : IpaNatIpv4Rule) :
    (smAddRuleHybrid ipaNatiStatemach tblHdl clnt w).ret = 0 ↔
      AddRuleHybridAccepted w tblHdl clnt := by
  unfold smAddRuleHybrid AddRuleHybridAccepted
  dsimp only
  rw [← smAddRuleToTbl_ret_eq_zero_iff]
  obtain ⟨cntr, hobj⟩ := smAddRuleToTbl_obj w (w.hybridTblHdl tblHdl) clnt
  by_cases hret : (smAddRuleToTbl (w.hybridTblHdl tblHdl) clnt w).ret = 0
  · simp only [hret, if_true, true_and, not_true_eq_false, false_and, or_false]
    refine (Nati.mapRule_ret_eq_zero_iff _ _ _ _).trans ?_
    unfold Nati.chooseMemSub
    rw [hobj]
  · simp only [hret, if_false, false_and, not_false_eq_true, true_and, false_or]
    rw [hobj]
    dsimp only
    by_cases hgo : w.obj.currState = .hybrid ∧ w.obj.holdState = false
    · have hgo' : w.obj.currState = .hybrid ∧ ¬ w.obj.holdState = true := by simpa using hgo
      rw [if_pos hgo', and_iff_right hgo.1, and_iff_right hgo.2,
        ← ipaNatiStatemach_ret_eq_zero_iff, ← ipaNatiStatemach_ret_eq_zero_iff]
      split
      · next h => exact iff_of_false h fun h' => h h'.1
      · next h => rw [and_iff_right (not_not.mp h)]
    · have hgo' : ¬ (w.obj.currState = .hybrid ∧ ¬ w.obj.holdState = true) := by simpa using hgo
      rw [if_neg hgo']
      exact iff_of_false hret fun h => hgo ⟨h.1, h.2.1⟩

theorem smDelRuleHybrid_ret_eq_zero_iff (tblHdl origRuleHdl : ℕ) :
    (smDelRuleHybrid ipaNatiStatemach tblHdl origRuleHdl w).ret = 0 ↔
      ∃ new, w.obj.orig2newMap w.chooseMemSub origRuleHdl = some new ∧
        DelRuleAccepted w (w.hybridTblHdl tblHdl) new := by
  unfold smDelRuleHybrid ipaNatMapDel
  dsimp only
  cases hmap : w.obj.orig2newMap w.chooseMemSub origRuleHdl with
  | none => simp
  | some new =>
    simp only [ne_eq, not_true_eq_false, if_false, Option.some.injEq, exists_eq_left']
    generalize hw : w.setMaps w.chooseMemSub _ _ = w'
    have hacc : DelRuleAccepted w (w.hybridTblHdl tblHdl) new ↔
        (smDelRuleFromTbl (w'.hybridTblHdl tblHdl) new w').ret = 0 := by
      rw [smDelRuleFromTbl_ret_eq_zero_iff, ← hw]
      rfl
    rw [hacc]
    split
    · next h =>
      split
      · split <;> exact iff_of_true rfl h.1
      · rfl
    · rfl

theorem smSwitchFrom_ret_eq_zero_iff (src : IpaNatMemIn) (goto : IpaNatiTrigger) :
    (smSwitchFrom ipaNatiStatemach src goto w).ret = 0 ↔ SwitchAccepted w src goto := by
  unfold smSwitchFrom SwitchAccepted
  dsimp only
  rw [← ipaNatiStatemach_ret_eq_zero_iff]
  split
  · next h => exact iff_of_false h fun h' => h h'.1
  · next h =>
    rw [and_iff_right (not_not.mp h)]
    exact ipaNatiCopyIpv4Tbl_ret_eq_zero_iff _ _ _

theorem smGoTo_ret_eq_zero_iff (nmi : IpaNatMemIn) (state : IpaNatiState) :
    (smGoTo nmi state w).ret = 0 ↔ (w.lookup (w.tblHdl nmi)).isSome = true ∧ w.Grants :=
  natiPostIpv4InitCmd_ret_eq_zero_iff w _

theorem smGetTmStmp_ret_eq_zero_iff (tblHdl ruleHdl : ℕ) :
    (smGetTmStmp tblHdl ruleHdl w).ret = 0 ↔ TstampAccepted w tblHdl ruleHdl :=
  natiQueryTimestamp_ret_eq_zero_iff w tblHdl ruleHdl

theorem smGetTmStmpHybrid_ret_eq_zero_iff (tblHdl origRuleHdl : ℕ) :
    (smGetTmStmpHybrid tblHdl origRuleHdl w).ret = 0 ↔
      ∃ new, w.obj.orig2newMap w.chooseMemSub origRuleHdl = some new ∧
        TstampAccepted w (w.hybridTblHdl tblHdl) new := by
  unfold smGetTmStmpHybrid ipaNatMapFind
  dsimp only
  cases w.obj.orig2newMap w.chooseMemSub origRuleHdl with
  | none => simp
  | some new =>
    simp only [ne_eq, not_true_eq_false, if_false, Option.some.injEq, exists_eq_left']
    exact smGetTmStmp_ret_eq_zero_iff w _ _

theorem smUndef_ret_eq_zero_iff : (smUndef w).ret = 0 ↔ False :=
  iff_of_false (by decide : ¬ (-1 : ℤ) = 0) id

/-- **What the callbacks accept**, for every state and every trigger. -/
theorem stateMachTbl_ret_eq_zero_iff (state : IpaNatiState) (trigger : IpaNatiTrigger) :
    (stateMachTbl ipaNatiStatemach state trigger w).ret = 0 ↔ Accepted w state trigger := by
  cases trigger with
  | addTable ip n mem =>
    cases state with
    | null => exact ipaNatiStatemach_ret_eq_zero_iff _ _
    | ddrOnly => exact smAddDdrTbl_ret_eq_zero_iff w ip n
    | sramOnly => exact smAddSramTbl_ret_eq_zero_iff w ip
    | hybrid => exact smAddSramAndDdrTbl_ret_eq_zero_iff w ip n
    | _ => exact smUndef_ret_eq_zero_iff w
  | delTable t =>
    cases state with
    | ddrOnly | sramOnly => exact smDelTbl_ret_eq_zero_iff w t
    | hybrid | hybridDdr => exact smDelSramAndDdrTbl_ret_eq_zero_iff w t
    | _ => exact smUndef_ret_eq_zero_iff w
  | clrTable t =>
    cases state with
    | ddrOnly | sramOnly => exact smClrTbl_ret_eq_zero_iff w t
    | hybrid | hybridDdr => exact smClrTbl_ret_eq_zero_iff w _
    | _ => exact smUndef_ret_eq_zero_iff w
  | wlkTable t which cb =>
    cases state with
    | ddrOnly | sramOnly => exact smWalkTbl_ret_eq_zero_iff w t which cb
    | hybrid | hybridDdr => exact smWalkTbl_ret_eq_zero_iff w _ which cb
    | _ => exact smUndef_ret_eq_zero_iff w
  | tblStats t =>
    cases state with
    | ddrOnly | sramOnly => exact smStatTbl_ret_eq_zero_iff w t
    | hybrid | hybridDdr => exact smStatTbl_ret_eq_zero_iff w _
    | _ => exact smUndef_ret_eq_zero_iff w
  | addRule t clnt =>
    cases state with
    | ddrOnly | sramOnly => exact smAddRuleToTbl_ret_eq_zero_iff w t clnt
    | hybrid | hybridDdr => exact smAddRuleHybrid_ret_eq_zero_iff w t clnt
    | _ => exact smUndef_ret_eq_zero_iff w
  | delRule t h =>
    cases state with
    | ddrOnly | sramOnly => exact smDelRuleFromTbl_ret_eq_zero_iff w t h
    | hybrid | hybridDdr => exact smDelRuleHybrid_ret_eq_zero_iff w t h
    | _ => exact smUndef_ret_eq_zero_iff w
  | tblSwitch =>
    cases state with
    | hybrid | hybridDdr => exact smSwitchFrom_ret_eq_zero_iff w _ _
    | _ => exact smUndef_ret_eq_zero_iff w
  | gotoDdr | gotoSram =>
    cases state with
    | hybrid | hybridDdr => exact smGoTo_ret_eq_zero_iff w _ _
    | _ => exact smUndef_ret_eq_zero_iff w
  | getTstamp t h =>
    cases state with
    | ddrOnly | sramOnly => exact smGetTmStmp_ret_eq_zero_iff w t h
    | hybrid | hybridDdr => exact smGetTmStmpHybrid_ret_eq_zero_iff w t h
    | _ => exact smUndef_ret_eq_zero_iff w
  | null | last => cases state <;> exact smUndef_ret_eq_zero_iff w

end CallbackRet

/-- The dispatcher reports the failures of the vote and of the callback. -/
def ReportsFailures (trigger : IpaNatiTrigger) (w : Nati) : Prop :=
  (ipaNatiStatemach trigger w).ret = 0 → voteRet trigger w = 0 ∧ callbackRet trigger w = 0
deriving Decidable

/-- **Failures are reported only by accident.**  The return code of the callback is overwritten
by that of `give_mutex`, so a failure of the vote or of the callback is reported exactly when
the mutex fails as well. -/
theorem ipaNatiStatemach_reportsFailures_iff (trigger : IpaNatiTrigger) (w : Nati) :
    ReportsFailures trigger w ↔ lockRet w ≠ 0 ∨ unlockRet trigger w ≠ 0 ∨
      voteRet trigger w = 0 ∧ Accepted (admitted trigger w) w.obj.currState trigger := by
  have hcallback : callbackRet trigger w = 0 ↔
      Accepted (admitted trigger w) w.obj.currState trigger :=
    stateMachTbl_ret_eq_zero_iff _ _ _
  unfold ReportsFailures
  rw [ipaNatiStatemach_ret_eq_zero_iff, hcallback]
  unfold MutexOk
  tauto

/-- A kernel that accepts everything, offers `216` bytes of SRAM, and refuses call `n`. -/
def refusing (n : ℕ) : Kernel := ⟨fun i => if i = n then -5 else 0, fun _ => 216, 0⟩

/-- A DDR table of four base and two expansion slots, with three rules in one chain. -/
def fullWorld : Nati :=
  [smallRule 16, smallRule 32, smallRule 48].foldl
    (fun w clnt => (ipaNatiStatemach (.addRule 1 clnt) w).world)
    (ipaNatiStatemach (.addTable 0x0A000001 5 none) (natiInit ipaHwV40 (refusing 1000))).world

/-- Tables in both memories and a rule in SRAM. -/
def unmovedWorld : Nati :=
  (ipaNatiStatemach (.addRule (makeTblHdl 1 .sram) (smallRule 16))
    (ipaNatiStatemach (.addTable 0x0A000001 5 (some "HYBRID"))
      (natiInit ipaHwV40 (refusing 28))).world).world

/-- Neither a rule that does not fit nor a switch that fails is reported. -/
theorem ipaNatiStatemach_not_reportsFailures :
    ¬ ReportsFailures (.addRule 1 (smallRule 64)) fullWorld ∧
      (ipaNatAddIpv4Rule 1 (smallRule 64) fullWorld).ret = 0 ∧
      ¬ ReportsFailures .tblSwitch unmovedWorld := by
  decide

end Sm8750Modules.IpaNat
