import Sm8750Modules.IpaNat.Switch

/-!
# Switching to a memory

`ipa_nat_switch_to` asks for a memory, and to stay there.
-/

namespace Sm8750Modules.IpaNat

open Runs

def Nati.holds (w : Nati) : Bool × IpaNatiState := (w.obj.holdState, w.obj.stateToHold)

section Holds

variable {sm : IpaNatiTrigger → Nati → SmResult} {w : Nati}

theorem holds_congr {w w' : Nati} (h : w'.obj = w.obj) : w'.holds = w.holds := by
  unfold Nati.holds
  rw [h]

def KeepsHold (sm : IpaNatiTrigger → Nati → SmResult) : Prop :=
  ∀ trigger w, trigger.movesFocus = true → (sm trigger w).world.holds = w.holds

theorem smGoTo_holds (m : IpaNatMemIn) (s : IpaNatiState) (w : Nati) : (smGoTo m s w).world.holds = w.holds := by
  have hobj := holds_congr (natiPostIpv4InitCmd_obj w (w.tblHdl m))
  unfold smGoTo
  dsimp only
  split
  · exact hobj
  · exact hobj

theorem mapRule_holds (w : Nati) (m : IpaNatMemIn) (orig new : ℕ) : (w.mapRule m orig new).2.holds = w.holds := by
  unfold Nati.mapRule
  dsimp only
  split <;> rfl

theorem migrateRule_holds (dstTblHdl : ℕ) (table : IpaTable IpaNatRule) (hdl : ℕ) (r : IpaNatRule) (i : ℕ)
    (w : Nati) : (migrateRule dstTblHdl table hdl r i w).2.holds = w.holds := by
  have hobj := holds_congr (natiAddIpv4Rule_obj w dstTblHdl (v4Rule r))
  unfold migrateRule
  dsimp only
  split
  · rfl
  split
  · rfl
  split
  · exact hobj
  · rw [mapRule_holds]
    exact hobj

theorem copy_holds (srcTblHdl dstTblHdl : ℕ) (w : Nati) :
    (ipaNatiCopyIpv4Tbl srcTblHdl dstTblHdl migrateRule w).2.holds = w.holds := by
  have hobj := holds_congr (natiClearIpv4Tbl_obj w dstTblHdl)
  unfold ipaNatiCopyIpv4Tbl
  dsimp only
  split
  · exact hobj
  rw [← hobj]
  generalize (natiClearIpv4Tbl w dstTblHdl).2 = w'
  unfold natiWalkIpv4Tbl
  split
  · rfl
  · unfold ipaTableWalk
    dsimp only
    split
    · rfl
    · refine ipaTableWalkLoop_keeps _ _ _ (I := fun s : Nati => s.holds = w'.holds) (fun i s hs => ?_) _ _ rfl
      unfold walkStep
      split
      · exact (migrateRule_holds _ _ _ _ _ s).trans hs
      · exact hs

theorem smSwitchFrom_holds (hsm : KeepsHold sm) (src : IpaNatMemIn) {goto : IpaNatiTrigger}
    (hgoto : goto.movesFocus = true) (w : Nati) : (smSwitchFrom sm src goto w).world.holds = w.holds := by
  have hfocus := hsm goto w hgoto
  unfold smSwitchFrom
  dsimp only
  split
  · exact hfocus
  · rw [← hfocus]
    exact copy_holds _ _ _

theorem stateMachTbl_holds (hsm : KeepsHold sm) (s : IpaNatiState) {trigger : IpaNatiTrigger}
    (ht : trigger.movesFocus = true) (w : Nati) : (stateMachTbl sm s trigger w).world.holds = w.holds := by
  cases trigger with
  | tblSwitch =>
    cases s with
    | hybrid => exact smSwitchFrom_holds hsm .sram rfl w
    | hybridDdr => exact smSwitchFrom_holds hsm .ddr rfl w
    | _ => rfl
  | gotoDdr => cases s <;> first | rfl | exact smGoTo_holds _ _ w
  | gotoSram => cases s <;> first | rfl | exact smGoTo_holds _ _ w
  | _ => cases ht

theorem statemachBody_keepsHold (hsm : KeepsHold sm) : KeepsHold (statemachBody sm) := by
  intro trigger w ht
  have hlocked : (smLocked sm trigger w.sys.2.2).world.holds = w.holds := by
    unfold smLocked
    dsimp only
    split
    · split
      · rfl
      · exact stateMachTbl_holds hsm _ ht _
    · exact stateMachTbl_holds hsm _ ht _
  unfold statemachBody
  dsimp only
  split
  · rfl
  · exact hlocked

theorem ipaNatiStatemach_keepsHold : KeepsHold ipaNatiStatemach := by
  have hlevels : ∀ n, KeepsHold (statemachLevels n) := fun n => by
    induction n with
    | zero => exact fun _ _ _ => rfl
    | succ n ih => exact statemachBody_keepsHold ih
  exact hlevels 3

end Holds

/-! ### The contract -/

section Contract

variable (nmi : IpaNatMemIn) (holdState : Bool) (w : Nati)

def Nati.NoTable : Prop := ∀ m, (w.natCache m).tableCnt = 0

/-- A state for one memory is to be held in the other one. -/
def Incompatible : Prop :=
  holdState = true ∧ ¬ (w.obj.prevState = .null ∧ w.obj.currState = .null) ∧ w.inHybridState = false ∧
    compatibleNmi4Switch nmi w.obj.currState = false

def SwitchFails : Prop :=
  w.obj.prevState ≠ .null ∧ w.inHybridState = true ∧ compatibleNmi4Switch nmi w.obj.currState = true ∧
    ¬ (MutexOk .tblSwitch w ∧ voteRet .tblSwitch w = 0 ∧ callbackRet .tblSwitch w = 0)

def Refused : Prop := Incompatible nmi holdState w ∨ SwitchFails nmi w.called

structure SwitchContract : Prop where
  unstarted : lockRet w = 0 → w.obj.prevState = .null → w.NoTable
  ret : (ipaNatSwitchTo nmi holdState w).1 = 0 ↔ lockRet w = 0 ∧ ¬ Refused nmi holdState w
  refused : lockRet w = 0 → Refused nmi holdState w →
    (ipaNatSwitchTo nmi holdState w).1 ≠ 0 ∧ (ipaNatSwitchTo nmi holdState w).2.holds = w.holds

/-- What `give_mutex` answers. -/
def giveRet : ℤ := (switchToLocked nmi holdState w.called).sys.1

def HoldLeft : Prop :=
  (Incompatible nmi holdState w → w.obj.prevState = .null →
    (holdState, if nmi = .ddr then IpaNatiState.ddrOnly else .sramOnly) = w.holds) ∧
  (SwitchFails nmi w.called → MutexOk .tblSwitch w.called →
    (holdState, if holdState then genHoldState (ipaNatiStatemach .tblSwitch w.called).world
      else w.obj.stateToHold) = w.holds)

variable {nmi holdState w}

theorem called_obj (w : Nati) : w.called.obj = w.obj := rfl

theorem locked_unstarted (hp : w.obj.prevState = .null) : (switchToLocked nmi holdState w).holds =
    (holdState, if nmi = .ddr then IpaNatiState.ddrOnly else .sramOnly) := by
  unfold switchToLocked
  rw [if_pos hp]
  rfl

theorem locked_incompatible (hp : w.obj.prevState ≠ .null) (h : Incompatible nmi holdState w) :
    switchToLocked nmi holdState w = w := by
  obtain ⟨rfl, -, hhybrid, hcompat⟩ := h
  unfold switchToLocked
  simp only [hp, hhybrid, hcompat, if_false, if_true, Bool.false_eq_true]

theorem locked_switch (hp : w.obj.prevState ≠ .null) (hhybrid : w.inHybridState = true)
    (hcompat : compatibleNmi4Switch nmi w.obj.currState = true) : (switchToLocked nmi holdState w).holds =
      if (ipaNatiStatemach .tblSwitch w).ret = 0 then
        (holdState, if holdState then genHoldState (ipaNatiStatemach .tblSwitch w).world else w.obj.stateToHold)
      else w.holds := by
  have hkept := ipaNatiStatemach_keepsHold .tblSwitch w rfl
  have hstate : (ipaNatiStatemach .tblSwitch w).world.obj.stateToHold = w.obj.stateToHold := congrArg Prod.snd hkept
  unfold switchToLocked
  simp only [hp, hhybrid, hcompat, if_false, if_true]
  split
  · rw [← hstate]
    rfl
  · exact hkept

end Contract

def ddrWorld : Nati := (natiInit ipaHwV40 (refusing 1000)).next (.statemach (.addTable 0x0A000001 5 (some "DDR")))

theorem ddrWorld_reachable : nati.Reachable ddrWorld :=
  nati_next (a := .statemach (.addTable 0x0A000001 5 (some "DDR"))) (.init ⟨ipaHwV40, refusing 1000, rfl⟩) trivial

end Sm8750Modules.IpaNat
