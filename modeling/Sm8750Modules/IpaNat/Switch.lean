import Sm8750Modules.IpaNat.Migrate

/-!
# Table switches

A table switch is run by the application, and by the callbacks that add a rule to a full SRAM
table and that delete one of the last rules in DDR.
-/

namespace Sm8750Modules.IpaNat

open Runs Function

/-! ### The calls that run a switch -/

inductive RunsSwitch (w : Nati) : NatiCall → Nati → Prop
  | tblSwitch (hw : w.inHybridState = true) : RunsSwitch w (.statemach .tblSwitch) w
  | switchTo {nmi : IpaNatMemIn} {holdState : Bool} (hlock : lockRet w = 0)
      (hprev : w.obj.prevState ≠ .null) (hw : w.inHybridState = true)
      (hnmi : compatibleNmi4Switch nmi w.obj.currState = true) :
      RunsSwitch w (.switchTo nmi holdState) w.called
  | addRule {t : ℕ} {clnt : IpaNatIpv4Rule} (hlock : lockRet w = 0)
      (hvote : voteRet (.addRule t clnt) w = 0) (hstate : w.obj.currState = .hybrid)
      (hhold : w.obj.holdState = false)
      (hret : (smAddRuleToTbl t clnt (admitted (.addRule t clnt) w)).ret ≠ 0) :
      RunsSwitch w (.statemach (.addRule t clnt))
        (smAddRuleToTbl t clnt (admitted (.addRule t clnt) w)).world
  | delRule {t orig new : ℕ} (hlock : lockRet w = 0) (hvote : voteRet (.delRule t orig) w = 0)
      (hstate : w.obj.currState = .hybridDdr) (hhold : w.obj.holdState = false)
      (hnew : w.obj.orig2newMap .ddr orig = some new)
      (hret : (delMapped t orig new (admitted (.delRule t orig) w)).ret = 0)
      (hthresh : (delMapped t orig new
        (admitted (.delRule t orig) w)).world.obj.totRulesInTable .ddr ≤ w.obj.backToSramThresh) :
      RunsSwitch w (.statemach (.delRule t orig))
        (delMapped t orig new (admitted (.delRule t orig) w)).world

section Admitted

variable (trigger : IpaNatiTrigger) (w : Nati)

theorem admitted_eq : ∃ kernel, admitted trigger w = { w with kernel := kernel } := by
  unfold admitted
  split
  · exact ⟨_, rfl⟩
  · exact ⟨_, rfl⟩

@[simp] theorem admitted_obj : (admitted trigger w).obj = w.obj := by
  obtain ⟨kernel, he⟩ := admitted_eq trigger w
  rw [he]

@[simp] theorem admitted_natCache : (admitted trigger w).natCache = w.natCache := by
  obtain ⟨kernel, he⟩ := admitted_eq trigger w
  rw [he]

variable {w}

theorem NatiInv.admitted (h : NatiInv w) : NatiInv (admitted trigger w) := by
  obtain ⟨kernel, he⟩ := admitted_eq trigger w
  rw [he]
  exact h.congr rfl rfl rfl id rfl rfl

variable {trigger}

theorem ipaNatiStatemach_world (hlock : lockRet w = 0) (hvote : voteRet trigger w = 0) :
    ∃ kernel, (ipaNatiStatemach trigger w).world =
      { (stateMachTbl ipaNatiStatemach w.obj.currState trigger
          (IpaNat.admitted trigger w)).world with kernel := kernel } := by
  unfold lockRet at hlock
  unfold voteRet at hvote
  rw [ipaNatiStatemach_eq]
  unfold statemachBody smLocked IpaNat.admitted
  by_cases hreq : voteRequired w.obj.currState trigger = true
  · have hreq' : voteRequired w.sys.2.2.obj.currState trigger = true := hreq
    have hvote' : w.sys.2.2.sys.1 = 0 := by rwa [if_pos hreq] at hvote
    simp only [hlock, hreq, hreq', hvote', if_true, ne_eq, not_true_eq_false, if_false]
    exact ⟨_, rfl⟩
  · have hreq' : ¬ voteRequired w.sys.2.2.obj.currState trigger = true := hreq
    simp only [hlock, hreq, hreq', ne_eq, not_true_eq_false, if_false]
    exact ⟨_, rfl⟩

theorem ipaNatiStatemach_refused (hlock : lockRet w = 0) (hvote : voteRet trigger w ≠ 0) :
    (ipaNatiStatemach trigger w).world.obj = w.obj := by
  unfold lockRet at hlock
  unfold voteRet at hvote
  rw [ipaNatiStatemach_eq]
  unfold statemachBody smLocked
  by_cases hreq : voteRequired w.obj.currState trigger = true
  · have hreq' : voteRequired w.sys.2.2.obj.currState trigger = true := hreq
    have hvote' : w.sys.2.2.sys.1 ≠ 0 := by rwa [if_pos hreq] at hvote
    simp only [hlock, hreq', hvote', if_true, ne_eq, not_true_eq_false, not_false_eq_true, if_false]
    rfl
  · rw [if_neg hreq] at hvote
    exact absurd rfl hvote

end Admitted

theorem RunsSwitch.inv {w w' : Nati} {call : NatiCall} (h : NatiInv w) (hc : call.NamesSram w)
    (hr : RunsSwitch w call w') : NatiInv w' ∧ w'.inHybridState = true := by
  cases hr with
  | tblSwitch hw => exact ⟨h, hw⟩
  | switchTo hlock hprev hw hnmi => exact ⟨h.sys, hw⟩
  | @addRule t clnt hlock hvote hstate hhold hret =>
    refine ⟨smAddRuleToTbl_inv (h.admitted _) t clnt, ?_⟩
    refine inHybridState_of_eq (s := .hybrid) ?_ (Or.inl rfl)
    rw [smAddRuleToTbl_currState, admitted_obj, hstate]
  | @delRule t orig new hlock hvote hstate hhold hnew hret hthresh =>
    have hw : (admitted (.delRule t orig) w).inHybridState = true :=
      inHybridState_of_eq (s := .hybridDdr) (by rw [admitted_obj, hstate]) (Or.inr rfl)
    obtain ⟨cntr, o2n, n2o, hobj⟩ := delMapped_obj t orig new (admitted (.delRule t orig) w)
    refine ⟨delMapped_inv (h.admitted _) hw ?_ ?_, ?_⟩
    · rw [admitted_obj, hstate]
      exact fun hs => absurd hs (by decide)
    · rw [chooseMemSub_of_ne (by rw [admitted_obj, hstate]; decide), admitted_obj]
      exact hnew
    · refine inHybridState_of_eq (s := .hybridDdr) ?_ (Or.inr rfl)
      rw [hobj]
      show (admitted (.delRule t orig) w).obj.currState = _
      rw [admitted_obj, hstate]

def focusTrigger (w : Nati) : IpaNatiTrigger :=
  if w.obj.currState = .hybrid then .gotoDdr else .gotoSram

theorem focusTrigger_eq (w : Nati) : focusTrigger w = .gotoDdr ∨ focusTrigger w = .gotoSram := by
  unfold focusTrigger
  split
  · exact Or.inl rfl
  · exact Or.inr rfl

theorem stateMachTbl_tblSwitch {w : Nati} (hw : w.inHybridState = true) :
    stateMachTbl ipaNatiStatemach w.obj.currState .tblSwitch =
      smSwitchFrom ipaNatiStatemach w.chooseMemSub (focusTrigger w) := by
  have hs : w.obj.currState = .hybrid ∨ w.obj.currState = .hybridDdr := by
    simpa [Nati.inHybridState] using hw
  unfold focusTrigger
  rcases hs with hs | hs
  · rw [chooseMemSub_hybrid hs, hs]
    rfl
  · rw [chooseMemSub_of_ne (by rw [hs]; decide), hs]
    rfl

/-- **A table switch that copies every rule moves the rule set**, in every reachable hybrid state
and in either direction, whether the application or another callback runs it. -/
theorem switch_migrated {w w' : Nati} {call : NatiCall} (h : nati.Reachable w)
    (hc : call.NamesSram w) (hr : RunsSwitch w call w') (hret : callbackRet .tblSwitch w' = 0) :
    Migrated w'.chooseMemSub w'
      (stateMachTbl ipaNatiStatemach w'.obj.currState .tblSwitch (admitted .tblSwitch w')).world := by
  obtain ⟨hinv, hw⟩ := hr.inv (natiInv_reachable h) hc
  unfold callbackRet at hret
  rw [stateMachTbl_tblSwitch hw] at hret ⊢
  have hm := smSwitchFrom_migrated (hinv.admitted .tblSwitch)
    (by rw [inHybridState_congr (congrArg _ (admitted_obj _ _))]; exact hw)
    (focusTrigger_eq w') hret
  have htable : (admitted .tblSwitch w').table w'.chooseMemSub = w'.table w'.chooseMemSub := by
    unfold Nati.table
    rw [admitted_natCache]
  have hres : ∀ orig i, w'.Resolves w'.chooseMemSub orig i →
      (admitted .tblSwitch w').Resolves w'.chooseMemSub orig i := by
    intro orig i hi
    unfold Nati.Resolves
    rw [htable, admitted_obj]
    exact hi
  obtain ⟨⟨φ, hbij, hpay, hmap⟩, hno, hcnt⟩ := hm
  rw [htable] at hbij hpay hcnt
  exact ⟨⟨φ, hbij, hpay, fun orig i hi => hmap orig i (hres orig i hi)⟩, hno, hcnt⟩

/-- Tables in both memories, four base and two expansion slots each. -/
def hybridWorld : Nati :=
  (ipaNatiStatemach (.addTable 0x0A000001 5 (some "HYBRID"))
    (natiInit ipaHwV40 (refusing 1000))).world

def sramHdl : ℕ := makeTblHdl 1 .sram

/-- A rule in an SRAM chain whose head was deleted. -/
def hybridDead : Nati :=
  ((hybridWorld.next (.statemach (.addRule sramHdl (smallRule 16)))).next
    (.statemach (.addRule sramHdl (smallRule 32)))).next (.statemach (.delRule sramHdl 0x8006))

theorem sramHdl_nmi : tblHdlNmi sramHdl = .sram := by decide

theorem hybridWorld_reachable : nati.Reachable hybridWorld :=
  nati_next (a := .statemach (.addTable 0x0A000001 5 (some "HYBRID")))
    (.init ⟨ipaHwV40, refusing 1000, rfl⟩) trivial

theorem hybridDead_reachable : nati.Reachable hybridDead :=
  nati_next (nati_next (nati_next hybridWorld_reachable fun _ => sramHdl_nmi)
    fun _ => sramHdl_nmi) fun _ => sramHdl_nmi

theorem hybridDead_switch : NatiCall.NamesSram hybridDead (.statemach .tblSwitch) := trivial

/-- A switch to DDR copies the rule and drops the placeholder. -/
theorem switch_migrated_hybridDead :
    callbackRet .tblSwitch hybridDead = 0 ∧
      (∃ i, ((hybridDead.table .sram).slot i).live = true) ∧
      (∃ i, ((hybridDead.table .sram).slot i).protocol = ipahalNatInvalidProtocol) ∧
      Migrated hybridDead.chooseMemSub hybridDead
        (stateMachTbl ipaNatiStatemach hybridDead.obj.currState .tblSwitch
          (admitted .tblSwitch hybridDead)).world :=
  ⟨by decide, ⟨4, by decide⟩, ⟨3, by decide⟩,
    switch_migrated hybridDead_reachable hybridDead_switch (.tblSwitch (by decide)) (by decide)⟩

/-! ### Switches that fail -/

structure CopyFails (w : Nati) : Prop where
  locked : lockRet w = 0
  voted : voteRet .tblSwitch w = 0
  focus : MutexOk (focusTrigger w) (admitted .tblSwitch w)
  failed : callbackRet .tblSwitch w ≠ 0

def FocusRefused (w : Nati) : Prop :=
  ¬ (voteRet (focusTrigger w) (admitted .tblSwitch w) = 0 ∧
    Accepted (admitted (focusTrigger w) (admitted .tblSwitch w)) w.obj.currState (focusTrigger w))

/-- After a switch that began in `w'`, the state `wf` still selects the memory of the rules, and
the rules behind the original handles are still found. -/
structure RulesKept (w' wf : Nati) : Prop where
  selected : wf.chooseMemSub = w'.chooseMemSub
  resolves : ∀ orig i, w'.Resolves w'.chooseMemSub orig i → ∃ j,
    wf.Resolves wf.chooseMemSub orig j ∧ ((wf.table wf.chooseMemSub).slot j).payload =
      ((w'.table w'.chooseMemSub).slot i).payload

def NatiCall.setsState : NatiCall → Bool
  | .statemach (.addRule _ _) | .statemach (.delRule _ _) => true
  | _ => false

section Failed

variable {w w' : Nati}

theorem focus_currState {m : IpaNatMemIn} {s : IpaNatiState} (goto : IpaNatiTrigger)
    (hcb : stateMachTbl ipaNatiStatemach w.obj.currState goto = smGoTo m s)
    (hlock : lockRet w = 0) :
    (voteRet goto w = 0 ∧ Accepted (admitted goto w) w.obj.currState goto →
      (ipaNatiStatemach goto w).world.obj.currState = s) ∧
    (¬ (voteRet goto w = 0 ∧ Accepted (admitted goto w) w.obj.currState goto) →
      (ipaNatiStatemach goto w).world.obj.currState = w.obj.currState) := by
  have hacc := stateMachTbl_ret_eq_zero_iff (admitted goto w) w.obj.currState goto
  rw [hcb] at hacc
  rw [← hacc]
  by_cases hvote : voteRet goto w = 0
  · obtain ⟨kernel, he⟩ := ipaNatiStatemach_world hlock hvote
    rw [he, hcb]
    rw [and_iff_right hvote]
    unfold smGoTo
    dsimp only
    constructor
    · intro hret
      rw [if_pos hret]
      rfl
    · intro hret
      rw [if_neg hret, natiPostIpv4InitCmd_obj, admitted_obj]
  · refine ⟨fun h => absurd h.1 hvote, fun _ => ?_⟩
    rw [ipaNatiStatemach_refused hlock hvote]

/-- What is found in a memory: its table, the handles of its rules. -/
structure SameMemory (m : IpaNatMemIn) (w w' : Nati) : Prop where
  cache : w'.natCache m = w.natCache m
  orig2new : w'.obj.orig2newMap m = w.obj.orig2newMap m

theorem SameMemory.refl (m : IpaNatMemIn) (w : Nati) : SameMemory m w w := ⟨rfl, rfl⟩

theorem SameMemory.trans {m : IpaNatMemIn} {w₁ w₂ w₃ : Nati} (h : SameMemory m w₁ w₂)
    (h' : SameMemory m w₂ w₃) : SameMemory m w₁ w₃ :=
  ⟨h'.cache.trans h.cache, h'.orig2new.trans h.orig2new⟩

theorem SameMemory.resolves {m : IpaNatMemIn} (h : SameMemory m w w') {orig i : ℕ}
    (hr : w.Resolves m orig i) : w'.Resolves m orig i := by
  unfold Nati.Resolves Nati.table at hr ⊢
  rw [h.cache, h.orig2new]
  exact hr

theorem migrateRule_sameMemory {dstTblHdl : ℕ} {t : IpaTable IpaNatRule}
    (hdst : tblHdlNmi dstTblHdl = t.nmi.other) (hdl : ℕ) (r : IpaNatRule) (i : ℕ) (w : Nati) :
    SameMemory t.nmi w (migrateRule dstTblHdl t hdl r i w).2 := by
  have hne := other_ne t.nmi
  have hadd : SameMemory t.nmi w (natiAddIpv4Rule w dstTblHdl (v4Rule r)).2.2 := by
    refine ⟨?_, by rw [natiAddIpv4Rule_obj]⟩
    unfold natiAddIpv4Rule
    split
    · rfl
    · rw [hdst]
      exact update_of_ne hne _ _
  unfold migrateRule
  dsimp only
  split
  · exact .refl _ _
  split
  · exact .refl _ _
  split
  · exact hadd
  · refine hadd.trans ?_
    unfold Nati.mapRule
    dsimp only
    split
    · exact ⟨rfl, rfl⟩
    · exact ⟨rfl, update_of_ne hne _ _⟩

theorem copy_sameMemory (h : NatiInv w) {src : IpaNatMemIn}
    (ho : ∀ orig, w.obj.orig2newMap src.other orig = none) :
    SameMemory src w
      (ipaNatiCopyIpv4Tbl (w.tblHdl src) (w.tblHdl src.other) migrateRule w).2 := by
  unfold ipaNatiCopyIpv4Tbl
  dsimp only
  split
  · next hret =>
    rw [natiClearIpv4Tbl_of_ne hret]
    exact .refl _ _
  next hret =>
  obtain ⟨cd, hl⟩ := Option.isSome_iff_exists.mp
    ((natiClearIpv4Tbl_ret_eq_zero_iff w _).mp (not_not.mp hret))
  have hdst := h.tblHdl_nmi hl
  have hinv := h.clearTbl (w.tblHdl src.other) (by rw [hdst]; exact ho)
  have hobj := natiClearIpv4Tbl_obj w (w.tblHdl src.other)
  have hclr : SameMemory src w (natiClearIpv4Tbl w (w.tblHdl src.other)).2 := by
    refine ⟨?_, by rw [hobj]⟩
    unfold natiClearIpv4Tbl
    rw [hl, hdst]
    exact update_of_ne (other_ne src) _ _
  refine hclr.trans ?_
  unfold natiWalkIpv4Tbl
  split
  · exact .refl _ _
  next c hsrc =>
  unfold ipaTableWalk
  dsimp only
  split
  · exact .refl _ _
  next hpos =>
  have hnmi : c.table.nmi = src := by
    rw [← tblHdl_congr hobj src] at hsrc
    exact hinv.lookup_nmi hsrc (by omega)
  refine ipaTableWalkLoop_keeps _ _ _ (I := SameMemory src _) (fun i s hs => ?_) _ _ (.refl _ _)
  unfold walkStep
  split
  · have hm := migrateRule_sameMemory (hdst.trans (by rw [hnmi])) (makeEntryHdl c.table i)
      (c.table.slot i) i s
    rw [hnmi] at hm
    exact hs.trans hm
  · exact hs

theorem failedSwitch (h : NatiInv w) (hw : w.inHybridState = true) (hf : CopyFails w) :
    SameMemory w.chooseMemSub w (ipaNatiStatemach .tblSwitch w).world ∧
      (ipaNatiStatemach .tblSwitch w).world.obj.currState =
        (ipaNatiStatemach (focusTrigger w) (admitted .tblSwitch w)).world.obj.currState := by
  have hfocus := (ipaNatiStatemach_ret_eq_zero_iff _ _).mpr hf.focus
  have hadm : SameMemory w.chooseMemSub w (admitted .tblSwitch w) :=
    ⟨by rw [admitted_natCache], by rw [admitted_obj]⟩
  have hinv : NatiInv (ipaNatiStatemach (focusTrigger w) (admitted .tblSwitch w)).world := by
    rcases focusTrigger_eq w with hg | hg <;> rw [hg] <;>
      exact ipaNatiStatemach_keeps.inv _ _ (h.admitted _) trivial
  have hhyb : (ipaNatiStatemach (focusTrigger w)
      (admitted .tblSwitch w)).world.inHybridState = true := by
    have hw' : (admitted .tblSwitch w).inHybridState = true := by
      rw [inHybridState_congr (congrArg _ (admitted_obj _ _))]
      exact hw
    rcases focusTrigger_eq w with hg | hg <;> rw [hg] <;>
      exact ipaNatiStatemach_keeps.hybrid _ _ rfl (h.admitted _) hw'
  have hsame : SameMemory w.chooseMemSub (admitted .tblSwitch w)
      (ipaNatiStatemach (focusTrigger w) (admitted .tblSwitch w)).world := by
    obtain ⟨kernel, prev, curr, he⟩ := goto_world (focusTrigger_eq w) (admitted .tblSwitch w)
    rw [he]
    exact ⟨rfl, rfl⟩
  obtain ⟨kernel, he⟩ := ipaNatiStatemach_world hf.locked hf.voted
  rw [he, stateMachTbl_tblSwitch hw]
  unfold smSwitchFrom
  simp only [hfocus, ne_eq, not_true_eq_false, if_false]
  generalize (ipaNatiStatemach (focusTrigger w) (admitted .tblSwitch w)).world = f
    at hinv hhyb hsame ⊢
  have hclr : SameMemory w.chooseMemSub f (f.clearMaps w.chooseMemSub.other) :=
    ⟨rfl, update_of_ne (other_ne _) _ _⟩
  have hempty : ∀ orig, (f.clearMaps w.chooseMemSub.other).obj.orig2newMap
      w.chooseMemSub.other orig = none := by
    intro orig
    simp only [Nati.clearMaps, Nati.setMaps, update_self]
  have hcopy := copy_sameMemory (hinv.clearMaps w.chooseMemSub.other) hempty
  have hstate := (copy_inv (hinv.clearMaps w.chooseMemSub.other) hhyb w.chooseMemSub hempty).2
  have hall := ((hadm.trans hsame).trans hclr).trans hcopy
  exact ⟨⟨hall.cache, hall.orig2new⟩, hstate⟩

theorem focus_selects (h : NatiInv w) (hw : w.inHybridState = true) (hf : CopyFails w) :
    (¬ FocusRefused w → (ipaNatiStatemach .tblSwitch w).world.chooseMemSub ≠ w.chooseMemSub) ∧
    (FocusRefused w →
      (ipaNatiStatemach .tblSwitch w).world.obj.currState = w.obj.currState) := by
  have hs : w.obj.currState = .hybrid ∨ w.obj.currState = .hybridDdr := by
    simpa [Nati.inHybridState] using hw
  have hstate := (failedSwitch h hw hf).2
  have hlock := hf.focus.1
  unfold FocusRefused
  rcases hs with hs | hs
  · have hg : focusTrigger w = .gotoDdr := if_pos hs
    rw [hg] at hstate ⊢
    obtain ⟨hok, hno⟩ := focus_currState (w := admitted .tblSwitch w) (m := .ddr) (s := .hybridDdr)
      .gotoDdr (by rw [admitted_obj, hs]; rfl) hlock
    rw [admitted_obj] at hok hno
    refine ⟨fun hacc => ?_, fun href => hstate.trans (hno href)⟩
    rw [chooseMemSub_hybrid hs, chooseMemSub_of_ne]
    · decide
    · rw [hstate, hok (not_not.mp hacc)]
      decide
  · have hg : focusTrigger w = .gotoSram := if_neg (by rw [hs]; decide)
    rw [hg] at hstate ⊢
    obtain ⟨hok, hno⟩ := focus_currState (w := admitted .tblSwitch w) (m := .sram) (s := .hybrid)
      .gotoSram (by rw [admitted_obj, hs]; rfl) hlock
    rw [admitted_obj] at hok hno
    refine ⟨fun hacc => ?_, fun href => hstate.trans (hno href)⟩
    rw [chooseMemSub_hybrid (hstate.trans (hok (not_not.mp hacc))),
      chooseMemSub_of_ne (by rw [hs]; decide)]
    decide

theorem rulesKept_failedSwitch (h : NatiInv w') (hw : w'.inHybridState = true)
    (hf : CopyFails w') {wf : Nati}
    (hsame : SameMemory w'.chooseMemSub (ipaNatiStatemach .tblSwitch w').world wf)
    (hstate : wf.obj.currState = (ipaNatiStatemach .tblSwitch w').world.obj.currState) :
    RulesKept w' wf ↔ FocusRefused w' := by
  obtain ⟨hmoved, hstay⟩ := focus_selects h hw hf
  constructor
  · intro hk
    by_contra hno
    exact hmoved hno ((chooseMemSub_congr hstate).symm.trans hk.selected)
  · intro href
    have hsub : wf.chooseMemSub = w'.chooseMemSub :=
      chooseMemSub_congr (hstate.trans (hstay href))
    have hall := (failedSwitch h hw hf).1.trans hsame
    refine ⟨hsub, fun orig i hi => ⟨i, ?_, ?_⟩⟩
    · rw [hsub]
      exact hall.resolves hi
    · unfold Nati.table
      rw [hsub, hall.cache]

theorem RulesKept.not_of_ne {wf : Nati} (hne : wf.chooseMemSub ≠ w'.chooseMemSub) : ¬ RulesKept w' wf :=
  fun hk => hne hk.selected

theorem addRule_hybridDdr {t : ℕ} {clnt : IpaNatIpv4Rule} (hs : w.obj.currState = .hybridDdr) :
    (ipaNatiStatemach (.addRule t clnt) w).world.obj.currState = .hybridDdr := by
  have hcb : ∀ w : Nati, w.obj.currState = .hybridDdr →
      (smAddRuleHybrid ipaNatiStatemach t clnt w).world.obj.currState = .hybridDdr := by
    intro w hs
    have hr := smAddRuleToTbl_currState (w.hybridTblHdl t) clnt w
    unfold smAddRuleHybrid
    dsimp only
    split
    · rw [mapRule_obj, hr, hs]
    split
    · next hh => exact absurd (hh.1.symm.trans (hr.trans hs)) (by decide)
    · rw [hr, hs]
  rw [ipaNatiStatemach_eq]
  unfold statemachBody smLocked
  dsimp only
  split
  · exact hs
  have hs' : w.sys.2.2.obj.currState = .hybridDdr := hs
  rw [hs']
  split
  · split
    · exact hs
    · rw [show w.sys.2.2.sys.2.2.obj.currState = .hybridDdr from hs]
      exact hcb w.sys.2.2.sys.2.2 hs
  · exact hcb w.sys.2.2 hs

theorem switchTo_world {nmi : IpaNatMemIn} (holdState : Bool) (hlock : lockRet w = 0)
    (hprev : w.obj.prevState ≠ .null) (hw : w.inHybridState = true)
    (hnmi : compatibleNmi4Switch nmi w.obj.currState = true) :
    ∃ hold kernel state, w.next (.switchTo nmi holdState) =
      { ((ipaNatiStatemach .tblSwitch w.called).world.hold hold state) with kernel := kernel } := by
  have hlock' : w.sys.1 = 0 := hlock
  have hprev' : w.sys.2.2.obj.prevState ≠ .null := hprev
  have hw' : w.sys.2.2.inHybridState = true := hw
  have hnmi' : compatibleNmi4Switch nmi w.sys.2.2.obj.currState = true := hnmi
  show ∃ hold kernel state, (ipaNatSwitchTo nmi holdState w).2 = _
  unfold ipaNatSwitchTo switchToLocked
  simp only [hlock', hprev', hw', hnmi', ne_eq, not_true_eq_false, if_false, if_true]
  split
  · exact ⟨_, _, _, rfl⟩
  · exact ⟨_, _, _, rfl⟩

theorem smAddRuleHybrid_switch (sm : IpaNatiTrigger → Nati → SmResult) {t : ℕ}
    {clnt : IpaNatIpv4Rule} (hs : w.obj.currState = .hybrid) (hh : w.obj.holdState = false)
    (hret : (smAddRuleToTbl t clnt w).ret ≠ 0) :
    smAddRuleHybrid sm t clnt w =
      let r := smAddRuleToTbl t clnt w
      let switch := sm .tblSwitch r.world
      if switch.ret ≠ 0 then ⟨switch.ret, r.out, switch.world⟩
      else
        let again := sm (.addRule t clnt) (switch.world.setState .hybridDdr)
        ⟨again.ret, again.out.or r.out, again.world⟩ := by
  obtain ⟨cntr, hobj⟩ := smAddRuleToTbl_obj w t clnt
  have ht : w.hybridTblHdl t = t := if_pos hs
  unfold smAddRuleHybrid
  rw [ht]
  dsimp only
  rw [if_neg hret, if_pos ⟨by rw [hobj, hs], by rw [hobj, hh]; decide⟩]

/-- **What a failed switch keeps.**  In every reachable hybrid state, when the copy of a table
switch fails, the state still selects the memory of the rules, and the rules behind the original
handles are still found, exactly when the move of the focus was refused before the copy and, in
an addition or a deletion, the mutex could not be given back after the switch. -/
theorem failedSwitch_rulesKept_iff {call : NatiCall} (h : nati.Reachable w)
    (hc : call.NamesSram w) (hr : RunsSwitch w call w') (hf : CopyFails w') :
    RulesKept w' (w.next call) ↔
      FocusRefused w' ∧ (call.setsState = true → unlockRet .tblSwitch w' ≠ 0) := by
  have hinv := natiInv_reachable h
  obtain ⟨hinv', hw'⟩ := hr.inv hinv hc
  have hunlock : (ipaNatiStatemach .tblSwitch w').ret = 0 ↔ unlockRet .tblSwitch w' = 0 := by
    rw [ipaNatiStatemach_ret_eq_zero_iff]
    exact and_iff_right hf.locked
  cases hr with
  | tblSwitch hw =>
    refine (rulesKept_failedSwitch hinv' hw' hf (.refl _ _) rfl).trans ?_
    exact (and_iff_left fun hset => by cases hset).symm
  | @switchTo nmi holdState hlock hprev hw hnmi =>
    rw [and_iff_left fun hset => by cases hset]
    obtain ⟨hold, kernel, prev, he⟩ := switchTo_world holdState hlock hprev hw hnmi
    rw [he]
    exact rulesKept_failedSwitch hinv' hw' hf ⟨rfl, rfl⟩ rfl
  | @addRule t clnt hlock hvote hstate hhold hret =>
    obtain ⟨kernel, he⟩ := ipaNatiStatemach_world hlock hvote
    have hnext : w.next (.statemach (.addRule t clnt)) = _ := he
    rw [hnext, hstate]
    have hcb := smAddRuleHybrid_switch ipaNatiStatemach (t := t)
      (w := admitted (.addRule t clnt) w) (by rw [admitted_obj, hstate])
      (by rw [admitted_obj, hhold]) hret
    show RulesKept _ { (smAddRuleHybrid ipaNatiStatemach t clnt _).world with kernel := kernel } ↔ _
    have hsub : (smAddRuleToTbl t clnt (admitted (.addRule t clnt) w)).world.chooseMemSub = .sram :=
      chooseMemSub_hybrid (by rw [smAddRuleToTbl_currState, admitted_obj, hstate])
    rw [hcb]
    dsimp only
    by_cases hu : unlockRet .tblSwitch
        (smAddRuleToTbl t clnt (admitted (.addRule t clnt) w)).world = 0
    · rw [if_neg (not_not.mpr (hunlock.mpr hu))]
      refine iff_of_false (RulesKept.not_of_ne ?_) fun hk => hk.2 rfl hu
      rw [hsub, chooseMemSub_of_ne]
      · decide
      · rw [addRule_hybridDdr rfl]
        decide
    · rw [if_pos fun hz => hu (hunlock.mp hz), and_iff_left fun _ => hu]
      exact rulesKept_failedSwitch hinv' hw' hf ⟨rfl, rfl⟩ rfl
  | @delRule t orig new hlock hvote hstate hhold hnew hret hthresh =>
    obtain ⟨kernel, he⟩ := ipaNatiStatemach_world hlock hvote
    have hnext : w.next (.statemach (.delRule t orig)) = _ := he
    rw [hnext, hstate]
    show RulesKept _ { (smDelRuleHybrid ipaNatiStatemach t orig _).world with kernel := kernel } ↔ _
    obtain ⟨cntr, o2n, n2o, hobj⟩ := delMapped_obj t orig new (admitted (.delRule t orig) w)
    rw [admitted_obj] at hobj
    have hsub : (delMapped t orig new (admitted (.delRule t orig) w)).world.chooseMemSub = .ddr :=
      chooseMemSub_of_ne (by rw [hobj, hstate]; decide)
    have hsome : (admitted (.delRule t orig) w).obj.orig2newMap
        (admitted (.delRule t orig) w).chooseMemSub orig = some new := by
      rw [chooseMemSub_of_ne (by rw [admitted_obj, hstate]; decide), admitted_obj, hnew]
    rw [smDelRuleHybrid_of_some (hinv.admitted _) hsome]
    have hback : (delMapped t orig new (admitted (.delRule t orig) w)).world.obj.backToSramThresh =
        w.obj.backToSramThresh := by rw [hobj]
    have hfew := hthresh
    rw [← hsub, ← hback] at hfew
    dsimp only
    rw [if_pos ⟨hret, by rw [hobj, hstate]⟩, if_pos ⟨hfew, by rw [hobj, hhold]; decide⟩]
    by_cases hu : unlockRet .tblSwitch
        (delMapped t orig new (admitted (.delRule t orig) w)).world = 0
    · rw [if_pos (hunlock.mpr hu)]
      refine iff_of_false (RulesKept.not_of_ne ?_) fun hk => hk.2 rfl hu
      rw [hsub, chooseMemSub_hybrid rfl]
      decide
    · rw [if_neg fun hz => hu (hunlock.mp hz), and_iff_left fun _ => hu]
      exact rulesKept_failedSwitch hinv' hw' hf ⟨rfl, rfl⟩ rfl

end Failed

/-- Tables in both memories and a chain of two rules in SRAM. -/
def halfWorld : Nati :=
  (((natiInit ipaHwV40 (refusing 34)).next
    (.statemach (.addTable 0x0A000001 5 (some "HYBRID")))).next
    (.statemach (.addRule sramHdl (smallRule 16)))).next
    (.statemach (.addRule sramHdl (smallRule 32)))

theorem halfWorld_reachable : nati.Reachable halfWorld :=
  nati_next (nati_next (nati_next (a := .statemach (.addTable 0x0A000001 5 (some "HYBRID")))
    (.init ⟨ipaHwV40, refusing 34, rfl⟩) trivial) fun _ => sramHdl_nmi) fun _ => sramHdl_nmi

theorem halfWorld_copyFails : CopyFails halfWorld :=
  ⟨by decide, by decide, ⟨by decide, by decide⟩, by decide⟩

/-- Half of the rules are copied: the state selects DDR, where the other handle names no rule. -/
theorem failedSwitch_not_rulesKept :
    nati.Reachable halfWorld ∧ RunsSwitch halfWorld (.statemach .tblSwitch) halfWorld ∧
      CopyFails halfWorld ∧ halfWorld.Resolves .sram 0x8001 4 ∧
      (halfWorld.next (.statemach .tblSwitch)).chooseMemSub = .ddr ∧
      (∀ j, ¬ (halfWorld.next (.statemach .tblSwitch)).Resolves .ddr 0x8001 j) ∧
      ¬ RulesKept halfWorld (halfWorld.next (.statemach .tblSwitch)) := by
  refine ⟨halfWorld_reachable, .tblSwitch (by decide), halfWorld_copyFails,
    ⟨0x8001, by decide, by decide, by decide⟩, by decide, ?_, RulesKept.not_of_ne (by decide)⟩
  rintro j ⟨new, hnew, -⟩
  exact absurd hnew (by rw [show (halfWorld.next
    (.statemach .tblSwitch)).obj.orig2newMap .ddr 0x8001 = none by decide]; exact nofun)

theorem failedSwitch_rulesKept_iff_halfWorld :
    RulesKept halfWorld (halfWorld.next (.statemach .tblSwitch)) ↔
      FocusRefused halfWorld ∧
        ((NatiCall.statemach .tblSwitch).setsState = true → unlockRet .tblSwitch halfWorld ≠ 0) :=
  failedSwitch_rulesKept_iff halfWorld_reachable
    (show NatiCall.NamesSram halfWorld (.statemach .tblSwitch) from trivial)
    (.tblSwitch (by decide)) halfWorld_copyFails

end Sm8750Modules.IpaNat
