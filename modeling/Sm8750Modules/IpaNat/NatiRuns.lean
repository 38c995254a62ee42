import Sm8750Modules.IpaNat.NatiInv

/-!
# Runs of the NAT library

`nati` is the machine of the API calls, from the static data before the first call on.
-/

namespace Sm8750Modules.IpaNat

open Runs Function

theorem tblHdlNmi_makeTblHdl (m : IpaNatMemIn) : tblHdlNmi (makeTblHdl 1 m) = m := by
  cases m <;> decide

theorem lookup_zero (w : Nati) : w.lookup 0 = none := by
  unfold Nati.lookup
  rw [if_neg]
  rintro ⟨hvalid, -⟩
  exact absurd hvalid (by decide)

/-- The application passes the handle of the SRAM table while SRAM is active. -/
def NamesSram (w : Nati) : IpaNatiTrigger → Prop
  | .addRule t _ | .delRule t _ => w.obj.currState = .hybrid → tblHdlNmi t = .sram
  | _ => True

variable {w : Nati}

theorem chooseMemSub_hybrid (h : w.obj.currState = .hybrid) :
    w.chooseMemSub = .sram := if_pos h

theorem chooseMemSub_of_ne (h : w.obj.currState ≠ .hybrid) : w.chooseMemSub = .ddr :=
  if_neg h

variable {t : ℕ}

theorem NatiInv.hybridTblHdl_nmi (h : NatiInv w)
    (ht : w.obj.currState = .hybrid → tblHdlNmi t = .sram) :
    tblHdlNmi (w.hybridTblHdl t) = w.chooseMemSub := by
  unfold Nati.hybridTblHdl Nati.chooseMemSub
  by_cases hs : w.obj.currState = .hybrid
  · rw [if_pos hs, if_pos hs]
    exact ht hs
  · rw [if_neg hs, if_neg hs]
    exact h.ddrHdl

/-! ### The callbacks -/

def IpaNatiTrigger.movesFocus : IpaNatiTrigger → Bool
  | .tblSwitch | .gotoDdr | .gotoSram => true
  | _ => false

/-- What the callbacks rely on when they run the dispatcher. -/
structure Keeps (sm : IpaNatiTrigger → Nati → SmResult) : Prop where
  inv : ∀ trigger w, NatiInv w → NamesSram w trigger → NatiInv (sm trigger w).world
  hybrid : ∀ trigger w, trigger.movesFocus = true → NatiInv w → w.inHybridState = true →
    (sm trigger w).world.inHybridState = true

variable {trigger : IpaNatiTrigger}

section Callbacks

variable {sm : IpaNatiTrigger → Nati → SmResult} {w : Nati}

variable {s : IpaNatiState}

theorem NatiInv.setState (h : NatiInv w)
    (hs : s = .hybrid ∨ s = .hybridDdr ∨ w.inHybridState = false) : NatiInv (w.setState s) := by
  refine ⟨h.table, h.maps, fun hw => ?_, h.ddrHdl, h.sramHdl⟩
  rcases hs with rfl | rfl | hs
  · exact absurd hw (by simp [Nati.inHybridState, Nati.setState])
  · exact absurd hw (by simp [Nati.inHybridState, Nati.setState])
  · exact h.empty hs

theorem NatiInv.setState_of_empty (h : NatiInv w) (s : IpaNatiState)
    (ho : ∀ m orig, w.obj.orig2newMap m orig = none) : NatiInv (w.setState s) :=
  ⟨h.table, h.maps, fun _ => ho, h.ddrHdl, h.sramHdl⟩

theorem NatiInv.back2Unstarted_of_empty (h : NatiInv w)
    (ho : ∀ m orig, w.obj.orig2newMap m orig = none) : NatiInv w.back2UnstartedState :=
  ⟨h.table, h.maps, fun _ => ho, h.ddrHdl, h.sramHdl⟩

def Nati.NoMaps (w : Nati) : Prop := ∀ m orig, w.obj.orig2newMap m orig = none

theorem clearMaps_noMaps (w : Nati) : ((w.clearMaps .sram).clearMaps .ddr).NoMaps := by
  intro m orig
  cases m <;> rfl

theorem smDelTbl_obj (t : ℕ) (w : Nati) :
    (smDelTbl t w).world.obj = w.obj ∨ (smDelTbl t w).world.obj = w.back2UnstartedState.obj := by
  have hobj : (natiDelIpv4Table w t).2.obj = w.obj := by
    unfold natiDelIpv4Table
    dsimp only
    split <;> rfl
  unfold smDelTbl
  dsimp only
  split
  · exact Or.inr (by simp only [Nati.back2UnstartedState, hobj])
  · exact Or.inl hobj

theorem smDelTbl_noMaps (ho : w.NoMaps) : (smDelTbl t w).world.NoMaps := by
  rcases smDelTbl_obj t w with h | h
  · intro m orig
    rw [h]
    exact ho m orig
  · intro m orig
    rw [h]
    exact ho m orig

theorem smDelTbl_inv (h : NatiInv w) (ho : w.NoMaps) (t : ℕ) : NatiInv (smDelTbl t w).world := by
  have hdel := h.delTable t (ho _)
  have hobj : (natiDelIpv4Table w t).2.obj = w.obj := by
    unfold natiDelIpv4Table
    dsimp only
    split <;> rfl
  unfold smDelTbl
  dsimp only
  split
  · exact hdel.back2Unstarted_of_empty (by rw [hobj]; exact ho)
  · exact hdel

theorem smDelSramAndDdrTbl_inv (h : NatiInv w) (t : ℕ) : NatiInv (smDelSramAndDdrTbl t w).world := by
  have hclr := (h.clearMaps .sram).clearMaps .ddr
  have hno := clearMaps_noMaps w
  have hfirst := smDelTbl_inv hclr hno t
  have hnofirst := smDelTbl_noMaps (t := t) hno
  unfold smDelSramAndDdrTbl
  dsimp only
  generalize smDelTbl t ((w.clearMaps .sram).clearMaps .ddr) = first at hfirst hnofirst ⊢
  have hsecond := smDelTbl_inv hfirst hnofirst first.world.obj.ddrTblHdl
  have hnosecond := smDelTbl_noMaps (t := first.world.obj.ddrTblHdl) hnofirst
  by_cases hret : first.ret = 0
  · simp only [hret, if_true]
    split
    · exact hsecond.back2Unstarted_of_empty hnosecond
    · exact hsecond
  · simp only [hret, if_false]
    exact hfirst

theorem smAddDdrTbl_inv (h : NatiInv w) (ho : w.NoMaps) (ip : UInt32) (n : ℕ) :
    NatiInv (smAddDdrTbl ip n w).world ∧ (smAddDdrTbl ip n w).world.NoMaps := by
  have hadd := h.addTable .ddr ip n (ho .ddr)
  have hno : (natiAddIpv4Tbl w .ddr ip n).2.2.NoMaps := by
    intro m orig
    rw [natiAddIpv4Tbl_obj]
    exact ho m orig
  refine ⟨⟨hadd.table, hadd.maps, hadd.empty, ?_, hadd.sramHdl⟩, hno⟩
  show tblHdlNmi (natiAddIpv4Tbl w .ddr ip n).2.1 = .ddr
  rcases natiAddIpv4Tbl_hdl w .ddr ip n with hz | hz
  · rw [hz]
    rfl
  · rw [hz]
    exact tblHdlNmi_makeTblHdl .ddr

theorem smAddSramTbl_inv (h : NatiInv w) (ho : w.NoMaps) (ip : UInt32) :
    NatiInv (smAddSramTbl ip w).world ∧ (smAddSramTbl ip w).world.NoMaps := by
  have hsize : NatiInv (ipaNatiGetSramSize w).2.2 ∧ (ipaNatiGetSramSize w).2.2.NoMaps := by
    unfold ipaNatiGetSramSize
    dsimp only
    split
    · exact ⟨h.sys, ho⟩
    · split <;> exact ⟨h.sys, ho⟩
  unfold smAddSramTbl
  dsimp only
  generalize ipaNatiGetSramSize w = r at hsize
  obtain ⟨ret, size, w1⟩ := r
  obtain ⟨h1, ho1⟩ := hsize
  dsimp only at h1 ho1 ⊢
  split
  · exact ⟨h1, ho1⟩
  split
  · exact ⟨h1.congr rfl rfl rfl id rfl rfl, ho1⟩
  split
  · exact ⟨h1.congr rfl rfl rfl id rfl rfl, ho1⟩
  · generalize hw2 : Nati.sys _ = r2
    have h2 : NatiInv r2.2.2 := by
      rw [← hw2]
      exact h1.congr rfl rfl rfl id rfl rfl
    have ho2 : r2.2.2.NoMaps := by
      rw [← hw2]
      exact ho1
    have hadd := h2.addTable .sram ip (ipaCalcNumSramTableEntries size).2 (ho2 .sram)
    have hno : (natiAddIpv4Tbl r2.2.2 .sram ip (ipaCalcNumSramTableEntries size).2).2.2.NoMaps := by
      intro m orig
      rw [natiAddIpv4Tbl_obj]
      exact ho2 m orig
    refine ⟨⟨hadd.table, hadd.maps, hadd.empty, hadd.ddrHdl, ?_⟩, hno⟩
    show (natiAddIpv4Tbl r2.2.2 .sram ip (ipaCalcNumSramTableEntries size).2).2.1 = 0 ∨
      tblHdlNmi (natiAddIpv4Tbl r2.2.2 .sram ip (ipaCalcNumSramTableEntries size).2).2.1 = .sram
    rcases natiAddIpv4Tbl_hdl r2.2.2 .sram ip (ipaCalcNumSramTableEntries size).2 with hz | hz
    · exact Or.inl hz
    · rw [hz]
      exact Or.inr (tblHdlNmi_makeTblHdl .sram)

theorem smAddSramAndDdrTbl_inv (hsm : Keeps sm) (h : NatiInv w) (ip : UInt32) (n : ℕ) :
    NatiInv (smAddSramAndDdrTbl sm ip n w).world := by
  obtain ⟨hs, hos⟩ := smAddSramTbl_inv ((h.clearMaps .sram).clearMaps .ddr) (clearMaps_noMaps w) ip
  obtain ⟨hd, hod⟩ := smAddDdrTbl_inv hs hos ip n
  unfold smAddSramAndDdrTbl
  dsimp only
  split
  · split
    · exact hs.setState_of_empty _ hos
    · split
      · exact hd
      · exact hsm.inv _ _ hd trivial
  · split
    · exact hd.setState_of_empty _ hod
    · exact hd

theorem smClrTbl_inv (h : NatiInv w) (t : ℕ) : NatiInv (smClrTbl t w).world := by
  refine (h.clearMaps (tblHdlNmi t)).clearTbl t fun orig => ?_
  simp only [Nati.clearMaps, Nati.setMaps, update_self]

theorem NatiInv.setCntr (h : NatiInv w) (m : IpaNatMemIn) (n : ℕ) : NatiInv (w.setCntr m n) :=
  h.congr rfl rfl rfl id rfl rfl

theorem smAddRuleToTbl_inv (h : NatiInv w) (t : ℕ) (clnt : IpaNatIpv4Rule) :
    NatiInv (smAddRuleToTbl t clnt w).world := by
  have hadd := h.addRule t (freshRule clnt)
  unfold smAddRuleToTbl
  dsimp only
  split
  · exact hadd.setCntr _ _
  · exact hadd

theorem smDelRuleFromTbl_inv (h : NatiInv w) (t hdl : ℕ)
    (hfree : ∀ i, ipaTableGetEntry (w.natCache (tblHdlNmi t)).ip4Tbl.table hdl = .ok i →
      w.obj.new2origMap (tblHdlNmi t)
        (makeEntryHdl (w.natCache (tblHdlNmi t)).ip4Tbl.table i) = none) :
    NatiInv (smDelRuleFromTbl t hdl w).world := by
  have hdel := h.delRule t hdl hfree
  unfold smDelRuleFromTbl
  dsimp only
  split
  · exact hdel.setCntr _ _
  · exact hdel

theorem smDelRuleFromTbl_obj (t hdl : ℕ) (w : Nati) : ∃ cntr,
    (smDelRuleFromTbl t hdl w).world.obj = { w.obj with totRulesInTable := cntr } := by
  unfold smDelRuleFromTbl
  dsimp only
  split
  · exact ⟨_, by simp only [Nati.setCntr, natiDelIpv4Rule_obj]; rfl⟩
  · exact ⟨w.obj.totRulesInTable, by rw [natiDelIpv4Rule_obj]⟩

theorem inHybridState_congr {w' : Nati} (h : w'.obj.currState = w.obj.currState) :
    w'.inHybridState = w.inHybridState := by
  unfold Nati.inHybridState
  rw [h]

theorem chooseMemSub_congr {w' : Nati} (h : w'.obj.currState = w.obj.currState) :
    w'.chooseMemSub = w.chooseMemSub := by
  unfold Nati.chooseMemSub
  rw [h]

theorem tblHdl_congr {w' : Nati} (h : w'.obj = w.obj) (m : IpaNatMemIn) : w'.tblHdl m = w.tblHdl m := by
  cases m with
  | ddr => exact congrArg IpaNatiObj.ddrTblHdl h
  | sram => exact congrArg IpaNatiObj.sramTblHdl h

theorem mapRule_obj (w : Nati) (m : IpaNatMemIn) (orig new : ℕ) :
    (w.mapRule m orig new).2.obj.currState = w.obj.currState := by
  unfold Nati.mapRule
  dsimp only
  split <;> rfl

theorem smAddRuleToTbl_world (t : ℕ) (clnt : IpaNatIpv4Rule) (w : Nati) :
    (smAddRuleToTbl t clnt w).world.natCache =
      (natiAddIpv4Rule w t (freshRule clnt)).2.2.natCache ∧
    (smAddRuleToTbl t clnt w).world.obj.new2origMap =
      (natiAddIpv4Rule w t (freshRule clnt)).2.2.obj.new2origMap ∧
    (smAddRuleToTbl t clnt w).ret = (natiAddIpv4Rule w t (freshRule clnt)).1 ∧
    (smAddRuleToTbl t clnt w).out = (natiAddIpv4Rule w t (freshRule clnt)).2.1.map .hdl := by
  unfold smAddRuleToTbl
  dsimp only
  split <;> exact ⟨rfl, rfl, rfl, rfl⟩

theorem smAddRuleHybrid_inv (hsm : Keeps sm) (h : NatiInv w) (hw : w.inHybridState = true)
    (ht : w.obj.currState = .hybrid → tblHdlNmi t = .sram) (clnt : IpaNatIpv4Rule) :
    NatiInv (smAddRuleHybrid sm t clnt w).world := by
  have hr := smAddRuleToTbl_inv h (w.hybridTblHdl t) clnt
  obtain ⟨hcache, hn2o, hrret, hout⟩ := smAddRuleToTbl_world (w.hybridTblHdl t) clnt w
  have hstate := smAddRuleToTbl_currState (w.hybridTblHdl t) clnt w
  unfold smAddRuleHybrid
  dsimp only
  by_cases hret : (smAddRuleToTbl (w.hybridTblHdl t) clnt w).ret = 0
  · simp only [hret, if_true]
    obtain ⟨n, hhdl, hlive, hnone⟩ := h.added rfl (hrret.symm.trans hret)
    rw [h.hybridTblHdl_nmi ht] at hhdl hlive hnone
    have hsub := chooseMemSub_congr hstate
    have hhdl' : (smAddRuleToTbl (w.hybridTblHdl t) clnt w).hdl = makeEntryHdl
        ((smAddRuleToTbl (w.hybridTblHdl t) clnt w).world.natCache w.chooseMemSub).ip4Tbl.table
        n := by
      rw [hcache]
      unfold SmResult.hdl
      rw [hout, hhdl]
      rfl
    rw [hsub, hhdl']
    refine hr.mapRule (by rw [inHybridState_congr hstate]; exact hw) _ ?_ ?_
    · rw [hcache]
      exact hlive
    · rw [hcache, hn2o]
      exact hnone
  · simp only [hret, if_false]
    split
    · have hsw := hsm.inv .tblSwitch _ hr trivial
      split
      · exact hsw
      · refine hsm.inv _ _ (hsw.setState (Or.inr (Or.inl rfl))) fun hc => ?_
        exact absurd hc (by simp [Nati.setState])
    · exact hr

variable {m : IpaNatMemIn}

theorem NatiInv.getEntry_new (h : NatiInv w) {new orig i : ℕ}
    (hnew : w.obj.new2origMap m new = some orig)
    (hget : ipaTableGetEntry (w.natCache m).ip4Tbl.table new = .ok i) :
    makeEntryHdl (w.natCache m).ip4Tbl.table i = new := by
  obtain ⟨j, hj, rfl⟩ := (h.maps m).live new orig hnew
  cases h.table m with
  | absent habs =>
    rw [habs, zeroTableCache_live] at hj
    cases hj
  | present chain _ _ =>
    rw [chain.getEntry_handle (ChainInv.used_of_live hj)] at hget
    cases hget
    rfl

/-- What `_smDelRuleHybrid` does before it looks whether to switch. -/
def delMapped (tblHdl orig new : ℕ) (w : Nati) : SmResult :=
  let w' := w.setMaps w.chooseMemSub
    (Function.update (w.obj.orig2newMap w.chooseMemSub) orig none)
    (Function.update (w.obj.new2origMap w.chooseMemSub) new none)
  smDelRuleFromTbl (w'.hybridTblHdl tblHdl) new w'

theorem delMapped_obj (t orig new : ℕ) (w : Nati) : ∃ cntr o2n n2o,
    (delMapped t orig new w).world.obj =
      { w.obj with totRulesInTable := cntr, orig2newMap := o2n, new2origMap := n2o } := by
  obtain ⟨cntr, hobj⟩ := smDelRuleFromTbl_obj _ new _
  exact ⟨cntr, _, _, hobj⟩

theorem smDelRuleHybrid_of_some (h : NatiInv w) {orig new : ℕ}
    (ho : w.obj.orig2newMap w.chooseMemSub orig = some new) (t : ℕ) :
    smDelRuleHybrid sm t orig w =
      let r := delMapped t orig new w
      if r.ret = 0 ∧ r.world.obj.currState = .hybridDdr then
        if r.world.obj.totRulesInTable r.world.chooseMemSub ≤ r.world.obj.backToSramThresh ∧
            ¬ r.world.obj.holdState then
          let switch := sm .tblSwitch r.world
          if switch.ret = 0 then ⟨0, none, switch.world.setState .hybrid⟩
          else ⟨0, none, switch.world⟩
        else r
      else r := by
  have hn := ((h.maps _).inverse orig new).mp ho
  unfold smDelRuleHybrid ipaNatMapDel
  dsimp only
  simp only [ho, hn, ne_eq, not_true_eq_false, if_false]
  rfl

theorem delMapped_inv (h : NatiInv w) (hw : w.inHybridState = true) {orig new : ℕ}
    (ht : w.obj.currState = .hybrid → tblHdlNmi t = .sram)
    (ho : w.obj.orig2newMap w.chooseMemSub orig = some new) :
    NatiInv (delMapped t orig new w).world := by
  have hn := ((h.maps _).inverse orig new).mp ho
  unfold delMapped
  dsimp only
  generalize hw1 : w.setMaps w.chooseMemSub _ _ = w1
  have h1 : NatiInv w1 := by
    rw [← hw1]
    exact h.setMaps hw ((h.maps _).erase ho)
  refine smDelRuleFromTbl_inv h1 _ _ fun i hget => ?_
  have hnmi : tblHdlNmi (w1.hybridTblHdl t) = w.chooseMemSub := by
    rw [← hw1]
    exact h.hybridTblHdl_nmi ht
  have hcache : w1.natCache = w.natCache := by rw [← hw1]; rfl
  rw [hnmi, hcache] at hget ⊢
  rw [h.getEntry_new hn hget, ← hw1]
  simp only [Nati.setMaps, update_self]

theorem smDelRuleHybrid_inv (hsm : Keeps sm) (h : NatiInv w) (hw : w.inHybridState = true)
    (ht : w.obj.currState = .hybrid → tblHdlNmi t = .sram) (orig : ℕ) :
    NatiInv (smDelRuleHybrid sm t orig w).world := by
  cases ho : w.obj.orig2newMap w.chooseMemSub orig with
  | none =>
    unfold smDelRuleHybrid ipaNatMapDel
    dsimp only
    simp only [ho]
    exact h
  | some new =>
    have hr := delMapped_inv h hw ht ho
    rw [smDelRuleHybrid_of_some h ho]
    dsimp only
    split
    · split
      · have hsw := hsm.inv .tblSwitch _ hr trivial
        split
        · exact hsw.setState (Or.inl rfl)
        · exact hsw
      · exact hr
    · exact hr

theorem smGoTo_inv (h : NatiInv w) (m : IpaNatMemIn)
    (hs : s = .hybrid ∨ s = .hybridDdr) : NatiInv (smGoTo m s w).world := by
  have hp := h.postInit (w.tblHdl m)
  unfold smGoTo
  dsimp only
  split
  · exact hp.setState (hs.imp_right Or.inl)
  · exact hp

theorem smGoTo_hybrid (hw : w.inHybridState = true) (m : IpaNatMemIn)
    (hs : s = .hybrid ∨ s = .hybridDdr) : (smGoTo m s w).world.inHybridState = true := by
  unfold smGoTo
  dsimp only
  split
  · rcases hs with rfl | rfl <;> rfl
  · exact (inHybridState_congr (by rw [natiPostIpv4InitCmd_obj])).trans hw

/-- **`migrate_rule` keeps the invariant**, from a table to the one of the other memory. -/
theorem migrateRule_inv (h : NatiInv w) (hw : w.inHybridState = true) {dstTblHdl : ℕ}
    {table : IpaTable IpaNatRule} (hdst : tblHdlNmi dstTblHdl = table.nmi.other) (hdl : ℕ)
    (r : IpaNatRule) (i : ℕ) :
    NatiInv (migrateRule dstTblHdl table hdl r i w).2 ∧
      (migrateRule dstTblHdl table hdl r i w).2.obj.currState = w.obj.currState := by
  unfold migrateRule
  dsimp only
  split
  · exact ⟨h, rfl⟩
  split
  · exact ⟨h, rfl⟩
  have hadd := h.addRule dstTblHdl (v4Rule r)
  have hobj := natiAddIpv4Rule_obj w dstTblHdl (v4Rule r)
  split
  · exact ⟨hadd, by rw [hobj]⟩
  · next hret =>
    obtain ⟨n, hhdl, hlive, hnone⟩ := h.added rfl (not_not.mp hret)
    rw [hdst] at hhdl hlive hnone
    rw [hhdl]
    refine ⟨(hadd.setCntr _ _).mapRule ?_ _ hlive hnone, ?_⟩
    · exact (inHybridState_congr (congrArg IpaNatiObj.currState hobj)).trans hw
    · rw [mapRule_obj]
      exact (congrArg IpaNatiObj.currState hobj :)

theorem NatiInv.tblHdl_nmi (h : NatiInv w) {c : IpaNatIp4TableCache}
    (hl : w.lookup (w.tblHdl m) = some c) : tblHdlNmi (w.tblHdl m) = m := by
  cases m with
  | ddr => exact h.ddrHdl
  | sram =>
    rcases h.sramHdl with hz | hz
    · rw [show w.tblHdl .sram = 0 from hz, lookup_zero] at hl
      cases hl
    · exact hz

theorem NatiInv.lookup_nmi (h : NatiInv w) {c : IpaNatIp4TableCache}
    (hl : w.lookup (w.tblHdl m) = some c)
    (hpos : 0 < c.table.tableEntries + c.table.expnTableEntries) : c.table.nmi = m := by
  have hc := NatiInv.lookup_table hl
  rw [h.tblHdl_nmi hl] at hc
  subst hc
  cases h.table m with
  | absent habs =>
    rw [habs] at hpos
    exact absurd hpos (Nat.lt_irrefl 0)
  | present _ hn _ => exact hn

theorem walk_inv (h : NatiInv w) (hw : w.inHybridState = true) (src : IpaNatMemIn)
    {dstTblHdl : ℕ} (hdst : tblHdlNmi dstTblHdl = src.other) :
    NatiInv (natiWalkIpv4Tbl w (w.tblHdl src) (migrateRule dstTblHdl) w).2 ∧
      (natiWalkIpv4Tbl w (w.tblHdl src) (migrateRule dstTblHdl) w).2.obj.currState =
        w.obj.currState := by
  unfold natiWalkIpv4Tbl
  cases hsrc : w.lookup (w.tblHdl src) with
  | none => exact ⟨h, rfl⟩
  | some c =>
    unfold ipaTableWalk
    dsimp only
    split
    · exact ⟨h, rfl⟩
    next hpos =>
    have hnmi := h.lookup_nmi hsrc (by omega)
    refine ipaTableWalkLoop_keeps _ _ _
      (I := fun w' => NatiInv w' ∧ w'.obj.currState = w.obj.currState) (fun i s hs => ?_) _ _
      ⟨h, rfl⟩
    unfold walkStep
    split
    · obtain ⟨hi, hst⟩ := migrateRule_inv hs.1 ((inHybridState_congr hs.2).trans hw)
        (hdst.trans (by rw [hnmi])) (makeEntryHdl c.table i) (c.table.slot i) i
      exact ⟨hi, hst.trans hs.2⟩
    · exact hs

theorem natiClearIpv4Tbl_of_ne (h : (natiClearIpv4Tbl w t).1 ≠ 0) : (natiClearIpv4Tbl w t).2 = w := by
  unfold natiClearIpv4Tbl at h ⊢
  split
  · rfl
  · next hl =>
    rw [hl] at h
    exact absurd rfl h

theorem copy_inv (h : NatiInv w) (hw : w.inHybridState = true) (src : IpaNatMemIn)
    (ho : ∀ orig, w.obj.orig2newMap src.other orig = none) :
    NatiInv (ipaNatiCopyIpv4Tbl (w.tblHdl src) (w.tblHdl src.other) migrateRule w).2 ∧
      (ipaNatiCopyIpv4Tbl (w.tblHdl src) (w.tblHdl src.other) migrateRule w).2.obj.currState =
        w.obj.currState := by
  unfold ipaNatiCopyIpv4Tbl
  dsimp only
  split
  · next hret =>
    rw [natiClearIpv4Tbl_of_ne hret]
    exact ⟨h, rfl⟩
  · next hret =>
    obtain ⟨c, hl⟩ := Option.isSome_iff_exists.mp
      ((natiClearIpv4Tbl_ret_eq_zero_iff w _).mp (not_not.mp hret))
    have hdst := h.tblHdl_nmi hl
    have hclr := h.clearTbl (w.tblHdl src.other) (by rw [hdst]; exact ho)
    have hobj := natiClearIpv4Tbl_obj w (w.tblHdl src.other)
    have hsrc := tblHdl_congr hobj src
    have hst := congrArg IpaNatiObj.currState hobj
    obtain ⟨hi, hs⟩ := walk_inv hclr ((inHybridState_congr hst).trans hw) src hdst
    rw [hsrc] at hi hs
    exact ⟨hi, hs.trans hst⟩

theorem smSwitchFrom_inv (hsm : Keeps sm) (h : NatiInv w) (hw : w.inHybridState = true)
    (src : IpaNatMemIn) {goto : IpaNatiTrigger} (hgoto : goto = .gotoDdr ∨ goto = .gotoSram) :
    NatiInv (smSwitchFrom sm src goto w).world ∧
      (smSwitchFrom sm src goto w).world.inHybridState = true := by
  have hf : NatiInv (sm goto w).world := by
    rcases hgoto with rfl | rfl <;> exact hsm.inv _ _ h trivial
  have hfw : (sm goto w).world.inHybridState = true := by
    rcases hgoto with rfl | rfl <;> exact hsm.hybrid _ _ rfl h hw
  unfold smSwitchFrom
  dsimp only
  split
  · exact ⟨hf, hfw⟩
  · obtain ⟨hc, hst⟩ := copy_inv (hf.clearMaps src.other) hfw src (fun orig => by
      simp only [Nati.clearMaps, Nati.setMaps, update_self])
    exact ⟨hc.congr rfl rfl rfl id rfl rfl, (inHybridState_congr hst).trans hfw⟩

theorem NatiInv.noMaps (h : NatiInv w) (h1 : w.obj.currState ≠ .hybrid)
    (h2 : w.obj.currState ≠ .hybridDdr) : w.NoMaps :=
  h.empty (by simp [Nati.inHybridState, h1, h2])

theorem inHybridState_of_eq (hs : w.obj.currState = s)
    (h : s = .hybrid ∨ s = .hybridDdr) : w.inHybridState = true := by
  rcases h with rfl | rfl <;> simp [Nati.inHybridState, hs]

theorem smDelRuleFromTbl_inv_of_noMaps (h : NatiInv w) (ho : w.NoMaps) (t hdl : ℕ) :
    NatiInv (smDelRuleFromTbl t hdl w).world :=
  smDelRuleFromTbl_inv h t hdl fun _ _ => h.n2o_none (ho _) _

theorem stateMachTbl_inv (hsm : Keeps sm) (h : NatiInv w)
    (hs : w.obj.currState = s) (ht : NamesSram w trigger) :
    NatiInv (stateMachTbl sm s trigger w).world := by
  cases s with
  | null =>
    cases trigger with
    | addTable ip n mem =>
      have hno : w.inHybridState = false := by simp [Nati.inHybridState, hs]
      exact hsm.inv _ _ (h.setState (Or.inr (Or.inr hno))) trivial
    | _ => exact h
  | last => cases trigger <;> exact h
  | ddrOnly | sramOnly =>
    have hno : w.NoMaps := h.noMaps (by simp [hs]) (by simp [hs])
    cases trigger with
    | addTable ip n mem =>
      first
        | exact (smAddDdrTbl_inv h hno ip n).1
        | exact (smAddSramTbl_inv h hno ip).1
    | delTable t => exact smDelTbl_inv h hno t
    | clrTable t => exact smClrTbl_inv h t
    | addRule t clnt => exact smAddRuleToTbl_inv h t clnt
    | delRule t hdl => exact smDelRuleFromTbl_inv_of_noMaps h hno t hdl
    | _ => exact h
  | hybrid | hybridDdr =>
    have hw : w.inHybridState = true := inHybridState_of_eq hs (by simp)
    cases trigger with
    | addTable ip n mem =>
      first
        | exact smAddSramAndDdrTbl_inv hsm h ip n
        | exact h
    | delTable t => exact smDelSramAndDdrTbl_inv h t
    | clrTable t => exact smClrTbl_inv h _
    | addRule t clnt => exact smAddRuleHybrid_inv hsm h hw ht clnt
    | delRule t hdl => exact smDelRuleHybrid_inv hsm h hw ht hdl
    | tblSwitch =>
      first
        | exact (smSwitchFrom_inv hsm h hw .sram (Or.inl rfl)).1
        | exact (smSwitchFrom_inv hsm h hw .ddr (Or.inr rfl)).1
    | gotoDdr => exact smGoTo_inv h .ddr (Or.inr rfl)
    | gotoSram => exact smGoTo_inv h .sram (Or.inl rfl)
    | getTstamp t hdl =>
      show NatiInv (smGetTmStmpHybrid t hdl w).world
      unfold smGetTmStmpHybrid
      dsimp only
      split <;> exact h
    | _ => exact h

theorem stateMachTbl_hybrid (hsm : Keeps sm) (h : NatiInv w) (hw : w.inHybridState = true)
    (ht : trigger.movesFocus = true) :
    (stateMachTbl sm w.obj.currState trigger w).world.inHybridState = true := by
  have hs : w.obj.currState = .hybrid ∨ w.obj.currState = .hybridDdr := by
    simpa [Nati.inHybridState] using hw
  cases trigger with
  | tblSwitch =>
    rcases hs with hs | hs <;> rw [hs]
    · exact (smSwitchFrom_inv hsm h hw .sram (Or.inl rfl)).2
    · exact (smSwitchFrom_inv hsm h hw .ddr (Or.inr rfl)).2
  | gotoDdr =>
    rcases hs with hs | hs <;> rw [hs] <;> exact smGoTo_hybrid hw .ddr (Or.inr rfl)
  | gotoSram =>
    rcases hs with hs | hs <;> rw [hs] <;> exact smGoTo_hybrid hw .sram (Or.inl rfl)
  | _ => cases ht

end Callbacks

section Dispatcher

variable {sm : IpaNatiTrigger → Nati → SmResult} {w : Nati}

theorem smLocked_inv (hsm : Keeps sm) (h : NatiInv w)
    (ht : NamesSram w trigger) : NatiInv (smLocked sm trigger w).world := by
  unfold smLocked
  dsimp only
  split
  · split
    · exact h.sys
    · exact (stateMachTbl_inv hsm h.sys rfl ht).sys
  · exact stateMachTbl_inv hsm h rfl ht

theorem smLocked_hybrid (hsm : Keeps sm) (h : NatiInv w) (hw : w.inHybridState = true)
    (ht : trigger.movesFocus = true) :
    (smLocked sm trigger w).world.inHybridState = true := by
  unfold smLocked
  dsimp only
  split
  · split
    · exact hw
    · exact stateMachTbl_hybrid hsm h.sys hw ht
  · exact stateMachTbl_hybrid hsm h hw ht

/-- **One level of the dispatcher** keeps what its callbacks rely on. -/
theorem statemachBody_keeps (hsm : Keeps sm) : Keeps (statemachBody sm) := by
  constructor
  · intro trigger w h ht
    unfold statemachBody
    dsimp only
    split
    · exact h.sys
    · exact (smLocked_inv hsm h.sys ht).sys
  · intro trigger w ht h hw
    unfold statemachBody
    dsimp only
    split
    · exact hw
    · exact smLocked_hybrid hsm h.sys hw ht

theorem statemachLevels_keeps (n : ℕ) : Keeps (statemachLevels n) := by
  induction n with
  | zero => exact ⟨fun _ _ h _ => h, fun _ _ _ _ hw => hw⟩
  | succ n ih => exact statemachBody_keeps ih

theorem ipaNatiStatemach_keeps : Keeps ipaNatiStatemach := statemachLevels_keeps 3

end Dispatcher

inductive NatiCall where
  | statemach (trigger : IpaNatiTrigger)
  | switchTo (nmi : IpaNatMemIn) (holdState : Bool)

def Nati.next (w : Nati) : NatiCall → Nati
  | .statemach trigger => (ipaNatiStatemach trigger w).world
  | .switchTo nmi holdState => (ipaNatSwitchTo nmi holdState w).2

/-- The application passes the handle of the SRAM table while SRAM is active. -/
def NatiCall.NamesSram (w : Nati) : NatiCall → Prop
  | .statemach trigger => IpaNat.NamesSram w trigger
  | .switchTo _ _ => True

/-- The runs of the library, from its static data on, with any answers of the kernel. -/
def nati : Machine Nati NatiCall where
  init w := ∃ ver kernel, w = natiInit ver kernel
  guard w call := call.NamesSram w
  next := Nati.next

theorem nati_next {a : NatiCall} (h : nati.Reachable w) (ha : a.NamesSram w) :
    nati.Reachable (w.next a) :=
  .next h ha

theorem natiInit_inv (ver : ℕ) (kernel : Kernel) : NatiInv (natiInit ver kernel) :=
  ⟨fun _ => .absent rfl, fun _ => MapInv.of_empty (fun _ => rfl) fun _ => rfl,
    fun _ _ _ => rfl, (by decide : tblHdlNmi 0 = .ddr), Or.inl rfl⟩

theorem NatiInv.hold (h : NatiInv w) (hold : Bool) (s : IpaNatiState) : NatiInv (w.hold hold s) :=
  h.congr rfl rfl rfl id rfl rfl

theorem switchToLocked_inv (h : NatiInv w) (nmi : IpaNatMemIn) (holdState : Bool) :
    NatiInv (switchToLocked nmi holdState w) := by
  unfold switchToLocked
  split
  · exact h.hold _ _
  split
  · dsimp only
    split
    · have hr := ipaNatiStatemach_keeps.inv .tblSwitch w h trivial
      split
      · exact hr.hold _ _
      · exact hr
    · exact h.hold _ _
  split
  · split
    · exact h.hold _ _
    · exact h
  · exact h.hold _ _

theorem natiInv_next (h : NatiInv w) {call : NatiCall} (hc : call.NamesSram w) :
    NatiInv (w.next call) := by
  cases call with
  | statemach trigger => exact ipaNatiStatemach_keeps.inv _ _ h hc
  | switchTo nmi holdState =>
    show NatiInv (ipaNatSwitchTo nmi holdState w).2
    unfold ipaNatSwitchTo
    dsimp only
    split
    · exact h.sys
    · exact (switchToLocked_inv h.sys nmi holdState).sys

theorem natiInv_reachable (h : nati.Reachable w) : NatiInv w :=
  h.invariant (I := NatiInv)
    (fun w hw => by obtain ⟨ver, kernel, rfl⟩ := hw; exact natiInit_inv ver kernel)
    fun w call hw hc => natiInv_next hw hc

end Sm8750Modules.IpaNat
