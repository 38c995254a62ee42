import Sm8750Modules.IpaNat.StateMach

/-!
# What the driver accepts

For each function of the driver that the state machine calls, the inputs on which it returns
`0`.
-/

namespace Sm8750Modules.IpaNat

section Walks

variable {ρ υ σ : Type} (ifc : IpaTableEntryInterface ρ υ) (t : IpaTable ρ)
  (walkCb : ℕ → ρ → ℕ → σ → ℤ × σ)

def walkStep (i : ℕ) (s : σ) : ℤ × σ :=
  if ifc.entryIsValid (t.slot i) then walkCb (makeEntryHdl t i) (t.slot i) i s else (0, s)

theorem ipaTableWalkLoop_eq (n i : ℕ) (s : σ) :
    ipaTableWalkLoop ifc t .whenSlotFilled walkCb (n + 1) i s =
      if (walkStep ifc t walkCb i s).1 ≠ 0 then walkStep ifc t walkCb i s
      else ipaTableWalkLoop ifc t .whenSlotFilled walkCb n (i + 1) (walkStep ifc t walkCb i s).2 := by
  rw [ipaTableWalkLoop]
  unfold walkStep
  cases ifc.entryIsValid (t.slot i) <;> simp

theorem ipaTableWalkLoop_succ (n i : ℕ) (s : σ) :
    ipaTableWalkLoop ifc t .whenSlotFilled walkCb (n + 1) i s =
      if (ipaTableWalkLoop ifc t .whenSlotFilled walkCb n i s).1 ≠ 0 then
        ipaTableWalkLoop ifc t .whenSlotFilled walkCb n i s
      else
        walkStep ifc t walkCb (i + n) (ipaTableWalkLoop ifc t .whenSlotFilled walkCb n i s).2 := by
  induction n generalizing i s with
  | zero =>
    rw [ipaTableWalkLoop_eq]
    by_cases h : (walkStep ifc t walkCb i s).1 = 0
    · simp [h, ipaTableWalkLoop, Prod.ext_iff]
    · simp [h, ipaTableWalkLoop]
  | succ n ih =>
    rw [ipaTableWalkLoop_eq, ih, ipaTableWalkLoop_eq ifc t walkCb n i s]
    by_cases h : (walkStep ifc t walkCb i s).1 = 0
    · simp [h, Nat.add_assoc, Nat.add_comm 1 n]
    · simp [h]

theorem ipaTableWalkLoop_ret_eq_zero_iff (n i : ℕ) (s : σ) :
    (ipaTableWalkLoop ifc t .whenSlotFilled walkCb n i s).1 = 0 ↔
      ∀ k < n, (walkStep ifc t walkCb (i + k)
        (ipaTableWalkLoop ifc t .whenSlotFilled walkCb k i s).2).1 = 0 := by
  induction n with
  | zero => simp [ipaTableWalkLoop]
  | succ n ih =>
    rw [ipaTableWalkLoop_succ, Nat.forall_lt_succ_right]
    by_cases h : (ipaTableWalkLoop ifc t .whenSlotFilled walkCb n i s).1 = 0
    · simp only [h, ne_eq, not_true_eq_false, if_false]
      exact ⟨fun hlast => ⟨ih.mp h, hlast⟩, And.right⟩
    · have hne : ¬ ∀ k < n, (walkStep ifc t walkCb (i + k)
          (ipaTableWalkLoop ifc t .whenSlotFilled walkCb k i s).2).1 = 0 := fun hk => h (ih.mpr hk)
      simp [h, hne]

theorem ipaTableWalk_ret_eq_zero_iff (s : σ) :
    (ipaTableWalk ifc t 0 .whenSlotFilled walkCb s).1 = 0 ↔
      0 < t.tableEntries + t.expnTableEntries ∧
        ∀ k < t.tableEntries + t.expnTableEntries, (walkStep ifc t walkCb k
          (ipaTableWalkLoop ifc t .whenSlotFilled walkCb k 0 s).2).1 = 0 := by
  unfold ipaTableWalk
  by_cases h : 0 < t.tableEntries + t.expnTableEntries
  · simp only [ge_iff_le, Nat.not_le.mpr h, if_false, Nat.sub_zero, h, true_and,
      ipaTableWalkLoop_ret_eq_zero_iff, Nat.zero_add]
  · have hzero : t.tableEntries + t.expnTableEntries = 0 := by omega
    simp [hzero, einval]

theorem ipaTableWalkLoop_keeps {I : σ → Prop}
    (hstep : ∀ i s, I s → I (walkStep ifc t walkCb i s).2) (n i : ℕ) {s : σ} (hs : I s) :
    I (ipaTableWalkLoop ifc t .whenSlotFilled walkCb n i s).2 := by
  induction n with
  | zero => exact hs
  | succ n ih =>
    rw [ipaTableWalkLoop_succ]
    split
    · exact ih
    · exact hstep _ _ ih

theorem ipaTableWalkLoop_invariant {I : ℕ → σ → Prop} {n i : ℕ} {s : σ} (h0 : I 0 s)
    (hstep : ∀ k < n, ∀ s, I k s → (walkStep ifc t walkCb (i + k) s).1 = 0 →
      I (k + 1) (walkStep ifc t walkCb (i + k) s).2)
    (hret : (ipaTableWalkLoop ifc t .whenSlotFilled walkCb n i s).1 = 0) :
    I n (ipaTableWalkLoop ifc t .whenSlotFilled walkCb n i s).2 := by
  induction n with
  | zero => exact h0
  | succ n ih =>
    rw [ipaTableWalkLoop_succ] at hret ⊢
    by_cases hn : (ipaTableWalkLoop ifc t .whenSlotFilled walkCb n i s).1 = 0
    · simp only [hn, ne_eq, not_true_eq_false, if_false] at hret ⊢
      exact hstep n (Nat.lt_succ_self n) _ (ih (fun k hk => hstep k (by omega)) hn) hret
    · simp only [hn, ne_eq, not_false_eq_true, if_true] at hret

end Walks

section Add

variable {ρ υ : Type} (ifc : IpaTableEntryInterface ρ υ) (t : IpaTable ρ)

theorem iteratorEndLoop_error {fuel i : ℕ} {e : ℤ} (h : iteratorEndLoop ifc t fuel i = .error e) :
    e = -1 := by
  induction fuel generalizing i with
  | zero => exact (Except.error.inj h).symm
  | succ fuel ih =>
    unfold iteratorEndLoop at h
    dsimp only at h
    split at h
    · cases h
    · split at h
      · exact (Except.error.inj h).symm
      · exact ih h

theorem ipaTableAddEntry_error {u : υ} {i : ℕ} {cmd : List NatDmaOne} {e : ℤ}
    (h : ipaTableAddEntry ifc t u i cmd = .error e) : e = -1 := by
  unfold ipaTableAddEntry insertTail at h
  split at h
  · cases h
  · cases hend : ipaTableIteratorEnd ifc t i with
    | error e' =>
      rw [hend] at h
      obtain rfl : e' = e := Except.error.inj h
      exact iteratorEndLoop_error ifc t hend
    | ok prev =>
      cases hfree : findExpnTblFreeEntry ifc t with
      | error e' =>
        rw [hend, hfree] at h
        obtain rfl : e' = e := Except.error.inj h
        unfold findExpnTblFreeEntry at hfree
        dsimp only at hfree
        split at hfree
        · cases hfree
        · exact (Except.error.inj hfree).symm
      | ok curr =>
        rw [hend, hfree] at h
        cases h

end Add

def GetsSlots (g : NatDrvi) (c : IpaNatIp4TableCache) (clnt : IpaNatIpv4Rule) : Prop :=
  ∃ table newEntry cmd indexTable newIndexTblEntry cmd',
    ipaTableAddEntry (entryInterface g.pdns) c.table clnt (newEntryIndex g c clnt) [] =
      .ok (table, newEntry, cmd) ∧
    ipaTableAddEntry indexEntryInterface c.indexTable newEntry
      (newIndexTblEntryIndex (g.bumpToken clnt.srcOnly) c clnt) cmd =
      .ok (indexTable, newIndexTblEntry, cmd') ∧
    newEntry ≠ 0 ∧ newEntry < table.totTblEnts

structure AddAccepted (g : NatDrvi) (c : IpaNatIp4TableCache) (clnt : IpaNatIpv4Rule) : Prop where
  protocol : clnt.protocol ≠ ipahalNatInvalidProtocol
  pdn_lt : clnt.pdnIndex < ipaMaxPdnNum
  pdn : g.pdns clnt.pdnIndex ≠ 0
  memDescValid : c.memDescValid
  placed : GetsSlots g c clnt

theorem commitRule_ret_eq_zero_iff (g : NatDrvi) (c : IpaNatIp4TableCache) (clnt : IpaNatIpv4Rule)
    (table : IpaTable IpaNatRule) (i : ℕ) (indexTable : IpaTable IpaNatIndxTblRule) (j : ℕ)
    (cmd : List NatDmaOne) (post : Bool) :
    (commitRule g c clnt table i indexTable j cmd post).ret = 0 ↔
      (i ≠ 0 ∧ i < table.totTblEnts) ∧ post = true := by
  unfold commitRule ipaTableGetEntryByIndex
  by_cases hi : i = 0 ∨ i ≥ table.totTblEnts
  · have hno : ¬ (i ≠ 0 ∧ i < table.totTblEnts) := by omega
    simp [hi, hno, eperm]
  · have hyes : i ≠ 0 ∧ i < table.totTblEnts := by omega
    rw [if_neg hi]
    cases post <;> simp [ipaNatiPostIpv4DmaCmd, eio, hyes]

theorem ipaNATIAddIpv4Rule_ret_eq_zero {g : NatDrvi} {c : IpaNatIp4TableCache}
    {clnt : IpaNatIpv4Rule} {post : Bool} (h : (ipaNATIAddIpv4Rule g c clnt post).ret = 0) :
    AddAccepted g c clnt ∧ post = true := by
  unfold ipaNATIAddIpv4Rule at h
  split at h
  · cases h
  next hproto =>
  split at h
  · cases h
  next hpdn =>
  rw [not_or, ge_iff_le, Nat.not_le] at hpdn
  split at h
  · cases h
  next hmem =>
  rw [not_not] at hmem
  dsimp only at h
  split at h
  · next e hadd =>
    have he := ipaTableAddEntry_error _ _ hadd
    subst he
    cases h
  next table i cmd hadd =>
  split at h
  · next e hidx =>
    have he := ipaTableAddEntry_error _ _ hidx
    subst he
    cases h
  next indexTable j cmd' hidx =>
  rw [commitRule_ret_eq_zero_iff] at h
  exact ⟨⟨hproto, hpdn.1, hpdn.2, hmem, table, i, cmd, indexTable, j, cmd', hadd, hidx, h.1⟩, h.2⟩

theorem ipaNATIAddIpv4Rule_ret_eq_zero_iff (g : NatDrvi) (c : IpaNatIp4TableCache)
    (clnt : IpaNatIpv4Rule) (post : Bool) :
    (ipaNATIAddIpv4Rule g c clnt post).ret = 0 ↔ AddAccepted g c clnt ∧ post = true := by
  refine ⟨ipaNATIAddIpv4Rule_ret_eq_zero, fun ⟨h, hpost⟩ => ?_⟩
  obtain ⟨table, i, cmd, indexTable, j, cmd', hadd, hidx, hi⟩ := h.placed
  have hpdn : ¬ (clnt.pdnIndex ≥ ipaMaxPdnNum ∨ g.pdns clnt.pdnIndex = 0) :=
    not_or.mpr ⟨Nat.not_le.mpr h.pdn_lt, h.pdn⟩
  unfold ipaNATIAddIpv4Rule
  simp only [h.protocol, if_false, hpdn, h.memDescValid, not_true_eq_false, hadd, hidx]
  exact (commitRule_ret_eq_zero_iff ..).mpr ⟨hi, hpost⟩

section Delete

variable {ρ υ : Type} (ifc : IpaTableEntryInterface ρ υ) (t : IpaTable ρ)

theorem ipaTableIteratorInit_error {i : ℕ} {e : ℤ} (h : ipaTableIteratorInit ifc t i = .error e) :
    e ≠ 0 := by
  unfold ipaTableIteratorInit at h
  dsimp only at h
  split at h
  · cases h; decide
  · split at h
    · cases h; decide
    · split at h <;> cases h
      decide

theorem ipaTableIteratorNext_error {it : IpaTableIterator} {e : ℤ}
    (h : ipaTableIteratorNext ifc t it = .error e) : e ≠ 0 := by
  unfold ipaTableIteratorNext at h
  dsimp only at h
  split at h <;> cases h
  decide

end Delete

theorem indexDeleteCommand_error {c : IpaNatIp4TableCache} {it : IpaTableIterator} {e : ℤ}
    (h : (indexDeleteCommand c it).2.2 = .error e) : e ≠ 0 := by
  unfold indexDeleteCommand at h
  dsimp only at h
  split at h
  · exact ipaTableIteratorNext_error _ _ h
  · cases h

/-- The handles that can be deleted from a table. -/
def DelAccepted (c : IpaNatIp4TableCache) (ruleHdl : ℕ) : Prop :=
  ∃ index tableIt indexIndex indexIt indexIt',
    ipaTableGetEntry c.table ruleHdl = .ok index ∧
    ipaTableIteratorInit (entryInterface fun _ => 0) c.table index = .ok tableIt ∧
    ipaTableGetEntryByIndex c.indexTable (c.table.slot index).indxTblEntry = some indexIndex ∧
    ipaTableIteratorInit indexEntryInterface c.indexTable indexIndex = .ok indexIt ∧
    (indexDeleteCommand c indexIt).2.2 = .ok indexIt'

theorem ipaNATIDelIpv4Rule_ret_eq_zero {c : IpaNatIp4TableCache} {ruleHdl : ℕ} {post : Bool}
    (h : (ipaNATIDelIpv4Rule c ruleHdl post).1 = 0) :
    c.memDescValid = true ∧ DelAccepted c ruleHdl ∧ post = true := by
  unfold ipaNATIDelIpv4Rule at h
  dsimp only at h
  split at h
  · cases h
  next hmem =>
  split at h
  · next e hget =>
    unfold ipaTableGetEntry at hget
    dsimp only at hget
    split at hget <;> cases hget
    cases h
  next index hget =>
  split at h
  · next e hit => exact absurd h (ipaTableIteratorInit_error _ _ hit)
  next tableIt hit =>
  split at h
  · cases h
  next indexIndex hidx =>
  split at h
  · next e hiit => exact absurd h (ipaTableIteratorInit_error _ _ hiit)
  next indexIt hiit =>
  split at h
  · next c' cmd e hcmd => exact absurd h (indexDeleteCommand_error (e := e) (by rw [hcmd]))
  next c' cmd indexIt' hcmd =>
  refine ⟨not_not.mp hmem, ⟨index, tableIt, indexIndex, indexIt, indexIt', hget, hit, hidx, hiit,
    by rw [hcmd]⟩, ?_⟩
  cases post with
  | true => rfl
  | false => exact absurd h (by simp [ipaNatiPostIpv4DmaCmd, eio])

theorem ipaNATIDelIpv4Rule_ret_eq_zero_iff (c : IpaNatIp4TableCache) (ruleHdl : ℕ) (post : Bool) :
    (ipaNATIDelIpv4Rule c ruleHdl post).1 = 0 ↔
      c.memDescValid = true ∧ DelAccepted c ruleHdl ∧ post = true := by
  refine ⟨ipaNATIDelIpv4Rule_ret_eq_zero, fun ⟨hmem, h, hpost⟩ => ?_⟩
  obtain ⟨index, tableIt, indexIndex, indexIt, indexIt', hget, hit, hidx, hiit, hnext⟩ := h
  rcases hcmd : indexDeleteCommand c indexIt with ⟨c', cmd, r⟩
  rw [hcmd] at hnext
  dsimp only at hnext
  subst hnext hpost
  unfold ipaNATIDelIpv4Rule
  simp only [hmem, not_true_eq_false, if_false, hget, hit, hidx, hiit, hcmd, ipaNatiPostIpv4DmaCmd,
    if_true, ne_eq]

/-! ### The functions behind table handles -/

section Driver

variable (w : Nati)

def Nati.Grants : Prop := w.sys.1 = 0

def Nati.called : Nati := w.sys.2.2

theorem natiAddIpv4Rule_ret_eq_zero_iff (tblHdl : ℕ) (clnt : IpaNatIpv4Rule) :
    (natiAddIpv4Rule w tblHdl clnt).1 = 0 ↔ validTblHdl tblHdl = true ∧
      AddAccepted w.drvi (w.natCache (tblHdlNmi tblHdl)).ip4Tbl clnt ∧ w.Grants := by
  unfold natiAddIpv4Rule
  by_cases hvalid : validTblHdl tblHdl = true
  · simp only [hvalid, not_true_eq_false, if_false, true_and]
    rw [ipaNATIAddIpv4Rule_ret_eq_zero_iff, decide_eq_true_iff]
    rfl
  · simp [hvalid, einval]

theorem natiDelIpv4Rule_ret_eq_zero_iff (tblHdl ruleHdl : ℕ) :
    (natiDelIpv4Rule w tblHdl ruleHdl).1 = 0 ↔ validTblHdl tblHdl = true ∧
      (w.natCache (tblHdlNmi tblHdl)).ip4Tbl.memDescValid = true ∧
      DelAccepted (w.natCache (tblHdlNmi tblHdl)).ip4Tbl ruleHdl ∧ w.Grants := by
  unfold natiDelIpv4Rule
  by_cases hvalid : validTblHdl tblHdl = true
  · simp only [hvalid, not_true_eq_false, if_false, true_and]
    rw [ipaNATIDelIpv4Rule_ret_eq_zero_iff, decide_eq_true_iff]
    rfl
  · simp [hvalid, einval]

theorem ipaTableCalculateEntriesNum_error {nmi : IpaNatMemIn} {n : ℕ} {e : ℤ}
    (h : ipaTableCalculateEntriesNum nmi n = .error e) : e = einval := by
  unfold ipaTableCalculateEntriesNum at h
  dsimp only at h
  split at h
  · exact (Except.error.inj h).symm
  · split at h <;> cases h
    rfl

/-- A table can be created: there is none in this memory, its size is in range, and the kernel
grants the memory and accepts the table. -/
def TableAccepted (nmi : IpaNatMemIn) (n : ℕ) : Prop :=
  (w.natCache nmi).tableCnt = 0 ∧ (∃ sizes, ipaTableCalculateEntriesNum nmi n = .ok sizes) ∧
    w.Grants ∧ w.called.Grants

theorem natiAddIpv4Tbl_ret_eq_zero_iff (nmi : IpaNatMemIn) (ip : UInt32) (n : ℕ) :
    (natiAddIpv4Tbl w nmi ip n).1 = 0 ↔ TableAccepted w nmi n := by
  unfold natiAddIpv4Tbl TableAccepted
  by_cases hcnt : (w.natCache nmi).tableCnt ≥ 1
  · have hne : (w.natCache nmi).tableCnt ≠ 0 := by omega
    simp [hcnt, hne, einval]
  · have hzero : (w.natCache nmi).tableCnt = 0 := by omega
    simp only [hzero, true_and]
    cases hcalc : ipaTableCalculateEntriesNum nmi n with
    | error e =>
      simp [ipaTableCalculateEntriesNum_error hcalc, einval]
    | ok sizes =>
      simp only [ipaNatiCreateTable, hcalc, Nati.Grants, Nati.called]
      by_cases halloc : w.sys.1 = 0
      · simp only [halloc, ne_eq, not_true_eq_false, if_false, true_and]
        by_cases hinit : w.sys.2.2.sys.1 = 0
        · simp [hinit, Bind.bind, Except.bind, pure, Except.pure]
        · simp [hinit, Bind.bind, Except.bind, pure, Except.pure]
      · simp [halloc]

theorem natiDelIpv4Table_ret_eq_zero_iff (tblHdl : ℕ) :
    (natiDelIpv4Table w tblHdl).1 = 0 ↔ validTblHdl tblHdl = true ∧
      (w.natCache (tblHdlNmi tblHdl)).ip4Tbl.memDescValid = true ∧ w.Grants := by
  unfold natiDelIpv4Table
  by_cases hbad : ¬ validTblHdl tblHdl = true ∨
      ¬ (w.natCache (tblHdlNmi tblHdl)).ip4Tbl.memDescValid = true
  · simp only [hbad, if_true]
    refine ⟨fun h => absurd h (by decide : ¬ einval = 0), fun h => ?_⟩
    exact hbad.elim (fun hb => absurd h.1 hb) fun hb => absurd h.2.1 hb
  · simp only [hbad, if_false]
    rw [not_or, not_not, not_not] at hbad
    simp only [hbad.1, hbad.2, true_and, Nati.Grants]

theorem natiClearIpv4Tbl_ret_eq_zero_iff (tblHdl : ℕ) :
    (natiClearIpv4Tbl w tblHdl).1 = 0 ↔ (w.lookup tblHdl).isSome = true := by
  unfold natiClearIpv4Tbl
  cases w.lookup tblHdl <;> simp [einval]

theorem natiPostIpv4InitCmd_ret_eq_zero_iff (tblHdl : ℕ) :
    (natiPostIpv4InitCmd w tblHdl).1 = 0 ↔ (w.lookup tblHdl).isSome = true ∧ w.Grants := by
  unfold natiPostIpv4InitCmd
  cases w.lookup tblHdl <;> simp [einval, Nati.Grants]

theorem natiQueryTimestamp_ret_eq_zero_iff (tblHdl ruleHdl : ℕ) :
    (natiQueryTimestamp w tblHdl ruleHdl).1 = 0 ↔ validTblHdl tblHdl = true ∧
      (w.natCache (tblHdlNmi tblHdl)).ip4Tbl.memDescValid = true ∧
      breakRuleHdl (w.natCache (tblHdlNmi tblHdl)).ip4Tbl.table ruleHdl <
        (w.natCache (tblHdlNmi tblHdl)).ip4Tbl.table.totTblEnts := by
  unfold natiQueryTimestamp ipaTableGetEntry
  dsimp only
  by_cases hbad : ¬ validTblHdl tblHdl = true ∨
      ¬ (w.natCache (tblHdlNmi tblHdl)).ip4Tbl.memDescValid = true
  · simp only [hbad, if_true]
    refine ⟨fun h => absurd h (by decide : ¬ einval = 0), fun h => ?_⟩
    exact hbad.elim (fun hb => absurd h.1 hb) fun hb => absurd h.2.1 hb
  · simp only [hbad, if_false]
    rw [not_or, not_not, not_not] at hbad
    simp only [hbad.1, hbad.2, true_and]
    split
    · next e he =>
      split at he <;> cases he
      simp [einval]
      omega
    · next i hi =>
      split at hi <;> cases hi
      simp
      omega

theorem natiWalkIpv4Tbl_ret_eq_zero_iff {σ : Type} (tblHdl : ℕ)
    (cb : IpaTable IpaNatRule → ℕ → IpaNatRule → ℕ → σ → ℤ × σ) (s : σ) :
    (natiWalkIpv4Tbl w tblHdl cb s).1 = 0 ↔ ∃ c, w.lookup tblHdl = some c ∧
      (ipaTableWalk (entryInterface w.drvi.pdns) c.table 0 .whenSlotFilled (cb c.table) s).1
        = 0 := by
  unfold natiWalkIpv4Tbl
  cases w.lookup tblHdl <;> simp [einval]

theorem natiWalkIpv4IndexTbl_ret_eq_zero_iff {σ : Type} (tblHdl : ℕ)
    (cb : IpaTable IpaNatIndxTblRule → ℕ → IpaNatIndxTblRule → ℕ → σ → ℤ × σ) (s : σ) :
    (natiWalkIpv4IndexTbl w tblHdl cb s).1 = 0 ↔ ∃ c, w.lookup tblHdl = some c ∧
      (ipaTableWalk indexEntryInterface c.indexTable 0 .whenSlotFilled (cb c.indexTable) s).1
        = 0 := by
  unfold natiWalkIpv4IndexTbl
  cases w.lookup tblHdl <;> simp [einval]

def SramAccepted : Prop :=
  w.Grants ∧ w.sys.2.1 ≠ 0 ∧ (ipaCalcNumSramTableEntries w.sys.2.1).1 = 0

end Driver

theorem genChainStats_nonneg {ρ υ : Type} (ifc : IpaTableEntryInterface ρ υ) (t : IpaTable ρ)
    (h : ℕ) (r : ρ) (i : ℕ) (st : IpaNatiTblStats) : 0 ≤ (genChainStats ifc t h r i st).1 := by
  unfold genChainStats
  dsimp only
  split
  · exact zero_le_one
  · split <;> exact le_rfl

theorem ipaTableWalkLoop_nonneg {ρ υ σ : Type} (ifc : IpaTableEntryInterface ρ υ)
    (t : IpaTable ρ) (cb : ℕ → ρ → ℕ → σ → ℤ × σ) (hcb : ∀ h r i s, 0 ≤ (cb h r i s).1)
    (n i : ℕ) (s : σ) : 0 ≤ (ipaTableWalkLoop ifc t .whenSlotFilled cb n i s).1 := by
  induction n generalizing i s with
  | zero => exact le_rfl
  | succ n ih =>
    rw [ipaTableWalkLoop_eq]
    split
    · unfold walkStep
      split
      · exact hcb _ _ _ _
      · exact le_rfl
    · exact ih _ _

theorem tableStats_nonneg_iff {ρ υ : Type} (ifc : IpaTableEntryInterface ρ υ) (nmi : IpaNatMemIn)
    (t : IpaTable ρ) :
    0 ≤ (tableStats ifc nmi t).1 ↔ 0 < t.tableEntries + t.expnTableEntries := by
  unfold tableStats ipaTableWalk
  dsimp only
  split
  · next h => exact ⟨fun hlt => absurd hlt (by decide : ¬ 0 ≤ einval), fun hlt => by omega⟩
  · next h =>
    refine ⟨fun _ => by omega, fun _ => ipaTableWalkLoop_nonneg _ _ _ ?_ _ _ _⟩
    exact genChainStats_nonneg ifc t

theorem natiIpv4TblStats_ret_eq_zero_iff (w : Nati) (tblHdl : ℕ) :
    (natiIpv4TblStats w tblHdl).1 = 0 ↔ ∃ c, w.lookup tblHdl = some c ∧
      0 < c.table.tableEntries + c.table.expnTableEntries ∧
      0 < c.indexTable.tableEntries + c.indexTable.expnTableEntries := by
  unfold natiIpv4TblStats
  cases w.lookup tblHdl with
  | none => simp [einval]
  | some c =>
    simp only [Option.some.injEq, exists_eq_left',
      ← tableStats_nonneg_iff (entryInterface w.drvi.pdns) (tblHdlNmi tblHdl) c.table,
      ← tableStats_nonneg_iff indexEntryInterface (tblHdlNmi tblHdl) c.indexTable]
    split
    · next h => simp [einval, h]
    · next h =>
      split
      · next h' => simp [einval, h']
      · next h' => simp [not_lt.mp h, not_lt.mp h']

theorem Nati.mapRule_ret_eq_zero_iff (w : Nati) (nmi : IpaNatMemIn) (orig new : ℕ) :
    (w.mapRule nmi orig new).1 = 0 ↔
      w.obj.orig2newMap nmi orig = none ∧ w.obj.new2origMap nmi new = none := by
  unfold Nati.mapRule ipaNatMapAdd
  cases w.obj.orig2newMap nmi orig <;> cases w.obj.new2origMap nmi new <;> simp

/-- A record can be migrated: it is a dead head, or its handle is known, the other table takes
the rule, and neither of the rule's handles is in that table's maps. -/
def MigrateAccepted (dstTblHdl : ℕ) (src : IpaNatMemIn) (tblRuleHdl : ℕ) (r : IpaNatRule)
    (w : Nati) : Prop :=
  r.protocol = ipahalNatInvalidProtocol ∨
    ∃ orig, w.obj.new2origMap src tblRuleHdl = some orig ∧ validTblHdl dstTblHdl = true ∧
      AddAccepted w.drvi (w.natCache (tblHdlNmi dstTblHdl)).ip4Tbl (v4Rule r) ∧ w.Grants ∧
      w.obj.orig2newMap src.other orig = none ∧
      w.obj.new2origMap src.other ((natiAddIpv4Rule w dstTblHdl (v4Rule r)).2.1.getD 0) = none

theorem migrateRule_ret_eq_zero_iff (dstTblHdl : ℕ) (t : IpaTable IpaNatRule) (h : ℕ)
    (r : IpaNatRule) (i : ℕ) (w : Nati) :
    (migrateRule dstTblHdl t h r i w).1 = 0 ↔ MigrateAccepted dstTblHdl t.nmi h r w := by
  unfold migrateRule MigrateAccepted
  dsimp only
  by_cases hdead : r.protocol = ipahalNatInvalidProtocol
  · simp [hdead]
  · simp only [hdead, if_false, false_or]
    unfold ipaNatMapFind
    cases hmap : w.obj.new2origMap t.nmi h with
    | none => simp
    | some orig =>
      have hadd := natiAddIpv4Rule_ret_eq_zero_iff w dstTblHdl (v4Rule r)
      simp only [ne_eq, not_true_eq_false, if_false, Option.some.injEq, exists_eq_left']
      by_cases hret : (natiAddIpv4Rule w dstTblHdl (v4Rule r)).1 = 0
      · simp only [hret, not_true_eq_false, if_false, Nati.mapRule_ret_eq_zero_iff]
        obtain ⟨hvalid, hacc, hgrant⟩ := hadd.mp hret
        simp [hvalid, hacc, hgrant, Nati.setCntr]
      · simp only [hret, not_false_eq_true, if_true]
        refine iff_of_false id fun hall => hret (hadd.mpr ?_)
        exact ⟨hall.1, hall.2.1, hall.2.2.1⟩

def copyWorld (dstTblHdl : ℕ) (t : IpaTable IpaNatRule) (w : Nati) (n : ℕ) : Nati :=
  (ipaTableWalkLoop (entryInterface w.drvi.pdns) t .whenSlotFilled (migrateRule dstTblHdl t) n 0 w).2

/-- Every rule of the source can be migrated, when the destination was cleared. -/
def CopyAccepted (srcTblHdl dstTblHdl : ℕ) (w : Nati) : Prop :=
  (w.lookup dstTblHdl).isSome = true ∧
    ∃ c, (natiClearIpv4Tbl w dstTblHdl).2.lookup srcTblHdl = some c ∧
      0 < c.table.tableEntries + c.table.expnTableEntries ∧
      ∀ k < c.table.tableEntries + c.table.expnTableEntries, (c.table.slot k).enable = true →
        MigrateAccepted dstTblHdl c.table.nmi (makeEntryHdl c.table k) (c.table.slot k)
          (copyWorld dstTblHdl c.table (natiClearIpv4Tbl w dstTblHdl).2 k)

theorem ipaNatiCopyIpv4Tbl_ret_eq_zero_iff (srcTblHdl dstTblHdl : ℕ) (w : Nati) :
    (ipaNatiCopyIpv4Tbl srcTblHdl dstTblHdl migrateRule w).1 = 0 ↔
      CopyAccepted srcTblHdl dstTblHdl w := by
  have hstep : ∀ pdns (t : IpaTable IpaNatRule) k w', (walkStep (entryInterface pdns) t
      (migrateRule dstTblHdl t) k w').1 = 0 ↔ ((t.slot k).enable = true →
        MigrateAccepted dstTblHdl t.nmi (makeEntryHdl t k) (t.slot k) w') := by
    intro pdns t k w'
    unfold walkStep
    rw [← migrateRule_ret_eq_zero_iff _ _ _ _ k]
    cases henable : (t.slot k).enable <;> simp [entryInterface, henable]
  unfold ipaNatiCopyIpv4Tbl CopyAccepted
  dsimp only
  by_cases hclr : (natiClearIpv4Tbl w dstTblHdl).1 = 0
  · simp only [hclr, ne_eq, not_true_eq_false, if_false, natiWalkIpv4Tbl_ret_eq_zero_iff,
      ipaTableWalk_ret_eq_zero_iff, hstep]
    rw [and_iff_right ((natiClearIpv4Tbl_ret_eq_zero_iff w dstTblHdl).mp hclr)]
    rfl
  · simp only [hclr, ne_eq, not_false_eq_true, if_true, false_iff]
    exact fun h => hclr ((natiClearIpv4Tbl_ret_eq_zero_iff w dstTblHdl).mpr h.1)

end Sm8750Modules.IpaNat
