import Sm8750Modules.IpaNat.Invariant

/-!
# Deleting a rule

What `ipa_NATI_del_ipv4_rule` does to a table that satisfies the invariant, for a handle of any
enabled slot `i` whose index entry `k` is in use.
-/

namespace Sm8750Modules.IpaNat

open SlotChain Function

def natDmaDelete (t : IpaTable IpaNatRule) (it : IpaTableIterator) : IpaTable IpaNatRule :=
  if it.prevIndex ≠ 0 then t.mapSlot it.prevIndex (natField .updateEntry it.nextIndex)
  else if it.nextIndex ≠ 0 then
    t.mapSlot it.currIndex (natField .deleteHead ipaNatInvalidProtoFieldValue)
  else t.mapSlot it.currIndex (natField .updateHead 0)

def natErase (t : IpaTable IpaNatRule) (it : IpaTableIterator) : IpaTable IpaNatRule :=
  if ¬ ipaTableIteratorIsHeadWithTail it then
    let isPrevEmpty := validIndex it.prevIndex &&
      decide ((t.slot it.prevIndex).protocol = ipahalNatInvalidProtocol)
    ipaTableDeleteEntry (entryInterface fun _ => 0) t it isPrevEmpty
  else t

inductive NatRemoved (base size i : ℕ) (t t' : IpaTable IpaNatRule) : Prop where
  | deaden (hprev : (t.slot i).prevIndex = 0) (hnext : (t.slot i).nextIndex ≠ 0)
      (ht : t' = t.mapSlot i (IpaNatRule.writeProto ipaNatInvalidProtoFieldValue))
  | erase (hkeep : (t.slot i).nextIndex ≠ 0 ∨ (t.slot i).prevIndex = 0 ∨
        (t.slot (t.slot i).prevIndex).protocol ≠ ipahalNatInvalidProtocol)
      (hlinks : (natLinks t).Remove base i (natLinks t'))
      (hzero : t'.slot i = RecordLayout.zero)
      (hold : ∀ m, m ≠ i → (t'.slot m).unlinked = (t.slot m).unlinked)
      (hcnt : t'.curTblCnt = if i < base then decU16 t.curTblCnt else t.curTblCnt)
      (hexpn : t'.curExpnTblCnt = if i < base then t.curExpnTblCnt else decU16 t.curExpnTblCnt)
  | eraseDead (hnext : (t.slot i).nextIndex = 0) (hbase : base ≤ i)
      (hdead : (t.slot (t.slot i).prevIndex).protocol = ipahalNatInvalidProtocol)
      (hlinks : natLinks t' = ((natLinks t).unlink i).drop (t.slot i).prevIndex)
      (hzero : t'.slot i = RecordLayout.zero ∧ t'.slot (t.slot i).prevIndex = RecordLayout.zero)
      (hold : ∀ m, m ≠ i → m ≠ (t.slot i).prevIndex → t'.slot m = t.slot m)
      (hcnt : t'.curTblCnt = decU16 t.curTblCnt)
      (hexpn : t'.curExpnTblCnt = decU16 t.curExpnTblCnt)

section Nat

variable {base size i : ℕ} {home rank : ℕ → ℕ} {t : IpaTable IpaNatRule}

theorem natRemoved (hg : t.Geometry base size) (h : Chained base size (natLinks t) home rank)
    (hdead : ∀ j, (t.slot j).enable = true → (t.slot j).protocol = ipahalNatInvalidProtocol → j < base)
    (hi : (t.slot i).enable = true) :
    NatRemoved base size i t (natErase
      (natDmaDelete t ⟨(t.slot i).prevIndex, i, (t.slot i).nextIndex⟩)
      ⟨(t.slot i).prevIndex, i, (t.slot i).nextIndex⟩) := by
  have hte := hg.base_eq
  obtain ⟨t', ht'⟩ : ∃ t', natErase (natDmaDelete t ⟨(t.slot i).prevIndex, i, (t.slot i).nextIndex⟩)
      ⟨(t.slot i).prevIndex, i, (t.slot i).nextIndex⟩ = t' := ⟨_, rfl⟩
  rw [ht']
  by_cases hp : (t.slot i).prevIndex = 0
  · by_cases hn : (t.slot i).nextIndex = 0
    · -- a lone head
      have hib : i < base := h.base_of_prev_zero hi hp
      have hslot : t' = { t with slot := update t.slot i RecordLayout.zero
                                 curTblCnt := decU16 t.curTblCnt } := by
        rw [← ht']
        simp [natErase, natDmaDelete, hp, hn, ipaTableIteratorIsHeadWithTail, validIndex,
          ipaTableDeleteEntry, ipaTableEraseEntry, IpaTable.mapSlot, hte, hib]
      subst hslot
      refine .erase (Or.inr (Or.inl hp)) (.head hi hib hn ?_) (update_self ..) ?_ ?_ ?_
      · rw [natLinks_slot, natLinks_slot, slotLinks_erase]
        simp [slotLinks, Links.drop, hn, hp]
      · intro m hm
        simp [hm]
      · rw [if_pos hib]
      · rw [if_pos hib]
    · refine .deaden hp hn ?_
      rw [← ht']
      simp [natErase, natDmaDelete, hp, hn, ipaTableIteratorIsHeadWithTail, validIndex, natField]
  · have hib : base ≤ i := h.expn_of_prev hp
    have hib' : ¬ i < base := by omega
    have hnp : (t.slot (t.slot i).prevIndex).nextIndex = i := h.next_prev i hi hib
    have hi0 : i ≠ 0 := Nat.pos_iff_ne_zero.mp (h.used_pos i hi)
    have hpi : (t.slot i).prevIndex ≠ i := by
      intro he
      exact h.next_ne_self (i := i) (by rw [natLinks_next, ← he, hnp]; exact hi0)
        (by rw [natLinks_next, ← he, hnp, he])
    have hpu : (t.slot (t.slot i).prevIndex).enable = true := h.prev_used i hi hib
    by_cases hn : (t.slot i).nextIndex = 0
    · by_cases hd : (t.slot (t.slot i).prevIndex).protocol = ipahalNatInvalidProtocol
      · -- the last tail entry behind a placeholder
        have hslot : t' = { t with slot := update
                                     (update t.slot (t.slot i).prevIndex RecordLayout.zero) i
                                     RecordLayout.zero
                                   curTblCnt := decU16 t.curTblCnt
                                   curExpnTblCnt := decU16 t.curExpnTblCnt } := by
          rw [← ht']
          simp [natErase, natDmaDelete, hp, hn, hd, ipaTableIteratorIsHeadWithTail, validIndex,
            ipaTableDeleteEntry, ipaTableEraseEntry, IpaTable.mapSlot, hte, hib', natField]
        subst hslot
        refine .eraseDead hn hib hd ?_ ⟨by simp, by simp [hpi]⟩ ?_ rfl rfl
        · have hp0 : (t.slot (t.slot i).prevIndex).prevIndex = 0 := h.base_prev _ (hdead _ hpu hd)
          rw [natLinks_slot, natLinks_slot, slotLinks_erase, slotLinks_erase]
          simp [slotLinks, Links.drop, Links.unlink, hn, update_comm hpi, update_of_ne hpi, hp0]
        · intro m hm hmp
          simp [hm, hmp]
      · -- the last tail entry behind a live rule
        have hslot : t' = { t with slot := update (update t.slot (t.slot i).prevIndex
                                     { t.slot (t.slot i).prevIndex with nextIndex := 0 }) i RecordLayout.zero
                                   curExpnTblCnt := decU16 t.curExpnTblCnt } := by
          rw [← ht']
          simp [natErase, natDmaDelete, hp, hn, hd, ipaTableIteratorIsHeadWithTail, validIndex,
            ipaTableDeleteEntry, ipaTableEraseEntry, IpaTable.mapSlot, hte, hib', natField]
        subst hslot
        refine .erase (Or.inr (Or.inr hd)) (.tail hi hib ?_) (by simp) ?_ ?_ ?_
        · rw [natLinks_slot, natLinks_slot, slotLinks_erase, slotLinks_update]
          simp [slotLinks, Links.unlink, hn]
        · intro m hm
          by_cases hmp : m = (t.slot i).prevIndex
          · subst hmp; simp [hpi, IpaNatRule.unlinked]
          · simp [hm, hmp]
        · rw [if_neg hib']
        · rw [if_neg hib']
    · -- a tail entry with a successor
      have hni : (t.slot i).nextIndex ≠ i := h.next_ne_self hn
      have hnp' : (t.slot i).nextIndex ≠ (t.slot i).prevIndex := by
        intro he
        have h1 := h.rank_next i hn
        have h2 := h.rank_next (t.slot i).prevIndex (by rw [natLinks_next, hnp]; exact hi0)
        rw [natLinks_next, hnp] at h2
        rw [natLinks_next, he] at h1
        omega
      have hslot : t' = { t with slot := update (update (update t.slot
                                   (t.slot i).prevIndex
                                   { t.slot (t.slot i).prevIndex with nextIndex := (t.slot i).nextIndex })
                                   (t.slot i).nextIndex
                                   { t.slot (t.slot i).nextIndex with prevIndex := (t.slot i).prevIndex }) i
                                   RecordLayout.zero
                                 curExpnTblCnt := decU16 t.curExpnTblCnt } := by
        rw [← ht']
        simp [natErase, natDmaDelete, hp, hn, ipaTableIteratorIsHeadWithTail, validIndex, hnp',
          ipaTableDeleteEntry, ipaTableEraseEntry, IpaTable.mapSlot, hte, hib', natField,
          entryInterface]
      subst hslot
      refine .erase (Or.inl hn) (.tail hi hib ?_) (by simp) ?_ ?_ ?_
      · rw [natLinks_slot, natLinks_slot, slotLinks_erase, slotLinks_update, slotLinks_update]
        simp only [slotLinks, Links.unlink, hn, if_false, Links.mk.injEq]
        refine ⟨by simp, ?_, by simp⟩
        rw [Function.update_eq_self_iff.mpr (update_of_ne hnp' _ _).symm]
      · intro m hm
        by_cases hmn : m = (t.slot i).nextIndex
        · subst hmn; simp [hni, IpaNatRule.unlinked]
        · by_cases hmp : m = (t.slot i).prevIndex
          · subst hmp; simp [hpi, hnp'.symm, IpaNatRule.unlinked]
          · simp [hm, hmp, hmn]
      · rw [if_neg hib']
      · rw [if_neg hib']

end Nat

variable (t : IpaTable IpaNatIndxTblRule)

def indexDmaDelete (it : IpaTableIterator) : IpaTable IpaNatIndxTblRule :=
  if it.prevIndex ≠ 0 then t.mapSlot it.prevIndex (indexField .updateEntry it.nextIndex)
  else if it.nextIndex ≠ 0 then
    (t.mapSlot it.currIndex (indexField .deleteHead (t.slot it.nextIndex).tblEntry)).mapSlot
      it.currIndex (indexField .updateEntry (t.slot it.nextIndex).nextIndex)
  else t.mapSlot it.currIndex (indexField .updateHead 0)

def indexVictim (it : IpaTableIterator) : IpaTableIterator :=
  if ipaTableIteratorIsHeadWithTail it then
    ⟨it.currIndex, it.nextIndex, (t.slot it.nextIndex).nextIndex⟩
  else it

def indexErase (it : IpaTableIterator) : IpaTable IpaNatIndxTblRule :=
  let indexTable := ipaTableDeleteEntry indexEntryInterface t it false
  { indexTable with metaPrev :=
      if it.currIndex ≥ indexTable.tableEntries then
        Function.update indexTable.metaPrev (it.currIndex - indexTable.tableEntries) 0
      else indexTable.metaPrev }

/-- The index table `t'` is `t` without the entry of slot `k`; slot `q` is free afterwards. -/
structure IndexRemoved (base size k q : ℕ) (t t' : IpaTable IpaNatIndxTblRule) : Prop where
  victim : q = k ∧ ((indexLinks t).prev k ≠ 0 ∨ (indexLinks t).next k = 0) ∨
    (indexLinks t).prev k = 0 ∧ (indexLinks t).next k = q ∧ q ≠ 0 ∧ q ≠ k
  links : (indexLinks t).Remove base q (indexLinks t')
  entry : ∀ m, (t'.slot m).tblEntry =
    if m = q then 0 else if m = k then (t.slot q).tblEntry else (t.slot m).tblEntry
  cnt : t'.curTblCnt = if q < base then decU16 t.curTblCnt else t.curTblCnt
  expnCnt : t'.curExpnTblCnt = if q < base then t.curExpnTblCnt else decU16 t.curExpnTblCnt

section Index

variable {base size k : ℕ} {home rank : ℕ → ℕ} {t : IpaTable IpaNatIndxTblRule}

theorem indexErase_tail (hg : t.Geometry base size)
    (h : Chained base size (indexLinks t) home rank) {p q : ℕ} (hq : (t.slot q).tblEntry ≠ 0)
    (hqb : base ≤ q) (hp : (indexLinks t).prev q = p) (s : ℕ → IpaNatIndxTblRule)
    (hs_next : (indexSlotLinks base s t.metaPrev).next =
      update (indexLinks t).next p (t.slot q).nextIndex)
    (hs_used : (indexSlotLinks base s t.metaPrev).used = (indexLinks t).used) :
    (indexLinks t).Remove base q
      (indexLinks (indexErase { t with slot := s } ⟨p, q, (t.slot q).nextIndex⟩)) ∧
    (indexErase { t with slot := s } ⟨p, q, (t.slot q).nextIndex⟩).slot =
      update s q RecordLayout.zero ∧
    (indexErase { t with slot := s } ⟨p, q, (t.slot q).nextIndex⟩).curTblCnt = t.curTblCnt ∧
    (indexErase { t with slot := s } ⟨p, q, (t.slot q).nextIndex⟩).curExpnTblCnt =
      decU16 t.curExpnTblCnt := by
  have hte := hg.base_eq
  have hqu : (indexLinks t).used q = true := indexLinks_occupied.mpr hq
  have hqb' : ¬ q < base := by omega
  have hpq : p ≠ q := by
    intro he
    have h1 := h.next_prev q hqu hqb
    rw [hp, he] at h1
    exact h.next_ne_self (i := q) (by rw [h1]; exact (h.used_pos q hqu).ne') h1
  have hnq : (t.slot q).nextIndex ≠ 0 → (t.slot q).nextIndex ≠ q := fun hn => h.next_ne_self hn
  have hnb : (t.slot q).nextIndex ≠ 0 → base ≤ (t.slot q).nextIndex := fun hn => h.next_expn q hn
  have hres : indexErase { t with slot := s } ⟨p, q, (t.slot q).nextIndex⟩ =
      { t with slot := update s q RecordLayout.zero
               metaPrev := update
                 (if (t.slot q).nextIndex = 0 then t.metaPrev
                  else update t.metaPrev ((t.slot q).nextIndex - base) p) (q - base) 0
               curExpnTblCnt := decU16 t.curExpnTblCnt } := by
    by_cases hn : (t.slot q).nextIndex = 0
    · simp [indexErase, ipaTableDeleteEntry, validIndex, hn, ipaTableEraseEntry, hte, hqb', hqb]
    · simp [indexErase, ipaTableDeleteEntry, validIndex, hn, ipaTableEraseEntry, hte, hqb', hqb,
        indexEntryInterface, hnb hn]
  rw [hres]
  refine ⟨.tail hqu hqb ?_, rfl, rfl, rfl⟩
  have hprev : indexSlotLinks base s (if (t.slot q).nextIndex = 0 then t.metaPrev
      else update t.metaPrev ((t.slot q).nextIndex - base) p) =
      ⟨(indexLinks t).used, update (indexLinks t).next p (t.slot q).nextIndex,
        if (t.slot q).nextIndex = 0 then (indexLinks t).prev
        else update (indexLinks t).prev (t.slot q).nextIndex p⟩ := by
    rw [← hs_used, ← hs_next, indexLinks_slot, hte]
    split
    · rfl
    · rename_i hn
      exact indexSlotLinks_meta (hnb hn) s t.metaPrev p
  show indexSlotLinks t.tableEntries _ _ = _
  rw [hte, indexSlotLinks_update, indexSlotLinks_meta hqb, hprev, Links.unlink, hp]
  rfl

theorem indexDmaDelete_head (t : IpaTable IpaNatIndxTblRule) {k n : ℕ} (hn : n ≠ 0) :
    indexDmaDelete t ⟨0, k, n⟩ = { t with slot := update t.slot k (t.slot n) } ∧
      indexVictim t ⟨0, k, n⟩ = ⟨k, n, (t.slot n).nextIndex⟩ := by
  refine ⟨by simp [indexDmaDelete, hn, IpaTable.mapSlot, indexField], ?_⟩
  simp [indexVictim, ipaTableIteratorIsHeadWithTail, validIndex, hn]

theorem indexDmaDelete_tail (t : IpaTable IpaNatIndxTblRule) {p k n : ℕ} (hp : p ≠ 0) :
    indexDmaDelete t ⟨p, k, n⟩ = { t with
      slot := update t.slot p { t.slot p with nextIndex := n } } ∧
      indexVictim t ⟨p, k, n⟩ = ⟨p, k, n⟩ := by
  refine ⟨by simp [indexDmaDelete, hp, IpaTable.mapSlot, indexField], ?_⟩
  simp [indexVictim, ipaTableIteratorIsHeadWithTail, validIndex, hp]

theorem indexDmaDelete_lone (t : IpaTable IpaNatIndxTblRule) {k : ℕ}
    (hk : k < t.tableEntries) :
    indexErase (indexDmaDelete t ⟨0, k, 0⟩) (indexVictim t ⟨0, k, 0⟩) = { t with
      slot := update t.slot k RecordLayout.zero
      curTblCnt := decU16 t.curTblCnt } := by
  have hk' : ¬ t.tableEntries ≤ k := by omega
  simp [indexErase, indexDmaDelete, indexVictim, ipaTableIteratorIsHeadWithTail, validIndex,
    ipaTableDeleteEntry, ipaTableEraseEntry, IpaTable.mapSlot, hk, hk']

/-- **The index half of a delete**, for an entry `k` in use. -/
theorem indexRemoved (hg : t.Geometry base size)
    (h : Chained base size (indexLinks t) home rank) (hk : (t.slot k).tblEntry ≠ 0) :
    IndexRemoved base size k
      (indexVictim t ⟨(indexLinks t).prev k, k, (indexLinks t).next k⟩).currIndex t
      (indexErase (indexDmaDelete t ⟨(indexLinks t).prev k, k, (indexLinks t).next k⟩)
        (indexVictim t ⟨(indexLinks t).prev k, k, (indexLinks t).next k⟩)) := by
  have hku : (indexLinks t).used k = true := indexLinks_occupied.mpr hk
  have hte := hg.base_eq
  by_cases hp : (indexLinks t).prev k = 0
  · have hkb : k < base := h.base_of_prev_zero hku hp
    by_cases hn : (indexLinks t).next k = 0
    · -- a lone head
      rw [hp, hn, indexDmaDelete_lone t (by omega)]
      refine ⟨Or.inl ⟨rfl, Or.inr hn⟩, .head hku hkb hn ?_, ?_, ?_, ?_⟩
      · have hsame : update (indexLinks t).next k 0 = (indexLinks t).next :=
          Function.update_eq_self_iff.mpr hn.symm
        show indexSlotLinks t.tableEntries (update t.slot k RecordLayout.zero) t.metaPrev = _
        rw [indexSlotLinks_update]
        exact congrArg (fun next => (⟨_, next, _⟩ : Links)) hsame
      · intro m
        show _ = if m = k then 0 else if m = k then _ else _
        by_cases hm : m = k
        · subst hm; simp; rfl
        · simp [hm]
      · exact (if_pos hkb).symm
      · exact (if_pos hkb).symm
    · -- a head with a tail: the second entry moves into it
      obtain ⟨q, hq⟩ : ∃ q, (indexLinks t).next k = q := ⟨_, rfl⟩
      have hqu := h.next_used k hn
      have hqb := h.next_expn k hn
      have hpq := h.prev_next k hn
      have hqk := h.next_ne_self hn
      rw [hq] at hn hqu hqb hpq hqk
      have hqb' : ¬ q < base := by omega
      have hqe := indexLinks_occupied.mp hqu
      obtain ⟨hdma, hvic⟩ := indexDmaDelete_head t (k := k) hn
      rw [hp, hq, hvic, hdma]
      obtain ⟨hrem, hslot, hc, he⟩ := indexErase_tail hg h hqe hqb hpq
        (update t.slot k (t.slot q))
        (by rw [indexSlotLinks_update, indexLinks_slot, hte])
        (by
          rw [indexSlotLinks_update, indexLinks_slot, hte]
          exact Function.update_eq_self_iff.mpr (hqu.trans hku.symm))
      refine ⟨Or.inr ⟨hp, hq, hn, hqk⟩, hrem, ?_, ?_, ?_⟩
      · intro m
        rw [hslot]
        by_cases hm : m = q
        · subst hm; simp; rfl
        · by_cases hmk : m = k
          · subst hmk; simp [hm]
          · simp [hm, hmk]
      · exact hc.trans (if_neg hqb').symm
      · exact he.trans (if_neg hqb').symm
  · -- a tail entry
    have hkb : base ≤ k := h.expn_of_prev hp
    have hkb' : ¬ k < base := by omega
    obtain ⟨p, hpe⟩ : ∃ p, (indexLinks t).prev k = p := ⟨_, rfl⟩
    have hpk : p ≠ k := by
      intro he
      have h1 := h.next_prev k hku hkb
      rw [hpe, he] at h1
      exact h.next_ne_self (i := k) (by rw [h1]; exact (h.used_pos k hku).ne') h1
    rw [hpe] at hp
    obtain ⟨hdma, hvic⟩ := indexDmaDelete_tail t (k := k) (n := (indexLinks t).next k) hp
    rw [hpe, hvic, hdma]
    obtain ⟨hrem, hslot, hc, he⟩ := indexErase_tail hg h hk hkb hpe
      (update t.slot p { t.slot p with nextIndex := (indexLinks t).next k })
      (by rw [indexSlotLinks_update, indexLinks_slot, hte]; rfl)
      (by
        rw [indexSlotLinks_update, indexLinks_slot, hte]
        exact Function.update_eq_self_iff.mpr rfl)
    refine ⟨Or.inl ⟨rfl, Or.inl (by rw [hpe]; exact hp)⟩, hrem, ?_, ?_, ?_⟩
    · intro m
      refine (congrArg (fun f => (f m).tblEntry) hslot).trans ?_
      by_cases hm : m = k
      · subst hm; simp; rfl
      · by_cases hmp : m = p
        · subst hmp; simp [hm]
        · simp [hm, hmp]
    · exact hc.trans (if_neg hkb').symm
    · exact he.trans (if_neg hkb').symm

end Index

/-! ### `ipa_NATI_del_ipv4_rule` -/

def entryIterator (L : Links) (i : ℕ) : IpaTableIterator := ⟨L.prev i, i, L.next i⟩

/-- The CPU's part of copying the second index entry of `k`'s chain into `k`. -/
def copySecond (c : IpaNatIp4TableCache) (k : ℕ) : IpaNatIp4TableCache :=
  if ipaTableIteratorIsHeadWithTail (entryIterator (indexLinks c.indexTable) k) then
    c.mapNat (c.indexTable.slot (c.indexTable.slot k).nextIndex).tblEntry
      fun r => { r with indxTblEntry := k }
  else c

/-- The cache `c'` is `c` without the rule of slot `i` and its index entry `k`. -/
structure RuleDeleted (base size i k q : ℕ) (c c' : IpaNatIp4TableCache) : Prop where
  config : Config base size c'
  nmi : c'.table.nmi = c.table.nmi
  nat : NatRemoved base size i (copySecond c k).table c'.table
  index : IndexRemoved base size k q c.indexTable c'.indexTable

section Delete

variable {base size : ℕ} {homeN homeI : ℕ → ℕ} {c : IpaNatIp4TableCache}

theorem copySecond_cases (c : IpaNatIp4TableCache) (k : ℕ) :
    ((indexLinks c.indexTable).prev k = 0 ∧ (indexLinks c.indexTable).next k ≠ 0 ∧
      copySecond c k = c.mapNat
        (c.indexTable.slot ((indexLinks c.indexTable).next k)).tblEntry
        fun r => { r with indxTblEntry := k }) ∨
    (¬ ((indexLinks c.indexTable).prev k = 0 ∧ (indexLinks c.indexTable).next k ≠ 0) ∧
      copySecond c k = c) := by
  unfold copySecond ipaTableIteratorIsHeadWithTail entryIterator
  by_cases hp : (indexLinks c.indexTable).prev k = 0
  · by_cases hn : (indexLinks c.indexTable).next k = 0
    · exact Or.inr ⟨fun hc => hc.2 hn, by rw [hn]; rfl⟩
    · refine Or.inl ⟨hp, hn, ?_⟩
      rw [if_pos]
      · rfl
      · simp only [validIndex, hp, bne_self_eq_false, Bool.not_false, Bool.and_true, bne_iff_ne]
        exact hn
  · refine Or.inr ⟨fun hc => hp hc.1, ?_⟩
    rw [if_neg]
    simp only [validIndex, bne_iff_ne, Bool.and_eq_true, Bool.not_eq_true', bne_eq_false_iff_eq]
    exact fun hc => hp hc.2

theorem copySecond_indexTable (c : IpaNatIp4TableCache) (k : ℕ) :
    (copySecond c k).indexTable = c.indexTable := by
  rcases copySecond_cases c k with ⟨-, -, he⟩ | ⟨-, he⟩ <;> rw [he]
  rfl

theorem copySecond_config (h : Config base size c) (k : ℕ) : Config base size (copySecond c k) := by
  rcases copySecond_cases c k with ⟨-, -, he⟩ | ⟨-, he⟩ <;> rw [he]
  · exact h.mapNat _ _
  · exact h

theorem copySecond_slot (c : IpaNatIp4TableCache) (k m : ℕ) :
    ((copySecond c k).table.slot m).unindexed = (c.table.slot m).unindexed := by
  rcases copySecond_cases c k with ⟨-, -, he⟩ | ⟨-, he⟩ <;> rw [he]
  show (update c.table.slot _ _ m).unindexed = _
  by_cases hm : m = (c.indexTable.slot ((indexLinks c.indexTable).next k)).tblEntry
  · rw [← hm, update_self]
    rfl
  · rw [update_of_ne hm]

theorem copySecond_fields (c : IpaNatIp4TableCache) (k m : ℕ) :
    ((copySecond c k).table.slot m).enable = (c.table.slot m).enable ∧
      ((copySecond c k).table.slot m).nextIndex = (c.table.slot m).nextIndex ∧
      ((copySecond c k).table.slot m).prevIndex = (c.table.slot m).prevIndex ∧
      ((copySecond c k).table.slot m).protocol = (c.table.slot m).protocol := by
  have h1 := congrArg IpaNatRule.enable (copySecond_slot c k m)
  have h2 := congrArg IpaNatRule.nextIndex (copySecond_slot c k m)
  have h3 := congrArg IpaNatRule.prevIndex (copySecond_slot c k m)
  have h4 := congrArg IpaNatRule.protocol (copySecond_slot c k m)
  exact ⟨h1, h2, h3, h4⟩

theorem copySecond_natLinks (c : IpaNatIp4TableCache) (k : ℕ) :
    natLinks (copySecond c k).table = natLinks c.table := by
  unfold natLinks IpaTable.links
  congr 1
  · funext m; exact (copySecond_fields c k m).1
  · funext m; exact (copySecond_fields c k m).2.1
  · funext m; exact (copySecond_fields c k m).2.2.1

theorem indexDeleteCommand_eq (h : ChainInv base size homeN homeI c) {k : ℕ}
    (hk : (c.indexTable.slot k).tblEntry ≠ 0) :
    ∃ cmd, indexDeleteCommand c (entryIterator (indexLinks c.indexTable) k) =
        (copySecond c k, cmd,
          .ok (indexVictim c.indexTable (entryIterator (indexLinks c.indexTable) k))) ∧
      ∀ c0, Config base size c0 → c0.indexTable = c.indexTable →
        (dmaCmd c0 cmd).table = c0.table ∧ (dmaCmd c0 cmd).indexTable =
          indexDmaDelete c.indexTable (entryIterator (indexLinks c.indexTable) k) := by
  obtain ⟨rank, hc⟩ := h.index
  have hku : (indexLinks c.indexTable).used k = true := indexLinks_occupied.mpr hk
  have hks := hc.used_lt k hku
  have hcopy := copySecond_cases c k
  have hps := hc.prev_lt (by omega) hku
  have hns := hc.next_lt k hks
  have hnext := iteratorNext_eq hc h.config.index
    (show (entryIterator (indexLinks c.indexTable) k).nextIndex < size from hns)
  unfold entryIterator at hnext ⊢
  obtain ⟨p, hp⟩ : ∃ p, (indexLinks c.indexTable).prev k = p := ⟨_, rfl⟩
  obtain ⟨n, hn⟩ : ∃ n, (indexLinks c.indexTable).next k = n := ⟨_, rfl⟩
  rw [hp, hn] at hcopy hnext ⊢
  rw [hp] at hps
  rw [hn] at hns
  have hix : ∀ c0 : IpaNatIp4TableCache, c0.indexTable = c.indexTable →
      c.indexTable.tableEntries = c0.indexTable.tableEntries ∧
      c.indexTable.expnTableEntries = c0.indexTable.expnTableEntries ∧
      c.indexTable.entrySize = c0.indexTable.entrySize ∧
      c.indexTable.dmaHelp = c0.indexTable.dmaHelp := by
    intro c0 h0
    rw [h0]
    exact ⟨rfl, rfl, rfl, rfl⟩
  by_cases hp0 : p = 0
  · subst hp0
    by_cases hn0 : n = 0
    · -- a lone head: one command
      subst hn0
      obtain ⟨-, h1, -⟩ | ⟨-, he⟩ := hcopy
      · exact absurd rfl h1
      refine ⟨_, by rw [he]; rfl, ?_⟩
      intro c0 hcfg h0
      obtain ⟨h1, h2, h3, h4⟩ := hix c0 h0
      have hrun : dmaCmd c0 (ipaTableCreateDeleteCommand indexEntryInterface c.indexTable []
          ⟨0, k, 0⟩) = c0.mapIndex k (indexField .updateHead 0) :=
        dmaCmd_addIndex hcfg [] h1 h2 h3 h4 .updateHead 0 hks
      rw [hrun]
      refine ⟨rfl, ?_⟩
      show c0.indexTable.mapSlot k _ = _
      rw [h0]
      rfl
    · -- a head with a tail: two commands on the head
      obtain ⟨-, -, he⟩ | ⟨h1, -⟩ := hcopy
      · have hht : ipaTableIteratorIsHeadWithTail ⟨0, k, n⟩ = true := by
          simp [ipaTableIteratorIsHeadWithTail, validIndex, hn0]
        have hcreate : ipaTableCreateDeleteCommand indexEntryInterface c.indexTable [] ⟨0, k, n⟩ =
            ipaTableAddDmaCmd c.indexTable .deleteHead k (c.indexTable.slot n).tblEntry [] := by
          simp [ipaTableCreateDeleteCommand, validIndex, hn0, indexEntryInterface]
        refine ⟨ipaTableAddDmaCmd c.indexTable .updateEntry k (c.indexTable.slot n).nextIndex
            (ipaTableAddDmaCmd c.indexTable .deleteHead k (c.indexTable.slot n).tblEntry []),
            ?_, ?_⟩
        · rw [indexDeleteCommand, if_pos hht, he, (indexDmaDelete_head _ hn0).2, hcreate]
          rw [show ipaNatiCopySecondIndexEntryToHead c ⟨0, k, n⟩
            (ipaTableAddDmaCmd c.indexTable .deleteHead k (c.indexTable.slot n).tblEntry []) =
            (c.mapNat (c.indexTable.slot n).tblEntry fun r => { r with indxTblEntry := k },
              ipaTableAddDmaCmd c.indexTable .updateEntry k (c.indexTable.slot n).nextIndex
              (ipaTableAddDmaCmd c.indexTable .deleteHead k (c.indexTable.slot n).tblEntry []))
            from rfl]
          dsimp only
          rw [mapNat_indexTable, hnext]
          rfl
        · intro c0 hcfg h0
          obtain ⟨h1, h2, h3, h4⟩ := hix c0 h0
          rw [dmaCmd_addIndex hcfg _ h1 h2 h3 h4 _ _ hks, dmaCmd_addIndex hcfg _ h1 h2 h3 h4 _ _ hks]
          refine ⟨rfl, ?_⟩
          show (c0.indexTable.mapSlot k _).mapSlot k _ = _
          rw [h0]
          simp [indexDmaDelete, hn0]
      · exact absurd ⟨rfl, hn0⟩ h1
  · -- a tail entry: one command on its predecessor
    obtain ⟨h1, -⟩ | ⟨-, he⟩ := hcopy
    · exact absurd h1 hp0
    have hval : validIndex p = true := by simpa [validIndex] using hp0
    have hht : ipaTableIteratorIsHeadWithTail ⟨p, k, n⟩ = false := by
      simp [ipaTableIteratorIsHeadWithTail, hval]
    refine ⟨ipaTableAddDmaCmd c.indexTable .updateEntry p n [], ?_, ?_⟩
    · simp [indexDeleteCommand, hht, he, indexVictim, ipaTableCreateDeleteCommand, hval]
    · intro c0 hcfg h0
      obtain ⟨h1, h2, h3, h4⟩ := hix c0 h0
      rw [dmaCmd_addIndex hcfg _ h1 h2 h3 h4 _ _ hps]
      refine ⟨rfl, ?_⟩
      show c0.indexTable.mapSlot p _ = _
      rw [h0]
      simp [indexDmaDelete, hp0]

theorem dmaCmd_natDelete {c0 : IpaNatIp4TableCache} (hcfg : Config base size c0)
    {t : IpaTable IpaNatRule} (ht : t.tableEntries = c0.table.tableEntries ∧
      t.expnTableEntries = c0.table.expnTableEntries ∧ t.entrySize = c0.table.entrySize ∧
      t.dmaHelp = c0.table.dmaHelp) (cmd : List NatDmaOne) {p i n : ℕ} (hp : p < size)
    (hi : i < size) :
    dmaCmd c0 (ipaTableCreateDeleteCommand (entryInterface fun _ => 0) t cmd ⟨p, i, n⟩) =
      { dmaCmd c0 cmd with table := natDmaDelete (dmaCmd c0 cmd).table ⟨p, i, n⟩ } := by
  obtain ⟨h1, h2, h3, h4⟩ := ht
  by_cases hp0 : p = 0
  · by_cases hn0 : n = 0
    · simp only [ipaTableCreateDeleteCommand, validIndex, hp0, hn0, bne_self_eq_false,
        Bool.false_eq_true, not_false_eq_true, if_true, if_false]
      rw [dmaCmd_addNat hcfg cmd h1 h2 h3 h4 _ _ hi]
      simp [natDmaDelete, IpaNatIp4TableCache.mapNat]
    · have hval : validIndex n = true := by simpa [validIndex] using hn0
      simp only [ipaTableCreateDeleteCommand, hval, hp0, if_true]
      rw [if_pos (by simp [validIndex]), dmaCmd_addNat hcfg cmd h1 h2 h3 h4 _ _ hi]
      simp [natDmaDelete, IpaNatIp4TableCache.mapNat, hn0, entryInterface]
  · have hval : validIndex p = true := by simpa [validIndex] using hp0
    simp only [ipaTableCreateDeleteCommand, hval, not_true_eq_false, if_false]
    rw [dmaCmd_addNat hcfg cmd h1 h2 h3 h4 _ _ hp]
    simp [natDmaDelete, IpaNatIp4TableCache.mapNat, hp0]

theorem eraseEntry_layout {ρ : Type} [RecordLayout ρ] (t : IpaTable ρ) (i : ℕ) :
    ∃ slot cnt expn, ipaTableEraseEntry t i = { t with
      slot := slot, curTblCnt := cnt, curExpnTblCnt := expn } := by
  unfold ipaTableEraseEntry
  split <;> exact ⟨_, _, _, rfl⟩

theorem deleteEntry_layout {ρ υ : Type} [RecordLayout ρ] (ifc : IpaTableEntryInterface ρ υ)
    (t : IpaTable ρ) (it : IpaTableIterator) (b : Bool) :
    ∃ slot cnt expn metaPrev, ipaTableDeleteEntry ifc t it b = { t with
      slot := slot, curTblCnt := cnt, curExpnTblCnt := expn, metaPrev := metaPrev } := by
  unfold ipaTableDeleteEntry
  by_cases hn : validIndex it.nextIndex
  · simp only [hn, if_true]
    obtain ⟨slot, cnt, expn, he⟩ := eraseEntry_layout { t with
      slot := update t.slot it.nextIndex
        (ifc.entrySetPrevIndex (t.slot it.nextIndex) it.nextIndex it.prevIndex t.metaPrev
          t.tableEntries).1
      metaPrev := (ifc.entrySetPrevIndex (t.slot it.nextIndex) it.nextIndex it.prevIndex t.metaPrev
          t.tableEntries).2 } it.currIndex
    exact ⟨_, _, _, _, he⟩
  · simp only [hn]
    by_cases hb : b = true ∧ validIndex it.prevIndex = true
    · obtain ⟨slot, cnt, expn, he⟩ := eraseEntry_layout { t with
        slot := update t.slot it.prevIndex RecordLayout.zero
        curTblCnt := decU16 t.curTblCnt } it.currIndex
      simp only [hb, and_self, if_true]
      exact ⟨_, _, _, _, he⟩
    · obtain ⟨slot, cnt, expn, he⟩ := eraseEntry_layout t it.currIndex
      simp only [hb, if_false]
      exact ⟨_, _, _, _, he⟩

theorem natErase_layout (t : IpaTable IpaNatRule) (it : IpaTableIterator) :
    ∃ slot cnt expn metaPrev, natErase t it = { t with
      slot := slot, curTblCnt := cnt, curExpnTblCnt := expn, metaPrev := metaPrev } := by
  unfold natErase
  split
  · exact deleteEntry_layout _ _ _ _
  · exact ⟨_, _, _, _, rfl⟩

theorem indexErase_layout (t : IpaTable IpaNatIndxTblRule) (it : IpaTableIterator) :
    ∃ slot cnt expn metaPrev, indexErase t it = { t with
      slot := slot, curTblCnt := cnt, curExpnTblCnt := expn, metaPrev := metaPrev } := by
  obtain ⟨slot, cnt, expn, metaPrev, he⟩ :=
    deleteEntry_layout indexEntryInterface t it false
  unfold indexErase
  rw [he]
  exact ⟨_, _, _, _, rfl⟩

theorem Config.eraseDeleted (h : Config base size c) (tableIt indexIt : IpaTableIterator) :
    Config base size (eraseDeleted c tableIt indexIt) ∧
      (eraseDeleted c tableIt indexIt).table = natErase c.table tableIt ∧
      (eraseDeleted c tableIt indexIt).indexTable = indexErase c.indexTable indexIt ∧
      (eraseDeleted c tableIt indexIt).table.nmi = c.table.nmi := by
  have hN : (IpaNat.eraseDeleted c tableIt indexIt).table = natErase c.table tableIt := rfl
  have hI : (IpaNat.eraseDeleted c tableIt indexIt).indexTable = indexErase c.indexTable indexIt :=
    rfl
  refine ⟨?_, hN, hI, ?_⟩
  · obtain ⟨s1, a1, b1, m1, e1⟩ := natErase_layout c.table tableIt
    obtain ⟨s2, a2, b2, m2, e2⟩ := indexErase_layout c.indexTable indexIt
    rw [e1] at hN
    rw [e2] at hI
    refine ⟨h.sizes, h.valid, ?_, ?_, ?_, ?_, ?_, ?_, ?_, ?_⟩
    · rw [hN]; exact ⟨h.nat.1, h.nat.2, h.nat.3⟩
    · rw [hI]; exact ⟨h.index.1, h.index.2, h.index.3⟩
    · rw [hN]; exact h.natSize
    · rw [hI]; exact h.indexSize
    · rw [hN]; exact h.natHelp
    · rw [hI]; exact h.indexHelp
    · rw [hN]; exact h.natMeta
    · rw [hI]; exact h.indexMeta
  · obtain ⟨s1, a1, b1, m1, e1⟩ := natErase_layout c.table tableIt
    rw [hN, e1]

theorem ruleDeleted_of (h : ChainInv base size homeN homeI c) {i k : ℕ}
    (hi : (c.table.slot i).enable = true) (hk : (c.indexTable.slot k).tblEntry ≠ 0)
    {cmd : List NatDmaOne} (hrun : (dmaCmd (copySecond c k) cmd).table = (copySecond c k).table ∧
      (dmaCmd (copySecond c k) cmd).indexTable =
        indexDmaDelete c.indexTable (entryIterator (indexLinks c.indexTable) k)) :
    ∃ q, RuleDeleted base size i k q c (eraseDeleted
      (dmaCmd (copySecond c k) (ipaTableCreateDeleteCommand (entryInterface fun _ => 0)
        (copySecond c k).table cmd (entryIterator (natLinks c.table) i)))
      (entryIterator (natLinks c.table) i)
      (indexVictim c.indexTable (entryIterator (indexLinks c.indexTable) k))) := by
  obtain ⟨rankN, hcN⟩ := h.nat
  obtain ⟨rankI, hcI⟩ := h.index
  have his := hcN.used_lt i hi
  have hps := hcN.prev_lt (by omega) (i := i) hi
  have hcfg := copySecond_config h.config k
  have hrunN := dmaCmd_natDelete hcfg (t := (copySecond c k).table) ⟨rfl, rfl, rfl, rfl⟩ cmd hps
    (n := (natLinks c.table).next i) his
  obtain ⟨hc3, hN, hI, hnmi⟩ := (hcfg.dmaCmd (ipaTableCreateDeleteCommand
    (entryInterface fun _ => 0) (copySecond c k).table cmd
    (entryIterator (natLinks c.table) i))).eraseDeleted (entryIterator (natLinks c.table) i)
    (indexVictim c.indexTable (entryIterator (indexLinks c.indexTable) k))
  have hl := (dmaCmd_layout (copySecond c k) (ipaTableCreateDeleteCommand
    (entryInterface fun _ => 0) (copySecond c k).table cmd
    (entryIterator (natLinks c.table) i))).2.1
  refine ⟨(indexVictim c.indexTable (entryIterator (indexLinks c.indexTable) k)).currIndex,
    hc3, ?_, ?_, ?_⟩
  · refine hnmi.trans ((congrArg IpaTable.nmi hl).trans ?_)
    rcases copySecond_cases c k with ⟨-, -, he⟩ | ⟨-, he⟩ <;> rw [he]
    rfl
  · obtain ⟨he, hn, hp, -⟩ := copySecond_fields c k i
    have hrem := natRemoved (i := i) hcfg.nat (copySecond_natLinks c k ▸ hcN)
      (fun j hj hpj => by
        obtain ⟨hej, -, -, hpj'⟩ := copySecond_fields c k j
        exact (h.dead j (hej ▸ hj) (hpj' ▸ hpj)).1) (he ▸ hi)
    rw [hn, hp] at hrem
    have htab : (dmaCmd (copySecond c k) (ipaTableCreateDeleteCommand (entryInterface fun _ => 0)
        (copySecond c k).table cmd (entryIterator (natLinks c.table) i))).table =
        natDmaDelete (copySecond c k).table (entryIterator (natLinks c.table) i) := by
      have ht := congrArg IpaNatIp4TableCache.table hrunN
      dsimp only at ht
      rw [hrun.1] at ht
      exact ht
    rw [hN, htab]
    exact hrem
  · have hidx : (dmaCmd (copySecond c k) (ipaTableCreateDeleteCommand (entryInterface fun _ => 0)
        (copySecond c k).table cmd (entryIterator (natLinks c.table) i))).indexTable =
        indexDmaDelete c.indexTable (entryIterator (indexLinks c.indexTable) k) := by
      have ht := congrArg IpaNatIp4TableCache.indexTable hrunN
      dsimp only at ht
      rw [hrun.2] at ht
      exact ht
    rw [hI, hidx]
    exact indexRemoved h.config.index hcI hk

theorem delRule_eq (h : ChainInv base size homeN homeI c) {hdl i k : ℕ} (post : Bool)
    (hget : ipaTableGetEntry c.table hdl = .ok i) (hi : (c.table.slot i).enable = true)
    (hik : (c.table.slot i).indxTblEntry = k) (hk : (c.indexTable.slot k).tblEntry ≠ 0) :
    (post = false ∧ ipaNATIDelIpv4Rule c hdl post = (eio, copySecond c k)) ∨
    (post = true ∧ (ipaNATIDelIpv4Rule c hdl post).1 = 0 ∧ ∃ q,
      RuleDeleted base size i k q c (ipaNATIDelIpv4Rule c hdl post).2) := by
  obtain ⟨rankN, hcN⟩ := h.nat
  obtain ⟨rankI, hcI⟩ := h.index
  obtain ⟨hk0, hks⟩ := h.index_pos_lt hk
  have hitN := iteratorInit_eq hcN h.config.nat (i := i) hi
  have hitI := iteratorInit_eq hcI h.config.index (i := k) (indexLinks_occupied.mpr hk)
  have hgetI : ipaTableGetEntryByIndex c.indexTable k = some k :=
    getEntryByIndex_eq h.config.index hk0.ne' hks
  obtain ⟨cmd, hcmd, hrun⟩ := indexDeleteCommand_eq h hk
  have hdel := ruleDeleted_of h hi hk
    (hrun _ (copySecond_config h.config k) (copySecond_indexTable c k))
  unfold ipaNATIDelIpv4Rule
  rw [if_neg (by simp [h.config.valid]), hget]
  dsimp only
  rw [hitN]
  dsimp only
  rw [hik, hgetI]
  dsimp only
  rw [hitI]
  dsimp only
  rw [show (⟨(IpaTable.links indexEntryInterface c.indexTable).prev k, k,
      (IpaTable.links indexEntryInterface c.indexTable).next k⟩ : IpaTableIterator) =
      entryIterator (indexLinks c.indexTable) k from rfl, hcmd]
  dsimp only
  cases post with
  | false => exact Or.inl ⟨rfl, by simp [ipaNatiPostIpv4DmaCmd, eio]⟩
  | true => exact Or.inr ⟨rfl, rfl, hdel⟩

/-- **The error exits of `ipa_NATI_del_ipv4_rule`** before anything is written. -/
theorem delRule_error (h : ChainInv base size homeN homeI c) {hdl : ℕ} (post : Bool)
    (hbad : ∀ i, ipaTableGetEntry c.table hdl = .ok i → (c.table.slot i).enable = true →
      (c.indexTable.slot (c.table.slot i).indxTblEntry).tblEntry = 0) :
    (ipaNATIDelIpv4Rule c hdl post).1 ≠ 0 ∧ (ipaNATIDelIpv4Rule c hdl post).2 = c := by
  unfold ipaNATIDelIpv4Rule
  rw [if_neg (by simp [h.config.valid])]
  cases hget : ipaTableGetEntry c.table hdl with
  | error ret =>
    have hret : ret = einval := by
      unfold ipaTableGetEntry at hget
      dsimp only at hget
      split at hget
      · exact (Except.error.inj hget).symm
      · exact absurd hget (by simp)
    exact ⟨by rw [hret]; simp [einval], rfl⟩
  | ok i =>
    dsimp only
    cases hi : (c.table.slot i).enable with
    | false =>
      rw [iteratorInit_error (show (c.table.links (entryInterface fun _ => 0)).used i = false from hi)]
      exact ⟨by simp [einval], rfl⟩
    | true =>
      obtain ⟨rankN, hcN⟩ := h.nat
      rw [iteratorInit_eq hcN h.config.nat (i := i) hi]
      dsimp only
      have hz := hbad i hget hi
      unfold ipaTableGetEntryByIndex
      by_cases hr : (c.table.slot i).indxTblEntry = 0 ∨
          (c.table.slot i).indxTblEntry ≥ c.indexTable.totTblEnts
      · rw [if_pos hr]
        exact ⟨by simp [eperm], rfl⟩
      · rw [if_neg hr]
        dsimp only
        rw [iteratorInit_error (indexLinks_free.mpr hz)]
        exact ⟨by simp [einval], rfl⟩

end Delete

end Sm8750Modules.IpaNat
