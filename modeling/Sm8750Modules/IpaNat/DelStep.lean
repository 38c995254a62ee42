import Sm8750Modules.IpaNat.Remove

/-!
# Deleting a rule keeps the invariant

The step lemmas of `ipa_NATI_del_ipv4_rule`: an accepted delete keeps the chains
(`RuleDeleted.chainInv`), whatever slot and index entry it works on, and it keeps the cross
references when the slot is live (`RuleDeleted.crossRef`); a refused one leaves the chains alone,
but may have redirected a rule already (`copySecond_chainInv`).
-/

namespace Sm8750Modules.IpaNat

open SlotChain Function

variable {base size : ℕ} {homeN homeI : ℕ → ℕ} {c c' : IpaNatIp4TableCache} {i k q : ℕ}

theorem counted_remove {ρ : Type} {t t' : IpaTable ρ} {L L' : Links} {home rank : ℕ → ℕ}
    (hs : TableSize base size) (hc : Chained base size L home rank) (h : Counted base size t L)
    (hrem : L.Remove base q L')
    (hcnt : t'.curTblCnt = if q < base then decU16 t.curTblCnt else t.curTblCnt)
    (hexpn : t'.curExpnTblCnt = if q < base then t.curExpnTblCnt else decU16 t.curExpnTblCnt) :
    Counted base size t' L' := by
  obtain ⟨h1, h2⟩ := hrem.usedIn_eq hc
  have hb1 := L.usedIn_le 0 base
  have hb2 := L.usedIn_le base size
  have h3 := hs.base_le
  have h4 := hs.expn_le
  have h5 := h.base_cnt
  have h6 := h.expn_cnt
  by_cases hq : q < base
  · rw [if_pos hq] at hcnt hexpn h1 h2
    exact ⟨by rw [hcnt, h5, ← h1, decU16_succ (by omega)], by rw [hexpn, h6]; omega⟩
  · rw [if_neg hq] at hcnt hexpn h1 h2
    exact ⟨by rw [hcnt, h5]; omega, by rw [hexpn, h6, ← h2, decU16_succ (by omega)]⟩

namespace NatRemoved

variable {t t' : IpaTable IpaNatRule} {home rank : ℕ → ℕ}

section

variable (h : NatRemoved base size i t t')
include h

theorem chained (hc : Chained base size (natLinks t) home rank)
    (hdead : ∀ j, (t.slot j).enable = true → (t.slot j).protocol = ipahalNatInvalidProtocol →
      j < base ∧ (t.slot j).nextIndex ≠ 0) (hi : (t.slot i).enable = true) :
    Chained base size (natLinks t') home rank := by
  cases h with
  | deaden hprev hnext ht =>
    have hl : natLinks t' = natLinks t := by
      unfold natLinks IpaTable.links
      rw [ht]
      congr 1 <;> funext m <;> by_cases hm : m = i
      all_goals first
        | (subst hm; simp [IpaTable.mapSlot, entryInterface, IpaNatRule.writeProto])
        | simp [IpaTable.mapSlot, entryInterface, hm]
    rw [hl]
    exact hc
  | erase hkeep hlinks hzero hold hcnt hexpn => exact hlinks.chained hc
  | eraseDead hnext hbase hd hlinks hzero hold hcnt hexpn =>
    have hpb : (t.slot i).prevIndex < base := (hdead _ (hc.prev_used i hi hbase) hd).1
    have hpi : (t.slot i).prevIndex ≠ i := by omega
    rw [hlinks]
    refine (hc.unlink hi hbase).drop hpb ?_
    simp [Links.unlink, hpi, hnext]

theorem counted (hs : TableSize base size)
    (hc : Chained base size (natLinks t) home rank)
    (hdead : ∀ j, (t.slot j).enable = true → (t.slot j).protocol = ipahalNatInvalidProtocol →
      j < base ∧ (t.slot j).nextIndex ≠ 0) (hi : (t.slot i).enable = true)
    (hcnt0 : Counted base size t (natLinks t)) : Counted base size t' (natLinks t') := by
  cases h with
  | deaden hprev hnext ht =>
    have hl : (natLinks t').used = (natLinks t).used := by
      funext m
      rw [natLinks_used, natLinks_used, ht]
      by_cases hm : m = i
      · subst hm; simp [IpaTable.mapSlot, IpaNatRule.writeProto]
      · simp [IpaTable.mapSlot, hm]
    refine ⟨?_, ?_⟩
    · rw [ht]
      exact hcnt0.1.trans (Links.usedIn_congr _ _ fun j _ _ => by rw [← hl, ht]).symm
    · rw [ht]
      exact hcnt0.2.trans (Links.usedIn_congr _ _ fun j _ _ => by rw [← hl, ht]).symm
  | erase hkeep hlinks hzero hold hcnt hexpn =>
    exact counted_remove hs hc hcnt0 hlinks hcnt hexpn
  | eraseDead hnext hbase hd hlinks hzero hold hcnt hexpn =>
    -- two removals in a row: the entry, then its placeholder
    have hpu : (t.slot (t.slot i).prevIndex).enable = true := hc.prev_used i hi hbase
    have hpb := (hdead _ hpu hd).1
    have hpi : (t.slot i).prevIndex ≠ i := by omega
    have h1 : (natLinks t).Remove base i ((natLinks t).unlink i) := .tail hi hbase rfl
    have h2 : ((natLinks t).unlink i).Remove base (t.slot i).prevIndex (natLinks t') :=
      .head (by rw [h1.used_eq, update_of_ne hpi]; exact hpu) hpb
        (by simp [Links.unlink, hpi, hnext]) hlinks
    have hib : ¬ i < base := by omega
    have hmid : Counted base size { t with curExpnTblCnt := decU16 t.curExpnTblCnt }
        ((natLinks t).unlink i) :=
      counted_remove hs hc hcnt0 h1 (by rw [if_neg hib]) (by rw [if_neg hib])
    exact counted_remove hs (hc.unlink hi hbase) hmid h2 (by rw [if_pos hpb]; exact hcnt)
      (by rw [if_pos hpb]; exact hexpn)

theorem free_slot
    (hc : Chained base size (natLinks t) home rank) (hi : (t.slot i).enable = true) {m : ℕ}
    (hm : (t'.slot m).enable = false) :
    t'.slot m = RecordLayout.zero ∨ (t.slot m).enable = false ∧ t'.slot m = t.slot m := by
  cases h with
  | deaden hprev hnext ht =>
    by_cases hmi : m = i
    · subst hmi
      rw [ht] at hm
      simp [IpaTable.mapSlot, IpaNatRule.writeProto, hi] at hm
    · right
      rw [ht] at hm ⊢
      have hs : (t.mapSlot i (IpaNatRule.writeProto ipaNatInvalidProtoFieldValue)).slot m =
          t.slot m := update_of_ne hmi ..
      rw [hs] at hm ⊢
      exact ⟨hm, rfl⟩
  | erase hkeep hlinks hzero hold hcnt hexpn =>
    by_cases hmi : m = i
    · exact Or.inl (hmi ▸ hzero)
    · right
      have hfree : (t.slot m).enable = false := by
        rw [← IpaNatRule.unlinked_enable, ← hold m hmi, IpaNatRule.unlinked_enable, hm]
      obtain ⟨hn, hp⟩ := hlinks.free_links hc (m := m) hfree
      exact ⟨hfree, IpaNatRule.eq_of_unlinked (hold m hmi) hn hp⟩
  | eraseDead hnext hbase hd hlinks hzero hold hcnt hexpn =>
    by_cases hmi : m = i
    · exact Or.inl (hmi ▸ hzero.1)
    by_cases hmp : m = (t.slot i).prevIndex
    · exact Or.inl (hmp ▸ hzero.2)
    · right
      rw [hold m hmi hmp] at hm ⊢
      exact ⟨hm, rfl⟩

theorem dead (hc : Chained base size (natLinks t) home rank)
    (hdead : ∀ j, (t.slot j).enable = true → (t.slot j).protocol = ipahalNatInvalidProtocol →
      j < base ∧ (t.slot j).nextIndex ≠ 0) (hi : (t.slot i).enable = true) {m : ℕ}
    (hm : (t'.slot m).enable = true) (hmd : (t'.slot m).protocol = ipahalNatInvalidProtocol) :
    m < base ∧ (t'.slot m).nextIndex ≠ 0 := by
  have hzeroF : (RecordLayout.zero : IpaNatRule).enable = false := rfl
  cases h with
  | deaden hprev hnext ht =>
    by_cases hmi : m = i
    · subst hmi
      refine ⟨hc.base_of_prev_zero hi hprev, ?_⟩
      rw [ht]
      simpa [IpaTable.mapSlot, IpaNatRule.writeProto] using hnext
    · have hs : t'.slot m = t.slot m := by rw [ht]; exact update_of_ne hmi ..
      rw [hs] at hm hmd ⊢
      exact hdead m hm hmd
  | erase hkeep hlinks hzero hold hcnt hexpn =>
    have hmi : m ≠ i := by
      rintro rfl
      rw [hzero, hzeroF] at hm
      exact absurd hm (by simp)
    have he : (t.slot m).enable = true := by
      rw [← IpaNatRule.unlinked_enable, ← hold m hmi, IpaNatRule.unlinked_enable, hm]
    have hp : (t.slot m).protocol = ipahalNatInvalidProtocol := by
      rw [← IpaNatRule.unlinked_protocol, ← hold m hmi, IpaNatRule.unlinked_protocol, hmd]
    obtain ⟨hb, hn⟩ := hdead m he hp
    refine ⟨hb, hlinks.next_ne_zero hn hmi ?_⟩
    intro hmp hbase
    rcases hkeep with h1 | h1 | h1
    · exact h1
    · exact absurd h1 (hc.prev_ne_zero hi hbase)
    · rw [show (t.slot i).prevIndex = m from hmp.symm] at h1
      exact absurd hp h1
  | eraseDead hnext hbase hd hlinks hzero hold hcnt hexpn =>
    have hmi : m ≠ i := by
      rintro rfl
      rw [hzero.1, hzeroF] at hm
      exact absurd hm (by simp)
    have hmp : m ≠ (t.slot i).prevIndex := by
      intro he
      rw [he, hzero.2, hzeroF] at hm
      exact absurd hm (by simp)
    rw [hold m hmi hmp] at hm hmd ⊢
    exact hdead m hm hmd

/-- **The live rules after a delete**: all but the deleted one, and only their links differ. -/
theorem live_iff (m : ℕ) :
    ((t'.slot m).live = true ↔ (t.slot m).live = true ∧ m ≠ i) ∧
      (m ≠ i → (t.slot m).live = true → (t'.slot m).unlinked = (t.slot m).unlinked) := by
  have hzeroL : (RecordLayout.zero : IpaNatRule).live = false := rfl
  cases h with
  | deaden hprev hnext ht =>
    by_cases hmi : m = i
    · subst hmi
      refine ⟨?_, fun h => absurd rfl h⟩
      rw [ht]
      simp [IpaTable.mapSlot, IpaNatRule.writeProto, IpaNatRule.live,
        ipaNatInvalidProtoFieldValue, ipahalNatInvalidProtocol]
    · have hs : t'.slot m = t.slot m := by rw [ht]; exact update_of_ne hmi ..
      rw [hs]
      exact ⟨by simp [hmi], fun _ _ => rfl⟩
  | erase hkeep hlinks hzero hold hcnt hexpn =>
    by_cases hmi : m = i
    · subst hmi
      rw [hzero, hzeroL]
      exact ⟨by simp, fun h => absurd rfl h⟩
    · refine ⟨?_, fun _ _ => hold m hmi⟩
      rw [← IpaNatRule.unlinked_live, hold m hmi, IpaNatRule.unlinked_live]
      simp [hmi]
  | eraseDead hnext hbase hd hlinks hzero hold hcnt hexpn =>
    by_cases hmi : m = i
    · subst hmi
      rw [hzero.1, hzeroL]
      exact ⟨by simp, fun h => absurd rfl h⟩
    by_cases hmp : m = (t.slot i).prevIndex
    · have hnl : (t.slot m).live = false := by
        rw [hmp]
        simp [IpaNatRule.live, hd]
      rw [hmp, hzero.2, hzeroL, ← hmp, hnl]
      exact ⟨by simp, fun _ h => absurd h (by simp)⟩
    · rw [hold m hmi hmp]
      exact ⟨by simp [hmi], fun _ _ => rfl⟩

end

end NatRemoved

theorem copySecond_chainInv (h : ChainInv base size homeN homeI c) (k : ℕ) :
    ChainInv base size homeN homeI (copySecond c k) := by
  have hN := copySecond_natLinks c k
  have hI := copySecond_indexTable c k
  have hcnt : (copySecond c k).table.curTblCnt = c.table.curTblCnt ∧
      (copySecond c k).table.curExpnTblCnt = c.table.curExpnTblCnt := by
    rcases copySecond_cases c k with ⟨-, -, he⟩ | ⟨-, he⟩ <;> rw [he] <;> exact ⟨rfl, rfl⟩
  refine ⟨copySecond_config h.config k, by rw [hN]; exact h.nat, by rw [hI]; exact h.index,
    ?_, ?_, by rw [hI]; exact h.entry_lt, ?_, by rw [hI]; exact h.indexCnt⟩
  · intro j
    obtain ⟨he, hn, -, hp⟩ := copySecond_fields c k j
    rw [he, hn, hp]
    exact h.dead j
  · intro j
    rw [(copySecond_fields c k j).1, copySecond_slot]
    exact h.blank j
  · rw [hN]
    exact ⟨hcnt.1.trans h.natCnt.1, hcnt.2.trans h.natCnt.2⟩

theorem copySecond_live (c : IpaNatIp4TableCache) (k m : ℕ) :
    ((copySecond c k).table.slot m).live = (c.table.slot m).live := by
  obtain ⟨he, -, -, hp⟩ := copySecond_fields c k m
  unfold IpaNatRule.live
  rw [he, hp]

namespace RuleDeleted

/-- **An accepted delete keeps the chains**, and the bucket of every other slot. -/
theorem chainInv (h : ChainInv base size homeN homeI c)
    (hd : RuleDeleted base size i k q c c') (hi : (c.table.slot i).enable = true) :
    ChainInv base size homeN homeI c' := by
  have h2 := copySecond_chainInv h k
  have hi2 : ((copySecond c k).table.slot i).enable = true := by
    rw [(copySecond_fields c k i).1, hi]
  obtain ⟨rankN, hcN⟩ := h2.nat
  obtain ⟨rankI, hcI⟩ := h.index
  refine ⟨hd.config, ⟨rankN, hd.nat.chained hcN h2.dead hi2⟩,
    ⟨rankI, hd.index.links.chained hcI⟩, ?_, ?_, ?_, ?_, ?_⟩
  · intro m hm hp
    exact hd.nat.dead hcN h2.dead hi2 hm hp
  · intro m hm
    rcases hd.nat.free_slot hcN hi2 hm with hz | ⟨hf, hs⟩
    · rw [hz]
      rfl
    · rw [hs]
      exact h2.blank m hf
  · intro m
    have hlt := h.config.sizes.base_lt
    rw [hd.index.entry m]
    split
    · omega
    · split
      · exact h.entry_lt q
      · exact h.entry_lt m
  · exact hd.nat.counted h.config.sizes hcN h2.dead hi2 h2.natCnt
  · exact counted_remove h.config.sizes hcI h.indexCnt hd.index.links hd.index.cnt hd.index.expnCnt

section

variable (hd : RuleDeleted base size i k q c c')
include hd

theorem live_iff (m : ℕ) : (c'.table.slot m).live = true ↔ (c.table.slot m).live = true ∧ m ≠ i := by
  rw [(hd.nat.live_iff m).1, copySecond_live]

theorem fields_eq {m : ℕ}
    (hm : (c.table.slot m).live = true) (hmi : m ≠ i) :
    (c'.table.slot m).unlinked.unindexed = (c.table.slot m).unlinked.unindexed := by
  have hs := (hd.nat.live_iff m).2 hmi (by rw [copySecond_live]; exact hm)
  have hc := congrArg IpaNatRule.unlinked (copySecond_slot c k m)
  rw [hs]
  exact hc

theorem copySecond_indx (m : ℕ) :
    ((copySecond c k).table.slot m).indxTblEntry =
      if q ≠ k ∧ m = (c.indexTable.slot q).tblEntry then k
      else (c.table.slot m).indxTblEntry := by
  rcases copySecond_cases c k with ⟨hp, hn, he⟩ | ⟨hno, he⟩
  · have hq : (indexLinks c.indexTable).next k = q ∧ q ≠ k := by
      rcases hd.index.victim with ⟨-, h1 | h1⟩ | ⟨-, h1, -, h2⟩
      · exact absurd hp h1
      · exact absurd h1 hn
      · exact ⟨h1, h2⟩
    rw [he, hq.1]
    show (update c.table.slot _ _ m).indxTblEntry = _
    by_cases hm : m = (c.indexTable.slot q).tblEntry
    · rw [if_pos ⟨hq.2, hm⟩, ← hm, update_self]
    · rw [if_neg (fun hc => hm hc.2), update_of_ne hm]
  · have hq : q = k := by
      rcases hd.index.victim with ⟨h1, -⟩ | ⟨h1, h2, h3, -⟩
      · exact h1
      · exact absurd ⟨h1, by rw [h2]; exact h3⟩ hno
    rw [he, if_neg (fun hc => hc.1 hq)]

theorem indx_eq {m : ℕ}
    (hm : (c.table.slot m).live = true) (hmi : m ≠ i) :
    (c'.table.slot m).indxTblEntry =
      if q ≠ k ∧ m = (c.indexTable.slot q).tblEntry then k
      else (c.table.slot m).indxTblEntry := by
  have hs := (hd.nat.live_iff m).2 hmi (by rw [copySecond_live]; exact hm)
  rw [← hd.copySecond_indx, ← IpaNatRule.unlinked_indxTblEntry, hs, IpaNatRule.unlinked_indxTblEntry]

end

theorem home_moved (h : ChainInv base size homeN homeI c)
    (hd : RuleDeleted base size i k q c c') : homeI q = homeI k := by
  obtain ⟨rank, hc⟩ := h.index
  rcases hd.index.victim with ⟨he, -⟩ | ⟨-, hn, hq, -⟩
  · rw [he]
  · have hh := hc.home_next k (by rw [hn]; exact hq)
    rwa [hn] at hh

/-- **An accepted delete of a live rule keeps the cross references**: the rule whose index entry
has moved was redirected to the slot it has moved to. -/
theorem crossRef (h : ChainInv base size homeN homeI c) (hx : CrossRef c)
    (hd : RuleDeleted base size i k q c c') (hi : (c.table.slot i).live = true)
    (hik : (c.table.slot i).indxTblEntry = k) : CrossRef c' := by
  have hie := ChainInv.used_of_live hi
  have hki : (c.indexTable.slot k).tblEntry = i := hik ▸ hx.rule i hi
  have hqu : (c.indexTable.slot q).tblEntry ≠ 0 := indexLinks_occupied.mp hd.index.links.used
  obtain ⟨hql, hqr⟩ := hx.entry q hqu
  constructor
  · intro m hm
    obtain ⟨rankN, hcN⟩ := (copySecond_chainInv h k).nat
    rcases hd.nat.free_slot hcN (by rw [(copySecond_fields c k i).1, hie]) hm with hz | ⟨hf, hs⟩
    · exact hz
    · rw [(copySecond_fields c k m).1] at hf
      have hnq : ¬ (q ≠ k ∧ m = (c.indexTable.slot q).tblEntry) := by
        rintro ⟨-, hmq⟩
        rw [← hmq, IpaNatRule.live, hf] at hql
        exact absurd hql (by simp)
      have hidx := hd.copySecond_indx m
      rw [if_neg hnq] at hidx
      rw [hs, IpaNatRule.eq_of_unindexed (copySecond_slot c k m) hidx]
      exact hx.zero m hf
  · intro m hm
    obtain ⟨hm, hmi⟩ := (hd.live_iff m).mp hm
    rw [hd.indx_eq hm hmi, hd.index.entry]
    by_cases hmq : q ≠ k ∧ m = (c.indexTable.slot q).tblEntry
    · rw [if_pos hmq, if_neg (Ne.symm hmq.1), if_pos rfl, hmq.2]
    · rw [if_neg hmq]
      have hr := hx.rule m hm
      have hne : (c.table.slot m).indxTblEntry ≠ k := by
        intro he
        rw [he, hki] at hr
        exact hmi hr.symm
      have hnq : (c.table.slot m).indxTblEntry ≠ q := by
        intro he
        rw [he] at hr
        exact hmq ⟨fun hqk => hne (he.trans hqk), hr.symm⟩
      rw [if_neg hnq, if_neg hne, hr]
  · intro r hr
    rw [hd.index.entry] at hr ⊢
    by_cases hrq : r = q
    · rw [if_pos hrq] at hr
      exact absurd rfl hr
    rw [if_neg hrq] at hr ⊢
    by_cases hrk : r = k
    · -- the moved entry
      have hqk : q ≠ k := fun he => hrq (hrk.trans he.symm)
      rw [if_pos hrk]
      have hji : (c.indexTable.slot q).tblEntry ≠ i := by
        intro he
        rw [he, hik] at hqr
        exact hqk hqr.symm
      refine ⟨(hd.live_iff _).mpr ⟨hql, hji⟩, ?_⟩
      rw [hd.indx_eq hql hji, if_pos ⟨hqk, rfl⟩, hrk]
    · rw [if_neg hrk] at hr ⊢
      obtain ⟨hrl, hrr⟩ := hx.entry r hr
      have hji : (c.indexTable.slot r).tblEntry ≠ i := by
        intro he
        rw [he, hik] at hrr
        exact hrk hrr.symm
      refine ⟨(hd.live_iff _).mpr ⟨hrl, hji⟩, ?_⟩
      rw [hd.indx_eq hrl hji, if_neg, hrr]
      rintro ⟨-, he⟩
      rw [he, hqr] at hrr
      exact hrq hrr.symm

end RuleDeleted

end Sm8750Modules.IpaNat
