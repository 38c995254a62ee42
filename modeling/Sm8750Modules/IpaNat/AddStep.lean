import Sm8750Modules.IpaNat.Insert

/-!
# Adding a rule keeps the invariant

The step lemmas of `ipa_NATI_add_ipv4_rule` for `ChainInv` and for `CrossRef`: a rule that was
added belongs to the buckets of its hashes (`RuleAdded.chainInv`), it and its index entry name
each other (`RuleAdded.crossRef`), and a refused addition changes neither.
-/

namespace Sm8750Modules.IpaNat

open SlotChain

variable {base size : ℕ} {homeN homeI : ℕ → ℕ} {c c' : IpaNatIp4TableCache}
  {g : NatDrvi} {clnt : IpaNatIpv4Rule} {n k : ℕ}

theorem counted_insert {ρ : Type} {t t' : IpaTable ρ} {L L' : Links} {b : ℕ}
    (hs : TableSize base size) (hb : b < base) (h : Counted base size t L)
    (hins : L.Insert base size b n L')
    (hcnt : t'.curTblCnt = if n < base then incU16 t.curTblCnt else t.curTblCnt)
    (hexpn : t'.curExpnTblCnt = if n < base then t.curExpnTblCnt else incU16 t.curExpnTblCnt) :
    Counted base size t' L' := by
  obtain ⟨h1, h2⟩ := hins.usedIn_eq hb
  have hb1 := L'.usedIn_le 0 base
  have hb2 := L'.usedIn_le base size
  have h3 := hs.base_le
  have h4 := hs.expn_le
  have h5 := h.base_cnt
  have h6 := h.expn_cnt
  constructor
  · rw [hcnt, h1]
    by_cases hn : n < base
    · rw [if_pos hn] at h1 ⊢
      rw [if_pos hn, incU16_of_lt (by omega), h5]
    · rw [if_neg hn, if_neg hn, h5, Nat.add_zero]
  · rw [hexpn, h2]
    by_cases hn : n < base
    · rw [if_pos hn, if_pos hn, h6, Nat.add_zero]
    · rw [if_neg hn] at h2 ⊢
      rw [if_neg hn, incU16_of_lt (by omega), h6]

namespace RuleAdded

theorem slot_pos_lt (h : ChainInv base size homeN homeI c)
    (ha : RuleAdded base size g clnt n k c c') : 0 < n ∧ n < size := by
  obtain ⟨hb0, hb⟩ := newEntryIndex_range h.config g clnt
  exact ha.nat.insert.pos_lt hb0 hb h.config.sizes.base_lt.le

section

variable (ha : RuleAdded base size g clnt n k c c')
include ha

theorem slot_free : (c.table.slot n).enable = false :=
  ha.nat.insert.free

theorem entry_free : (c.indexTable.slot k).tblEntry = 0 :=
  indexLinks_free.mp ha.index.insert.free

theorem free_slot {m : ℕ}
    (hm : (c'.table.slot m).enable = false) :
    (c.table.slot m).enable = false ∧ c'.table.slot m = c.table.slot m := by
  have hmn : m ≠ n := by
    rintro rfl
    have := congrArg IpaNatRule.enable ha.nat.record_new
    rw [IpaNatRule.unlinked_enable, hm] at this
    exact absurd this (by simp [newRecord])
  have hold := ha.nat.record_old m hmn
  have hfree : (c.table.slot m).enable = false := by
    rw [← IpaNatRule.unlinked_enable, ← hold, IpaNatRule.unlinked_enable, hm]
  obtain ⟨hnext, hprev⟩ := ha.nat.insert.free_links hfree hmn
  exact ⟨hfree, IpaNatRule.eq_of_unlinked hold hnext hprev⟩

end

/-- **Adding a rule keeps the chains**; it joins the buckets of its hashes. -/
theorem chainInv (h : ChainInv base size homeN homeI c)
    (hproto : clnt.protocol ≠ ipahalNatInvalidProtocol)
    (ha : RuleAdded base size g clnt n k c c') :
    ChainInv base size (Function.update homeN n (newEntryIndex g c clnt))
      (Function.update homeI k (newIndexTblEntryIndex (g.bumpToken clnt.srcOnly) c clnt)) c' := by
  obtain ⟨hb0, hb⟩ := newEntryIndex_range h.config g clnt
  obtain ⟨hi0, hi⟩ := newIndexTblEntryIndex_range h.config (g.bumpToken clnt.srcOnly) clnt
  have hle := h.config.sizes.base_lt.le
  obtain ⟨hn0, hns⟩ := ha.slot_pos_lt h
  obtain ⟨rankN, hcN⟩ := h.nat
  obtain ⟨rankI, hcI⟩ := h.index
  refine ⟨ha.config, ha.nat.insert.chained hb0 hb hle hcN, ha.index.insert.chained hi0 hi hle hcI,
    ?_, ?_, ?_, ?_, ?_⟩
  · intro m hm hdead
    have hmn : m ≠ n := by
      rintro rfl
      have := congrArg IpaNatRule.protocol ha.nat.record_new
      rw [IpaNatRule.unlinked_protocol, hdead] at this
      exact hproto this.symm
    have hold := ha.nat.record_old m hmn
    have he : (c.table.slot m).enable = true := by
      rw [← IpaNatRule.unlinked_enable, ← hold, IpaNatRule.unlinked_enable, hm]
    have hp : (c.table.slot m).protocol = ipahalNatInvalidProtocol := by
      rw [← IpaNatRule.unlinked_protocol, ← hold, IpaNatRule.unlinked_protocol, hdead]
    obtain ⟨hmb, hnext⟩ := h.dead m he hp
    exact ⟨hmb, ha.nat.insert.next_ne_zero hnext⟩
  · intro m hm
    obtain ⟨hfree, hslot⟩ := ha.free_slot hm
    rw [hslot]
    exact h.blank m hfree
  · intro m
    by_cases hm : m = k
    · rw [hm, ha.index.entry_new]
      exact hns
    · rw [ha.index.entry_old m hm]
      exact h.entry_lt m
  · exact counted_insert h.config.sizes hb h.natCnt ha.nat.insert ha.nat.cnt ha.nat.expnCnt
  · exact counted_insert h.config.sizes hi h.indexCnt ha.index.insert ha.index.cnt ha.index.expnCnt

theorem live_iff (hproto : clnt.protocol ≠ ipahalNatInvalidProtocol)
    (ha : RuleAdded base size g clnt n k c c') (m : ℕ) :
    (c'.table.slot m).live = true ↔ m = n ∨ (c.table.slot m).live = true := by
  by_cases hm : m = n
  · subst hm
    rw [← IpaNatRule.unlinked_live, ha.nat.record_new, newRecord_live hproto]
    simp
  · rw [← IpaNatRule.unlinked_live, ha.nat.record_old m hm, IpaNatRule.unlinked_live]
    simp [hm]

theorem ne_of_live (ha : RuleAdded base size g clnt n k c c') {m : ℕ}
    (hm : (c.table.slot m).live = true) : m ≠ n := by
  rintro rfl
  rw [IpaNatRule.live, ha.slot_free] at hm
  exact absurd hm (by simp)

theorem crossRef (h : ChainInv base size homeN homeI c) (hx : CrossRef c)
    (hproto : clnt.protocol ≠ ipahalNatInvalidProtocol)
    (ha : RuleAdded base size g clnt n k c c') : CrossRef c' := by
  have hn0 := (ha.slot_pos_lt h).1
  have hnew : (c'.table.slot n).indxTblEntry = k := by
    rw [← IpaNatRule.unlinked_indxTblEntry, ha.nat.record_new]
    rfl
  have hold : ∀ m, m ≠ n → (c'.table.slot m).indxTblEntry = (c.table.slot m).indxTblEntry := by
    intro m hm
    rw [← IpaNatRule.unlinked_indxTblEntry, ha.nat.record_old m hm, IpaNatRule.unlinked_indxTblEntry]
  constructor
  · intro m hm
    obtain ⟨hfree, hslot⟩ := ha.free_slot hm
    rw [hslot]
    exact hx.zero m hfree
  · intro m hm
    obtain rfl | hm := (ha.live_iff hproto m).mp hm
    · rw [hnew, ha.index.entry_new]
    · have hmn := ha.ne_of_live hm
      have hr := hx.rule m hm
      rw [hold m hmn, ha.index.entry_old]
      · exact hr
      · intro hk
        rw [hk, ha.entry_free] at hr
        exact (h.nat_pos_lt (ChainInv.used_of_live hm)).1.ne hr
  · intro q hq
    by_cases hqk : q = k
    · rw [hqk, ha.index.entry_new]
      exact ⟨(ha.live_iff hproto n).mpr (Or.inl rfl), hnew⟩
    · rw [ha.index.entry_old q hqk] at hq ⊢
      obtain ⟨hlive, hidx⟩ := hx.entry q hq
      exact ⟨(ha.live_iff hproto _).mpr (Or.inr hlive), (hold _ (ha.ne_of_live hlive)).trans hidx⟩

end RuleAdded

namespace AddRefused

theorem enable_eq (ha : AddRefused base size c c') (m : ℕ) :
    (c'.table.slot m).enable = (c.table.slot m).enable := by
  rcases ha.natSlot m with h | ⟨hfree, hzero⟩
  · rw [h]
  · rw [hzero, hfree]
    rfl

theorem used_slot (ha : AddRefused base size c c') {m : ℕ}
    (hm : (c.table.slot m).enable = true) : c'.table.slot m = c.table.slot m := by
  rcases ha.natSlot m with h | ⟨hfree, -⟩
  · exact h
  · rw [hm] at hfree
    exact absurd hfree (by simp)

theorem natLinks_eq (h : ChainInv base size homeN homeI c) (ha : AddRefused base size c c') :
    natLinks c'.table = natLinks c.table := by
  have hslot : ∀ m, (c'.table.slot m).nextIndex = (c.table.slot m).nextIndex ∧
      (c'.table.slot m).prevIndex = (c.table.slot m).prevIndex := by
    intro m
    rcases ha.natSlot m with hm | ⟨hfree, hzero⟩
    · rw [hm]
      exact ⟨rfl, rfl⟩
    · have hb := h.blank m hfree
      rw [hzero, ← hb]
      exact ⟨rfl, rfl⟩
  unfold natLinks IpaTable.links
  congr 1
  · funext m; exact ha.enable_eq m
  · funext m; exact (hslot m).1
  · funext m; exact (hslot m).2

theorem chainInv (h : ChainInv base size homeN homeI c) (ha : AddRefused base size c c') :
    ChainInv base size homeN homeI c' := by
  have hN := ha.natLinks_eq h
  have hIused : (indexLinks c'.indexTable).used = (indexLinks c.indexTable).used := by
    funext m
    rw [indexLinks_used, indexLinks_used, ha.indexSlot]
  refine ⟨ha.config, by rw [hN]; exact h.nat, ?_, ?_, ?_, ?_, ?_, ?_⟩
  · obtain ⟨rank, hc⟩ := h.index
    refine ⟨rank, hc.congr hIused ?_ ha.indexPrev⟩
    funext m
    rw [indexLinks_next, indexLinks_next, ha.indexSlot]
  · intro m hm hp
    rw [ha.enable_eq] at hm
    rw [ha.used_slot hm] at hp ⊢
    exact h.dead m hm hp
  · intro m hm
    rcases ha.natSlot m with hs | ⟨-, hs⟩
    · rw [hs] at hm ⊢
      exact h.blank m hm
    · rw [hs]
      rfl
  · intro m
    rw [ha.indexSlot]
    exact h.entry_lt m
  · rw [hN]
    exact ⟨ha.natCnt.1.trans h.natCnt.1, ha.natCnt.2.trans h.natCnt.2⟩
  · exact ⟨ha.indexCnt.1.trans (h.indexCnt.1.trans (Links.usedIn_congr _ _ fun i _ _ => by
        rw [hIused]).symm),
      ha.indexCnt.2.trans (h.indexCnt.2.trans (Links.usedIn_congr _ _ fun i _ _ => by
        rw [hIused]).symm)⟩

theorem slot_eq (hx : CrossRef c) (ha : AddRefused base size c c') : c'.table.slot = c.table.slot := by
  funext m
  rcases ha.natSlot m with hs | ⟨hfree, hs⟩
  · exact hs
  · rw [hs, hx.zero m hfree]

theorem crossRef (hx : CrossRef c) (ha : AddRefused base size c c') : CrossRef c' := by
  have hs := ha.slot_eq hx
  refine ⟨?_, ?_, ?_⟩
  · rw [hs]; exact hx.zero
  · rw [hs, ha.indexSlot]; exact hx.rule
  · rw [hs, ha.indexSlot]; exact hx.entry

end AddRefused

end Sm8750Modules.IpaNat
