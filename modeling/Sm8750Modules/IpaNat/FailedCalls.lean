import Sm8750Modules.IpaNat.StaleHandle

/-!
# Calls that fail

A call that returns an error should leave the table as it was. A refused addition does, in every
reachable state.
-/

namespace Sm8750Modules.IpaNat

open SlotChain Runs Function

variable {base size : ℕ} {homeN homeI : ℕ → ℕ} {c c' : IpaNatIp4TableCache} {i k q : ℕ}

def DelAtomic (c : IpaNatIp4TableCache) (hdl : ℕ) (post : Bool) : Prop :=
  (ipaNATIDelIpv4Rule c hdl post).1 ≠ 0 → (ipaNATIDelIpv4Rule c hdl post).2 = c

/-- The commands for slot `i` are executed; or the index slot that it names is free; or that entry heads no
chain with a second entry whose rule names another slot. -/
def HarmlessPost (c : IpaNatIp4TableCache) (i : ℕ) (post : Bool) : Prop :=
  post = true ∨ (c.indexTable.slot (c.table.slot i).indxTblEntry).tblEntry = 0 ∨
    CopyKeeps c (c.table.slot i).indxTblEntry
deriving Decidable

/-- **When a delete of a live rule is atomic**, in every reachable state. -/
theorem delAtomic_iff {guard : NatClient → NatOp → Prop} {s : NatClient} (h : (natClient guard).Reachable s)
    {hdl : ℕ} (hr : s.rules hdl ≠ none) (post : Bool) :
    DelAtomic s.cache hdl post ↔ HarmlessPost s.cache (breakRuleHdl s.cache.table hdl) post := by
  obtain ⟨base, size, homeN, homeI, hinv⟩ := clientInv_reachable h
  obtain ⟨i, hi, -, hget⟩ := hinv.slot_of_rule hr
  rw [breakRuleHdl_of_getEntry hget]
  by_cases hk : (s.cache.indexTable.slot (s.cache.table.slot i).indxTblEntry).tblEntry = 0
  · refine iff_of_true (fun _ => (delRule_error hinv.chain post fun j hj _ => ?_).2) (.inr (.inl hk))
    rw [hget] at hj
    cases hj
    exact hk
  · rcases delRule_eq hinv.chain post hget (ChainInv.used_of_live hi) rfl hk with ⟨rfl, he⟩ | ⟨rfl, hret, -⟩
    · rw [DelAtomic, he, copySecond_eq_iff]
      simp [HarmlessPost, eio, hk]
    · exact iff_of_true (fun hne => absurd hret hne) (.inl rfl)

theorem delAtomic_smallPair : DelAtomic smallPair.cache 1 false :=
  (delAtomic_iff smallPair_reachable (by decide) false).mpr (by decide)

/-- **A delete that fails has redirected a rule.**  The first of two rules of one bucket is deleted and the
command list refused: the second rule names the index entry of the first. -/
theorem not_delAtomic :
    ¬ (∀ s, (natClient Hashed).Reachable s → ∀ hdl, s.rules hdl ≠ none → ∀ post, DelAtomic s.cache hdl post) ∧
    (ipaNATIDelIpv4Rule smallPair.cache 6 false).1 = eio ∧ CrossRef smallPair.cache ∧
    ¬ CrossRef (ipaNATIDelIpv4Rule smallPair.cache 6 false).2 := by
  have hcross : CrossRef smallPair.cache := by
    obtain ⟨_, _, _, _, hinv⟩ := orderlyInv_reachable (orderly_of_hashed smallPair_reachable)
    exact hinv.cross
  have hbroken : ¬ CrossRef (ipaNATIDelIpv4Rule smallPair.cache 6 false).2 := fun hx =>
    absurd (hx.rule 4 (by decide)) (by decide)
  refine ⟨fun hall => hbroken ?_, by decide, hcross, hbroken⟩
  rw [hall smallPair smallPair_reachable 6 smallPair_rule false (by decide)]
  exact hcross

/-! ### Rules behind the entries of the expansion area -/

/-- **Every index entry of the expansion area names a live rule**, which names it or, after a delete that
failed, the head that it hangs behind. -/
structure TailLive (base : ℕ) (c : IpaNatIp4TableCache) : Prop where
  live : ∀ t, base ≤ t → (c.indexTable.slot t).tblEntry ≠ 0 →
    (c.table.slot (c.indexTable.slot t).tblEntry).live = true
  names : ∀ t, base ≤ t → (c.indexTable.slot t).tblEntry ≠ 0 →
    (c.table.slot (c.indexTable.slot t).tblEntry).indxTblEntry = t ∨
      (c.table.slot (c.indexTable.slot t).tblEntry).indxTblEntry < base ∧
        (indexLinks c.indexTable).next (c.table.slot (c.indexTable.slot t).tblEntry).indxTblEntry = t
  zero : ∀ i, (c.table.slot i).enable = false → c.table.slot i = RecordLayout.zero

namespace TailLive

theorem entry_inj (h : TailLive base c) {t t' : ℕ} (ht : base ≤ t) (ht' : base ≤ t')
    (hu : (c.indexTable.slot t).tblEntry ≠ 0)
    (he : (c.indexTable.slot t).tblEntry = (c.indexTable.slot t').tblEntry) : t = t' := by
  have h1 := h.names t ht hu
  have h2 := h.names t' ht' (he ▸ hu)
  rw [← he] at h2
  rcases h1 with h1 | ⟨h1, hn1⟩
  · rcases h2 with h2 | ⟨h2, -⟩ <;> omega
  · rcases h2 with h2 | ⟨-, hn2⟩
    · omega
    · exact hn1.symm.trans hn2

theorem second (hc : ChainInv base size homeN homeI c) (hp : (indexLinks c.indexTable).prev k = 0)
    (hn : (indexLinks c.indexTable).next k ≠ 0) : k < base ∧ base ≤ (indexLinks c.indexTable).next k ∧
      (c.indexTable.slot ((indexLinks c.indexTable).next k)).tblEntry ≠ 0 := by
  obtain ⟨rank, hI⟩ := hc.index
  exact ⟨hI.base_of_prev_zero (hI.used_of_next hn) hp, hI.next_expn k hn,
    indexLinks_occupied.mp (hI.next_used k hn)⟩

theorem copySecond (h : TailLive base c) (hc : ChainInv base size homeN homeI c) (k : ℕ) :
    TailLive base (copySecond c k) := by
  have hI := copySecond_indexTable c k
  have hlive : ∀ t, base ≤ t → (c.indexTable.slot t).tblEntry ≠ 0 →
      ((IpaNat.copySecond c k).table.slot (c.indexTable.slot t).tblEntry).live = true := fun t ht hu => by
    rw [copySecond_live]
    exact h.live t ht hu
  rcases copySecond_cases c k with ⟨hp, hn, he⟩ | ⟨-, he⟩
  · obtain ⟨hkb, hqb, hqu⟩ := second hc hp hn
    refine ⟨by rw [hI]; exact hlive, ?_, fun m hm => ?_⟩
    · rw [hI]
      intro t ht hu
      rw [he]
      show (update c.table.slot _ _ _).indxTblEntry = t ∨
        (update c.table.slot _ _ _).indxTblEntry < base ∧
          (indexLinks c.indexTable).next (update c.table.slot _ _ _).indxTblEntry = t
      by_cases htq : t = (indexLinks c.indexTable).next k
      · rw [htq, update_self]
        exact .inr ⟨hkb, rfl⟩
      · rw [update_of_ne fun heq => htq (h.entry_inj ht hqb hu heq)]
        exact h.names t ht hu
    · rw [(copySecond_fields c k m).1] at hm
      have hne : m ≠ (c.indexTable.slot ((indexLinks c.indexTable).next k)).tblEntry := by
        rintro rfl
        rw [ChainInv.used_of_live (h.live _ hqb hqu)] at hm
        cases hm
      rw [he]
      exact (update_of_ne hne ..).trans (h.zero m hm)
  · rw [he]
    exact h

/-- Where a head with a second entry is deleted, it is the second entry that goes. -/
theorem victim_of_head (hc : ChainInv base size homeN homeI c) (hd : RuleDeleted base size i k q c c')
    (hk : k < base) (hn : (indexLinks c.indexTable).next k ≠ 0) : q = (indexLinks c.indexTable).next k := by
  obtain ⟨rank, hI⟩ := hc.index
  rcases hd.index.victim with ⟨-, hp | hz⟩ | ⟨-, hq, -⟩
  · exact absurd (hI.base_prev k hk) hp
  · exact absurd hz hn
  · exact hq.symm

section

variable (h : TailLive base c)
include h

/-- An entry of the expansion area that a delete leaves names what it named, and not the deleted rule. -/
theorem entry_kept (hc : ChainInv base size homeN homeI c)
    (hd : RuleDeleted base size i k q c c') (hik : (c.table.slot i).indxTblEntry = k) {t : ℕ} (ht : base ≤ t)
    (hu : (c'.indexTable.slot t).tblEntry ≠ 0) : t ≠ q ∧
      (c'.indexTable.slot t).tblEntry = (c.indexTable.slot t).tblEntry ∧
      (c.indexTable.slot t).tblEntry ≠ 0 ∧ (c.indexTable.slot t).tblEntry ≠ i := by
  have hentry := hd.index.entry t
  have htq : t ≠ q := by
    rintro rfl
    rw [if_pos rfl] at hentry
    exact hu hentry
  have htk : t ≠ k := by
    rintro rfl
    rcases hd.index.victim with ⟨rfl, -⟩ | ⟨hp, hn, hq, -⟩
    · exact htq rfl
    · exact absurd (second hc hp (hn ▸ hq)).1 (by omega)
  rw [if_neg htq, if_neg htk] at hentry
  rw [hentry] at hu
  refine ⟨htq, hentry, hu, ?_⟩
  rintro rfl
  rcases hik ▸ h.names t ht hu with he | ⟨hkb, hn⟩
  · exact htk he.symm
  · rw [victim_of_head hc hd hkb (by rw [hn]; exact (hc.index_pos_lt hu).1.ne')] at htq
    exact htq hn.symm

theorem deleted (hc : ChainInv base size homeN homeI c)
    (hd : RuleDeleted base size i k q c c') (hi : (c.table.slot i).enable = true)
    (hik : (c.table.slot i).indxTblEntry = k) : TailLive base c' := by
  obtain ⟨rank, hI⟩ := hc.index
  refine ⟨fun t ht hu => ?_, fun t ht hu => ?_, fun m hm => ?_⟩
  · obtain ⟨-, he, hu', hne⟩ := h.entry_kept hc hd hik ht hu
    rw [he, hd.live_iff]
    exact ⟨h.live t ht hu', hne⟩
  · obtain ⟨htq, he, hu', hne⟩ := h.entry_kept hc hd hik ht hu
    have hkeep : ¬ (q ≠ k ∧ (c.indexTable.slot t).tblEntry = (c.indexTable.slot q).tblEntry) := by
      rintro ⟨hqk, heq⟩
      rcases hd.index.victim with ⟨hqk', -⟩ | ⟨hp, hn, hq, -⟩
      · exact hqk hqk'
      · have hqb := (second hc hp (hn ▸ hq)).2.1
        rw [hn] at hqb
        exact htq (h.entry_inj ht hqb hu' heq)
    rw [he, hd.indx_eq (h.live t ht hu') hne, if_neg hkeep]
    refine (h.names t ht hu').imp_right fun ⟨hb, hn⟩ => ⟨hb, ?_⟩
    have hnz : (indexLinks c.indexTable).next (c.table.slot (c.indexTable.slot t).tblEntry).indxTblEntry ≠ 0 := by
      rw [hn]
      exact (hc.index_pos_lt hu').1.ne'
    rw [hd.index.links.next_eq hI ?_ (by rw [hn]; exact htq), hn]
    intro heq
    rw [heq] at hb hn hnz
    rcases hd.index.victim with ⟨rfl, -⟩ | ⟨hp, hn', hq, -⟩
    · rw [← hn] at htq
      exact htq (victim_of_head hc hd hb hnz).symm
    · exact absurd (second hc hp (hn' ▸ hq)).2.1 (by omega)
  · have hi2 : ((IpaNat.copySecond c k).table.slot i).enable = true := by
      rw [(copySecond_fields c k i).1, hi]
    obtain ⟨rankN, hN⟩ := (copySecond_chainInv hc k).nat
    rcases hd.nat.free_slot hN hi2 hm with hz | ⟨hf, hs⟩
    · exact hz
    · rw [hs]
      exact (h.copySecond hc k).zero m hf

theorem added {g : NatDrvi} {clnt : IpaNatIpv4Rule} {n : ℕ}
    (hproto : clnt.protocol ≠ ipahalNatInvalidProtocol) (ha : RuleAdded base size g clnt n k c c') :
    TailLive base c' := by
  have hnew : (c'.table.slot n).indxTblEntry = k := by
    rw [← IpaNatRule.unlinked_indxTblEntry, ha.nat.record_new]
    rfl
  have hold : ∀ m, m ≠ n → (c'.table.slot m).indxTblEntry = (c.table.slot m).indxTblEntry := fun m hm => by
    rw [← IpaNatRule.unlinked_indxTblEntry, ha.nat.record_old m hm, IpaNatRule.unlinked_indxTblEntry]
  refine ⟨fun t ht hu => ?_, fun t ht hu => ?_, fun m hm => ?_⟩
  · by_cases htk : t = k
    · rw [htk, ha.index.entry_new]
      exact (ha.live_iff hproto n).mpr (.inl rfl)
    · rw [ha.index.entry_old t htk] at hu ⊢
      exact (ha.live_iff hproto _).mpr (.inr (h.live t ht hu))
  · by_cases htk : t = k
    · rw [htk, ha.index.entry_new]
      exact .inl hnew
    · rw [ha.index.entry_old t htk] at hu ⊢
      rw [hold _ (ha.ne_of_live (h.live t ht hu))]
      refine (h.names t ht hu).imp_right fun ⟨hb, hn⟩ => ⟨hb, ?_⟩
      rw [ha.index.insert.next_eq, hn]
      rw [hn]
      rintro rfl
      exact absurd hb (by omega)
  · obtain ⟨hfree, hslot⟩ := ha.free_slot hm
    rw [hslot]
    exact h.zero m hfree

theorem slot_eq (ha : AddRefused base size c c') : c'.table.slot = c.table.slot := by
  funext m
  rcases ha.natSlot m with hs | ⟨hfree, hs⟩
  · exact hs
  · rw [hs, h.zero m hfree]

theorem refused (ha : AddRefused base size c c') : TailLive base c' := by
  have hs := h.slot_eq ha
  have hnext : (indexLinks c'.indexTable).next = (indexLinks c.indexTable).next := by
    funext m
    rw [indexLinks_next, indexLinks_next, ha.indexSlot]
  refine ⟨?_, ?_, ?_⟩
  · rw [hs, ha.indexSlot]
    exact h.live
  · rw [hs, ha.indexSlot, hnext]
    exact h.names
  · rw [hs]
    exact h.zero

end

theorem of_empty (hnat : ∀ i, c.table.slot i = RecordLayout.zero)
    (hindex : ∀ k, c.indexTable.slot k = RecordLayout.zero) : TailLive base c := by
  refine ⟨fun t _ hu => ?_, fun t _ hu => ?_, fun i _ => hnat i⟩ <;>
  · rw [hindex] at hu
    exact absurd rfl hu

end TailLive

/-- The chains hold, and each entry of the expansion area names a live rule. -/
structure TailInv (base size : ℕ) (homeN homeI : ℕ → ℕ) (s : NatClient) : Prop where
  chain : ChainInv base size homeN homeI s.cache
  tail : TailLive base s.cache

theorem tailInv_next {s : NatClient} (h : TailInv base size homeN homeI s) (op : NatOp) :
    ∃ homeN' homeI', TailInv base size homeN' homeI' (s.next op) := by
  cases op with
  | add clnt post =>
    rcases next_add_cases h.chain clnt post with ⟨-, hproto, n, k, ha, -⟩ | ⟨-, ha, -⟩
    · exact ⟨_, _, ha.chainInv h.chain hproto, h.tail.added hproto ha⟩
    · exact ⟨_, _, ha.chainInv h.chain, h.tail.refused ha⟩
  | del hdl post =>
    have hcache : (s.next (.del hdl post)).cache = (ipaNATIDelIpv4Rule s.cache hdl post).2 := rfl
    rcases delRule_cases h.chain hdl post with ⟨-, hsame | ⟨k, hcopy⟩⟩ | ⟨-, i, k, q, -, hi, hik, hd⟩
    · rw [hsame] at hcache
      exact ⟨homeN, homeI, hcache ▸ h.chain, hcache ▸ h.tail⟩
    · rw [hcopy] at hcache
      exact ⟨homeN, homeI, hcache ▸ copySecond_chainInv h.chain k, hcache ▸ h.tail.copySecond h.chain k⟩
    · exact ⟨homeN, homeI, hd.chainInv h.chain hi, h.tail.deleted h.chain hd hi hik⟩
  | clear =>
    refine ⟨id, id, clear_chainInv h.chain, .of_empty (fun i => ?_) h.chain.clear_index⟩
    show (ipaNATIClearIpv4Tbl s.cache).table.slot i = _
    rw [clear_nat_slot h.chain.config]
    split_ifs with hi
    · rfl
    · exact h.tail.zero i (h.chain.free_of_le (not_lt.mp hi))

theorem tailInv_reachable {guard : NatClient → NatOp → Prop} {s : NatClient}
    (h : (natClient guard).Reachable s) : ∃ base size homeN homeI, TailInv base size homeN homeI s := by
  refine inv_reachable h (fun s ⟨⟨nmi, addrOffset, n, tableIndex, hc⟩, _⟩ => ?_) fun hinv _ => tailInv_next hinv _
  obtain ⟨base, size, hcfg, hnat, hindex, h1, h2, h3, h4, -, -⟩ := ipaNatiCreateTable_config hc
  exact ⟨base, size, chainInv_empty hcfg (fun i => by rw [hnat]; rfl) hindex h1 h2 h3 h4, .of_empty hnat hindex⟩

/-- What a refused addition leaves. -/
structure AddUndone (c c' : IpaNatIp4TableCache) : Prop where
  nat : c'.table.slot = c.table.slot
  index : c'.indexTable.slot = c.indexTable.slot
  natChains : natLinks c'.table = natLinks c.table
  indexChains : (indexLinks c'.indexTable).used = (indexLinks c.indexTable).used ∧
    (indexLinks c'.indexTable).next = (indexLinks c.indexTable).next ∧
    ∀ k, (indexLinks c.indexTable).used k = true →
      (indexLinks c'.indexTable).prev k = (indexLinks c.indexTable).prev k
  natCnt : c'.table.curTblCnt = c.table.curTblCnt ∧ c'.table.curExpnTblCnt = c.table.curExpnTblCnt
  indexCnt : c'.indexTable.curTblCnt = c.indexTable.curTblCnt ∧
    c'.indexTable.curExpnTblCnt = c.indexTable.curExpnTblCnt
  natZero : ∀ i, (c.table.slot i).enable = false → c'.table.slot i = RecordLayout.zero
  indexZero : ∀ k, (c.indexTable.slot k).tblEntry = 0 → c'.indexTable.slot k = RecordLayout.zero

/-- **An addition that fails is undone**, wherever it fails and in every reachable state. -/
theorem addUndone {guard : NatClient → NatOp → Prop} {s : NatClient} (h : (natClient guard).Reachable s)
    (clnt : IpaNatIpv4Rule) (post : Bool) (hret : (ipaNATIAddIpv4Rule s.drvi s.cache clnt post).ret ≠ 0) :
    AddUndone s.cache (ipaNATIAddIpv4Rule s.drvi s.cache clnt post).cache := by
  obtain ⟨base, size, homeN, homeI, hinv⟩ := tailInv_reachable h
  rcases addRule_cases hinv.chain s.drvi clnt post with ⟨hok, -⟩ | ⟨-, ha⟩
  · exact absurd hok hret
  · have hslot := hinv.tail.slot_eq ha
    refine ⟨hslot, ha.indexSlot, ha.natLinks_eq hinv.chain, ⟨?_, ?_, fun k hk => ha.indexPrev k (.inl hk)⟩,
      ha.natCnt, ha.indexCnt, fun i hi => ?_, fun k hk => ?_⟩
    · funext k
      rw [indexLinks_used, indexLinks_used, ha.indexSlot]
    · funext k
      rw [indexLinks_next, indexLinks_next, ha.indexSlot]
    · rw [hslot]
      exact hinv.tail.zero i hi
    · rw [ha.indexSlot]
      exact hinv.chain.index_zero hk

theorem addUndone_smallPair : AddUndone smallPair.cache
    (ipaNATIAddIpv4Rule smallPair.drvi smallPair.cache (smallRule 48) false).cache :=
  addUndone smallPair_reachable (smallRule 48) false (by decide)

end Sm8750Modules.IpaNat
