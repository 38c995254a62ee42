import Sm8750Modules.IpaNat.Shape

/-!
# The invariant of a NAT table

`ChainInv` holds in every state that the driver can bring a table into, whatever the kernel
answers to the posted commands: both tables are well-formed chains, a placeholder (an enabled rule
with the invalid protocol) is a bucket with a tail, free records are blank, and the counters
count.
-/

namespace Sm8750Modules.IpaNat

open SlotChain

def IpaNatRule.live (r : IpaNatRule) : Bool :=
  r.enable && decide (r.protocol ≠ ipahalNatInvalidProtocol)

theorem IpaNatRule.live_iff {r : IpaNatRule} :
    r.live = true ↔ r.enable = true ∧ r.protocol ≠ ipahalNatInvalidProtocol := by
  simp [IpaNatRule.live]

def IpaNatRule.unlinked (r : IpaNatRule) : IpaNatRule :=
  { r with nextIndex := 0, prevIndex := 0 }

def IpaNatRule.unindexed (r : IpaNatRule) : IpaNatRule :=
  { r with indxTblEntry := 0 }

variable (r : IpaNatRule)

@[simp] theorem IpaNatRule.unlinked_live : r.unlinked.live = r.live := rfl

@[simp] theorem IpaNatRule.unlinked_enable : r.unlinked.enable = r.enable := rfl

@[simp] theorem IpaNatRule.unlinked_protocol :
    r.unlinked.protocol = r.protocol := rfl

@[simp] theorem IpaNatRule.unlinked_indxTblEntry :
    r.unlinked.indxTblEntry = r.indxTblEntry := rfl

theorem IpaNatRule.eq_of_unlinked {r r' : IpaNatRule} (h : r.unlinked = r'.unlinked)
    (hnext : r.nextIndex = r'.nextIndex) (hprev : r.prevIndex = r'.prevIndex) : r = r' := by
  cases r
  cases r'
  simp_all [IpaNatRule.unlinked]

theorem IpaNatRule.eq_of_unindexed {r r' : IpaNatRule} (h : r.unindexed = r'.unindexed)
    (hidx : r.indxTblEntry = r'.indxTblEntry) : r = r' := by
  cases r
  cases r'
  simp_all [IpaNatRule.unindexed]

structure Counted (base size : ℕ) {ρ : Type} (t : IpaTable ρ) (L : Links) : Prop where
  base_cnt : t.curTblCnt = L.usedIn 0 base
  expn_cnt : t.curExpnTblCnt = L.usedIn base size

/-- **The invariant of every reachable table.**  `homeN` and `homeI` name the bucket of each
used slot of the NAT table and of the index table. -/
structure ChainInv (base size : ℕ) (homeN homeI : ℕ → ℕ) (c : IpaNatIp4TableCache) : Prop where
  config : Config base size c
  nat : ∃ rank, Chained base size (natLinks c.table) homeN rank
  index : ∃ rank, Chained base size (indexLinks c.indexTable) homeI rank
  dead : ∀ i, (c.table.slot i).enable = true →
    (c.table.slot i).protocol = ipahalNatInvalidProtocol →
    i < base ∧ (c.table.slot i).nextIndex ≠ 0
  blank : ∀ i, (c.table.slot i).enable = false →
    (c.table.slot i).unindexed = RecordLayout.zero
  entry_lt : ∀ k, (c.indexTable.slot k).tblEntry < size
  natCnt : Counted base size c.table (natLinks c.table)
  indexCnt : Counted base size c.indexTable (indexLinks c.indexTable)

/-- **The cross references** between NAT rules and index entries. -/
structure CrossRef (c : IpaNatIp4TableCache) : Prop where
  zero : ∀ i, (c.table.slot i).enable = false → c.table.slot i = RecordLayout.zero
  rule : ∀ i, (c.table.slot i).live = true →
    (c.indexTable.slot (c.table.slot i).indxTblEntry).tblEntry = i
  entry : ∀ k, (c.indexTable.slot k).tblEntry ≠ 0 →
    (c.table.slot (c.indexTable.slot k).tblEntry).live = true ∧
      (c.table.slot (c.indexTable.slot k).tblEntry).indxTblEntry = k

theorem ipaNatiCreateTable_config {nmi : IpaNatMemIn} {addrOffset n tableIndex : ℕ}
    {c : IpaNatIp4TableCache} (h : ipaNatiCreateTable nmi addrOffset n tableIndex = .ok c) :
    ∃ base size, Config base size c ∧ (∀ i, c.table.slot i = RecordLayout.zero) ∧
      (∀ i, c.indexTable.slot i = RecordLayout.zero) ∧ c.table.curTblCnt = 0 ∧
      c.table.curExpnTblCnt = 0 ∧ c.indexTable.curTblCnt = 0 ∧ c.indexTable.curExpnTblCnt = 0 ∧
      (∀ i, c.indexTable.metaPrev i = 0) ∧ c.table.nmi = nmi := by
  unfold ipaNatiCreateTable at h
  cases hn : ipaTableCalculateEntriesNum nmi n with
  | error ret => rw [hn] at h; exact absurd h (by simp [bind, Except.bind])
  | ok p =>
    obtain ⟨te, ee⟩ := p
    rw [hn] at h
    have hc := Except.ok.inj h
    subst hc
    refine ⟨te, te + ee, ?_, fun _ => rfl, fun _ => rfl, rfl, rfl, rfl, rfl, fun _ => rfl, rfl⟩
    exact ⟨ipaTableCalculateEntriesNum_size hn, rfl, ⟨rfl, rfl, rfl⟩, ⟨rfl, rfl, rfl⟩, rfl, rfl,
      ⟨tableIndex, rfl⟩, ⟨tableIndex, rfl⟩, rfl, rfl⟩

section Empty

variable {base size : ℕ} {c : IpaNatIp4TableCache}

theorem chainInv_empty (h : Config base size c)
    (hnat : ∀ i, (c.table.slot i).unindexed = RecordLayout.zero)
    (hindex : ∀ i, c.indexTable.slot i = RecordLayout.zero) (h1 : c.table.curTblCnt = 0)
    (h2 : c.table.curExpnTblCnt = 0) (h3 : c.indexTable.curTblCnt = 0)
    (h4 : c.indexTable.curExpnTblCnt = 0) : ChainInv base size id id c := by
  have hlt := h.sizes.base_lt
  have hcount : ∀ (L : Links) lo hi, (∀ i, L.used i = false) → L.usedIn lo hi = 0 := by
    intro L lo hi hL
    simp [Links.usedIn, hL]
  have hnused : ∀ i, (natLinks c.table).used i = false :=
    fun i => congrArg IpaNatRule.enable (hnat i)
  have hiused : ∀ i, (indexLinks c.indexTable).used i = false := by
    intro i
    rw [indexLinks_used, hindex]
    rfl
  refine ⟨h, ⟨fun _ => 0, ?_⟩, ⟨fun _ => 0, ?_⟩, ?_, fun i _ => hnat i, ?_, ⟨?_, ?_⟩, ⟨?_, ?_⟩⟩
  · refine (Chained.empty base size).congr ?_ ?_ ?_
    · funext i; exact hnused i
    · funext i; exact congrArg IpaNatRule.nextIndex (hnat i)
    · intro i _; exact congrArg IpaNatRule.prevIndex (hnat i)
  · refine (Chained.empty base size).congr ?_ ?_ ?_
    · funext i; exact hiused i
    · funext i; rw [indexLinks_next, hindex]; rfl
    · intro i hi
      have hib : i < base := by simpa using hi
      rw [indexLinks_prev, h.index.base_eq, if_neg (by omega)]
  · intro i hi
    exact absurd (hi.symm.trans (hnused i)) (by decide)
  · intro k
    rw [hindex]
    show 0 < size
    omega
  · rw [h1, hcount _ _ _ hnused]
  · rw [h2, hcount _ _ _ hnused]
  · rw [h3, hcount _ _ _ hiused]
  · rw [h4, hcount _ _ _ hiused]

theorem crossRef_empty (hnat : ∀ i, c.table.slot i = RecordLayout.zero)
    (hindex : ∀ i, c.indexTable.slot i = RecordLayout.zero) : CrossRef c := by
  refine ⟨fun i _ => hnat i, ?_, ?_⟩
  · intro i hi
    rw [hnat] at hi
    exact absurd hi (by decide)
  · intro k hk
    rw [hindex] at hk
    exact absurd rfl hk

end Empty

namespace ChainInv

variable {base size : ℕ} {homeN homeI : ℕ → ℕ} {c : IpaNatIp4TableCache}

theorem used_of_live {r : IpaNatRule} (h : r.live = true) : r.enable = true :=
  (IpaNatRule.live_iff.mp h).1

section

variable (h : ChainInv base size homeN homeI c)
include h

theorem nat_pos_lt {i : ℕ} (hi : (c.table.slot i).enable = true) : 0 < i ∧ i < size := by
  obtain ⟨rank, hc⟩ := h.nat
  exact ⟨hc.used_pos i hi, hc.used_lt i hi⟩

theorem index_pos_lt {k : ℕ} (hk : (c.indexTable.slot k).tblEntry ≠ 0) : 0 < k ∧ k < size := by
  obtain ⟨rank, hc⟩ := h.index
  have hu : (indexLinks c.indexTable).used k = true := by simpa using hk
  exact ⟨hc.used_pos k hu, hc.used_lt k hu⟩

theorem index_zero {k : ℕ}
    (hk : (c.indexTable.slot k).tblEntry = 0) : c.indexTable.slot k = RecordLayout.zero := by
  obtain ⟨rank, hc⟩ := h.index
  have hn := hc.free_next k (by simpa using hk)
  rw [indexLinks_next] at hn
  rw [show c.indexTable.slot k =
    ⟨(c.indexTable.slot k).tblEntry, (c.indexTable.slot k).nextIndex⟩ from rfl, hk, hn]
  rfl

theorem getEntry_handle {i : ℕ}
    (hi : (c.table.slot i).enable = true) :
    ipaTableGetEntry c.table (makeEntryHdl c.table i) = .ok i :=
  getEntry_makeEntryHdl h.config.sizes h.config.nat (h.nat_pos_lt hi).2

end

end ChainInv

section Clear

variable {base size : ℕ} {homeN homeI : ℕ → ℕ} {c : IpaNatIp4TableCache}

theorem clear_nat_slot (h : Config base size c) (i : ℕ) :
    (ipaNATIClearIpv4Tbl c).table.slot i =
      if i < size then RecordLayout.zero else c.table.slot i := by
  show (if i < c.table.tableEntries + c.table.expnTableEntries then RecordLayout.zero else
    c.table.slot i) = _
  rw [h.nat.expn_eq]

theorem clear_index_slot (h : Config base size c) (k : ℕ) :
    (ipaNATIClearIpv4Tbl c).indexTable.slot k =
      if k < size then RecordLayout.zero else c.indexTable.slot k := by
  show (if k < c.indexTable.tableEntries + c.indexTable.expnTableEntries then RecordLayout.zero
    else c.indexTable.slot k) = _
  rw [h.index.expn_eq]

section

variable (h : ChainInv base size homeN homeI c)
include h

theorem ChainInv.clear_index (k : ℕ) :
    (ipaNATIClearIpv4Tbl c).indexTable.slot k = RecordLayout.zero := by
  rw [clear_index_slot h.config]
  split
  · rfl
  · rename_i hk
    refine h.index_zero ?_
    by_contra hu
    exact hk (h.index_pos_lt hu).2

theorem ChainInv.free_of_le {i : ℕ} (hi : size ≤ i) : (c.table.slot i).enable = false := by
  cases he : (c.table.slot i).enable with
  | false => rfl
  | true => exact absurd (h.nat_pos_lt he).2 (by omega)

theorem clear_chainInv : ChainInv base size id id (ipaNATIClearIpv4Tbl c) := by
  obtain ⟨h1, h2, h3, h4, h5, h6, h7, h8, h9, h10⟩ := h.config
  refine chainInv_empty ⟨h1, h2, ⟨h3.1, h3.2, h3.3⟩, ⟨h4.1, h4.2, h4.3⟩, h5, h6, h7, h8, h9, h10⟩
    (fun i => ?_) h.clear_index rfl rfl rfl rfl
  rw [clear_nat_slot h.config]
  split
  · rfl
  · exact h.blank i (h.free_of_le (by omega))

theorem clear_nat_zero (hx : CrossRef c) (i : ℕ) :
    (ipaNATIClearIpv4Tbl c).table.slot i = RecordLayout.zero := by
  rw [clear_nat_slot h.config]
  split
  · rfl
  · exact hx.zero i (h.free_of_le (by omega))

theorem clear_crossRef (hx : CrossRef c) : CrossRef (ipaNATIClearIpv4Tbl c) :=
  crossRef_empty (clear_nat_zero h hx) h.clear_index

end

end Clear

end Sm8750Modules.IpaNat
