import Sm8750Modules.IpaNat.Invariant

/-!
# Adding a rule

What `ipa_NATI_add_ipv4_rule` does to a table that satisfies the invariant.
-/

namespace Sm8750Modules.IpaNat

open SlotChain Function

variable {n b : ℕ} {cmd : List NatDmaOne}

section Generic

variable {ρ υ : Type} {ifc : IpaTableEntryInterface ρ υ} {t t' : IpaTable ρ}
  {base size : ℕ} {home rank : ℕ → ℕ}

theorem addEntry_cases (hs : TableSize base size) (hg : t.Geometry base size)
    (h : Chained base size (t.links ifc) home rank) {u : υ} {cmd' : List NatDmaOne}
    (hok : ipaTableAddEntry ifc t u b cmd = .ok (t', n, cmd')) :
    ((t.links ifc).used b = false ∧ n = b ∧ (t', cmd') = insertHead ifc t b u cmd) ∨
    ((t.links ifc).used b = true ∧ ∃ e, (t.links ifc).used e = true ∧ (t.links ifc).next e = 0 ∧
      (∀ home rank, Chained base size (t.links ifc) home rank → home e = home b) ∧
      (t.links ifc).used n = false ∧ base ≤ n ∧ n < size ∧
      (t', cmd') = insertTailAt ifc t e n u cmd) := by
  cases hv : ifc.entryIsValid (t.slot b) with
  | false =>
    left
    rw [ipaTableAddEntry, if_pos (by simp [hv])] at hok
    have hres := Except.ok.inj hok
    exact ⟨hv, (congrArg (fun p => p.2.1) hres).symm,
      (Prod.ext (congrArg (fun p => p.1) hres) (congrArg (fun p => p.2.2) hres)).symm⟩
  | true =>
    right
    rw [ipaTableAddEntry, if_neg (by simp [hv]), insertTail] at hok
    obtain ⟨e, he, hu, hend, hhome⟩ := iteratorEnd_eq h hg (i := b) hv
    rcases findExpn_cases ifc hs hg with ⟨j, hj, hjb, hjs, hfree⟩ | ⟨hj, -⟩
    · rw [he, hj] at hok
      have hres := Except.ok.inj hok
      have hjn : j = n := congrArg (fun p => p.2.1) hres
      subst hjn
      exact ⟨hv, e, hu, hend, hhome, hfree, hjb, hjs,
        (Prod.ext (congrArg (fun p => p.1) hres) (congrArg (fun p => p.2.2) hres)).symm⟩
    · rw [he, hj] at hok
      exact absurd hok (by simp [bind, Except.bind])

theorem addEntry_error (hs : TableSize base size) (hg : t.Geometry base size)
    (h : Chained base size (t.links ifc) home rank) {u : υ} {ret : ℤ}
    (herr : ipaTableAddEntry ifc t u b cmd = .error ret) : ret ≠ 0 := by
  cases hv : ifc.entryIsValid (t.slot b) with
  | false =>
    rw [ipaTableAddEntry, if_pos (by simp [hv])] at herr
    exact absurd herr (by simp)
  | true =>
    rw [ipaTableAddEntry, if_neg (by simp [hv]), insertTail] at herr
    obtain ⟨e, he, -⟩ := iteratorEnd_eq h hg (i := b) hv
    rcases findExpn_cases ifc hs hg with ⟨j, hj, -⟩ | ⟨hj, -⟩
    · rw [he, hj] at herr
      exact absurd herr (by simp [bind, Except.bind, pure, Except.pure])
    · rw [he, hj] at herr
      have hret : (-1 : ℤ) = ret := Except.error.inj herr
      omega

end Generic

def flagsData (clnt : IpaNatIpv4Rule) : ℕ :=
  2 ^ 15 + clnt.s.toNat * 2 ^ 13 + (BitVec.ofNat 13 clnt.ucActivationIndex.toNat).toNat

/-- The record of a rule that was added with index entry `k`, without its links. -/
def newRecord (pdns : ℕ → UInt32) (clnt : IpaNatIpv4Rule) (k : ℕ) : IpaNatRule where
  privateIp := clnt.privateIp
  targetIp := clnt.targetIp
  nextIndex := 0
  publicPort := clnt.publicPort
  privatePort := clnt.privatePort
  targetPort := clnt.targetPort
  ipChksum := ipaNatiCalcIpCksum (pdns clnt.pdnIndex) clnt.privateIp
  ucActivationIndex := BitVec.ofNat 13 clnt.ucActivationIndex.toNat
  s := clnt.s
  redirect := false
  enable := true
  timeStamp := BitVec.ofNat 24 clnt.timeStamp.toNat
  protocol := clnt.protocol
  prevIndex := 0
  indxTblEntry := k
  dstOnly := clnt.dstOnly
  srcOnly := clnt.srcOnly
  ucp := clnt.ucp
  pdnIndex := BitVec.ofNat 4 clnt.pdnIndex
  tcpUdpChksum :=
    if clnt.protocol = ipprotoTcp ∨ clnt.protocol = ipprotoUdp then
      ipaNatiCalcTcpUdpCksum (pdns clnt.pdnIndex) clnt.publicPort clnt.privateIp clnt.privatePort
    else 0

variable {k : ℕ}

theorem newRecord_live {pdns : ℕ → UInt32} {clnt : IpaNatIpv4Rule}
    (h : clnt.protocol ≠ ipahalNatInvalidProtocol) : (newRecord pdns clnt k).live = true :=
  IpaNatRule.live_iff.mpr ⟨rfl, h⟩

theorem writeFlags_flagsData (clnt : IpaNatIpv4Rule) (r : IpaNatRule) :
    r.writeFlags (flagsData clnt) =
      { r with
        ucActivationIndex := BitVec.ofNat 13 clnt.ucActivationIndex.toNat
        s := clnt.s
        redirect := false
        enable := true } := by
  unfold IpaNatRule.writeFlags flagsData
  generalize BitVec.ofNat 13 clnt.ucActivationIndex.toNat = uc
  have huc := uc.isLt
  have hlow : BitVec.ofNat 13 (2 ^ 15 + clnt.s.toNat * 2 ^ 13 + uc.toNat) = uc := by
    apply BitVec.eq_of_toNat_eq
    rw [BitVec.toNat_ofNat]
    omega
  rw [hlow]
  cases clnt.s <;> simp <;> omega

variable (pdns : ℕ → UInt32)

theorem headInsert_data (r : IpaNatRule) (clnt : IpaNatIpv4Rule) :
    tableEntryHeadInsert pdns r clnt = (tableEntryCopyFromUser pdns r clnt, flagsData clnt) := rfl

theorem finished_unlinked (clnt : IpaNatIpv4Rule) (k p : ℕ) {r : IpaNatRule}
    (hr : r.unindexed = RecordLayout.zero) :
    ((finishRule clnt k { tableEntryCopyFromUser pdns r clnt with prevIndex := p }).writeFlags
      (flagsData clnt)).unlinked = newRecord pdns clnt k ∧
    ((finishRule clnt k { tableEntryCopyFromUser pdns r clnt with prevIndex := p }).writeFlags
      (flagsData clnt)).nextIndex = 0 := by
  obtain ⟨v, rfl⟩ : ∃ v, r = { (RecordLayout.zero : IpaNatRule) with indxTblEntry := v } :=
    ⟨r.indxTblEntry, by rw [← hr]; rfl⟩
  rw [writeFlags_flagsData]
  exact ⟨rfl, rfl⟩

/-- The NAT table `t'` is `t` with the record `r` put into slot `n` of bucket `b`. -/
structure NatInserted (base size b n : ℕ) (r : IpaNatRule) (t t' : IpaTable IpaNatRule) :
    Prop where
  insert : (natLinks t).Insert base size b n (natLinks t')
  record_new : (t'.slot n).unlinked = r
  record_old : ∀ m, m ≠ n → (t'.slot m).unlinked = (t.slot m).unlinked
  cnt : t'.curTblCnt = if n < base then incU16 t.curTblCnt else t.curTblCnt
  expnCnt : t'.curExpnTblCnt = if n < base then t.curExpnTblCnt else incU16 t.curExpnTblCnt

structure IndexInserted (base size b k n : ℕ) (t t' : IpaTable IpaNatIndxTblRule) : Prop where
  insert : (indexLinks t).Insert base size b k (indexLinks t')
  entry_new : (t'.slot k).tblEntry = n
  entry_old : ∀ m, m ≠ k → (t'.slot m).tblEntry = (t.slot m).tblEntry
  cnt : t'.curTblCnt = if k < base then incU16 t.curTblCnt else t.curTblCnt
  expnCnt : t'.curExpnTblCnt = if k < base then t.curExpnTblCnt else incU16 t.curExpnTblCnt

variable {t : IpaTable IpaNatRule}

section Inserted

variable {base size b : ℕ}

theorem natInserted_head (clnt : IpaNatIpv4Rule) (k : ℕ)
    {rank home : ℕ → ℕ} (h : Chained base size (natLinks t) home rank)
    (hb : b < base) (hfree : (t.slot b).enable = false)
    (hblank : (t.slot b).unindexed = RecordLayout.zero) :
    NatInserted base size b b (newRecord pdns clnt k) t
      (((insertHead (entryInterface pdns) t b clnt []).1.mapSlot b (finishRule clnt k)).mapSlot b
        (natField .updateHead (flagsData clnt))) := by
  obtain ⟨hnew, hnext⟩ := finished_unlinked pdns clnt k
    (tableEntryCopyFromUser pdns (t.slot b) clnt).prevIndex hblank
  have hslot : (((insertHead (entryInterface pdns) t b clnt []).1.mapSlot b
      (finishRule clnt k)).mapSlot b (natField .updateHead (flagsData clnt))).slot =
      update t.slot b
        ((finishRule clnt k (tableEntryCopyFromUser pdns (t.slot b) clnt)).writeFlags
          (flagsData clnt)) := by
    simp [insertHead, IpaTable.mapSlot, entryInterface, headInsert_data, natField]
  have hprev0 : (t.slot b).prevIndex = 0 := h.base_prev b hb
  refine ⟨.head rfl hfree ?_, ?_, ?_, ?_, ?_⟩
  · rw [natLinks_slot, natLinks_slot, hslot, slotLinks_update, writeFlags_flagsData]
    simp [slotLinks, Links.push, finishRule, tableEntryCopyFromUser]
  · rw [hslot, update_self]
    exact hnew
  · intro m hm
    rw [hslot, update_of_ne hm]
  · rw [if_pos hb]; rfl
  · rw [if_pos hb]; rfl

theorem natInserted_tail (clnt : IpaNatIpv4Rule) (k : ℕ) {e : ℕ}
    (hmeta : t.hasMeta = false) (hbucket : (t.slot b).enable = true)
    (he : (t.slot e).enable = true) (hend : (t.slot e).nextIndex = 0)
    (hhome : ∀ home rank, Chained base size (natLinks t) home rank → home e = b)
    (hfree : (t.slot n).enable = false) (hbase : base ≤ n) (hsize : n < size)
    (hblank : (t.slot n).unindexed = RecordLayout.zero) :
    NatInserted base size b n (newRecord pdns clnt k) t
      ((((insertTailAt (entryInterface pdns) t e n clnt []).1.mapSlot n (finishRule clnt k)).mapSlot
        n (natField .updateHead (flagsData clnt))).mapSlot e (natField .updateEntry n)) := by
  have hen : e ≠ n := by
    rintro rfl
    rw [hfree] at he
    exact absurd he (by simp)
  obtain ⟨hnew, hnext⟩ := finished_unlinked pdns clnt k e hblank
  have hslot : ((((insertTailAt (entryInterface pdns) t e n clnt []).1.mapSlot n
      (finishRule clnt k)).mapSlot n (natField .updateHead (flagsData clnt))).mapSlot e
      (natField .updateEntry n)).slot =
      update (update t.slot n
        ((finishRule clnt k { tableEntryCopyFromUser pdns (t.slot n) clnt with
          prevIndex := e }).writeFlags (flagsData clnt))) e
        { t.slot e with nextIndex := n } := by
    simp [insertTailAt, IpaTable.mapSlot, entryInterface, headInsert_data, natField, hmeta, hen]
  have hnb : ¬ n < base := by omega
  refine ⟨.tail e hbucket he hend hhome hfree hbase hsize ?_, ?_, ?_, ?_, ?_⟩
  · have hsame : update (fun m => (t.slot m).nextIndex) n 0 = fun m => (t.slot m).nextIndex :=
      Function.update_eq_self_iff.mpr (congrArg IpaNatRule.nextIndex hblank).symm
    rw [natLinks_slot, natLinks_slot, hslot, slotLinks_update, slotLinks_update, hnext, writeFlags_flagsData]
    simp [slotLinks, Links.append, finishRule, hen, hsame]
  · rw [hslot, update_of_ne hen.symm, update_self]
    exact hnew
  · intro m hm
    rw [hslot]
    by_cases hme : m = e
    · subst hme
      rw [update_self]
      rfl
    · rw [update_of_ne hme, update_of_ne hm]
  · rw [if_neg hnb]; rfl
  · rw [if_neg hnb]; rfl

theorem indexInserted_head {t : IpaTable IpaNatIndxTblRule} (hn : n ≠ 0) (hb : b < base)
    (hfree : (t.slot b).tblEntry = 0) :
    IndexInserted base size b b n t
      ((insertHead indexEntryInterface t b n []).1.mapSlot b (indexField .updateHead n)) := by
  have hslot : ((insertHead indexEntryInterface t b n []).1.mapSlot b
      (indexField .updateHead n)).slot =
      update t.slot b { t.slot b with tblEntry := n } := by
    simp [insertHead, IpaTable.mapSlot, indexEntryInterface, indexField]
  refine ⟨.head rfl (by simpa using hfree) ?_, ?_, ?_, ?_, ?_⟩
  · rw [indexLinks_slot, indexLinks_slot, hslot]
    show indexSlotLinks t.tableEntries _ t.metaPrev = _
    rw [indexSlotLinks_update]
    simp [indexSlotLinks, Links.push, bne_iff_ne.mpr hn]
  · rw [hslot, update_self]
  · intro m hm
    rw [hslot, update_of_ne hm]
  · rw [if_pos hb]; rfl
  · rw [if_pos hb]; rfl

theorem indexInserted_tail {t : IpaTable IpaNatIndxTblRule} {e : ℕ} (hn : n ≠ 0)
    (hte : t.tableEntries = base) (hmeta : t.hasMeta = true)
    (hbucket : (t.slot b).tblEntry ≠ 0) (he : (t.slot e).tblEntry ≠ 0)
    (hend : (t.slot e).nextIndex = 0)
    (hhome : ∀ home rank, Chained base size (indexLinks t) home rank → home e = b)
    (hfree : (t.slot k).tblEntry = 0) (hbase : base ≤ k) (hsize : k < size) :
    IndexInserted base size b k n t
      ((insertTailAt indexEntryInterface t e k n []).1.mapSlot e
        (indexField .updateEntry k)) := by
  have hek : e ≠ k := by
    rintro rfl
    exact he hfree
  have hslot : ((insertTailAt indexEntryInterface t e k n []).1.mapSlot e
      (indexField .updateEntry k)).slot =
      update (update t.slot k { t.slot k with tblEntry := n }) e
        { t.slot e with nextIndex := k } := by
    simp [insertTailAt, IpaTable.mapSlot, indexEntryInterface, indexField, hmeta, hek]
  have hprev : ((insertTailAt indexEntryInterface t e k n []).1.mapSlot e
      (indexField .updateEntry k)).metaPrev = update t.metaPrev (k - base) e := by
    simp [insertTailAt, IpaTable.mapSlot, indexEntryInterface, hte, hbase]
  have hte' : ((insertTailAt indexEntryInterface t e k n []).1.mapSlot e
      (indexField .updateEntry k)).tableEntries = base := hte
  have hkb : ¬ k < base := by omega
  refine ⟨.tail e (by simpa using hbucket) (by simpa using he) hend hhome (by simpa using hfree)
    hbase hsize ?_, ?_, ?_, ?_, ?_⟩
  · rw [indexLinks_slot, indexLinks_slot, hslot, hprev, hte', hte, indexSlotLinks_update,
      indexSlotLinks_update, indexSlotLinks_meta hbase]
    simp [indexSlotLinks, Links.append, hek, bne_iff_ne.mpr hn]
  · rw [hslot, update_of_ne hek.symm, update_self]
  · intro m hm
    rw [hslot]
    by_cases hme : m = e
    · subst hme; rw [update_self]
    · rw [update_of_ne hme, update_of_ne hm]
  · rw [if_neg hkb]; rfl
  · rw [if_neg hkb]; rfl

end Inserted

/-- The cache `c'` is `c` with the client's rule in NAT slot `n` and index slot `k`. -/
structure RuleAdded (base size : ℕ) (g : NatDrvi) (clnt : IpaNatIpv4Rule) (n k : ℕ)
    (c c' : IpaNatIp4TableCache) : Prop where
  config : Config base size c'
  nmi : c'.table.nmi = c.table.nmi
  nat : NatInserted base size (newEntryIndex g c clnt) n (newRecord g.pdns clnt k) c.table c'.table
  index : IndexInserted base size (newIndexTblEntryIndex (g.bumpToken clnt.srcOnly) c clnt) k n
    c.indexTable c'.indexTable

/-- The cache `c'` is `c`, but for the meta data of free index slots and for free NAT records
that were wiped. -/
structure AddRefused (base size : ℕ) (c c' : IpaNatIp4TableCache) : Prop where
  config : Config base size c'
  nmi : c'.table.nmi = c.table.nmi
  natSlot : ∀ m, c'.table.slot m = c.table.slot m ∨
    ((c.table.slot m).enable = false ∧ c'.table.slot m = RecordLayout.zero)
  indexSlot : c'.indexTable.slot = c.indexTable.slot
  indexPrev : ∀ m, ((indexLinks c.indexTable).used m = true ∨ m < base) →
    (indexLinks c'.indexTable).prev m = (indexLinks c.indexTable).prev m
  natCnt : c'.table.curTblCnt = c.table.curTblCnt ∧
    c'.table.curExpnTblCnt = c.table.curExpnTblCnt
  indexCnt : c'.indexTable.curTblCnt = c.indexTable.curTblCnt ∧
    c'.indexTable.curExpnTblCnt = c.indexTable.curExpnTblCnt

theorem AddRefused.refl {base size : ℕ} {c : IpaNatIp4TableCache} (h : Config base size c) :
    AddRefused base size c c :=
  ⟨h, rfl, fun _ => Or.inl rfl, rfl, fun _ _ => rfl, ⟨rfl, rfl⟩, ⟨rfl, rfl⟩⟩

section AddRule

variable {base size : ℕ} {homeN homeI : ℕ → ℕ} {c : IpaNatIp4TableCache}

theorem newEntryIndex_range (h : Config base size c) (g : NatDrvi) (clnt : IpaNatIpv4Rule) :
    0 < newEntryIndex g c clnt ∧ newEntryIndex g c clnt < base := by
  have h2 := h.sizes.two_le
  rw [← h.nat.base_eq] at h2 ⊢
  unfold newEntryIndex
  dsimp only
  split
  · exact hashWithToken_range _ _ h2
  · exact dstHash_range _ _ _ _ _ _ h2

theorem newIndexTblEntryIndex_range (h : Config base size c) (g : NatDrvi)
    (clnt : IpaNatIpv4Rule) :
    0 < newIndexTblEntryIndex g c clnt ∧ newIndexTblEntryIndex g c clnt < base := by
  have h2 := h.sizes.two_le
  rw [← h.nat.base_eq] at h2 ⊢
  unfold newIndexTblEntryIndex
  dsimp only
  split
  · exact hashWithToken_range _ _ h2
  · exact srcHash_range _ _ _ _ _ h2

/-- What the CPU alone does to a table when it fills slot `n`. -/
structure Placed {ρ : Type} (base n : ℕ) (t t' : IpaTable ρ) : Prop where
  nmi : t'.nmi = t.nmi
  entrySize : t'.entrySize = t.entrySize
  tableEntries : t'.tableEntries = t.tableEntries
  expnTableEntries : t'.expnTableEntries = t.expnTableEntries
  totTblEnts : t'.totTblEnts = t.totTblEnts
  dmaHelp : t'.dmaHelp = t.dmaHelp
  hasMeta : t'.hasMeta = t.hasMeta
  slot_old : ∀ m, m ≠ n → t'.slot m = t.slot m
  cnt : t'.curTblCnt = if n < base then incU16 t.curTblCnt else t.curTblCnt
  expnCnt : t'.curExpnTblCnt = if n < base then t.curExpnTblCnt else incU16 t.curExpnTblCnt

variable {ρ : Type}

theorem Placed.mapSlot {t t' : IpaTable ρ} (h : Placed base n t t')
    (f : ρ → ρ) : Placed base n t (t'.mapSlot n f) := by
  refine ⟨h.1, h.2, h.3, h.4, h.5, h.6, h.7, ?_, h.9, h.10⟩
  intro m hm
  exact (update_of_ne hm _ _).trans (h.slot_old m hm)

theorem placed_insertHead {υ : Type} {ifc : IpaTableEntryInterface ρ υ} {t : IpaTable ρ}
    (hb : b < base) (u : υ) (cmd : List NatDmaOne) :
    Placed base b t (insertHead ifc t b u cmd).1 := by
  refine ⟨rfl, rfl, rfl, rfl, rfl, rfl, rfl, ?_, ?_, ?_⟩
  · intro m hm
    exact update_of_ne hm _ _
  · rw [if_pos hb]; rfl
  · rw [if_pos hb]; rfl

theorem placed_insertTailAt {υ : Type} {ifc : IpaTableEntryInterface ρ υ} {t : IpaTable ρ}
    (hn : base ≤ n) (e : ℕ) (u : υ) (cmd : List NatDmaOne) :
    Placed base n t (insertTailAt ifc t e n u cmd).1 := by
  refine ⟨rfl, rfl, rfl, rfl, rfl, rfl, rfl, ?_, ?_, ?_⟩
  · intro m hm
    exact update_of_ne hm _ _
  · rw [if_neg (by omega)]; rfl
  · rw [if_neg (by omega)]; rfl

theorem Placed.erase [RecordLayout ρ] {t t' : IpaTable ρ}
    (h : Placed base n t t') (hbase : t.tableEntries = base) (h1 : t.curTblCnt < 2 ^ 16)
    (h2 : t.curExpnTblCnt < 2 ^ 16) :
    ipaTableEraseEntry t' n = { t with
      slot := update t.slot n RecordLayout.zero
      metaPrev := t'.metaPrev } := by
  have hslot : update t'.slot n RecordLayout.zero =
      update t.slot n RecordLayout.zero := by
    funext m
    by_cases hm : m = n
    · subst hm; simp
    · simp [hm, h.slot_old m hm]
  have hcnt := h.cnt
  have hexpn := h.expnCnt
  by_cases hn : n < base
  · rw [if_pos hn] at hcnt hexpn
    simp [ipaTableEraseEntry, h.tableEntries, hbase, hn, h.nmi, h.entrySize, h.expnTableEntries,
      h.totTblEnts, h.dmaHelp, h.hasMeta, hslot, hcnt, hexpn, decU16_incU16 h1]
  · rw [if_neg hn] at hcnt hexpn
    simp [ipaTableEraseEntry, h.tableEntries, hbase, hn, h.nmi, h.entrySize, h.expnTableEntries,
      h.totTblEnts, h.dmaHelp, h.hasMeta, hslot, hcnt, hexpn, decU16_incU16 h2]

theorem Counted.lt {t : IpaTable ρ} {L : Links} (h : Counted base size t L)
    (hs : TableSize base size) : t.curTblCnt < 2 ^ 16 ∧ t.curExpnTblCnt < 2 ^ 16 := by
  have h1 := L.usedIn_le 0 base
  have h2 := L.usedIn_le base size
  have h3 := hs.base_le
  have h4 := hs.expn_le
  have h5 := h.base_cnt
  have h6 := h.expn_cnt
  omega

/-- **The NAT half of an insertion**: the CPU's part, and what its commands make of it after the
rule's last fields were set. -/
theorem natAddEntry_ok (h : ChainInv base size homeN homeI c) {pdns : ℕ → UInt32}
    {clnt : IpaNatIpv4Rule}
    (hb0 : 0 < b) (hb : b < base)
    (hok : ipaTableAddEntry (entryInterface pdns) c.table clnt b [] = .ok (t, n, cmd)) :
    Placed base n c.table t ∧ (c.table.slot n).enable = false ∧ 0 < n ∧ n < size ∧
      ∀ c0 k, Config base size c0 → c0.table = t.mapSlot n (finishRule clnt k) →
        (dmaCmd c0 cmd).indexTable = c0.indexTable ∧
        NatInserted base size b n (newRecord pdns clnt k) c.table (dmaCmd c0 cmd).table := by
  obtain ⟨rank, hc⟩ := h.nat
  have hlt := h.config.sizes.base_lt
  rcases addEntry_cases h.config.sizes h.config.nat (natLinks_eq pdns c.table ▸ hc) hok with
    ⟨hfree, rfl, hres⟩ | ⟨hbucket, e, hu, hend, hhome, hfree, hnb, hns, hres⟩
  · have ht : t = (insertHead (entryInterface pdns) c.table n clnt []).1 := congrArg Prod.fst hres
    have hcmd : cmd = ipaTableAddDmaCmd c.table .updateHead n (flagsData clnt) [] :=
      congrArg Prod.snd hres
    refine ⟨ht ▸ placed_insertHead hb clnt [], hfree, hb0, by omega, ?_⟩
    intro c0 k hcfg hc0
    have hrun : dmaCmd c0 cmd = c0.mapNat n (natField .updateHead (flagsData clnt)) := by
      rw [hcmd]
      exact dmaCmd_addNat hcfg [] (by rw [hc0, ht]; rfl) (by rw [hc0, ht]; rfl)
        (by rw [hc0, ht]; rfl) (by rw [hc0, ht]; rfl) _ _ (by omega)
    refine ⟨by rw [hrun]; rfl, ?_⟩
    have hins := natInserted_head pdns clnt k hc hb hfree (h.blank n hfree)
    rw [hrun, IpaNatIp4TableCache.mapNat, hc0, ht]
    exact hins
  · have ht : t = (insertTailAt (entryInterface pdns) c.table e n clnt []).1 :=
      congrArg Prod.fst hres
    have hcmd : cmd = ipaTableAddDmaCmd c.table .updateEntry e n
        (ipaTableAddDmaCmd c.table .updateHead n (flagsData clnt) []) := by
      have := congrArg Prod.snd hres
      simpa [insertTailAt, h.config.natMeta, entryInterface, headInsert_data] using this
    refine ⟨ht ▸ placed_insertTailAt hnb e clnt [], hfree, by omega, hns, ?_⟩
    intro c0 k hcfg hc0
    have hes : e < size := hc.used_lt e hu
    have hrun : dmaCmd c0 cmd = (c0.mapNat n (natField .updateHead (flagsData clnt))).mapNat e
        (natField .updateEntry n) := by
      rw [hcmd, dmaCmd_addNat hcfg _ (by rw [hc0, ht]; rfl) (by rw [hc0, ht]; rfl)
        (by rw [hc0, ht]; rfl) (by rw [hc0, ht]; rfl) _ _ hes,
        dmaCmd_addNat hcfg _ (by rw [hc0, ht]; rfl) (by rw [hc0, ht]; rfl)
        (by rw [hc0, ht]; rfl) (by rw [hc0, ht]; rfl) _ _ hns]
      rfl
    refine ⟨by rw [hrun]; rfl, ?_⟩
    have hins := natInserted_tail pdns clnt k (b := b)
      h.config.natMeta hbucket hu hend
      (fun home' rank' h' => (hhome home' rank' h').trans (h'.home_base b hb)) hfree hnb hns
      (h.blank n hfree)
    rw [hrun, IpaNatIp4TableCache.mapNat, IpaNatIp4TableCache.mapNat, hc0, ht]
    exact hins

theorem indexAddEntry_ok (h : ChainInv base size homeN homeI c)
    {t : IpaTable IpaNatIndxTblRule} {cmd' : List NatDmaOne} (hn : n ≠ 0) (hb : b < base)
    (hok : ipaTableAddEntry indexEntryInterface c.indexTable n b cmd = .ok (t, k, cmd')) :
    Placed base k c.indexTable t ∧ (c.indexTable.slot k).tblEntry = 0 ∧
      (∀ m, base ≤ m → m ≠ k → t.metaPrev (m - base) = c.indexTable.metaPrev (m - base)) ∧
      ∀ c0, Config base size c0 → (dmaCmd c0 cmd).indexTable = t → c0.indexTable = t →
        (dmaCmd c0 cmd').table = (dmaCmd c0 cmd).table ∧
        IndexInserted base size b k n c.indexTable (dmaCmd c0 cmd').indexTable := by
  obtain ⟨rank, hc⟩ := h.index
  have hlt := h.config.sizes.base_lt
  rcases addEntry_cases h.config.sizes h.config.index hc hok with
    ⟨hfree, rfl, hres⟩ | ⟨hbucket, e, hu, hend, hhome, hfree, hkb, hks, hres⟩
  · have ht : t = (insertHead indexEntryInterface c.indexTable k n cmd).1 := congrArg Prod.fst hres
    have hcmd : cmd' = ipaTableAddDmaCmd c.indexTable .updateHead k n cmd :=
      congrArg Prod.snd hres
    have hfree' : (c.indexTable.slot k).tblEntry = 0 := indexLinks_free.mp hfree
    refine ⟨ht ▸ placed_insertHead hb n cmd, hfree', fun m _ _ => by rw [ht]; rfl, ?_⟩
    intro c0 hcfg hpre hc0
    have hrun : dmaCmd c0 cmd' = (dmaCmd c0 cmd).mapIndex k (indexField .updateHead n) := by
      rw [hcmd]
      exact dmaCmd_addIndex hcfg cmd (by rw [hc0, ht]; rfl) (by rw [hc0, ht]; rfl)
        (by rw [hc0, ht]; rfl) (by rw [hc0, ht]; rfl) _ _ (by omega)
    refine ⟨by rw [hrun]; rfl, ?_⟩
    rw [hrun, IpaNatIp4TableCache.mapIndex, hpre, ht]
    exact indexInserted_head hn hb hfree'
  · have ht : t = (insertTailAt indexEntryInterface c.indexTable e k n cmd).1 :=
      congrArg Prod.fst hres
    have hcmd : cmd' = ipaTableAddDmaCmd c.indexTable .updateEntry e k cmd := by
      have := congrArg Prod.snd hres
      simpa [insertTailAt, h.config.indexMeta] using this
    have hfree' : (c.indexTable.slot k).tblEntry = 0 := indexLinks_free.mp hfree
    have hmeta : t.metaPrev = update c.indexTable.metaPrev (k - base) e := by
      rw [ht]
      simp [insertTailAt, indexEntryInterface, h.config.index.base_eq, hkb]
    refine ⟨ht ▸ placed_insertTailAt hkb e n cmd, hfree', ?_, ?_⟩
    · intro m hm hmk
      rw [hmeta, update_of_ne (by omega)]
    intro c0 hcfg hpre hc0
    have hrun : dmaCmd c0 cmd' = (dmaCmd c0 cmd).mapIndex e (indexField .updateEntry k) := by
      rw [hcmd]
      exact dmaCmd_addIndex hcfg cmd (by rw [hc0, ht]; rfl) (by rw [hc0, ht]; rfl)
        (by rw [hc0, ht]; rfl) (by rw [hc0, ht]; rfl) _ _ (hc.used_lt e hu)
    refine ⟨by rw [hrun]; rfl, ?_⟩
    rw [hrun, IpaNatIp4TableCache.mapIndex, hpre, ht]
    exact indexInserted_tail hn h.config.index.base_eq h.config.indexMeta
      (indexLinks_occupied.mp hbucket) (indexLinks_occupied.mp hu) hend
      (fun home' rank' h' => (hhome home' rank' h').trans (h'.home_base b hb)) hfree' hkb hks

theorem config_of_placed {c' : IpaNatIp4TableCache}
    {x : IpaTable IpaNatIndxTblRule} (h : Config base size c) (hn : Placed base n c.table t)
    (hk : Placed base k c.indexTable x)
    (hc' : c' = { c with table := t, indexTable := x }) : Config base size c' := by
  subst hc'
  exact ⟨h.sizes, h.valid,
    ⟨hn.tableEntries.trans h.nat.base_eq,
      by show t.tableEntries + t.expnTableEntries = size
         rw [hn.tableEntries, hn.expnTableEntries, h.nat.expn_eq],
      hn.totTblEnts.trans h.nat.tot_eq⟩,
    ⟨hk.tableEntries.trans h.index.base_eq,
      by show x.tableEntries + x.expnTableEntries = size
         rw [hk.tableEntries, hk.expnTableEntries, h.index.expn_eq],
      hk.totTblEnts.trans h.index.tot_eq⟩,
    hn.entrySize.trans h.natSize, hk.entrySize.trans h.indexSize,
    h.natHelp.imp fun _ hx => hn.dmaHelp.trans hx, h.indexHelp.imp fun _ hx => hk.dmaHelp.trans hx,
    hn.hasMeta.trans h.natMeta, hk.hasMeta.trans h.indexMeta⟩

theorem addRefused_of (h : ChainInv base size homeN homeI c)
    (hfree : (c.table.slot n).enable = false) (metaN metaI : ℕ → ℕ)
    (hmeta : ∀ m, base ≤ m → (c.indexTable.slot m).tblEntry ≠ 0 →
      metaI (m - base) = c.indexTable.metaPrev (m - base)) :
    AddRefused base size c { c with
      table := { c.table with
        slot := update c.table.slot n RecordLayout.zero
        metaPrev := metaN }
      indexTable := { c.indexTable with metaPrev := metaI } } := by
  have hcfg := h.config
  refine ⟨⟨hcfg.1, hcfg.2, ⟨hcfg.3.1, hcfg.3.2, hcfg.3.3⟩, ⟨hcfg.4.1, hcfg.4.2, hcfg.4.3⟩,
    hcfg.5, hcfg.6, hcfg.7, hcfg.8, hcfg.9, hcfg.10⟩, rfl, ?_, rfl, ?_, ⟨rfl, rfl⟩, ⟨rfl, rfl⟩⟩
  · intro m
    by_cases hm : m = n
    · subst hm
      exact Or.inr ⟨hfree, update_self ..⟩
    · exact Or.inl (update_of_ne hm ..)
  · intro m hm
    simp only [indexLinks_prev, hcfg.index.base_eq]
    by_cases hmb : m ≥ base
    · rw [if_pos hmb, if_pos hmb]
      obtain hm | hm := hm
      · exact hmeta m hmb (indexLinks_occupied.mp hm)
      · omega
    · rw [if_neg hmb, if_neg hmb]

/-- **`ipa_NATI_add_ipv4_rule`** either returns `0`, a handle of a new slot, and the tables with
the rule put in, or an error and the tables as they were. -/
theorem addRule_cases (h : ChainInv base size homeN homeI c) (g : NatDrvi)
    (clnt : IpaNatIpv4Rule) (post : Bool) :
    ((ipaNATIAddIpv4Rule g c clnt post).ret = 0 ∧ clnt.protocol ≠ ipahalNatInvalidProtocol ∧
      post = true ∧ ∃ n k,
        RuleAdded base size g clnt n k c (ipaNATIAddIpv4Rule g c clnt post).cache ∧
        (ipaNATIAddIpv4Rule g c clnt post).ruleHdl = makeEntryHdl c.table n) ∨
    ((ipaNATIAddIpv4Rule g c clnt post).ret ≠ 0 ∧
      AddRefused base size c (ipaNATIAddIpv4Rule g c clnt post).cache) := by
  have hrefl := AddRefused.refl h.config
  obtain ⟨hN0, hNb⟩ := newEntryIndex_range h.config g clnt
  obtain ⟨hI0, hIb⟩ := newIndexTblEntryIndex_range h.config (g.bumpToken clnt.srcOnly) clnt
  unfold ipaNATIAddIpv4Rule
  by_cases hproto : clnt.protocol = ipahalNatInvalidProtocol
  · rw [if_pos hproto]
    exact Or.inr ⟨by simp [einval], hrefl⟩
  rw [if_neg hproto]
  by_cases hpdn : clnt.pdnIndex ≥ ipaMaxPdnNum ∨ g.pdns clnt.pdnIndex = 0
  · rw [if_pos hpdn]
    exact Or.inr ⟨by simp [einval], hrefl⟩
  rw [if_neg hpdn, if_neg (by simp [h.config.valid])]
  dsimp only
  cases hnat : ipaTableAddEntry (entryInterface g.pdns) c.table clnt (newEntryIndex g c clnt) [] with
  | error ret =>
    obtain ⟨rank, hc⟩ := h.nat
    have hret := addEntry_error h.config.sizes h.config.nat (natLinks_eq g.pdns c.table ▸ hc) hnat
    exact Or.inr ⟨hret, hrefl⟩
  | ok p =>
    obtain ⟨t, n, cmd⟩ := p
    obtain ⟨hplN, hfreeN, hn0, hns, hrunN⟩ := natAddEntry_ok h hN0 hNb hnat
    obtain ⟨hlt1, hlt2⟩ := h.natCnt.lt h.config.sizes
    obtain ⟨hlt3, hlt4⟩ := h.indexCnt.lt h.config.sizes
    dsimp only
    cases hidx : ipaTableAddEntry indexEntryInterface c.indexTable n
        (newIndexTblEntryIndex (g.bumpToken clnt.srcOnly) c clnt) cmd with
    | error ret =>
      obtain ⟨rank, hc⟩ := h.index
      have hret := addEntry_error h.config.sizes h.config.index hc hidx
      dsimp only
      rw [hplN.erase h.config.nat.base_eq hlt1 hlt2]
      exact Or.inr ⟨hret, addRefused_of h hfreeN _ _ fun _ _ _ => rfl⟩
    | ok q =>
      obtain ⟨x, k, cmd'⟩ := q
      obtain ⟨hplI, hfreeI, hmeta, hrunI⟩ := indexAddEntry_ok h (Nat.pos_iff_ne_zero.mp hn0) hIb hidx
      have hplN' := hplN.mapSlot (finishRule clnt k)
      have hrule : ipaTableGetEntryByIndex t n = some n := by
        unfold ipaTableGetEntryByIndex
        rw [hplN.totTblEnts, h.config.nat.tot_eq, if_neg (by omega)]
      dsimp only
      unfold commitRule
      rw [hrule]
      cases post with
      | false =>
        refine Or.inr ⟨by simp [ipaNatiPostIpv4DmaCmd, eio], ?_⟩
        show AddRefused base size c { c with
          table := ipaTableEraseEntry (t.mapSlot n (finishRule clnt k)) n
          indexTable := ipaTableEraseEntry x k }
        rw [hplN'.erase h.config.nat.base_eq hlt1 hlt2,
          hplI.erase h.config.index.base_eq hlt3 hlt4, ← h.index_zero hfreeI,
          update_eq_self]
        refine addRefused_of h hfreeN _ _ fun m hm hu => hmeta m hm ?_
        rintro rfl
        exact hu hfreeI
      | true =>
        have hcfg := config_of_placed h.config hplN' hplI rfl
        obtain ⟨hix, hnatI⟩ := hrunN _ k hcfg rfl
        obtain ⟨htab, hidxI⟩ := hrunI _ hcfg hix rfl
        have hnmi := (dmaCmd_layout { c with
          table := t.mapSlot n (finishRule clnt k), indexTable := x } cmd').2.1
        refine Or.inl ⟨rfl, hproto, rfl, n, k, ⟨hcfg.dmaCmd cmd', ?_, ?_, hidxI⟩, ?_⟩
        · exact (congrArg IpaTable.nmi hnmi).trans hplN'.nmi
        · rw [← htab] at hnatI
          exact hnatI
        · show makeEntryHdl t n = makeEntryHdl c.table n
          unfold makeEntryHdl
          rw [hplN.tableEntries, hplN.nmi]

end AddRule

end Sm8750Modules.IpaNat
