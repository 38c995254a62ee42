import Sm8750Modules.IpaNat.Client

/-!
# A NAT table is a finite set of rules

The abstract view of one table: a partial map from handles to rules.
-/

namespace Sm8750Modules.IpaNat

open SlotChain Runs Function

def IpaNatIpv4Rule.dstSlot (g : NatDrvi) (tableEntries : ℕ) (r : IpaNatIpv4Rule) : ℕ :=
  dstHash g.ver (g.pdns r.pdnIndex) r.targetIp r.targetPort r.publicPort r.protocol
    (tableEntries - 1)

/-- The bucket of a rule in an index table with `tableEntries` buckets. -/
def IpaNatIpv4Rule.srcSlot (tableEntries : ℕ) (r : IpaNatIpv4Rule) : ℕ :=
  srcHash r.privateIp r.privatePort r.targetIp r.targetPort r.protocol (tableEntries - 1)

/-- The slots met from `b` on along `next_index`, but for placeholders. -/
def natChain (t : IpaTable IpaNatRule) (b : ℕ) : List ℕ :=
  ((natLinks t).walk t.totTblEnts b).filter
    fun i => (t.slot i).protocol != ipahalNatInvalidProtocol

/-- The slots met from `b` on along `next_index`. -/
def indexChain (t : IpaTable IpaNatIndxTblRule) (b : ℕ) : List ℕ :=
  (indexLinks t).walk t.totTblEnts b

/-- **The tables represent the rules** behind the client's handles. -/
structure Represents (g : NatDrvi) (c : IpaNatIp4TableCache)
    (rules : ℕ → Option IpaNatIpv4Rule) : Prop where
  record : ∀ h r, rules h = some r → ∃ i k, ipaTableGetEntry c.table h = .ok i ∧
    makeEntryHdl c.table i = h ∧ (c.table.slot i).unlinked = newRecord g.pdns r k
  nat_bucket : ∀ h r, rules h = some r →
    r.dstSlot g c.table.tableEntries < c.table.tableEntries ∧
      (c.table.slot (r.dstSlot g c.table.tableEntries)).enable = true
  nat_nodup : ∀ b, b < c.table.tableEntries → (c.table.slot b).enable = true →
    ((natChain c.table b).map (makeEntryHdl c.table)).Nodup
  nat_mem : ∀ b, b < c.table.tableEntries → (c.table.slot b).enable = true →
    ∀ h, h ∈ (natChain c.table b).map (makeEntryHdl c.table) ↔
      ∃ r, rules h = some r ∧ r.dstSlot g c.table.tableEntries = b
  index_bucket : ∀ h r, rules h = some r →
    r.srcSlot c.table.tableEntries < c.table.tableEntries ∧
      (c.indexTable.slot (r.srcSlot c.table.tableEntries)).tblEntry ≠ 0
  index_nodup : ∀ b, b < c.table.tableEntries → (c.indexTable.slot b).tblEntry ≠ 0 →
    ((indexChain c.indexTable b).map
      fun k => makeEntryHdl c.table (c.indexTable.slot k).tblEntry).Nodup
  index_mem : ∀ b, b < c.table.tableEntries → (c.indexTable.slot b).tblEntry ≠ 0 →
    ∀ h, h ∈ (indexChain c.indexTable b).map
        (fun k => makeEntryHdl c.table (c.indexTable.slot k).tblEntry) ↔
      ∃ r, rules h = some r ∧ r.srcSlot c.table.tableEntries = b

/-! ### The invariant -/

structure HashedInv (base size : ℕ) (homeN homeI : ℕ → ℕ) (s : NatClient) : Prop
    extends OrderlyInv base size homeN homeI s where
  rule : ∀ i, (s.cache.table.slot i).live = true → ∃ r,
    s.rules (makeEntryHdl s.cache.table i) = some r ∧
    (s.cache.table.slot i).unlinked.unindexed = newRecord s.drvi.pdns r 0 ∧
    homeN i = r.dstSlot s.drvi base ∧
    homeI (s.cache.table.slot i).indxTblEntry = r.srcSlot base

section Invariant

variable {base size : ℕ} {homeN homeI : ℕ → ℕ} {s : NatClient}

theorem addRule_drvi (g : NatDrvi) (c : IpaNatIp4TableCache) (clnt : IpaNatIpv4Rule)
    (post : Bool) :
    (ipaNATIAddIpv4Rule g c clnt post).drvi.ver = g.ver ∧
      (ipaNATIAddIpv4Rule g c clnt post).drvi.pdns = g.pdns := by
  have hbump : ∀ (g : NatDrvi) used, (g.bumpToken used).ver = g.ver ∧
      (g.bumpToken used).pdns = g.pdns := by
    intro g used
    cases used <;> exact ⟨rfl, rfl⟩
  have hcommit : ∀ g t n x k cmd, (commitRule g c clnt t n x k cmd post).drvi = g := by
    intro g t n x k cmd
    unfold commitRule
    cases ipaTableGetEntryByIndex t n <;> cases post <;> rfl
  have h1 := hbump g clnt.srcOnly
  have h2 := hbump (g.bumpToken clnt.srcOnly) clnt.dstOnly
  unfold ipaNATIAddIpv4Rule
  split
  · exact ⟨rfl, rfl⟩
  split
  · exact ⟨rfl, rfl⟩
  split
  · exact ⟨rfl, rfl⟩
  dsimp only
  split
  · exact h1
  · split
    · exact ⟨h2.1.trans h1.1, h2.2.trans h1.2⟩
    · rw [hcommit]
      exact ⟨h2.1.trans h1.1, h2.2.trans h1.2⟩

theorem next_add_drvi (s : NatClient) (clnt : IpaNatIpv4Rule) (post : Bool) :
    (s.next (.add clnt post)).drvi.ver = s.drvi.ver ∧
      (s.next (.add clnt post)).drvi.pdns = s.drvi.pdns := by
  have h := addRule_drvi s.drvi s.cache clnt post
  simp only [NatClient.next]
  split <;> exact h

theorem dstSlot_congr {g g' : NatDrvi} (hver : g'.ver = g.ver) (hpdns : g'.pdns = g.pdns)
    (base : ℕ) (r : IpaNatIpv4Rule) : r.dstSlot g' base = r.dstSlot g base := by
  unfold IpaNatIpv4Rule.dstSlot
  rw [hver, hpdns]

theorem newEntryIndex_eq (h : Config base size s.cache) {clnt : IpaNatIpv4Rule}
    (hsrc : clnt.srcOnly = false) : newEntryIndex s.drvi s.cache clnt = clnt.dstSlot s.drvi base := by
  unfold newEntryIndex IpaNatIpv4Rule.dstSlot
  rw [h.nat.base_eq, hsrc]
  rfl

theorem newIndexTblEntryIndex_eq (h : Config base size s.cache) {clnt : IpaNatIpv4Rule}
    (g : NatDrvi) (hdst : clnt.dstOnly = false) :
    newIndexTblEntryIndex g s.cache clnt = clnt.srcSlot base := by
  unfold newIndexTblEntryIndex IpaNatIpv4Rule.srcSlot
  rw [h.nat.base_eq, hdst]
  rfl

section

variable (h : HashedInv base size homeN homeI s)
include h

theorem hashedInv_added {s' : NatClient}
    {clnt : IpaNatIpv4Rule} {n k : ℕ} (hproto : clnt.protocol ≠ ipahalNatInvalidProtocol)
    (hsrc : clnt.srcOnly = false) (hdst : clnt.dstOnly = false)
    (ha : RuleAdded base size s.drvi clnt n k s.cache s'.cache)
    (hiss : s'.issued = makeEntryHdl s.cache.table n :: s.issued)
    (hrules : s'.rules = update s.rules (makeEntryHdl s.cache.table n) (some clnt))
    (hver : s'.drvi.ver = s.drvi.ver) (hpdns : s'.drvi.pdns = s.drvi.pdns) :
    HashedInv base size (update homeN n (newEntryIndex s.drvi s.cache clnt))
      (update homeI k
        (newIndexTblEntryIndex (s.drvi.bumpToken clnt.srcOnly) s.cache clnt)) s' := by
  have hhdl := makeEntryHdl_congr h.chain.config.nat ha.config.nat ha.nmi
  have hn := (ha.slot_pos_lt h.chain).2
  have hx := ha.crossRef h.chain h.cross hproto
  refine ⟨⟨clientInv_added h.toClientInv hproto ha hiss hrules, hx⟩, fun i hi => ?_⟩
  rw [hhdl, hrules, hpdns]
  by_cases hin : i = n
  · subst hin
    have hk : (s'.cache.table.slot i).indxTblEntry = k := by
      rw [← IpaNatRule.unlinked_indxTblEntry, ha.nat.record_new]
      rfl
    refine ⟨clnt, update_self .., ?_, ?_, ?_⟩
    · rw [ha.nat.record_new]
      rfl
    · rw [update_self, newEntryIndex_eq h.chain.config hsrc, dstSlot_congr hver hpdns]
    · rw [hk, update_self, newIndexTblEntryIndex_eq h.chain.config _ hdst]
  · obtain hl := ((ha.live_iff hproto i).mp hi).resolve_left hin
    obtain ⟨r, hr, hrec, hN, hI⟩ := h.rule i hl
    have hil := (h.chain.nat_pos_lt (ChainInv.used_of_live hl)).2
    have hne : makeEntryHdl s.cache.table i ≠ makeEntryHdl s.cache.table n := fun he =>
      hin (makeEntryHdl_inj h.chain.config.sizes h.chain.config.nat hil hn he)
    have hidx : (s'.cache.table.slot i).indxTblEntry = (s.cache.table.slot i).indxTblEntry := by
      rw [← IpaNatRule.unlinked_indxTblEntry, ha.nat.record_old i hin, IpaNatRule.unlinked_indxTblEntry]
    have hik : (s.cache.table.slot i).indxTblEntry ≠ k := by
      intro he
      have hz := h.cross.rule i hl
      rw [he, ha.entry_free] at hz
      exact (h.chain.nat_pos_lt (ChainInv.used_of_live hl)).1.ne hz
    refine ⟨r, by rw [update_of_ne hne, hr], ?_, ?_, ?_⟩
    · rw [ha.nat.record_old i hin, hrec]
    · rw [update_of_ne hin, hN, dstSlot_congr hver hpdns]
    · rw [hidx, update_of_ne hik, hI]

theorem hashedInv_refused {s' : NatClient}
    (ha : AddRefused base size s.cache s'.cache) (hiss : s'.issued = s.issued)
    (hrules : s'.rules = s.rules) (hver : s'.drvi.ver = s.drvi.ver)
    (hpdns : s'.drvi.pdns = s.drvi.pdns) : HashedInv base size homeN homeI s' := by
  have hhdl := makeEntryHdl_congr h.chain.config.nat ha.config.nat ha.nmi
  refine ⟨⟨clientInv_same h.toClientInv (ha.chainInv h.chain) ha.nmi (addRefused_live ha) hiss
    hrules, ha.crossRef h.cross⟩, fun i hi => ?_⟩
  rw [ha.slot_eq h.cross] at hi ⊢
  obtain ⟨r, hr, hrec, hN, hI⟩ := h.rule i hi
  rw [hhdl, hrules, hpdns]
  exact ⟨r, hr, hrec, by rw [dstSlot_congr hver hpdns, hN], hI⟩

theorem hashedInv_deleted {s' : NatClient}
    {hdl i k q : ℕ} (hget : ipaTableGetEntry s.cache.table hdl = .ok i)
    (hi : (s.cache.table.slot i).live = true) (hik : (s.cache.table.slot i).indxTblEntry = k)
    (hd : RuleDeleted base size i k q s.cache s'.cache) (hiss : s'.issued = s.issued)
    (hrules : s'.rules = forgetRule s.cache.table hdl s.rules) (hdrvi : s'.drvi = s.drvi) :
    HashedInv base size homeN homeI s' := by
  have hhdl := makeEntryHdl_congr h.chain.config.nat hd.config.nat hd.nmi
  refine ⟨⟨clientInv_deleted h.toClientInv hget (ChainInv.used_of_live hi) hd hiss hrules,
    hd.crossRef h.chain h.cross hi hik⟩, fun m hm => ?_⟩
  obtain ⟨hl, hmi⟩ := (hd.live_iff m).mp hm
  obtain ⟨r, hr, hrec, hN, hI⟩ := h.rule m hl
  have hmsz := (h.chain.nat_pos_lt (ChainInv.used_of_live hl)).2
  rw [hdrvi]
  refine ⟨r, ?_, ?_, hN, ?_⟩
  · rw [hhdl, hrules, h.forgetRule_makeEntryHdl hget hmsz, if_neg hmi, hr]
  · rw [hd.fields_eq hl hmi, hrec]
  · rw [hd.indx_eq hl hmi]
    split
    · -- the index entry of this rule has moved into the bucket
      rename_i hmq
      have hqu : (s.cache.indexTable.slot q).tblEntry ≠ 0 :=
        indexLinks_occupied.mp hd.index.links.used
      have hqr := (h.cross.entry q hqu).2
      rw [← hmq.2] at hqr
      rw [← hd.home_moved h.chain, ← hqr, hI]
    · exact hI

theorem hashedInv_clear : HashedInv base size id id (s.next .clear) := by
  refine ⟨⟨clientInv_clear h.toClientInv, clear_crossRef h.chain h.cross⟩, fun i hi => ?_⟩
  rw [show (s.next .clear).cache = ipaNATIClearIpv4Tbl s.cache from rfl,
    clear_nat_zero h.chain h.cross] at hi
  exact absurd hi (by decide)

theorem hashedInv_next {op : NatOp} (hop : Hashed s op) :
    ∃ homeN' homeI', HashedInv base size homeN' homeI' (s.next op) := by
  obtain ⟨hop, hflags⟩ := hop
  cases op with
  | add clnt post =>
    obtain ⟨hsrc, hdst⟩ := hflags clnt post rfl
    obtain ⟨hver, hpdns⟩ := next_add_drvi s clnt post
    rcases next_add_cases h.chain clnt post with
      ⟨-, hproto, n, k, ha, -, hiss, hrules⟩ | ⟨-, ha, hiss, hrules⟩
    · exact ⟨_, _, hashedInv_added h hproto hsrc hdst ha hiss hrules hver hpdns⟩
    · exact ⟨_, _, hashedInv_refused h ha hiss hrules hver hpdns⟩
  | del hdl post =>
    obtain ⟨hr, rfl⟩ : s.rules hdl ≠ none ∧ post = true := hop
    obtain ⟨hret, i, k, q, hget, hi, hik, hd⟩ := delRule_live h.toOrderlyInv hr
    exact ⟨_, _, hashedInv_deleted h hget hi hik hd rfl (by simp [NatClient.next, hret]) rfl⟩
  | clear => exact ⟨_, _, hashedInv_clear h⟩

end

theorem hashedInv_reachable (h : (natClient Hashed).Reachable s) :
    ∃ base size homeN homeI, HashedInv base size homeN homeI s := by
  refine inv_reachable h (fun s hs => ?_) fun hinv hop => hashedInv_next hinv hop
  obtain ⟨base, size, hinv⟩ := fresh_inv hs
  refine ⟨base, size, hinv, fun i hi => ?_⟩
  have hr := hinv.rule_of_live hi
  rw [hs.2.2] at hr
  exact absurd rfl hr

end Invariant

namespace HashedInv

variable {base size : ℕ} {homeN homeI : ℕ → ℕ} {s : NatClient}

section

variable (h : HashedInv base size homeN homeI s)
include h

theorem slot_of_some {hdl : ℕ} {r : IpaNatIpv4Rule}
    (hr : s.rules hdl = some r) :
    ∃ i, (s.cache.table.slot i).live = true ∧ makeEntryHdl s.cache.table i = hdl ∧
      ipaTableGetEntry s.cache.table hdl = .ok i ∧
      (s.cache.table.slot i).unlinked.unindexed = newRecord s.drvi.pdns r 0 ∧
      homeN i = r.dstSlot s.drvi base ∧
      homeI (s.cache.table.slot i).indxTblEntry = r.srcSlot base := by
  obtain ⟨i, hi, rfl, hget⟩ := h.slot_of_rule (hr ▸ Option.some_ne_none r : s.rules hdl ≠ none)
  obtain ⟨r', hr', hrec, hN, hI⟩ := h.rule i hi
  rw [hr] at hr'
  obtain rfl := Option.some.inj hr'
  exact ⟨i, hi, rfl, hget, hrec, hN, hI⟩

theorem mem_natChain {b : ℕ} (hb : b < base)
    (hu : (s.cache.table.slot b).enable = true) (i : ℕ) :
    i ∈ natChain s.cache.table b ↔ (s.cache.table.slot i).live = true ∧ homeN i = b := by
  obtain ⟨rank, hc⟩ := h.chain.nat
  unfold natChain
  rw [List.mem_filter, h.chain.config.nat.tot_eq,
    hc.mem_walk_iff le_rfl (b := b) hu hb, IpaNatRule.live_iff, natLinks_used, bne_iff_ne]
  exact ⟨fun ⟨⟨h1, h2⟩, h3⟩ => ⟨⟨h1, h3⟩, h2⟩, fun ⟨⟨h1, h3⟩, h2⟩ => ⟨⟨h1, h2⟩, h3⟩⟩

theorem mem_indexChain {b : ℕ} (hb : b < base)
    (hu : (s.cache.indexTable.slot b).tblEntry ≠ 0) (k : ℕ) :
    k ∈ indexChain s.cache.indexTable b ↔
      (s.cache.indexTable.slot k).tblEntry ≠ 0 ∧ homeI k = b := by
  obtain ⟨rank, hc⟩ := h.chain.index
  unfold indexChain
  rw [h.chain.config.index.tot_eq,
    hc.mem_walk_iff le_rfl (indexLinks_occupied.mpr hu) hb, indexLinks_occupied]

/-- **The abstraction**: a table that satisfies the invariant represents the client's rules. -/
theorem represents : Represents s.drvi s.cache s.rules := by
  have hsz := h.chain.config.sizes
  have hg := h.chain.config.nat
  obtain ⟨rankN, hcN⟩ := h.chain.nat
  obtain ⟨rankI, hcI⟩ := h.chain.index
  have hinj : ∀ i j, (s.cache.table.slot i).enable = true → (s.cache.table.slot j).enable = true →
      makeEntryHdl s.cache.table i = makeEntryHdl s.cache.table j → i = j :=
    fun i j hi hj he => makeEntryHdl_inj hsz hg (h.chain.nat_pos_lt hi).2
      (h.chain.nat_pos_lt hj).2 he
  constructor
  case record =>
    intro hdl r hr
    obtain ⟨i, -, hhdl, hget, hrec, -, -⟩ := h.slot_of_some hr
    refine ⟨i, (s.cache.table.slot i).indxTblEntry, hget, hhdl, ?_⟩
    exact IpaNatRule.eq_of_unindexed (hrec.trans rfl) rfl
  case nat_bucket =>
    intro hdl r hr
    obtain ⟨i, hi, -, -, -, hN, -⟩ := h.slot_of_some hr
    rw [hg.base_eq, ← hN]
    exact (hcN.home_used (ChainInv.used_of_live hi)).symm
  case nat_nodup =>
    intro b hb hu
    rw [hg.base_eq] at hb
    refine ((hcN.walk_nodup _ hu).filter _).map_on fun i hi j hj he => ?_
    exact hinj i j (ChainInv.used_of_live ((h.mem_natChain hb hu i).mp hi).1)
      (ChainInv.used_of_live ((h.mem_natChain hb hu j).mp hj).1) he
  case nat_mem =>
    intro b hb hu hdl
    rw [hg.base_eq] at hb ⊢
    rw [List.mem_map]
    constructor
    · rintro ⟨i, hi, rfl⟩
      obtain ⟨hl, hhome⟩ := (h.mem_natChain hb hu i).mp hi
      obtain ⟨r, hr, -, hN, -⟩ := h.rule i hl
      exact ⟨r, hr, hN ▸ hhome⟩
    · rintro ⟨r, hr, hd⟩
      obtain ⟨i, hi, hhdl, -, -, hN, -⟩ := h.slot_of_some hr
      exact ⟨i, (h.mem_natChain hb hu i).mpr ⟨hi, hN.trans hd⟩, hhdl⟩
  case index_bucket =>
    intro hdl r hr
    obtain ⟨i, hi, -, -, -, -, hI⟩ := h.slot_of_some hr
    have hu : (s.cache.indexTable.slot (s.cache.table.slot i).indxTblEntry).tblEntry ≠ 0 := by
      rw [h.cross.rule i hi]
      exact (h.chain.nat_pos_lt (ChainInv.used_of_live hi)).1.ne'
    rw [hg.base_eq, ← hI]
    obtain ⟨hused, hlt⟩ := hcI.home_used (indexLinks_occupied.mpr hu)
    exact ⟨hlt, indexLinks_occupied.mp hused⟩
  case index_nodup =>
    intro b hb hu
    rw [hg.base_eq] at hb
    refine (hcI.walk_nodup _ (indexLinks_occupied.mpr hu)).map_on fun k hk l hl he => ?_
    obtain ⟨hkl, hkr⟩ := h.cross.entry k ((h.mem_indexChain hb hu k).mp hk).1
    obtain ⟨hll, hlr⟩ := h.cross.entry l ((h.mem_indexChain hb hu l).mp hl).1
    rw [← hkr, ← hlr, hinj _ _ (ChainInv.used_of_live hkl) (ChainInv.used_of_live hll) he]
  case index_mem =>
    intro b hb hu hdl
    rw [hg.base_eq] at hb ⊢
    rw [List.mem_map]
    constructor
    · rintro ⟨k, hk, rfl⟩
      obtain ⟨hku, hhome⟩ := (h.mem_indexChain hb hu k).mp hk
      obtain ⟨hl, hkr⟩ := h.cross.entry k hku
      obtain ⟨r, hr, -, -, hI⟩ := h.rule _ hl
      rw [hkr] at hI
      exact ⟨r, hr, hI ▸ hhome⟩
    · rintro ⟨r, hr, hd⟩
      obtain ⟨i, hi, hhdl, -, -, -, hI⟩ := h.slot_of_some hr
      have hir := h.cross.rule i hi
      refine ⟨_, (h.mem_indexChain hb hu _).mpr ⟨?_, hI.trans hd⟩, by rw [hir, hhdl]⟩
      rw [hir]
      exact (h.chain.nat_pos_lt (ChainInv.used_of_live hi)).1.ne'

end

end HashedInv

/-- **A NAT table is a finite set of rules.**  In every reachable state the tables represent the
client's rules, and each call does to them what it does to the map: an addition that returns
`0` adds its rule under a handle that had none, and changes nothing otherwise; deleting a live
handle returns `0` and removes its rule; clearing removes all. -/
theorem natClient_ruleSet {s : NatClient} (h : (natClient Hashed).Reachable s) :
    Represents s.drvi s.cache s.rules ∧
    (∀ clnt, clnt.srcOnly = false → clnt.dstOnly = false →
      let r := ipaNATIAddIpv4Rule s.drvi s.cache clnt true
      (r.ret = 0 → s.rules r.ruleHdl = none ∧
        Represents r.drvi r.cache (Function.update s.rules r.ruleHdl (some clnt))) ∧
      (r.ret ≠ 0 → Represents r.drvi r.cache s.rules)) ∧
    (∀ hdl, s.rules hdl ≠ none →
      (ipaNATIDelIpv4Rule s.cache hdl true).1 = 0 ∧
      Represents s.drvi (ipaNATIDelIpv4Rule s.cache hdl true).2
        (Function.update s.rules hdl none)) ∧
    Represents s.drvi (ipaNATIClearIpv4Tbl s.cache) fun _ => none := by
  obtain ⟨base, size, homeN, homeI, hinv⟩ := hashedInv_reachable h
  refine ⟨hinv.represents, fun clnt hsrc hdst => ?_, fun hdl hr => ?_,
    (hashedInv_clear hinv).represents⟩
  · have hop : Hashed s (.add clnt true) := by
      refine ⟨rfl, fun clnt' post he => ?_⟩
      cases he
      exact ⟨hsrc, hdst⟩
    obtain ⟨homeN', homeI', hinv'⟩ := hashedInv_next hinv hop
    have hrep := hinv'.represents
    refine ⟨fun hret => ?_, fun hret => ?_⟩
    · simp only [NatClient.next, hret, if_true] at hrep
      refine ⟨?_, hrep⟩
      rcases next_add_cases hinv.chain clnt true with ⟨-, -, n, k, ha, hhdl, -⟩ | ⟨hne, -⟩
      · by_contra hsome
        rw [hhdl] at hsome
        have hl := (hinv.live_iff n (ha.slot_pos_lt hinv.chain).2).mpr hsome
        exact ha.ne_of_live hl rfl
      · exact absurd hret hne
    · simp only [NatClient.next, hret, if_false] at hrep
      exact hrep
  · have hop : Hashed s (.del hdl true) := ⟨⟨hr, rfl⟩, fun _ _ he => by cases he⟩
    obtain ⟨homeN', homeI', hinv'⟩ := hashedInv_next hinv hop
    have hret := (delRule_live hinv.toOrderlyInv hr).1
    have hrep := hinv'.represents
    simp only [NatClient.next, hret, if_true, hinv.forgetRule_eq_update hr] at hrep
    exact ⟨hret, hrep⟩

theorem natClient_ruleSet_smallDead : Represents smallDead.drvi smallDead.cache smallDead.rules :=
  (natClient_ruleSet smallDead_reachable).1

end Sm8750Modules.IpaNat
