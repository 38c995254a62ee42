import Sm8750Modules.Lib.Runs
import Sm8750Modules.IpaNat.AddStep
import Sm8750Modules.IpaNat.DelStep

/-!
# Runs of one NAT table

A client of one IPv4 NAT table adds rules, deletes them by handle, and clears the table.
-/

namespace Sm8750Modules.IpaNat

open SlotChain Runs Function

structure NatClient where
  drvi : NatDrvi
  cache : IpaNatIp4TableCache
  issued : List ℕ
  rules : ℕ → Option IpaNatIpv4Rule

/-- The client's calls; `post` is the kernel's answer to the posted commands. -/
inductive NatOp where
  | add (clnt : IpaNatIpv4Rule) (post : Bool)
  | del (ruleHdl : ℕ) (post : Bool)
  | clear

/-- The client forgets the rule of the slot that a handle names. -/
def forgetRule (t : IpaTable IpaNatRule) (ruleHdl : ℕ) (rules : ℕ → Option IpaNatIpv4Rule) :
    ℕ → Option IpaNatIpv4Rule :=
  fun h => if ipaTableGetEntry t h = ipaTableGetEntry t ruleHdl then none else rules h

variable (s : NatClient)

/-- The effect of a call. -/
def NatClient.next : NatOp → NatClient
  | .add clnt post =>
    let r := ipaNATIAddIpv4Rule s.drvi s.cache clnt post
    if r.ret = 0 then
      ⟨r.drvi, r.cache, r.ruleHdl :: s.issued, Function.update s.rules r.ruleHdl (some clnt)⟩
    else ⟨r.drvi, r.cache, s.issued, s.rules⟩
  | .del ruleHdl post =>
    let (ret, cache) := ipaNATIDelIpv4Rule s.cache ruleHdl post
    ⟨s.drvi, cache, s.issued, if ret = 0 then forgetRule s.cache.table ruleHdl s.rules else s.rules⟩
  | .clear => ⟨s.drvi, ipaNATIClearIpv4Tbl s.cache, s.issued, fun _ => none⟩

def NatClient.Fresh : Prop :=
  (∃ nmi addrOffset numberOfEntries tableIndex,
    ipaNatiCreateTable nmi addrOffset numberOfEntries tableIndex = .ok s.cache) ∧
  s.issued = [] ∧ s.rules = fun _ => none

/-- The runs that only make the calls that `guard` allows. -/
def natClient (guard : NatClient → NatOp → Prop) : Machine NatClient NatOp where
  init := NatClient.Fresh
  guard := guard
  next := NatClient.next

theorem natClient_next {guard : NatClient → NatOp → Prop} {s : NatClient} {op : NatOp}
    (h : (natClient guard).Reachable s) (hop : guard s op) :
    (natClient guard).Reachable (s.next op) :=
  .next h hop

/-- Every command list is executed, and only live handles are deleted. -/
def Orderly : NatOp → Prop
  | .add _ post => post = true
  | .del ruleHdl post => s.rules ruleHdl ≠ none ∧ post = true
  | .clear => True

def Hashed (op : NatOp) : Prop :=
  Orderly s op ∧ ∀ clnt post, op = .add clnt post → clnt.srcOnly = false ∧ clnt.dstOnly = false

theorem orderly_of_hashed {s : NatClient} (h : (natClient Hashed).Reachable s) :
    (natClient Orderly).Reachable s :=
  Machine.Reachable.mono (M := natClient Orderly) (fun _ _ hop => hop.1) h

section Handles

variable {ρ : Type} {base size : ℕ} {t t' : IpaTable ρ}

theorem makeEntryHdl_congr (h : t.Geometry base size) (h' : t'.Geometry base size)
    (hnmi : t'.nmi = t.nmi) : makeEntryHdl t' = makeEntryHdl t := by
  funext i
  unfold makeEntryHdl
  rw [h.base_eq, h'.base_eq, hnmi]

end Handles

section Del

variable {base size : ℕ} {homeN homeI : ℕ → ℕ} {c : IpaNatIp4TableCache}

/-- **`ipa_NATI_del_ipv4_rule`** either returns an error, having redirected at most one rule, or
returns `0`, having taken out the enabled slot that the handle names and the index entry that
this slot names. -/
theorem delRule_cases (h : ChainInv base size homeN homeI c) (hdl : ℕ) (post : Bool) :
    ((ipaNATIDelIpv4Rule c hdl post).1 ≠ 0 ∧
      ((ipaNATIDelIpv4Rule c hdl post).2 = c ∨
        ∃ k, (ipaNATIDelIpv4Rule c hdl post).2 = copySecond c k)) ∨
    ((ipaNATIDelIpv4Rule c hdl post).1 = 0 ∧ ∃ i k q, ipaTableGetEntry c.table hdl = .ok i ∧
      (c.table.slot i).enable = true ∧ (c.table.slot i).indxTblEntry = k ∧
      RuleDeleted base size i k q c (ipaNATIDelIpv4Rule c hdl post).2) := by
  by_cases hbad : ∀ i, ipaTableGetEntry c.table hdl = .ok i → (c.table.slot i).enable = true →
      (c.indexTable.slot (c.table.slot i).indxTblEntry).tblEntry = 0
  · obtain ⟨hret, hsame⟩ := delRule_error h post hbad
    exact Or.inl ⟨hret, Or.inl hsame⟩
  · push Not at hbad
    obtain ⟨i, hget, hi, hk⟩ := hbad
    rcases delRule_eq h post hget hi rfl hk with ⟨-, he⟩ | ⟨-, hret, q, hd⟩
    · rw [he]
      exact Or.inl ⟨by simp [eio], Or.inr ⟨_, rfl⟩⟩
    · exact Or.inr ⟨hret, i, _, q, hget, hi, rfl, hd⟩

end Del

/-- The live slots are those whose handles the client has rules for. -/
structure ClientInv (base size : ℕ) (homeN homeI : ℕ → ℕ) (s : NatClient) : Prop where
  chain : ChainInv base size homeN homeI s.cache
  issued_slot : ∀ h ∈ s.issued, ∃ i, i < size ∧ h = makeEntryHdl s.cache.table i
  rules_issued : ∀ h, s.rules h ≠ none → h ∈ s.issued
  live_iff : ∀ i, i < size →
    ((s.cache.table.slot i).live = true ↔ s.rules (makeEntryHdl s.cache.table i) ≠ none)

/-- The invariant while every command list is executed and only live handles are deleted. -/
structure OrderlyInv (base size : ℕ) (homeN homeI : ℕ → ℕ) (s : NatClient) : Prop
    extends ClientInv base size homeN homeI s where
  cross : CrossRef s.cache

namespace ClientInv

variable {base size : ℕ} {homeN homeI : ℕ → ℕ} {s : NatClient}

section

variable (h : ClientInv base size homeN homeI s)
include h

theorem slot_of_rule {hdl : ℕ} (hr : s.rules hdl ≠ none) :
    ∃ i, (s.cache.table.slot i).live = true ∧ hdl = makeEntryHdl s.cache.table i ∧
      ipaTableGetEntry s.cache.table hdl = .ok i := by
  obtain ⟨i, hi, rfl⟩ := h.issued_slot hdl (h.rules_issued hdl hr)
  exact ⟨i, (h.live_iff i hi).mpr hr, rfl,
    getEntry_makeEntryHdl h.chain.config.sizes h.chain.config.nat hi⟩

theorem rule_of_live {i : ℕ}
    (hi : (s.cache.table.slot i).live = true) :
    s.rules (makeEntryHdl s.cache.table i) ≠ none :=
  (h.live_iff i (h.chain.nat_pos_lt (ChainInv.used_of_live hi)).2).mp hi

theorem forgetRule_makeEntryHdl {hdl i m : ℕ}
    (hget : ipaTableGetEntry s.cache.table hdl = .ok i) (hm : m < size) :
    forgetRule s.cache.table hdl s.rules (makeEntryHdl s.cache.table m) =
      if m = i then none else s.rules (makeEntryHdl s.cache.table m) := by
  unfold forgetRule
  rw [getEntry_makeEntryHdl h.chain.config.sizes h.chain.config.nat hm, hget]
  simp

theorem forgetRule_eq_update {hdl : ℕ}
    (hr : s.rules hdl ≠ none) :
    forgetRule s.cache.table hdl s.rules = update s.rules hdl none := by
  obtain ⟨i, hi, rfl, hget⟩ := h.slot_of_rule hr
  funext h'
  by_cases he : h' = makeEntryHdl s.cache.table i
  · rw [he, update_self, forgetRule, if_pos rfl]
  rw [update_of_ne he]
  cases hr' : s.rules h' with
  | none => simp [forgetRule, hr']
  | some r' =>
    obtain ⟨j, hj, rfl, hget'⟩ := h.slot_of_rule (hr' ▸ Option.some_ne_none r' : s.rules h' ≠ none)
    have hji : j ≠ i := fun hji => he (hji ▸ rfl)
    rw [h.forgetRule_makeEntryHdl hget (h.chain.nat_pos_lt (ChainInv.used_of_live hj)).2,
      if_neg hji, hr']

end

end ClientInv

/-! ### One call -/

section Step

variable {base size : ℕ} {homeN homeI : ℕ → ℕ} {s : NatClient}

theorem fresh_inv (h : s.Fresh) : ∃ base size, OrderlyInv base size id id s := by
  obtain ⟨⟨nmi, addrOffset, n, tableIndex, hc⟩, hiss, hrules⟩ := h
  obtain ⟨base, size, hcfg, hnat, hindex, h1, h2, h3, h4, -, -⟩ := ipaNatiCreateTable_config hc
  have hch := chainInv_empty hcfg (fun i => by rw [hnat]; rfl) hindex h1 h2 h3 h4
  refine ⟨base, size, ⟨hch, by simp [hiss], by simp [hrules], fun i _ => ?_⟩,
    crossRef_empty hnat hindex⟩
  rw [hnat, hrules]
  exact ⟨fun hl => absurd hl (by decide), fun hr => absurd rfl hr⟩

theorem next_add_cases (h : ChainInv base size homeN homeI s.cache) (clnt : IpaNatIpv4Rule)
    (post : Bool) :
    ((ipaNATIAddIpv4Rule s.drvi s.cache clnt post).ret = 0 ∧
      clnt.protocol ≠ ipahalNatInvalidProtocol ∧ ∃ n k,
      RuleAdded base size s.drvi clnt n k s.cache (s.next (.add clnt post)).cache ∧
      (ipaNATIAddIpv4Rule s.drvi s.cache clnt post).ruleHdl = makeEntryHdl s.cache.table n ∧
      (s.next (.add clnt post)).issued = makeEntryHdl s.cache.table n :: s.issued ∧
      (s.next (.add clnt post)).rules =
        update s.rules (makeEntryHdl s.cache.table n) (some clnt)) ∨
    ((ipaNATIAddIpv4Rule s.drvi s.cache clnt post).ret ≠ 0 ∧
      AddRefused base size s.cache (s.next (.add clnt post)).cache ∧
      (s.next (.add clnt post)).issued = s.issued ∧
      (s.next (.add clnt post)).rules = s.rules) := by
  rcases addRule_cases h s.drvi clnt post with ⟨hret, hproto, -, n, k, ha, hhdl⟩ | ⟨hret, ha⟩
  · refine Or.inl ⟨hret, hproto, n, k, ?_⟩
    simp only [NatClient.next, hret, if_true, hhdl]
    exact ⟨ha, trivial, trivial, trivial⟩
  · refine Or.inr ⟨hret, ?_⟩
    simp only [NatClient.next, hret, if_false]
    exact ⟨ha, trivial, trivial⟩

theorem clientInv_added (h : ClientInv base size homeN homeI s) {s' : NatClient}
    {clnt : IpaNatIpv4Rule} {n k : ℕ} (hproto : clnt.protocol ≠ ipahalNatInvalidProtocol)
    (ha : RuleAdded base size s.drvi clnt n k s.cache s'.cache)
    (hiss : s'.issued = makeEntryHdl s.cache.table n :: s.issued)
    (hrules : s'.rules = update s.rules (makeEntryHdl s.cache.table n) (some clnt)) :
    ClientInv base size (update homeN n (newEntryIndex s.drvi s.cache clnt))
      (update homeI k
        (newIndexTblEntryIndex (s.drvi.bumpToken clnt.srcOnly) s.cache clnt)) s' := by
  have hn := (ha.slot_pos_lt h.chain).2
  have hhdl := makeEntryHdl_congr h.chain.config.nat ha.config.nat ha.nmi
  refine ⟨ha.chainInv h.chain hproto, ?_, ?_, ?_⟩
  · rw [hiss, hhdl]
    intro hd hmem
    rcases List.mem_cons.mp hmem with rfl | hmem
    · exact ⟨n, hn, rfl⟩
    · exact h.issued_slot hd hmem
  · intro hd hr
    rw [hiss]
    rw [hrules] at hr
    by_cases he : hd = makeEntryHdl s.cache.table n
    · exact he ▸ List.mem_cons_self
    · rw [update_of_ne he] at hr
      exact List.mem_cons_of_mem _ (h.rules_issued hd hr)
  · intro i hi
    rw [hhdl, hrules, ha.live_iff hproto]
    by_cases hin : i = n
    · simp [hin]
    · have hne : makeEntryHdl s.cache.table i ≠ makeEntryHdl s.cache.table n := fun he =>
        hin (makeEntryHdl_inj h.chain.config.sizes h.chain.config.nat hi hn he)
      rw [update_of_ne hne, ← h.live_iff i hi]
      simp [hin]

theorem clientInv_same (h : ClientInv base size homeN homeI s) {s' : NatClient}
    (hc : ChainInv base size homeN homeI s'.cache) (hnmi : s'.cache.table.nmi = s.cache.table.nmi)
    (hlive : ∀ i, (s'.cache.table.slot i).live = (s.cache.table.slot i).live)
    (hiss : s'.issued = s.issued) (hrules : s'.rules = s.rules) :
    ClientInv base size homeN homeI s' := by
  have hhdl := makeEntryHdl_congr h.chain.config.nat hc.config.nat hnmi
  refine ⟨hc, ?_, ?_, ?_⟩
  · rw [hiss, hhdl]
    exact h.issued_slot
  · rw [hiss, hrules]
    exact h.rules_issued
  · intro i hi
    rw [hlive, hhdl, hrules]
    exact h.live_iff i hi

theorem clientInv_deleted (h : ClientInv base size homeN homeI s) {s' : NatClient}
    {hdl i k q : ℕ} (hget : ipaTableGetEntry s.cache.table hdl = .ok i)
    (hi : (s.cache.table.slot i).enable = true)
    (hd : RuleDeleted base size i k q s.cache s'.cache) (hiss : s'.issued = s.issued)
    (hrules : s'.rules = forgetRule s.cache.table hdl s.rules) :
    ClientInv base size homeN homeI s' := by
  have hhdl := makeEntryHdl_congr h.chain.config.nat hd.config.nat hd.nmi
  refine ⟨hd.chainInv h.chain hi, ?_, ?_, ?_⟩
  · rw [hiss, hhdl]
    exact h.issued_slot
  · intro hd' hr
    rw [hiss]
    refine h.rules_issued hd' fun hn => hr ?_
    rw [hrules]
    simp [forgetRule, hn]
  · intro m hm
    rw [hd.live_iff, hhdl, hrules, h.forgetRule_makeEntryHdl hget hm, h.live_iff m hm]
    by_cases hmi : m = i <;> simp [hmi]

theorem addRefused_live (ha : AddRefused base size s.cache c') (i : ℕ) :
    (c'.table.slot i).live = (s.cache.table.slot i).live := by
  rcases ha.natSlot i with hs | ⟨hfree, hz⟩
  · rw [hs]
  · rw [hz, IpaNatRule.live, IpaNatRule.live, hfree]
    rfl

theorem copySecond_nmi (c : IpaNatIp4TableCache) (k : ℕ) :
    (copySecond c k).table.nmi = c.table.nmi := by
  rcases copySecond_cases c k with ⟨-, -, he⟩ | ⟨-, he⟩ <;> rw [he]
  rfl

theorem clientInv_clear (h : ClientInv base size homeN homeI s) :
    ClientInv base size id id (s.next .clear) := by
  have hc := clear_chainInv h.chain
  refine ⟨hc, h.issued_slot, fun hd hr => absurd rfl hr, fun i hi => ?_⟩
  have hz : ((ipaNATIClearIpv4Tbl s.cache).table.slot i).live = false := by
    rw [clear_nat_slot h.chain.config, if_pos hi]
    rfl
  exact ⟨fun hl => absurd (hl.symm.trans hz) (by simp), fun hr => absurd rfl hr⟩

theorem clientInv_next (h : ClientInv base size homeN homeI s) (op : NatOp) :
    ∃ homeN' homeI', ClientInv base size homeN' homeI' (s.next op) := by
  cases op with
  | add clnt post =>
    rcases next_add_cases h.chain clnt post with
      ⟨-, hproto, n, k, ha, -, hiss, hrules⟩ | ⟨-, ha, hiss, hrules⟩
    · exact ⟨_, _, clientInv_added h hproto ha hiss hrules⟩
    · exact ⟨_, _, clientInv_same h (ha.chainInv h.chain) ha.nmi (addRefused_live ha) hiss hrules⟩
  | del hdl post =>
    rcases delRule_cases h.chain hdl post with
      ⟨hret, hsame | ⟨k, hcopy⟩⟩ | ⟨hret, i, k, q, hget, hi, -, hd⟩
    · exact ⟨homeN, homeI, clientInv_same h (by simpa [NatClient.next, hsame] using h.chain)
        (by simp [NatClient.next, hsame]) (by simp [NatClient.next, hsame]) rfl
        (by simp [NatClient.next, hret])⟩
    · refine ⟨homeN, homeI, clientInv_same h ?_ ?_ ?_ rfl (by simp [NatClient.next, hret])⟩
      · simpa [NatClient.next, hcopy] using copySecond_chainInv h.chain k
      · simpa [NatClient.next, hcopy] using copySecond_nmi s.cache k
      · simpa [NatClient.next, hcopy] using copySecond_live s.cache k
    · exact ⟨homeN, homeI, clientInv_deleted h hget hi hd rfl (by simp [NatClient.next, hret])⟩
  | clear => exact ⟨id, id, clientInv_clear h⟩

/-- **A delete of a live handle** returns `0` and takes out its slot. -/
theorem delRule_live (h : OrderlyInv base size homeN homeI s) {hdl : ℕ}
    (hr : s.rules hdl ≠ none) :
    (ipaNATIDelIpv4Rule s.cache hdl true).1 = 0 ∧ ∃ i k q,
      ipaTableGetEntry s.cache.table hdl = .ok i ∧ (s.cache.table.slot i).live = true ∧
      (s.cache.table.slot i).indxTblEntry = k ∧
      RuleDeleted base size i k q s.cache (ipaNATIDelIpv4Rule s.cache hdl true).2 := by
  obtain ⟨i, hi, -, hget⟩ := h.slot_of_rule hr
  have hie := ChainInv.used_of_live hi
  have hk : (s.cache.indexTable.slot (s.cache.table.slot i).indxTblEntry).tblEntry ≠ 0 := by
    rw [h.cross.rule i hi]
    exact (h.chain.nat_pos_lt hie).1.ne'
  rcases delRule_eq h.chain true hget hie rfl hk with ⟨hp, -⟩ | ⟨-, hret, q, hd⟩
  · exact absurd hp (by simp)
  · exact ⟨hret, i, _, q, hget, hi, rfl, hd⟩

end Step

section Orderly

variable {base size : ℕ} {homeN homeI : ℕ → ℕ} {s : NatClient}

theorem orderlyInv_next (h : OrderlyInv base size homeN homeI s) {op : NatOp}
    (hop : Orderly s op) : ∃ homeN' homeI', OrderlyInv base size homeN' homeI' (s.next op) := by
  cases op with
  | add clnt post =>
    rcases next_add_cases h.chain clnt post with
      ⟨-, hproto, n, k, ha, -, hiss, hrules⟩ | ⟨-, ha, hiss, hrules⟩
    · exact ⟨_, _, clientInv_added h.toClientInv hproto ha hiss hrules,
        ha.crossRef h.chain h.cross hproto⟩
    · exact ⟨_, _, clientInv_same h.toClientInv (ha.chainInv h.chain) ha.nmi (addRefused_live ha)
        hiss hrules, ha.crossRef h.cross⟩
  | del hdl post =>
    obtain ⟨hr, rfl⟩ : s.rules hdl ≠ none ∧ post = true := hop
    obtain ⟨hret, i, k, q, hget, hi, hik, hd⟩ := delRule_live h hr
    exact ⟨homeN, homeI, clientInv_deleted h.toClientInv hget (ChainInv.used_of_live hi) hd rfl
      (by simp [NatClient.next, hret]), hd.crossRef h.chain h.cross hi hik⟩
  | clear => exact ⟨id, id, clientInv_clear h.toClientInv, clear_crossRef h.chain h.cross⟩

end Orderly

section Runs

variable {guard : NatClient → NatOp → Prop} {s : NatClient}

theorem inv_reachable {I : ℕ → ℕ → (ℕ → ℕ) → (ℕ → ℕ) → NatClient → Prop}
    (h : (natClient guard).Reachable s) (hinit : ∀ s : NatClient, s.Fresh → ∃ base size, I base size id id s)
    (hnext : ∀ {base size homeN homeI s op}, I base size homeN homeI s → guard s op →
      ∃ homeN' homeI', I base size homeN' homeI' (s.next op)) :
    ∃ base size homeN homeI, I base size homeN homeI s := by
  refine h.invariant (I := fun s => ∃ base size homeN homeI, I base size homeN homeI s)
    (fun s hs => ?_) fun s op hs hop => ?_
  · obtain ⟨base, size, hinv⟩ := hinit s hs
    exact ⟨base, size, id, id, hinv⟩
  · obtain ⟨base, size, homeN, homeI, hinv⟩ := hs
    obtain ⟨homeN', homeI', hinv'⟩ := hnext hinv hop
    exact ⟨base, size, homeN', homeI', hinv'⟩

theorem clientInv_reachable (h : (natClient guard).Reachable s) :
    ∃ base size homeN homeI, ClientInv base size homeN homeI s := by
  refine inv_reachable h (fun s hs => ?_) fun hinv _ => clientInv_next hinv _
  obtain ⟨base, size, hinv⟩ := fresh_inv hs
  exact ⟨base, size, hinv.toClientInv⟩

theorem orderlyInv_reachable (h : (natClient Orderly).Reachable s) :
    ∃ base size homeN homeI, OrderlyInv base size homeN homeI s :=
  inv_reachable h (fun _ hs => fresh_inv hs) fun hinv hop => orderlyInv_next hinv hop

end Runs

def smallTable : IpaNatIp4TableCache := (ipaNatiCreateTable .ddr 0 5 0).toOption.get rfl

def smallClient : NatClient where
  drvi := { ver := ipaHwV40, pdns := fun _ => 0x0A000001, hashToken := 0 }
  cache := smallTable
  issued := []
  rules := fun _ => none

theorem smallClient_fresh : smallClient.Fresh := ⟨⟨.ddr, 0, 5, 0, rfl⟩, rfl, rfl⟩

/-- A TCP rule for the private address `privateIp`. -/
def smallRule (privateIp : UInt32) : IpaNatIpv4Rule where
  targetIp := 8
  privateIp := privateIp
  targetPort := 80
  privatePort := 1000
  publicPort := 5000
  protocol := ipprotoTcp
  pdnIndex := 0
  redirect := 0
  enable := 0
  timeStamp := 0
  ucActivationIndex := 0
  s := false
  ucp := false
  dstOnly := false
  srcOnly := false

def smallPair : NatClient :=
  (smallClient.next (.add (smallRule 16) true)).next (.add (smallRule 32) true)

def smallDead : NatClient := smallPair.next (.del 6 true)

theorem smallRule_hashed (s : NatClient) (privateIp : UInt32) :
    Hashed s (.add (smallRule privateIp) true) :=
  ⟨rfl, fun _ _ he => by cases he; exact ⟨rfl, rfl⟩⟩

theorem smallPair_reachable : (natClient Hashed).Reachable smallPair :=
  natClient_next (natClient_next (.init smallClient_fresh) (smallRule_hashed _ 16))
    (smallRule_hashed _ 32)

theorem smallPair_rule : smallPair.rules 6 ≠ none := by decide

theorem smallDead_reachable : (natClient Hashed).Reachable smallDead :=
  natClient_next smallPair_reachable ⟨⟨smallPair_rule, rfl⟩, fun _ _ he => by cases he⟩

end Sm8750Modules.IpaNat
