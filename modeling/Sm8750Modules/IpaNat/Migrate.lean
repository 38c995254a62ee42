import Sm8750Modules.IpaNat.NatiRuns

/-!
# Moving the rules to the other memory

What a switch callback that returns `0` has done (`smSwitchFrom_migrated`): every rule in force
of the source table has exactly one copy in the destination, the copy has the fields of the rule,
an original handle that resolved to the rule resolves to the copy, and the destination's counter
is the number of rules. The placeholders of the source have no copy.

The proof is an invariant of the walk over the source table (`CopyInv`); `migrateRule_ok` is
what one call of the callback does.
-/

namespace Sm8750Modules.IpaNat

open Runs Function

def IpaNatRule.payload (r : IpaNatRule) : IpaNatRule :=
  { r with nextIndex := 0, prevIndex := 0, indxTblEntry := 0, ipChksum := 0, tcpUdpChksum := 0 }

@[simp] theorem IpaNatRule.unlinked_payload (r : IpaNatRule) :
    r.unlinked.payload = r.payload := rfl

/-- The number of rules in force. -/
def numLive (t : IpaTable IpaNatRule) : ℕ :=
  ((Finset.range (t.tableEntries + t.expnTableEntries)).filter fun i =>
    (t.slot i).live = true).card

def Nati.table (w : Nati) (m : IpaNatMemIn) : IpaTable IpaNatRule := (w.natCache m).ip4Tbl.table

/-- Through the maps and the table of a memory, an original handle leads to a rule in force. -/
def Nati.Resolves (w : Nati) (m : IpaNatMemIn) (orig i : ℕ) : Prop :=
  ∃ new, w.obj.orig2newMap m orig = some new ∧ ipaTableGetEntry (w.table m) new = .ok i ∧
    ((w.table m).slot i).live = true

/-- The rules of the memory `src` in `w` have moved to the other memory in `w'`. -/
structure Migrated (src : IpaNatMemIn) (w w' : Nati) : Prop where
  copied : ∃ φ : ℕ → ℕ,
    Set.BijOn φ {i | ((w.table src).slot i).live = true}
      {j | ((w'.table src.other).slot j).live = true} ∧
    (∀ i, ((w.table src).slot i).live = true →
      ((w'.table src.other).slot (φ i)).payload = ((w.table src).slot i).payload) ∧
    ∀ orig i, w.Resolves src orig i → w'.Resolves src.other orig (φ i)
  noPlaceholder : ∀ j, ((w'.table src.other).slot j).enable = true →
    ((w'.table src.other).slot j).live = true
  counter : w'.obj.totRulesInTable src.other = numLive (w.table src)

theorem newRecord_v4Rule (pdns : ℕ → UInt32) (k : ℕ) {r : IpaNatRule} (he : r.enable = true)
    (hr : r.redirect = false) : (newRecord pdns (v4Rule r) k).payload = r.payload := by
  have hu : BitVec.ofNat 13 (UInt16.ofNat r.ucActivationIndex.toNat).toNat
      = r.ucActivationIndex := by
    have hlt := r.ucActivationIndex.isLt
    rw [UInt16.toNat_ofNat', Nat.mod_eq_of_lt (by omega), BitVec.ofNat_toNat]
    exact BitVec.setWidth_eq _
  have ht : BitVec.ofNat 24 (UInt32.ofNat r.timeStamp.toNat).toNat = r.timeStamp := by
    have hlt := r.timeStamp.isLt
    rw [UInt32.toNat_ofNat', Nat.mod_eq_of_lt (by omega), BitVec.ofNat_toNat]
    exact BitVec.setWidth_eq _
  have hp : BitVec.ofNat 4 r.pdnIndex.toNat = r.pdnIndex := by
    rw [BitVec.ofNat_toNat]
    exact BitVec.setWidth_eq _
  simp only [IpaNatRule.payload, newRecord, v4Rule, hu, ht, hp, he, hr]

section Rule

variable {w : Nati} {dstTblHdl hdl : ℕ} {t : IpaTable IpaNatRule} {r : IpaNatRule} {i : ℕ}

/-- What `migrate_rule` has done when it returns `0` for a rule in force. -/
structure RuleMigrated (dst : IpaNatMemIn) (r : IpaNatRule) (orig base size n k : ℕ)
    (w w' : Nati) : Prop where
  added : RuleAdded base size w.drvi (v4Rule r) n k (w.natCache dst).ip4Tbl
    (w'.natCache dst).ip4Tbl
  other : ∀ m, m ≠ dst → w'.natCache m = w.natCache m
  fresh : w.obj.orig2newMap dst orig = none
  orig2new : w'.obj.orig2newMap = Function.update w.obj.orig2newMap dst
    (Function.update (w.obj.orig2newMap dst) orig (some (makeEntryHdl (w.table dst) n)))
  new2orig : ∀ m, m ≠ dst → w'.obj.new2origMap m = w.obj.new2origMap m
  counter : w'.obj.totRulesInTable dst = (w.obj.totRulesInTable dst + 1) % 2 ^ 32

theorem natiAddIpv4Rule_added (h : NatiInv w) {m : IpaNatMemIn} (hm : tblHdlNmi dstTblHdl = m)
    {clnt : IpaNatIpv4Rule} (hret : (natiAddIpv4Rule w dstTblHdl clnt).1 = 0) :
    clnt.protocol ≠ ipahalNatInvalidProtocol ∧
    ∃ base size homeN homeI n k, ChainInv base size homeN homeI (w.natCache m).ip4Tbl ∧
      RuleAdded base size w.drvi clnt n k (w.natCache m).ip4Tbl
        ((natiAddIpv4Rule w dstTblHdl clnt).2.2.natCache m).ip4Tbl ∧
      (natiAddIpv4Rule w dstTblHdl clnt).2.1 = some (makeEntryHdl (w.table m) n) ∧
      ∀ m', m' ≠ m → (natiAddIpv4Rule w dstTblHdl clnt).2.2.natCache m' = w.natCache m' := by
  subst hm
  unfold natiAddIpv4Rule at hret ⊢
  split at hret
  · exact absurd hret (by decide : ¬ einval = 0)
  next hvalid =>
  dsimp only at hret ⊢
  rw [if_neg hvalid]
  cases h.table (tblHdlNmi dstTblHdl) with
  | absent habs =>
    obtain ⟨hacc, -⟩ := ipaNATIAddIpv4Rule_ret_eq_zero hret
    have hmem : (w.natCache (tblHdlNmi dstTblHdl)).ip4Tbl.memDescValid = true := hacc.memDescValid
    rw [habs] at hmem
    cases hmem
  | @present base size homeN homeI chain _ _ =>
    rcases addRule_cases chain w.drvi clnt (decide (w.sys.1 = 0)) with
      ⟨-, hproto, -, n, k, ha, hhdl⟩ | ⟨hne, -⟩
    · refine ⟨hproto, base, size, homeN, homeI, n, k, chain, ?_, congrArg some hhdl,
        fun m' hm' => update_of_ne hm' _ _⟩
      simp only [Nati.setTable, update_self]
      exact ha
    · exact absurd hret hne

theorem mapRule_ok {m : IpaNatMemIn} {orig new : ℕ} (hret : (w.mapRule m orig new).1 = 0) :
    w.obj.orig2newMap m orig = none ∧
    (w.mapRule m orig new).2 =
      w.setMaps m (update (w.obj.orig2newMap m) orig (some new))
        (update (w.obj.new2origMap m) new (some orig)) := by
  obtain ⟨ho, hn⟩ := (Nati.mapRule_ret_eq_zero_iff w m orig new).mp hret
  refine ⟨ho, ?_⟩
  unfold Nati.mapRule ipaNatMapAdd
  simp only [ho, hn, ne_eq, not_true_eq_false, if_false]

theorem migrateRule_ok (h : NatiInv w) (hdst : tblHdlNmi dstTblHdl = t.nmi.other)
    (hr : r.protocol ≠ ipahalNatInvalidProtocol)
    (hret : (migrateRule dstTblHdl t hdl r i w).1 = 0) :
    ∃ orig base size n k homeN homeI, w.obj.new2origMap t.nmi hdl = some orig ∧
      ChainInv base size homeN homeI (w.natCache t.nmi.other).ip4Tbl ∧
      RuleMigrated t.nmi.other r orig base size n k w (migrateRule dstTblHdl t hdl r i w).2 := by
  unfold migrateRule at hret ⊢
  dsimp only at hret ⊢
  simp only [hr, if_false] at hret ⊢
  unfold ipaNatMapFind at hret ⊢
  cases horig : w.obj.new2origMap t.nmi hdl with
  | none =>
    rw [horig] at hret
    cases hret
  | some orig =>
    rw [horig] at hret
    simp only [ne_eq, not_true_eq_false, if_false] at hret ⊢
    by_cases hadd : (natiAddIpv4Rule w dstTblHdl (v4Rule r)).1 = 0
    · simp only [hadd, not_true_eq_false, if_false] at hret ⊢
      obtain ⟨-, base, size, homeN, homeI, n, k, chain, ha, hhdl, hother⟩ :=
        natiAddIpv4Rule_added h hdst hadd
      have hobj := natiAddIpv4Rule_obj w dstTblHdl (v4Rule r)
      rw [hhdl] at hret ⊢
      obtain ⟨ho, he⟩ := mapRule_ok hret
      refine ⟨orig, base, size, n, k, homeN, homeI, rfl, chain, ?_⟩
      rw [he]
      refine ⟨ha, hother, ?_, ?_, ?_, ?_⟩
      · exact (congrFun (congrFun (congrArg IpaNatiObj.orig2newMap hobj) _) _).symm.trans ho
      · show update (natiAddIpv4Rule w dstTblHdl (v4Rule r)).2.2.obj.orig2newMap _
          (update ((natiAddIpv4Rule w dstTblHdl (v4Rule r)).2.2.obj.orig2newMap _) _ _) = _
        rw [hobj]
        rfl
      · intro m hm
        show update (natiAddIpv4Rule w dstTblHdl (v4Rule r)).2.2.obj.new2origMap _ _ m = _
        rw [update_of_ne hm, hobj]
      · show update (natiAddIpv4Rule w dstTblHdl (v4Rule r)).2.2.obj.totRulesInTable _ _ _
          = _
        rw [update_self, hobj]
    · simp only [hadd, not_false_eq_true, if_true] at hret

end Rule

/-! ### The whole copy -/

section Copy

variable {w : Nati} {dstTblHdl : ℕ} {t : IpaTable IpaNatRule}

def numLiveBelow (t : IpaTable IpaNatRule) (k : ℕ) : ℕ :=
  ((Finset.range k).filter fun i => (t.slot i).live = true).card

theorem numLiveBelow_succ (t : IpaTable IpaNatRule) (k : ℕ) :
    numLiveBelow t (k + 1) =
      if (t.slot k).live = true then numLiveBelow t k + 1 else numLiveBelow t k := by
  unfold numLiveBelow
  rw [Finset.range_add_one, Finset.filter_insert]
  split
  · rw [Finset.card_insert_of_notMem (by simp)]
  · rfl

theorem numLiveBelow_le (t : IpaTable IpaNatRule) (k : ℕ) : numLiveBelow t k ≤ k :=
  (Finset.card_filter_le _ _).trans (Finset.card_range k).le

/-- The library after the first `k` slots of the table `t` of memory `src` were copied, from the
library `w` with an empty destination on. -/
structure CopyInv (src : IpaNatMemIn) (t : IpaTable IpaNatRule) (w : Nati) (k : ℕ) (s : Nati) :
    Prop where
  inv : NatiInv s
  state : s.obj.currState = w.obj.currState
  source : s.natCache src = w.natCache src
  new2orig : s.obj.new2origMap src = w.obj.new2origMap src
  orig2new : s.obj.orig2newMap src = w.obj.orig2newMap src
  noPlaceholder : ∀ j, ((s.table src.other).slot j).enable = true →
    ((s.table src.other).slot j).live = true
  copied : ∃ φ : ℕ → ℕ,
    Set.BijOn φ {i | i < k ∧ (t.slot i).live = true}
      {j | ((s.table src.other).slot j).live = true} ∧
    (∀ i, i < k → (t.slot i).live = true →
      ((s.table src.other).slot (φ i)).payload = (t.slot i).payload) ∧
    ∀ i, i < k → (t.slot i).live = true → ∀ orig,
      w.obj.new2origMap src (makeEntryHdl t i) = some orig →
      s.obj.orig2newMap src.other orig = some (makeEntryHdl (s.table src.other) (φ i))
  counter : s.obj.totRulesInTable src.other = numLiveBelow t k

theorem other_ne (m : IpaNatMemIn) : m ≠ m.other := by
  cases m <;> decide

theorem bijOn_copy {φ : ℕ → ℕ} {k n : ℕ} {P Q Q' : ℕ → Prop}
    (h : Set.BijOn φ {i | i < k ∧ P i} {j | Q j}) (hk : P k) (hn : ¬ Q n)
    (hQ : ∀ j, Q' j ↔ j = n ∨ Q j) :
    Set.BijOn (update φ k n) {i | i < k + 1 ∧ P i} {j | Q' j} := by
  have hold : Set.BijOn (update φ k n) {i | i < k ∧ P i} {j | Q j} :=
    h.congr fun i hi => (update_of_ne hi.1.ne _ _).symm
  have hins := hold.insert (a := k) (by rw [update_self]; exact hn)
  rw [update_self] at hins
  convert hins using 1
  · ext i
    simp only [Set.mem_ofPred_eq, Set.mem_insert_iff]
    constructor
    · rintro ⟨hi, hp⟩
      rcases Nat.lt_succ_iff_lt_or_eq.mp hi with hi | rfl
      · exact Or.inr ⟨hi, hp⟩
      · exact Or.inl rfl
    · rintro (rfl | ⟨hi, hp⟩)
      · exact ⟨Nat.lt_succ_self _, hk⟩
      · exact ⟨by omega, hp⟩
  · ext j
    exact hQ j

theorem copyInv_step {src : IpaNatMemIn} {k : ℕ} {s : Nati} (hw : w.inHybridState = true)
    (hdst : tblHdlNmi dstTblHdl = src.other) (hnmi : t.nmi = src) (hund : Undirected t)
    (hk : k < 2 ^ 32 - 1) (h : CopyInv src t w k s)
    (hret : (walkStep (entryInterface w.drvi.pdns) t (migrateRule dstTblHdl t) k s).1 = 0) :
    CopyInv src t w (k + 1)
      (walkStep (entryInterface w.drvi.pdns) t (migrateRule dstTblHdl t) k s).2 := by
  have hskip : ∀ (hdead : ¬ (t.slot k).live = true), CopyInv src t w (k + 1) s := by
    intro hdead
    obtain ⟨φ, hbij, hpay, hmap⟩ := h.copied
    have hlt : ∀ i, i < k + 1 → (t.slot i).live = true → i < k := by
      intro i hi hl
      rcases Nat.lt_succ_iff_lt_or_eq.mp hi with hi | rfl
      · exact hi
      · exact absurd hl hdead
    refine ⟨h.inv, h.state, h.source, h.new2orig, h.orig2new, h.noPlaceholder,
      ⟨φ, ?_, fun i hi hl => hpay i (hlt i hi hl) hl, fun i hi hl => hmap i (hlt i hi hl) hl⟩, ?_⟩
    · convert hbij using 1
      ext i
      exact ⟨fun hi => ⟨hlt i hi.1 hi.2, hi.2⟩, fun hi => ⟨by have := hi.1; omega, hi.2⟩⟩
    · rw [h.counter, numLiveBelow_succ, if_neg hdead]
  unfold walkStep at hret ⊢
  by_cases he : (t.slot k).enable = true
  · rw [show (entryInterface w.drvi.pdns).entryIsValid (t.slot k) = true from he] at hret ⊢
    simp only [if_true] at hret ⊢
    by_cases hp : (t.slot k).protocol = ipahalNatInvalidProtocol
    · have hsame : migrateRule dstTblHdl t (makeEntryHdl t k) (t.slot k) k s = (0, s) := by
        unfold migrateRule
        exact if_pos hp
      rw [hsame]
      exact hskip fun hl => (IpaNatRule.live_iff.mp hl).2 hp
    · have hlive : (t.slot k).live = true := IpaNatRule.live_iff.mpr ⟨he, hp⟩
      obtain ⟨hinv', hstate'⟩ := migrateRule_inv h.inv ((inHybridState_congr h.state).trans hw)
        (hdst.trans (by rw [hnmi])) (makeEntryHdl t k) (t.slot k) k
      obtain ⟨orig, base, size, n, q, homeN, homeI, horig, chain, hm⟩ :=
        migrateRule_ok h.inv (hdst.trans (by rw [hnmi])) hp hret
      rw [hnmi] at horig chain hm
      generalize (migrateRule dstTblHdl t (makeEntryHdl t k) (t.slot k) k s).2 = s'
        at hinv' hstate' hm ⊢
      have ha := hm.added
      have hpv : (v4Rule (t.slot k)).protocol ≠ ipahalNatInvalidProtocol := hp
      have hhdl : makeEntryHdl (s'.table src.other) = makeEntryHdl (s.table src.other) :=
        makeEntryHdl_congr chain.config.nat ha.config.nat ha.nmi
      have hfree : ¬ ((s.table src.other).slot n).live = true := by
        intro hl
        exact ha.ne_of_live hl rfl
      have hnew : ((s'.table src.other).slot n).payload = (t.slot k).payload := by
        have hrec := congrArg IpaNatRule.payload ha.nat.record_new
        rw [IpaNatRule.unlinked_payload] at hrec
        exact hrec.trans (newRecord_v4Rule s.drvi.pdns q he (hund k hlive))
      have hold : ∀ j, j ≠ n →
          ((s'.table src.other).slot j).payload = ((s.table src.other).slot j).payload := by
        intro j hj
        have hrec := congrArg IpaNatRule.payload (ha.nat.record_old j hj)
        rw [IpaNatRule.unlinked_payload, IpaNatRule.unlinked_payload] at hrec
        exact hrec
      obtain ⟨φ, hbij, hpay, hmap⟩ := h.copied
      have hne : ∀ i, i < k → (t.slot i).live = true → φ i ≠ n := by
        intro i hi hl hin
        exact hfree (hin ▸ hbij.mapsTo ⟨hi, hl⟩)
      refine ⟨hinv', hstate'.trans h.state, (hm.other src (other_ne src)).trans h.source,
        (hm.new2orig src (other_ne src)).trans h.new2orig, ?_, ?_,
        ⟨update φ k n, bijOn_copy hbij hlive hfree (ha.live_iff hpv), ?_, ?_⟩, ?_⟩
      · rw [hm.orig2new, update_of_ne (other_ne src), h.orig2new]
      · intro j hj
        by_cases hjn : j = n
        · exact (ha.live_iff hpv j).mpr (Or.inl hjn)
        · have hj' : ((s.table src.other).slot j).enable = true :=
            (congrArg IpaNatRule.enable (ha.nat.record_old j hjn)).symm.trans hj
          exact (ha.live_iff hpv j).mpr (Or.inr (h.noPlaceholder j hj'))
      · intro i hi hl
        rcases Nat.lt_succ_iff_lt_or_eq.mp hi with hi | rfl
        · rw [update_of_ne hi.ne, hold _ (hne i hi hl)]
          exact hpay i hi hl
        · rw [update_self]
          exact hnew
      · intro i hi hl orig' horig'
        rw [hm.orig2new, update_self, hhdl]
        rcases Nat.lt_succ_iff_lt_or_eq.mp hi with hi | rfl
        · have hprev := hmap i hi hl orig' horig'
          have hno : orig' ≠ orig := by
            rintro rfl
            rw [hm.fresh] at hprev
            cases hprev
          rw [update_of_ne hno, update_of_ne hi.ne, hprev]
        · rw [h.new2orig, horig'] at horig
          cases horig
          rw [update_self, update_self]
      · have hle := numLiveBelow_le t k
        rw [hm.counter, h.counter, numLiveBelow_succ, if_pos hlive]
        exact Nat.mod_eq_of_lt (by omega)
  · rw [show (entryInterface w.drvi.pdns).entryIsValid (t.slot k) = false from
      Bool.eq_false_iff.mpr he] at hret ⊢
    exact hskip fun hl => he (IpaNatRule.live_iff.mp hl).1

theorem TableInv.clear_enable {m : IpaNatMemIn} {c : IpaNatIp4TableCache} (h : TableInv m c)
    (j : ℕ) : ((ipaNATIClearIpv4Tbl c).table.slot j).enable = false := by
  cases h with
  | absent habs =>
    rw [habs]
    show (if _ then _ else _ : IpaNatRule).enable = false
    split <;> rfl
  | present chain _ _ =>
    rw [clear_nat_slot chain.config]
    split
    · rfl
    · next hj => exact chain.free_of_le (by omega)

theorem NatiInv.resolves_iff (h : NatiInv w) {m : IpaNatMemIn} {orig i : ℕ} :
    w.Resolves m orig i ↔ ((w.table m).slot i).live = true ∧
      w.obj.new2origMap m (makeEntryHdl (w.table m) i) = some orig := by
  constructor
  · rintro ⟨new, ho, hget, hi⟩
    have hn := ((h.maps m).inverse orig new).mp ho
    refine ⟨hi, ?_⟩
    rw [Nati.table, h.getEntry_new hn hget]
    exact hn
  · rintro ⟨hi, hn⟩
    refine ⟨_, ((h.maps m).inverse _ _).mpr hn, ?_, hi⟩
    cases h.table m with
    | absent habs =>
      unfold Nati.table at hi
      rw [habs, zeroTableCache_live] at hi
      cases hi
    | present chain _ _ => exact chain.getEntry_handle (ChainInv.used_of_live hi)

theorem copyInv_zero (h : NatiInv w) {src : IpaNatMemIn} (hdst : tblHdlNmi dstTblHdl = src.other)
    (ho : ∀ orig, w.obj.orig2newMap src.other orig = none)
    (hcnt : w.obj.totRulesInTable src.other = 0) {c : IpaNatIp4TableCache}
    (hl : w.lookup dstTblHdl = some c) :
    CopyInv src t w 0 (natiClearIpv4Tbl w dstTblHdl).2 := by
  have hinv := h.clearTbl dstTblHdl (by rw [hdst]; exact ho)
  have hc := NatiInv.lookup_table hl
  rw [hdst] at hc
  unfold natiClearIpv4Tbl at hinv ⊢
  rw [hl] at hinv ⊢
  dsimp only at hinv ⊢
  rw [hdst] at hinv ⊢
  have henable : ∀ j, (((w.setTable src.other (ipaNATIClearIpv4Tbl c)).table
      src.other).slot j).enable = false := by
    intro j
    unfold Nati.table Nati.setTable
    simp only [update_self]
    rw [hc]
    exact (h.table src.other).clear_enable j
  have hlive : ∀ j, ¬ (((w.setTable src.other (ipaNATIClearIpv4Tbl c)).table
      src.other).slot j).live = true := by
    intro j hj
    rw [IpaNatRule.live, henable] at hj
    cases hj
  refine ⟨hinv, rfl, update_of_ne (other_ne src) _ _, rfl, rfl, fun j hj => ?_,
    ⟨id, ?_, fun i hi => absurd hi (Nat.not_lt_zero i),
      fun i hi => absurd hi (Nat.not_lt_zero i)⟩, hcnt⟩
  · rw [henable] at hj
    cases hj
  · have hsrc : {i | i < 0 ∧ (t.slot i).live = true} = (∅ : Set ℕ) :=
      Set.eq_empty_of_forall_notMem fun i hi => Nat.not_lt_zero i hi.1
    have hdst' : {j | (((w.setTable src.other (ipaNATIClearIpv4Tbl c)).table
        src.other).slot j).live = true} = (∅ : Set ℕ) :=
      Set.eq_empty_of_forall_notMem fun j hj => hlive j hj
    rw [hsrc, hdst']
    exact Set.bijOn_empty _

theorem copy_migrated (h : NatiInv w) (hw : w.inHybridState = true) {src : IpaNatMemIn}
    (ho : ∀ orig, w.obj.orig2newMap src.other orig = none)
    (hcnt : w.obj.totRulesInTable src.other = 0)
    (hret : (ipaNatiCopyIpv4Tbl (w.tblHdl src) (w.tblHdl src.other) migrateRule w).1 = 0) :
    Migrated src w (ipaNatiCopyIpv4Tbl (w.tblHdl src) (w.tblHdl src.other) migrateRule w).2 := by
  unfold ipaNatiCopyIpv4Tbl at hret ⊢
  dsimp only at hret ⊢
  by_cases hclr : (natiClearIpv4Tbl w (w.tblHdl src.other)).1 = 0
  swap
  · simp only [hclr, ne_eq, not_false_eq_true, if_true] at hret
  simp only [hclr, ne_eq, not_true_eq_false, if_false] at hret ⊢
  obtain ⟨cd, hld⟩ := Option.isSome_iff_exists.mp
    ((natiClearIpv4Tbl_ret_eq_zero_iff w _).mp hclr)
  have hdst := h.tblHdl_nmi hld
  have hzero : ∀ t, CopyInv src t w 0 (natiClearIpv4Tbl w (w.tblHdl src.other)).2 :=
    fun t => copyInv_zero h hdst ho hcnt hld
  have hpdns : (natiClearIpv4Tbl w (w.tblHdl src.other)).2.drvi = w.drvi := by
    unfold natiClearIpv4Tbl
    rw [hld]
    rfl
  obtain ⟨c, hlc, hwalk⟩ := (natiWalkIpv4Tbl_ret_eq_zero_iff _ _ _ _).mp hret
  have hsame := tblHdl_congr (natiClearIpv4Tbl_obj w (w.tblHdl src.other)) src
  have hlc' := hlc
  rw [← hsame] at hlc'
  unfold natiWalkIpv4Tbl
  rw [hlc]
  dsimp only
  obtain ⟨hpos, -⟩ := (ipaTableWalk_ret_eq_zero_iff _ _ _ _).mp hwalk
  have hnmi := (hzero c.table).inv.lookup_nmi hlc' hpos
  -- the table that is walked is the source table of `w`, with rules that are not redirected
  have hc : c = (w.natCache src).ip4Tbl := by
    rw [NatiInv.lookup_table hlc', (hzero c.table).inv.tblHdl_nmi hlc', (hzero c.table).source]
  obtain ⟨base, size, homeN, homeI, chain, hund⟩ : ∃ base size homeN homeI,
      ChainInv base size homeN homeI c ∧ Undirected c.table := by
    have htab := h.table src
    rw [← hc] at htab
    cases htab with
    | absent habs =>
      rw [habs] at hpos
      exact absurd hpos (Nat.lt_irrefl 0)
    | present chain _ hund => exact ⟨_, _, _, _, chain, hund⟩
  have htot : c.table.tableEntries + c.table.expnTableEntries = size := chain.config.nat.expn_eq
  have hsize : size ≤ 5120 := chain.config.sizes.size_le
  rw [hpdns] at hwalk ⊢
  unfold ipaTableWalk at hwalk ⊢
  simp only [ge_iff_le, Nat.not_le.mpr hpos, if_false, Nat.sub_zero] at hwalk ⊢
  have hinv := ipaTableWalkLoop_invariant (entryInterface w.drvi.pdns) c.table
    (migrateRule (w.tblHdl src.other) c.table) (hzero c.table)
    (fun k hk s hs hk0 => by
      rw [Nat.zero_add] at hk0 ⊢
      exact copyInv_step hw hdst hnmi hund (by omega) hs hk0) hwalk
  generalize (ipaTableWalkLoop (entryInterface w.drvi.pdns) c.table .whenSlotFilled
    (migrateRule (w.tblHdl src.other) c.table) (c.table.tableEntries + c.table.expnTableEntries) 0
    (natiClearIpv4Tbl w (w.tblHdl src.other)).2).2 = w' at hinv ⊢
  rw [htot] at hinv
  have htable : w.table src = c.table := by rw [hc]; rfl
  have hlt : ∀ i, (c.table.slot i).live = true → i < size :=
    fun i hi => (chain.nat_pos_lt (ChainInv.used_of_live hi)).2
  obtain ⟨φ, hbij, hpay, hmap⟩ := hinv.copied
  refine ⟨⟨φ, ?_, ?_, ?_⟩, hinv.noPlaceholder, ?_⟩
  · rw [htable]
    convert hbij using 1
    ext i
    exact ⟨fun hi => ⟨hlt i hi, hi⟩, fun hi => hi.2⟩
  · rw [htable]
    exact fun i hi => hpay i (hlt i hi) hi
  · intro orig i hres
    obtain ⟨hi, horig⟩ := h.resolves_iff.mp hres
    rw [htable] at hi horig
    refine hinv.inv.resolves_iff.mpr ⟨hbij.mapsTo ⟨hlt i hi, hi⟩, ?_⟩
    exact ((hinv.inv.maps _).inverse _ _).mp (hmap i (hlt i hi) hi orig horig)
  · rw [hinv.counter, htable]
    unfold numLive
    rw [htot]
    rfl

end Copy

section Switch

variable {w : Nati}

theorem goto_world {goto : IpaNatiTrigger} (hgoto : goto = .gotoDdr ∨ goto = .gotoSram)
    (w : Nati) : ∃ kernel prev curr, (ipaNatiStatemach goto w).world =
      { w with kernel := kernel, obj := { w.obj with prevState := prev, currState := curr } } := by
  have hgo : ∀ (m : IpaNatMemIn) (s : IpaNatiState) (w : Nati), ∃ kernel prev curr,
      (smGoTo m s w).world = { w with
        kernel := kernel, obj := { w.obj with prevState := prev, currState := curr } } := by
    intro m s w
    unfold smGoTo natiPostIpv4InitCmd
    cases w.lookup (w.tblHdl m) with
    | none => exact ⟨w.kernel, w.obj.prevState, w.obj.currState, rfl⟩
    | some c =>
      dsimp only
      split
      · exact ⟨_, _, _, rfl⟩
      · exact ⟨_, w.obj.prevState, w.obj.currState, rfl⟩
  have htbl : ∀ (s : IpaNatiState) (w : Nati), ∃ kernel prev curr,
      (stateMachTbl ipaNatiStatemach s goto w).world = { w with
        kernel := kernel, obj := { w.obj with prevState := prev, currState := curr } } := by
    intro s w
    rcases hgoto with rfl | rfl <;> cases s <;>
      first
        | exact hgo _ _ w
        | exact ⟨w.kernel, w.obj.prevState, w.obj.currState, rfl⟩
  rw [ipaNatiStatemach_eq]
  unfold statemachBody smLocked
  dsimp only
  split
  · exact ⟨_, w.obj.prevState, w.obj.currState, rfl⟩
  split
  · split
    · exact ⟨_, w.obj.prevState, w.obj.currState, rfl⟩
    · obtain ⟨k, p, c, he⟩ := htbl w.sys.2.2.sys.2.2.obj.currState w.sys.2.2.sys.2.2
      dsimp only
      rw [he]
      exact ⟨_, p, c, rfl⟩
  · obtain ⟨k, p, c, he⟩ := htbl w.sys.2.2.obj.currState w.sys.2.2
    rw [he]
    exact ⟨_, p, c, rfl⟩

theorem smSwitchFrom_migrated (h : NatiInv w) (hw : w.inHybridState = true) {src : IpaNatMemIn}
    {goto : IpaNatiTrigger} (hgoto : goto = .gotoDdr ∨ goto = .gotoSram)
    (hret : (smSwitchFrom ipaNatiStatemach src goto w).ret = 0) :
    Migrated src w (smSwitchFrom ipaNatiStatemach src goto w).world := by
  have hf : NatiInv (ipaNatiStatemach goto w).world := by
    rcases hgoto with rfl | rfl <;> exact ipaNatiStatemach_keeps.inv _ _ h trivial
  have hfw : (ipaNatiStatemach goto w).world.inHybridState = true := by
    rcases hgoto with rfl | rfl <;> exact ipaNatiStatemach_keeps.hybrid _ _ rfl h hw
  obtain ⟨kernel, prev, curr, he⟩ := goto_world hgoto w
  unfold smSwitchFrom at hret ⊢
  dsimp only at hret ⊢
  split at hret
  · next hne => exact absurd hret hne
  next hfocus =>
  rw [if_neg hfocus]
  have hm := copy_migrated (hf.clearMaps src.other) hfw
    (fun orig => by simp only [Nati.clearMaps, Nati.setMaps, update_self])
    (by simp [Nati.clearMaps, Nati.setMaps, Nati.setCntr]) hret
  have hres : ∀ orig i, w.Resolves src orig i →
      ((ipaNatiStatemach goto w).world.clearMaps src.other).Resolves src orig i := by
    rintro orig i ⟨new, ho, hget, hi⟩
    rw [he]
    refine ⟨new, ?_, hget, hi⟩
    simp only [Nati.clearMaps, Nati.setMaps, Nati.setCntr, update_of_ne (other_ne src)]
    exact ho
  have htable : ((ipaNatiStatemach goto w).world.clearMaps src.other).table src = w.table src := by
    rw [he]
    rfl
  obtain ⟨⟨φ, hbij, hpay, hmap⟩, hno, hcnt⟩ := hm
  rw [htable] at hbij hpay hcnt
  exact ⟨⟨φ, hbij, hpay, fun orig i hi => hmap orig i (hres orig i hi)⟩, hno, hcnt⟩

end Switch

end Sm8750Modules.IpaNat
