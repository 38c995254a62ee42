import Sm8750Modules.IpaNat.Client

/-!
# Deleting a rule twice

A handle is stale when its rule was deleted and its slot was not handed out again. Deleting a
stale handle should fail and change nothing. It does, unless the handle's slot is still a
placeholder.
-/

namespace Sm8750Modules.IpaNat

open SlotChain Runs

/-- The handle was given out, and its rule was deleted since. -/
def NatClient.Stale (s : NatClient) (hdl : ℕ) : Prop :=
  hdl ∈ s.issued ∧ s.rules hdl = none
deriving Decidable

variable (c : IpaNatIp4TableCache)

def DelRejected (hdl : ℕ) (post : Bool) : Prop :=
  (ipaNATIDelIpv4Rule c hdl post).1 ≠ 0 ∧ (ipaNATIDelIpv4Rule c hdl post).2 = c

/-- Copying the second index entry of `k`'s chain into `k` redirects no rule. -/
def CopyKeeps (k : ℕ) : Prop :=
  (indexLinks c.indexTable).prev k = 0 → (indexLinks c.indexTable).next k ≠ 0 →
    (c.table.slot (c.indexTable.slot ((indexLinks c.indexTable).next k)).tblEntry).indxTblEntry = k
deriving Decidable

/-- Slot `i` is no placeholder; or the index slot that it names is free; or the kernel refuses
the commands, and no rule was redirected before that. -/
def HarmlessSlot (i : ℕ) (post : Bool) : Prop :=
  (c.table.slot i).protocol = ipahalNatInvalidProtocol →
    (c.indexTable.slot (c.table.slot i).indxTblEntry).tblEntry = 0 ∨
      (post = false ∧ CopyKeeps c (c.table.slot i).indxTblEntry)
deriving Decidable

section Stale

variable {base size : ℕ} {homeN homeI : ℕ → ℕ} {c : IpaNatIp4TableCache}

theorem breakRuleHdl_of_getEntry {t : IpaTable IpaNatRule} {hdl i : ℕ} (h : ipaTableGetEntry t hdl = .ok i) :
    breakRuleHdl t hdl = i := by
  unfold ipaTableGetEntry at h
  dsimp only at h
  split at h
  · exact absurd h (by simp)
  · exact Except.ok.inj h

theorem mapNat_eq_self {i : ℕ} {f : IpaNatRule → IpaNatRule}
    (h : f (c.table.slot i) = c.table.slot i) : c.mapNat i f = c := by
  unfold IpaNatIp4TableCache.mapNat IpaTable.mapSlot
  rw [h, Function.update_eq_self]

theorem copySecond_eq_iff (c : IpaNatIp4TableCache) (k : ℕ) : copySecond c k = c ↔ CopyKeeps c k := by
  rcases copySecond_cases c k with ⟨hp, hn, he⟩ | ⟨hno, he⟩
  · rw [he]
    constructor
    · intro hc _ _
      have hs := congrFun (congrArg (fun c => c.table.slot) hc)
        (c.indexTable.slot ((indexLinks c.indexTable).next k)).tblEntry
      rw [← hs]
      simp [IpaNatIp4TableCache.mapNat, IpaTable.mapSlot]
    · intro hk
      have hsame : ∀ r : IpaNatRule, r.indxTblEntry = k → { r with indxTblEntry := k } = r := by
        rintro r rfl
        rfl
      exact mapNat_eq_self (hsame _ (hk hp hn))
  · exact ⟨fun _ hp hn => absurd ⟨hp, hn⟩ hno, fun _ => he⟩

theorem enable_of_stale {s : NatClient} (h : ClientInv base size homeN homeI s) {i : ℕ}
    (hi : i < size) (hgone : s.rules (makeEntryHdl s.cache.table i) = none) :
    (s.cache.table.slot i).enable = true ↔
      (s.cache.table.slot i).protocol = ipahalNatInvalidProtocol := by
  constructor
  · intro he
    by_contra hp
    exact (h.live_iff i hi).mp (IpaNatRule.live_iff.mpr ⟨he, hp⟩) hgone
  · intro hp
    by_contra he
    have hz := congrArg IpaNatRule.protocol (h.chain.blank i (by simpa using he))
    rw [show (s.cache.table.slot i).unindexed.protocol = (s.cache.table.slot i).protocol from rfl,
      hp] at hz
    exact absurd hz (by decide)

end Stale

/-- **When deleting a stale handle is rejected**: in every reachable state, exactly when the
handle's slot is harmless. -/
theorem staleHandle_rejected_iff {guard : NatClient → NatOp → Prop} {s : NatClient}
    (h : (natClient guard).Reachable s) {hdl : ℕ} (hstale : s.Stale hdl) (post : Bool) :
    DelRejected s.cache hdl post ↔
      HarmlessSlot s.cache (breakRuleHdl s.cache.table hdl) post := by
  obtain ⟨base, size, homeN, homeI, hinv⟩ := clientInv_reachable h
  obtain ⟨hiss, hgone⟩ := hstale
  obtain ⟨i, hi, rfl⟩ := hinv.issued_slot hdl hiss
  have hget := getEntry_makeEntryHdl hinv.chain.config.sizes hinv.chain.config.nat hi
  have hidx := breakRuleHdl_of_getEntry hget
  have hstale := enable_of_stale hinv hi hgone
  rw [hidx]
  unfold DelRejected HarmlessSlot
  rw [← hstale]
  by_cases hbad : (s.cache.table.slot i).enable = true →
      (s.cache.indexTable.slot (s.cache.table.slot i).indxTblEntry).tblEntry = 0
  · refine iff_of_true (delRule_error hinv.chain post fun j hj => ?_) fun he => Or.inl (hbad he)
    rw [hget] at hj
    cases hj
    exact hbad
  · push Not at hbad
    obtain ⟨he, hk⟩ := hbad
    rcases delRule_eq hinv.chain post hget he rfl hk with ⟨rfl, heq⟩ | ⟨rfl, hret, -⟩
    · rw [heq, copySecond_eq_iff]
      simp [eio, he, hk]
    · simp [hret, he, hk]

theorem staleHandle_rejected_iff_smallDead : ¬ DelRejected smallDead.cache 6 true :=
  (staleHandle_rejected_iff smallDead_reachable (by decide) true).not.mpr (by decide)

/-- **A stale handle can be deleted again.**  Handle `6` of the small table is stale, its slot a
placeholder that still names the index slot which the other rule of the bucket has taken over:
the second delete returns `0`, and this rule has lost its index entry. -/
theorem staleHandle_not_rejected :
    ¬ (∀ s, (natClient Hashed).Reachable s → ∀ hdl, s.Stale hdl →
      ∀ post, DelRejected s.cache hdl post) ∧
    (ipaNATIDelIpv4Rule smallDead.cache 6 true).1 = 0 ∧
    (smallDead.cache.indexTable.slot 2).tblEntry = 4 ∧
    ((ipaNATIDelIpv4Rule smallDead.cache 6 true).2.indexTable.slot 2).tblEntry = 0 := by
  have hret : (ipaNATIDelIpv4Rule smallDead.cache 6 true).1 = 0 := by decide
  exact ⟨fun hall => (hall smallDead smallDead_reachable 6 (by decide) true).1 hret, hret,
    by decide, by decide⟩

end Sm8750Modules.IpaNat
