import Sm8750Modules.HwFence.Table

/-!
# Hardware fences — creating a fence

`hw_fence_create` goes on after a search that reserved no entry.
-/

namespace Sm8750Modules.HwFence

open Function

namespace DriverData

variable {d d' : DriverData} {k : Key} {client : Client}

theorem forEachHwFence_round (d : DriverData) (k : Key) (hash : ℕ) (found : ℕ → Bool) :
    d.forEachHwFence k hash 0 d.tblCnt found =
      Probing.search d.tblCnt (calculateHash k.context k.seqno d.tblCnt) found 0 d.tblCnt := by
  have hpos := d.tblCnt_pos
  rw [forEachHwFence, if_neg (by omega)]

/-- The slot that `_hw_fence_lookup_and_create` ends at. -/
def createEnd (d : DriverData) (k : Key) : ℕ :=
  (Probing.search d.tblCnt (calculateHash k.context k.seqno d.tblCnt)
    (fun h => !(d.tbl h).valid || d.hwFenceMatch k h) 0 d.tblCnt).1

theorem createEnd_lt (d : DriverData) (k : Key) : d.createEnd k < d.tblCnt := by
  rcases hs : Probing.search d.tblCnt (calculateHash k.context k.seqno d.tblCnt)
    (fun h => !(d.tbl h).valid || d.hwFenceMatch k h) 0 d.tblCnt with ⟨s, b⟩
  obtain ⟨i, -, -, hslot, -⟩ := Probing.search_slot d.tblCnt_pos hs
  rw [createEnd, hs]
  show s < d.tblCnt
  rw [hslot]
  exact Probing.slot_lt d.tblCnt_pos _ _

/-- **How the search of a create ends**: it reserves the free slot it ends at, or leaves the table
alone. -/
theorem lookupAndCreate_cases (d : DriverData) (clientId : ℕ) (k : Key) (cnt hash : ℕ) :
    (d.lookupAndCreate clientId k cnt hash = (d.reserveHwFence (d.createEnd k) clientId k cnt,
        d.createEnd k, .success) ∧ (d.tbl (d.createEnd k)).valid = false) ∨
      ∃ status ≠ Lookup.success, d.lookupAndCreate clientId k cnt hash = (d, d.createEnd k, status) := by
  rw [lookupAndCreate, lookupAndCreateRange, forEachHwFence_round, createEnd]
  rcases Probing.search d.tblCnt (calculateHash k.context k.seqno d.tblCnt)
    (fun h => !(d.tbl h).valid || d.hwFenceMatch k h) 0 d.tblCnt with ⟨h, _ | _⟩
  · exact .inr ⟨.failed, by decide, rfl⟩
  · by_cases hv : (d.tbl h).valid = false
    · left
      refine ⟨?_, hv⟩
      simp only [hv, if_true]
    · right
      refine ⟨.ealready, by decide, ?_⟩
      rw [Bool.not_eq_false] at hv
      simp only [hv, if_false, Bool.false_eq_true, Bool.true_eq_false]

/-! ### Dropping references -/

/-- References are dropped, and nothing is set. -/
structure Lowered (d d' : DriverData) : Prop where
  tblCnt : d'.tblCnt = d.tblCnt
  hlos : ∀ h, (d'.tbl h).refcount.hlos ≤ (d.tbl h).refcount.hlos
  fctl : ∀ h, (d'.tbl h).refcount.fctl = true → (d.tbl h).refcount.fctl = true

namespace Lowered

theorem refl (d : DriverData) : Lowered d d := ⟨rfl, fun _ => le_rfl, fun _ h => h⟩

theorem trans {d'' : DriverData} (h : Lowered d d') (h' : Lowered d' d'') : Lowered d d'' :=
  ⟨h'.tblCnt.trans h.tblCnt, fun i => (h'.hlos i).trans (h.hlos i),
    fun i hi => h.fctl i (h'.fctl i hi)⟩

theorem setFence (d : DriverData) (hash : ℕ) {e : MsmHwFence}
    (hhlos : e.refcount.hlos ≤ (d.tbl hash).refcount.hlos)
    (hfctl : e.refcount.fctl = true → (d.tbl hash).refcount.fctl = true) :
    Lowered d (d.setFence hash e) := by
  refine ⟨rfl, fun h => ?_, fun h => ?_⟩
  · show (update d.tbl hash e h).refcount.hlos ≤ _
    rcases eq_or_ne h hash with rfl | hne
    · rw [update_self]
      exact hhlos
    · rw [update_of_ne hne]
  · show (update d.tbl hash e h).refcount.fctl = true → _
    rcases eq_or_ne h hash with rfl | hne
    · rw [update_self]
      exact hfctl
    · rw [update_of_ne hne]
      exact id

theorem setDmaFences (d : DriverData) (fences : List HwDmaFence) :
    Lowered d (d.setDmaFences fences) := ⟨rfl, fun _ => le_rfl, fun _ h => h⟩

end Lowered

theorem freeIfZero_hlos (e : MsmHwFence) : (freeIfZero e).refcount.hlos = e.refcount.hlos := by
  rw [freeIfZero]
  split
  · rename_i hz
    exact hz.1.symm
  · rfl

theorem freeIfZero_fctl (e : MsmHwFence) : (freeIfZero e).refcount.fctl = e.refcount.fctl := by
  rw [freeIfZero]
  split
  · rename_i hz
    exact hz.2.2.symm
  · rfl

theorem getHwFence_of_lt {hash : ℕ} (h : hash < d.tblCnt) : d.getHwFence hash = some (d.tbl hash) := by
  rw [getHwFence, if_pos h]

theorem lowered_destroyRefcount (d : DriverData) (hash : ℕ) (ref : RefFlag) :
    Lowered d (d.destroyRefcount hash ref).1 := by
  rw [destroyRefcount, getHwFence]
  split
  · exact .refl d
  · rename_i e he
    split at he
    · cases he
      split
      · apply Lowered.setFence
        · rw [freeIfZero_hlos]
          cases ref
          · exact le_rfl
          · exact le_rfl
        · rw [freeIfZero_fctl]
          cases ref
          · exact fun h => absurd h Bool.false_ne_true
          · exact id
      · exact .refl d
    · cases he

theorem lowered_dmaFencePut (d : DriverData) (f : HwDmaFence) : Lowered d (d.dmaFencePut f) := by
  rw [dmaFencePut]
  split
  · exact (Lowered.setDmaFences d _).trans (lowered_destroyRefcount _ _ _)
  · exact .setDmaFences d _

theorem lowered_dmaFenceTableDel (d : DriverData) (hash : ℕ) : Lowered d (d.dmaFenceTableDel hash) := by
  rw [dmaFenceTableDel]
  split
  · exact .refl d
  · exact (Lowered.setDmaFences d _).trans (lowered_dmaFencePut _ _)

theorem putAndUnlock_hlos_lt {hash : ℕ} (h : (d.tbl hash).refcount.hlos ≠ 0) :
    ((d.putAndUnlock hash).1.tbl hash).refcount.hlos < (d.tbl hash).refcount.hlos ∧
      Lowered d (d.putAndUnlock hash).1 := by
  simp only [putAndUnlock, if_neg h]
  have hset : ∀ e : MsmHwFence, e.refcount = { (d.tbl hash).refcount with
        hlos := (d.tbl hash).refcount.hlos - 1 } →
      ((d.setFence hash (freeIfZero e)).tbl hash).refcount.hlos < (d.tbl hash).refcount.hlos ∧
        Lowered d (d.setFence hash (freeIfZero e)) := by
    intro e he
    constructor
    · show (update d.tbl hash _ hash).refcount.hlos < _
      rw [update_self, freeIfZero_hlos, he]
      exact Nat.sub_lt (Nat.pos_of_ne_zero h) Nat.one_pos
    · apply Lowered.setFence
      · rw [freeIfZero_hlos, he]
        exact Nat.sub_le _ _
      · rw [freeIfZero_fctl, he]
        exact id
  split
  · obtain ⟨hlt, hlow⟩ := hset { d.tbl hash with
      refcount.hlos := (d.tbl hash).refcount.hlos - 1, flagInternalOwned := false } rfl
    have hdel := lowered_dmaFenceTableDel (d.setFence hash (freeIfZero { d.tbl hash with
      refcount.hlos := (d.tbl hash).refcount.hlos - 1, flagInternalOwned := false })) hash
    exact ⟨Nat.lt_of_le_of_lt (hdel.hlos hash) hlt, hlow.trans hdel⟩
  · exact hset { d.tbl hash with refcount.hlos := (d.tbl hash).refcount.hlos - 1 } rfl

theorem lowered_putAndUnlock (d : DriverData) (hash : ℕ) : Lowered d (d.putAndUnlock hash).1 := by
  by_cases h : (d.tbl hash).refcount.hlos = 0
  · simp only [putAndUnlock, if_pos h]
    exact .refl d
  · exact (putAndUnlock_hlos_lt h).2

theorem lowered_destroyWithHash (d : DriverData) (hash : ℕ) : Lowered d (d.destroyWithHash hash).1 := by
  rw [destroyWithHash]
  split
  · exact .refl d
  · exact lowered_putAndUnlock d hash

/-- The create drops no reference of the entry that its search ended at. -/
def LeavesAlone (d : DriverData) (client : Client) (k : Key) : Prop :=
  if d.fctlReady = true then
    client.skipFctlRef = true → (d.tbl (d.createEnd k)).refcount.fctl = false
  else (d.tbl (d.createEnd k)).refcount.fctl = false ∧ (d.tbl (d.createEnd k)).refcount.hlos = 0
deriving Decidable

theorem destroyRefcount_fctl_of_false {hash : ℕ} (hlt : hash < d.tblCnt)
    (h : (d.tbl hash).refcount.fctl = false) : d.destroyRefcount hash .fctl = (d, some .einval) := by
  rw [destroyRefcount, getHwFence_of_lt hlt]
  show (if (d.tbl hash).refcount.fctl = true then _ else _) = _
  rw [h, if_neg Bool.false_ne_true]

theorem destroyRefcount_fctl_of_true {hash : ℕ} (hlt : hash < d.tblCnt)
    (h : (d.tbl hash).refcount.fctl = true) : (d.destroyRefcount hash .fctl).2 = none ∧
      ((d.destroyRefcount hash .fctl).1.tbl hash).refcount.fctl = false := by
  rw [destroyRefcount, getHwFence_of_lt hlt]
  show (if (d.tbl hash).refcount.fctl = true then _ else _ : DriverData × Ret).2 = none ∧
    ((if (d.tbl hash).refcount.fctl = true then _ else _ : DriverData × Ret).1.tbl hash).refcount.fctl
      = false
  rw [if_pos h]
  refine ⟨rfl, ?_⟩
  show (update d.tbl hash _ hash).refcount.fctl = false
  rw [update_self, freeIfZero_fctl]
  rfl

/-- **When a create that reserves no entry fails and leaves the table as it is**: exactly if the entry
that its search ended at has no reference that the create drops. -/
theorem hwFenceCreate_failed_iff (d : DriverData) (client : Client) (k : Key) (hash : ℕ)
    (h : (d.lookupAndCreate client.clientId k 0 hash).2.2 ≠ .success) :
    ((d.hwFenceCreate client k hash).2.2 ≠ none ∧
        ∀ i, (d.hwFenceCreate client k hash).1.tbl i = d.tbl i ∧
          (d.hwFenceCreate client k hash).1.hlosKeyTbl i = d.hlosKeyTbl i) ↔
      d.LeavesAlone client k := by
  rcases lookupAndCreate_cases d client.clientId k 0 hash with ⟨heq, -⟩ | ⟨status, hstatus, heq⟩
  · rw [heq] at h
    exact absurd rfl h
  · have hlt := d.createEnd_lt k
    rw [hwFenceCreate, heq, LeavesAlone]
    simp only [if_neg hstatus]
    cases hready : d.fctlReady with
    | true =>
      simp only [if_true, if_false, Bool.true_eq_false]
      cases hskip : client.skipFctlRef with
      | false =>
        simp only [if_false, Bool.false_eq_true, false_imp_iff, iff_true]
        exact ⟨Option.some_ne_none _, fun i => ⟨trivial, trivial⟩⟩
      | true =>
        simp only [if_true, true_imp_iff]
        cases hfctl : (d.tbl (d.createEnd k)).refcount.fctl with
        | false =>
          rw [destroyRefcount_fctl_of_false hlt hfctl]
          exact ⟨fun _ => rfl, fun _ => ⟨Option.some_ne_none _, fun i => ⟨rfl, rfl⟩⟩⟩
        | true =>
          -- the return code of the dropped reference hides the failure
          refine ⟨fun hfail => absurd ?_ hfail.1, fun hf => (by cases hf)⟩
          exact (destroyRefcount_fctl_of_true hlt hfctl).1
    | false =>
      simp only [if_true, if_false, Bool.false_eq_true]
      constructor
      · rintro ⟨-, hsame⟩
        have htbl := (hsame (d.createEnd k)).1
        have hfctl : (d.tbl (d.createEnd k)).refcount.fctl = false := by
          by_contra hset
          rw [Bool.not_eq_false] at hset
          have hcleared := (destroyRefcount_fctl_of_true hlt hset).2
          have hlow := (lowered_destroyWithHash
            (d.destroyRefcount (d.createEnd k) .fctl).1 (d.createEnd k)).fctl (d.createEnd k)
          rw [htbl] at hlow
          rw [hlow hset] at hcleared
          cases hcleared
        refine ⟨hfctl, ?_⟩
        by_contra hhlos
        rw [destroyRefcount_fctl_of_false hlt hfctl, destroyWithHash, getHwFence_of_lt hlt] at htbl
        have hless := (putAndUnlock_hlos_lt hhlos).1
        rw [htbl] at hless
        exact Nat.lt_irrefl _ hless
      · rintro ⟨hfctl, hhlos⟩
        refine ⟨Option.some_ne_none _, fun i => ?_⟩
        rw [destroyRefcount_fctl_of_false hlt hfctl, destroyWithHash, getHwFence_of_lt hlt]
        simp only [putAndUnlock, if_pos hhlos]
        exact ⟨trivial, trivial⟩

end DriverData

def emptyTable : DriverData := .init 4 (by decide) (fun _ => none) 0

def displayClient : Client := { clientId := 1 }

def ifeClient : Client := { clientId := 2, skipFctlRef := true }

def firstKey : Key := ⟨5, 1, 100⟩

def oneFence : DriverData := (emptyTable.hwFenceCreate displayClient firstKey 0).1

/-- **A failed create can succeed**: a second create of the fence reserves nothing, drops the reference
that the controller holds on it, and returns zero. -/
theorem hwFenceCreate_failed_skipFctlRef :
    ∃ d : DriverData, ∃ client k hash, (d.lookupAndCreate client.clientId k 0 hash).2.2 ≠ .success ∧
      ¬((d.hwFenceCreate client k hash).2.2 ≠ none ∧
        ∀ i, (d.hwFenceCreate client k hash).1.tbl i = d.tbl i ∧
          (d.hwFenceCreate client k hash).1.hlosKeyTbl i = d.hlosKeyTbl i) := by
  refine ⟨oneFence, ifeClient, firstKey, 0, by decide, fun h => absurd ?_ h.1⟩
  decide

theorem hwFenceCreate_failed_oneFence :
    (oneFence.hwFenceCreate displayClient firstKey 0).2.2 ≠ none ∧
      ∀ i, (oneFence.hwFenceCreate displayClient firstKey 0).1.tbl i = oneFence.tbl i ∧
        (oneFence.hwFenceCreate displayClient firstKey 0).1.hlosKeyTbl i = oneFence.hlosKeyTbl i :=
  (DriverData.hwFenceCreate_failed_iff oneFence displayClient firstKey 0 (by decide)).mpr (by decide)

end Sm8750Modules.HwFence
