import Sm8750Modules.Lib.SlotChain
import Sm8750Modules.IpaNat.Drvi

/-!
# The chains of a NAT table

Reads the shape of a table off its records and restates the building blocks of the table
code on it: on a well-formed shape the iterators succeed and point at the neighbours of an
entry (`iteratorInit_eq`), the search for the end of a chain ends there (`iteratorEnd_eq`), a
posted command changes one field of one record (`dmaCmd_addNat`, `dmaCmd_addIndex`), and an
entry handle names its slot (`getEntry_makeEntryHdl`).
-/

namespace Sm8750Modules.IpaNat

open SlotChain Function

/-! ### Shapes and sizes -/

def IpaTable.links {ρ υ : Type} (ifc : IpaTableEntryInterface ρ υ) (t : IpaTable ρ) : Links where
  used i := ifc.entryIsValid (t.slot i)
  next i := ifc.entryGetNextIndex (t.slot i)
  prev i := ifc.entryGetPrevIndex (t.slot i) i t.metaPrev t.tableEntries

def natLinks (t : IpaTable IpaNatRule) : Links := t.links (entryInterface fun _ => 0)

def indexLinks (t : IpaTable IpaNatIndxTblRule) : Links := t.links indexEntryInterface

variable {i : ℕ} {t : IpaTable IpaNatIndxTblRule}

@[simp] theorem natLinks_used (t : IpaTable IpaNatRule) (i : ℕ) :
    (natLinks t).used i = (t.slot i).enable := rfl

@[simp] theorem natLinks_next (t : IpaTable IpaNatRule) (i : ℕ) :
    (natLinks t).next i = (t.slot i).nextIndex := rfl

@[simp] theorem natLinks_prev (t : IpaTable IpaNatRule) (i : ℕ) :
    (natLinks t).prev i = (t.slot i).prevIndex := rfl

@[simp] theorem indexLinks_used (t : IpaTable IpaNatIndxTblRule) (i : ℕ) :
    (indexLinks t).used i = ((t.slot i).tblEntry != 0) := rfl

@[simp] theorem indexLinks_next (t : IpaTable IpaNatIndxTblRule) (i : ℕ) :
    (indexLinks t).next i = (t.slot i).nextIndex := rfl

@[simp] theorem indexLinks_prev (t : IpaTable IpaNatIndxTblRule) (i : ℕ) :
    (indexLinks t).prev i =
      if i ≥ t.tableEntries then t.metaPrev (i - t.tableEntries) else 0 := rfl

theorem indexLinks_free :
    (indexLinks t).used i = false ↔ (t.slot i).tblEntry = 0 := by simp

theorem indexLinks_occupied :
    (indexLinks t).used i = true ↔ (t.slot i).tblEntry ≠ 0 := by simp

theorem natLinks_eq (pdns : ℕ → UInt32) (t : IpaTable IpaNatRule) :
    t.links (entryInterface pdns) = natLinks t := rfl

def slotLinks (s : ℕ → IpaNatRule) : Links :=
  ⟨fun m => (s m).enable, fun m => (s m).nextIndex, fun m => (s m).prevIndex⟩

theorem slotLinks_update (s : ℕ → IpaNatRule) (i : ℕ) (r : IpaNatRule) :
    slotLinks (update s i r) = ⟨update (slotLinks s).used i r.enable,
      update (slotLinks s).next i r.nextIndex, update (slotLinks s).prev i r.prevIndex⟩ := by
  unfold slotLinks
  congr 1 <;> funext m <;> by_cases hm : m = i <;> simp [hm]

theorem slotLinks_erase (s : ℕ → IpaNatRule) (i : ℕ) : slotLinks (update s i RecordLayout.zero) =
    ⟨update (slotLinks s).used i false, update (slotLinks s).next i 0, update (slotLinks s).prev i 0⟩ :=
  slotLinks_update s i _

theorem natLinks_slot (t : IpaTable IpaNatRule) : natLinks t = slotLinks t.slot := rfl

def indexSlotLinks (base : ℕ) (s : ℕ → IpaNatIndxTblRule) (mp : ℕ → ℕ) : Links :=
  ⟨fun m => (s m).tblEntry != 0, fun m => (s m).nextIndex, fun m => if m ≥ base then mp (m - base) else 0⟩

theorem indexSlotLinks_update (base : ℕ) (s : ℕ → IpaNatIndxTblRule) (mp : ℕ → ℕ) (i : ℕ)
    (r : IpaNatIndxTblRule) : indexSlotLinks base (update s i r) mp =
      { indexSlotLinks base s mp with
        used := update (indexSlotLinks base s mp).used i (r.tblEntry != 0)
        next := update (indexSlotLinks base s mp).next i r.nextIndex } := by
  unfold indexSlotLinks
  congr 1 <;> funext m <;> by_cases hm : m = i <;> simp [hm]

theorem indexSlotLinks_meta {base j : ℕ} (hj : base ≤ j) (s : ℕ → IpaNatIndxTblRule) (mp : ℕ → ℕ)
    (v : ℕ) : indexSlotLinks base s (update mp (j - base) v) =
      { indexSlotLinks base s mp with prev := update (indexSlotLinks base s mp).prev j v } := by
  unfold indexSlotLinks
  congr 1
  funext m
  by_cases hm : m = j
  · subst hm
    simp [hj]
  · by_cases hmb : base ≤ m
    · have hne : m - base ≠ j - base := by omega
      simp [hm, hmb, hne]
    · simp [hm, hmb]

theorem indexLinks_slot (t : IpaTable IpaNatIndxTblRule) :
    indexLinks t = indexSlotLinks t.tableEntries t.slot t.metaPrev := rfl

/-- The sizes that `ipa_table_calculate_entries_num` grants. -/
structure TableSize (base size : ℕ) : Prop where
  two_le : 2 ≤ base
  base_le : base ≤ 4096
  base_lt : base < size
  expn_le : size - base ≤ 4096
  size_le : size ≤ ipaTableMaxEntries

structure IpaTable.Geometry {ρ : Type} (t : IpaTable ρ) (base size : ℕ) : Prop where
  base_eq : t.tableEntries = base
  expn_eq : t.tableEntries + t.expnTableEntries = size
  tot_eq : t.totTblEnts = size

/-- The parts of a table cache that no operation changes. -/
structure Config (base size : ℕ) (c : IpaNatIp4TableCache) : Prop where
  sizes : TableSize base size
  valid : c.memDescValid = true
  nat : c.table.Geometry base size
  index : c.indexTable.Geometry base size
  natSize : c.table.entrySize = 32
  indexSize : c.indexTable.entrySize = 4
  natHelp : ∃ x, c.table.dmaHelp = natDmaHelp c.addrOffset x
  indexHelp : ∃ x, c.indexTable.dmaHelp = indexDmaHelp c.addrOffset x
  natMeta : c.table.hasMeta = false
  indexMeta : c.indexTable.hasMeta = true

theorem get2PowerLoop_pow (fuel n tmp prev a : ℕ) (ha : 1 ≤ a) (hn : a + n ≤ 16)
    (hprev : prev = 0 ∨ ∃ k, 1 ≤ k ∧ prev = 2 ^ k) (hlt : tmp < 2 ^ n) (h0 : tmp ≠ 0) :
    ((get2PowerLoop fuel tmp prev (2 ^ a)).1 = 0 ∨
      ∃ k, 1 ≤ k ∧ (get2PowerLoop fuel tmp prev (2 ^ a)).1 = 2 ^ k) ∧
    ∃ k, 1 ≤ k ∧ (get2PowerLoop fuel tmp prev (2 ^ a)).2 = 2 ^ k := by
  induction fuel generalizing n tmp prev a with
  | zero => exact ⟨hprev, a, ha, rfl⟩
  | succ fuel ih =>
    by_cases h1 : tmp = 1
    · simp only [get2PowerLoop, h1, if_true]
      exact ⟨hprev, a, ha, rfl⟩
    cases n with
    | zero => simp at hlt; omega
    | succ n =>
      have hmod : 2 ^ a * 2 % 2 ^ 16 = 2 ^ (a + 1) := by
        rw [← pow_succ]
        refine Nat.mod_eq_of_lt (Nat.pow_lt_pow_right (by norm_num) ?_)
        by_contra hc
        have hn0 : n = 0 := by omega
        subst hn0
        omega
      simp only [get2PowerLoop, h1, if_false, hmod]
      refine ih n (tmp / 2) (2 ^ a) (a + 1) (by omega) (by omega) (Or.inr ⟨a, ha, rfl⟩) ?_
        (by omega)
      rw [pow_succ] at hlt
      omega

theorem get2PowerTightUpperBound_pow {num : ℕ} (h : num < 2 ^ 15) :
    ∃ k, 1 ≤ k ∧ get2PowerTightUpperBound num = 2 ^ k := by
  by_cases h0 : num = 0
  · exact ⟨1, le_rfl, by simp [get2PowerTightUpperBound, h0]⟩
  obtain ⟨hfst, hsnd⟩ := get2PowerLoop_pow 16 15 num 0 1 le_rfl le_rfl (Or.inl rfl) h h0
  rw [pow_one] at hfst hsnd
  simp only [get2PowerTightUpperBound, h0, if_false]
  split
  · rename_i hnum
    obtain hz | hk := hfst
    · exact absurd (hnum.trans hz) h0
    · exact hk
  · exact hsnd

theorem ipaTableCalculateEntriesNum_size {nmi : IpaNatMemIn} {n te ee : ℕ}
    (h : ipaTableCalculateEntriesNum nmi n = .ok (te, ee)) : TableSize te (te + ee) := by
  unfold ipaTableCalculateEntriesNum at h
  split at h
  · exact absurd h (by simp)
  rename_i hn
  simp only at h
  split at h
  · exact absurd h (by simp)
  rename_i hle
  have hte := congrArg Prod.fst (Except.ok.inj h)
  have hee := congrArg Prod.snd (Except.ok.inj h)
  simp only at hte hee
  have hn' : n ≤ 5120 := by simpa [ipaTableMaxEntries] using hn
  have hexpn : expnPercentage nmi n ≤ 2201 := by cases nmi <;> simp only [expnPercentage] <;> omega
  have hbase : basePercentage nmi n < 2 ^ 15 := by
    cases nmi <;> simp only [basePercentage] <;> omega
  have hee2 : 2 ≤ ee ∧ ee ≤ 2202 := by
    rw [← hee]
    unfold getEvenTightUpperBound
    split
    · omega
    · split <;> omega
  obtain ⟨k, hk, hpow⟩ := get2PowerTightUpperBound_pow hbase
  rw [hte] at hpow
  have hsum : te + ee ≤ 5120 := by
    rw [← hte, ← hee]
    simpa [ipaTableMaxEntries] using hle
  -- a power of two below 8192 is at most 4096
  have hk12 : k ≤ 12 := by
    by_contra hc
    have : 2 ^ 13 ≤ 2 ^ k := Nat.pow_le_pow_right (by norm_num) (by omega)
    omega
  have hlo : 2 ^ 1 ≤ 2 ^ k := Nat.pow_le_pow_right (by norm_num) hk
  have hhi : 2 ^ k ≤ 2 ^ 12 := Nat.pow_le_pow_right (by norm_num) hk12
  exact ⟨by omega, by omega, by omega, by omega, by simpa [ipaTableMaxEntries] using hsum⟩

/-! ### Iterators and searches on a well-formed shape -/

section Iterators

variable {ρ υ : Type} {ifc : IpaTableEntryInterface ρ υ} {t : IpaTable ρ}
  {base size : ℕ} {home rank : ℕ → ℕ}

theorem iteratorEndLoop_eq_last (h : Chained base size (t.links ifc) home rank) (n : ℕ)
    (hi : (t.links ifc).used i = true)
    (hend : (t.links ifc).next ((t.links ifc).last n i) = 0) :
    iteratorEndLoop ifc t (n + 1) i = .ok ((t.links ifc).last n i) := by
  induction n generalizing i with
  | zero =>
    have h0 : ifc.entryGetNextIndex (t.slot i) = 0 := hend
    simp [iteratorEndLoop, validIndex, h0, Links.last]
  | succ n ih =>
    by_cases h0 : (t.links ifc).next i = 0
    · have h0' : ifc.entryGetNextIndex (t.slot i) = 0 := h0
      simp [iteratorEndLoop, validIndex, h0', Links.last, h0]
    · have hself := h.next_ne_self h0
      rw [Links.last, if_neg h0] at hend ⊢
      rw [iteratorEndLoop, ← ih (h.next_used i h0) hend]
      have h0' : ifc.entryGetNextIndex (t.slot i) ≠ 0 := h0
      have hself' : ifc.entryGetNextIndex (t.slot i) ≠ i := hself
      simp only [validIndex, bne_iff_ne, ne_eq, h0', not_false_eq_true, not_true_eq_false,
        if_false, hself']
      rfl

theorem iteratorEnd_eq (h : Chained base size (t.links ifc) home rank) (hg : t.Geometry base size)
    (hi : (t.links ifc).used i = true) :
    ∃ e, ipaTableIteratorEnd ifc t i = .ok e ∧ (t.links ifc).used e = true ∧
      (t.links ifc).next e = 0 ∧
      ∀ home rank, Chained base size (t.links ifc) home rank → home e = home i := by
  have hsize : size ≤ t.totTblEnts := by rw [hg.tot_eq]
  obtain ⟨hu, hend, -⟩ := h.last_spec hsize hi
  refine ⟨_, iteratorEndLoop_eq_last h t.totTblEnts hi hend, hu, hend, ?_⟩
  intro home' rank' h'
  exact (h'.last_spec hsize hi).2.2

variable (ifc) in
theorem walkLoop_mtSlot (t : IpaTable ρ) (n : ℕ) (hi : 0 < i) :
    (∃ j, i ≤ j ∧ j < i + n ∧ ifc.entryIsValid (t.slot j) = false ∧
      ipaTableWalkLoop ifc t .whenSlotEmpty mtSlot n i () = ((j : ℤ), ())) ∨
    ((∀ j, i ≤ j → j < i + n → ifc.entryIsValid (t.slot j) = true) ∧
      ipaTableWalkLoop ifc t .whenSlotEmpty mtSlot n i () = (0, ())) := by
  induction n generalizing i with
  | zero => exact Or.inr ⟨fun j h1 h2 => absurd h1 (by omega), rfl⟩
  | succ n ih =>
    cases hv : ifc.entryIsValid (t.slot i) with
    | false =>
      exact Or.inl ⟨i, le_rfl, by omega, hv, by simp [ipaTableWalkLoop, hv, mtSlot, hi.ne']⟩
    | true =>
      have hstep : ipaTableWalkLoop ifc t .whenSlotEmpty mtSlot (n + 1) i () =
          ipaTableWalkLoop ifc t .whenSlotEmpty mtSlot n (i + 1) () := by
        simp [ipaTableWalkLoop, hv]
      rw [hstep]
      rcases ih (i := i + 1) (by omega) with ⟨j, h1, h2, hj, he⟩ | ⟨hall, he⟩
      · exact Or.inl ⟨j, by omega, by omega, hj, he⟩
      · refine Or.inr ⟨fun j h1 h2 => ?_, he⟩
        by_cases hji : j = i
        · exact hji ▸ hv
        · exact hall j (by omega) (by omega)

variable (ifc) in
theorem findExpn_cases (hs : TableSize base size) (hg : t.Geometry base size) :
    (∃ j, findExpnTblFreeEntry ifc t = .ok j ∧ base ≤ j ∧ j < size ∧
      ifc.entryIsValid (t.slot j) = false) ∨
    (findExpnTblFreeEntry ifc t = .error (-1) ∧
      ∀ j, base ≤ j → j < size → ifc.entryIsValid (t.slot j) = true) := by
  have hb := hg.base_eq
  have hsz := hg.expn_eq
  have h2 := hs.two_le
  have hlt := hs.base_lt
  have hmax : size ≤ 5120 := hs.size_le
  have hstart : ¬ t.tableEntries ≥ t.tableEntries + t.expnTableEntries := by omega
  simp only [findExpnTblFreeEntry, ipaTableWalk, hstart, if_false]
  rcases walkLoop_mtSlot ifc t (t.tableEntries + t.expnTableEntries - t.tableEntries)
    (i := t.tableEntries) (by omega) with ⟨j, h1, h2, hj, he⟩ | ⟨hall, he⟩
  · left
    have hjpos : ((j : ℤ) > 0) := by exact_mod_cast (by omega : 0 < j)
    refine ⟨j, ?_, by omega, by omega, hj⟩
    rw [he]
    simp only [hjpos, if_true, Int.toNat_natCast]
    rw [Nat.mod_eq_of_lt (by omega)]
  · right
    refine ⟨by rw [he]; rfl, fun j h1 h2 => hall j (by omega) (by omega)⟩

theorem getEntryByIndex_eq (hg : t.Geometry base size) (h0 : i ≠ 0) (hi : i < size) :
    ipaTableGetEntryByIndex t i = some i := by
  unfold ipaTableGetEntryByIndex
  rw [hg.tot_eq, if_neg (by omega)]

/-- **An iterator on a used entry points at its neighbours.** -/
theorem iteratorInit_eq (h : Chained base size (t.links ifc) home rank)
    (hg : t.Geometry base size) (hi : (t.links ifc).used i = true) :
    ipaTableIteratorInit ifc t i = .ok ⟨(t.links ifc).prev i, i, (t.links ifc).next i⟩ := by
  have hi' : ifc.entryIsValid (t.slot i) = true := hi
  have hno : ∀ k, k < size →
      ¬ (validIndex k = true ∧ (ipaTableGetEntryByIndex t k).isNone = true) := by
    rintro k hk ⟨hv, hn⟩
    rw [getEntryByIndex_eq hg (by simpa [validIndex] using hv) hk] at hn
    simp at hn
  have hisz := h.used_lt i hi
  have hprev : ifc.entryGetPrevIndex (t.slot i) i t.metaPrev t.tableEntries < size :=
    h.prev_lt (by omega) hi
  have hnext : ifc.entryGetNextIndex (t.slot i) < size := h.next_lt i hisz
  unfold ipaTableIteratorInit
  rw [if_neg (by simp [hi'])]
  dsimp only
  rw [if_neg (hno _ hprev), if_neg (hno _ hnext)]
  rfl

theorem iteratorInit_error (hi : (t.links ifc).used i = false) :
    ipaTableIteratorInit ifc t i = .error einval := by
  have hi' : ifc.entryIsValid (t.slot i) = false := hi
  simp [ipaTableIteratorInit, hi']

theorem iteratorNext_eq (h : Chained base size (t.links ifc) home rank)
    (hg : t.Geometry base size) {it : IpaTableIterator} (hn : it.nextIndex < size) :
    ipaTableIteratorNext ifc t it =
      .ok ⟨it.currIndex, it.nextIndex, (t.links ifc).next it.nextIndex⟩ := by
  have hlt : ifc.entryGetNextIndex (t.slot it.nextIndex) < size := h.next_lt it.nextIndex hn
  unfold ipaTableIteratorNext
  dsimp only
  rw [if_neg]
  · rfl
  · rintro ⟨hv, hnone⟩
    rw [getEntryByIndex_eq hg (by simpa [validIndex] using hv) hlt] at hnone
    simp at hnone

end Iterators

section Handles

variable {ρ : Type} {t : IpaTable ρ} {base size : ℕ}

theorem nmi_toNat_le (nmi : IpaNatMemIn) : nmi.toNat ≤ 1 := by
  cases nmi <;> simp [IpaNatMemIn.toNat]

theorem makeEntryHdl_eq (hs : TableSize base size) (hg : t.Geometry base size)
    (hi : i < size) :
    makeEntryHdl t i =
      (if i < base then 2 * i else 2 * (i - base) + 1) + 2 ^ 15 * t.nmi.toNat := by
  have hb := hs.base_le
  have he := hs.expn_le
  have hn := nmi_toNat_le t.nmi
  have hor : ∀ x, x < 2 ^ 15 → (x ||| t.nmi.toNat <<< 15) % 2 ^ 16 = x + 2 ^ 15 * t.nmi.toNat := by
    intro x hx
    rw [Nat.or_comm, ← Nat.shiftLeft_add_eq_or_of_lt hx, Nat.shiftLeft_eq]
    rw [Nat.mod_eq_of_lt (by omega)]
    ring
  unfold makeEntryHdl
  rw [hg.base_eq]
  by_cases hib : i < base
  · have hlt : i * 2 ^ 1 < 2 ^ 16 := by omega
    simp only [hib, if_true, ge_iff_le, not_le.mpr hib, if_false]
    rw [Nat.shiftLeft_eq i, Nat.mod_eq_of_lt hlt, hor _ (by omega)]
    ring
  · have hlt : (i - base) * 2 ^ 1 < 2 ^ 16 := by omega
    have h1 : (i - base) * 2 ^ 1 ||| 1 = (i - base) * 2 + 1 := by
      rw [← Nat.shiftLeft_eq, ← Nat.shiftLeft_add_eq_or_of_lt (by norm_num), Nat.shiftLeft_eq,
        pow_one]
    simp only [hib, ge_iff_le, not_lt.mp hib, if_true, if_false]
    rw [Nat.shiftLeft_eq (i - base), Nat.mod_eq_of_lt hlt, h1, hor _ (by omega)]
    ring

theorem breakRuleHdl_eq (hg : t.Geometry base size) (hdl : ℕ) :
    breakRuleHdl t hdl = hdl / 2 % 4096 + (if hdl % 2 = 1 then base else 0) := by
  unfold breakRuleHdl ipaTableIndxMask
  have hmask : (hdl >>> 1) &&& 0xFFF = hdl / 2 % 4096 := by
    rw [Nat.shiftRight_eq_div_pow]
    exact Nat.and_two_pow_sub_one_eq_mod _ 12
  have hbit : hdl &&& 1 = hdl % 2 := Nat.and_one_is_mod hdl
  rw [hmask, hbit, hg.base_eq]
  congr 1
  split <;> split <;> omega

theorem getEntry_makeEntryHdl (hs : TableSize base size) (hg : t.Geometry base size)
    (hi : i < size) : ipaTableGetEntry t (makeEntryHdl t i) = .ok i := by
  have hb := hs.base_le
  have he := hs.expn_le
  have hn := nmi_toNat_le t.nmi
  have hidx : breakRuleHdl t (makeEntryHdl t i) = i := by
    rw [breakRuleHdl_eq hg, makeEntryHdl_eq hs hg hi]
    by_cases hib : i < base
    · simp only [hib, if_true]
      rw [if_neg (by omega)]
      omega
    · simp only [hib, if_false]
      rw [if_pos (by omega)]
      omega
  unfold ipaTableGetEntry
  rw [hidx, hg.tot_eq, if_neg (by omega)]

theorem makeEntryHdl_inj (hs : TableSize base size) (hg : t.Geometry base size) {j : ℕ}
    (hi : i < size) (hj : j < size) (he : makeEntryHdl t i = makeEntryHdl t j) : i = j := by
  have h1 := getEntry_makeEntryHdl hs hg hi
  rw [he, getEntry_makeEntryHdl hs hg hj] at h1
  exact (Except.ok.inj h1).symm

end Handles

/-! ### Executing commands -/

def IpaTable.mapSlot {ρ : Type} (t : IpaTable ρ) (i : ℕ) (f : ρ → ρ) : IpaTable ρ :=
  { t with slot := Function.update t.slot i (f (t.slot i)) }

/-- The hardware changes one NAT record. -/
def IpaNatIp4TableCache.mapNat (c : IpaNatIp4TableCache) (i : ℕ) (f : IpaNatRule → IpaNatRule) :
    IpaNatIp4TableCache :=
  { c with table := c.table.mapSlot i f }

/-- The hardware changes one index record. -/
def IpaNatIp4TableCache.mapIndex (c : IpaNatIp4TableCache) (i : ℕ)
    (f : IpaNatIndxTblRule → IpaNatIndxTblRule) : IpaNatIp4TableCache :=
  { c with indexTable := c.indexTable.mapSlot i f }

@[simp] theorem mapNat_indexTable (c : IpaNatIp4TableCache) (i : ℕ)
    (f : IpaNatRule → IpaNatRule) : (c.mapNat i f).indexTable = c.indexTable := rfl

def natField : DmaHelpType → ℕ → IpaNatRule → IpaNatRule
  | .updateHead, data => IpaNatRule.writeFlags data
  | .updateEntry, data => fun r => { r with nextIndex := data }
  | .deleteHead, data => IpaNatRule.writeProto data

/-- The field of an index record that a kind of command writes. -/
def indexField : DmaHelpType → ℕ → IpaNatIndxTblRule → IpaNatIndxTblRule
  | .updateHead, data => fun r => { r with tblEntry := data }
  | .updateEntry, data => fun r => { r with nextIndex := data }
  | .deleteHead, data => fun r => { r with tblEntry := data }

theorem write16_natField (help : DmaHelpType) (data : ℕ) (r : IpaNatRule) :
    RecordLayout.write16 (natFieldOffset help) data r = natField help data r := by
  cases help <;> rfl

theorem write16_indexField (help : DmaHelpType) (data : ℕ) (r : IpaNatIndxTblRule) :
    RecordLayout.write16 (indexFieldOffset help) data r = indexField help data r := by
  cases help <;> rfl

theorem natFieldOffset_lt (help : DmaHelpType) : natFieldOffset help < 32 := by
  cases help <;> decide

theorem indexFieldOffset_lt (help : DmaHelpType) : indexFieldOffset help < 4 := by
  cases help <;> decide

section Dma

variable {base size : ℕ} {c : IpaNatIp4TableCache}

theorem Config.mapNat (h : Config base size c) (i : ℕ) (f : IpaNatRule → IpaNatRule) :
    Config base size (c.mapNat i f) :=
  ⟨h.1, h.2, ⟨h.3.1, h.3.2, h.3.3⟩, h.4, h.5, h.6, h.7, h.8, h.9, h.10⟩

theorem Config.mapIndex (h : Config base size c) (i : ℕ)
    (f : IpaNatIndxTblRule → IpaNatIndxTblRule) : Config base size (c.mapIndex i f) :=
  ⟨h.1, h.2, h.3, ⟨h.4.1, h.4.2, h.4.3⟩, h.5, h.6, h.7, h.8, h.9, h.10⟩

theorem dmaCmd_append (c : IpaNatIp4TableCache) (cmd : List NatDmaOne) (d : NatDmaOne) :
    dmaCmd c (cmd ++ [d]) = dmaOne (dmaCmd c cmd) d := by
  simp [dmaCmd, List.foldl_append]

theorem dma_offset (a field i w : ℕ) (hw : field < w) :
    (a + field + i * w - a) / w = i ∧ (a + field + i * w - a) % w = field := by
  have he : a + field + i * w - a = field + i * w := by omega
  rw [he]
  exact ⟨by rw [Nat.add_mul_div_right _ _ (by omega), Nat.div_eq_of_lt hw, Nat.zero_add],
    by rw [Nat.add_mul_mod_self_right, Nat.mod_eq_of_lt hw]⟩

theorem Config.dmaOne (h : Config base size c) (d : NatDmaOne) : Config base size (dmaOne c d) := by
  obtain ⟨x, addr, off, data⟩ := d
  cases addr
  · exact h.mapNat _ _
  · exact h.mapNat _ _
  · exact h.mapIndex _ _
  · exact h.mapIndex _ _

theorem Config.dmaCmd (h : Config base size c) (cmd : List NatDmaOne) :
    Config base size (dmaCmd c cmd) := by
  induction cmd generalizing c with
  | nil => exact h
  | cons d cmd ih => exact ih (h.dmaOne d)

theorem dmaCmd_layout (c : IpaNatIp4TableCache) (cmd : List NatDmaOne) :
    (dmaCmd c cmd).addrOffset = c.addrOffset ∧
      (dmaCmd c cmd).table = { c.table with slot := (dmaCmd c cmd).table.slot } ∧
      (dmaCmd c cmd).indexTable =
        { c.indexTable with slot := (dmaCmd c cmd).indexTable.slot } := by
  induction cmd generalizing c with
  | nil => exact ⟨rfl, rfl, rfl⟩
  | cons d cmd ih =>
    have hone : (dmaOne c d).addrOffset = c.addrOffset ∧
        (dmaOne c d).table = { c.table with slot := (dmaOne c d).table.slot } ∧
        (dmaOne c d).indexTable = { c.indexTable with slot := (dmaOne c d).indexTable.slot } := by
      obtain ⟨x, addr, off, data⟩ := d
      cases addr <;> exact ⟨rfl, rfl, rfl⟩
    obtain ⟨h1, h2, h3⟩ := ih (dmaOne c d)
    have hcons : dmaCmd c (d :: cmd) = dmaCmd (dmaOne c d) cmd := rfl
    rw [hcons]
    refine ⟨h1.trans hone.1, h2.trans ?_, h3.trans ?_⟩
    · rw [hone.2.1]
    · rw [hone.2.2]

/-- **Executing a NAT command** writes its field of the record it was built for. -/
theorem dmaCmd_addNat (h : Config base size c) (cmd : List NatDmaOne) {t : IpaTable IpaNatRule}
    (hte : t.tableEntries = c.table.tableEntries)
    (hee : t.expnTableEntries = c.table.expnTableEntries)
    (hsz : t.entrySize = c.table.entrySize) (hhelp : t.dmaHelp = c.table.dmaHelp)
    (help : DmaHelpType) (data : ℕ) (hi : i < size) :
    dmaCmd c (ipaTableAddDmaCmd t help i data cmd) =
      (dmaCmd c cmd).mapNat i (natField help data) := by
  obtain ⟨haddr, htab, -⟩ := dmaCmd_layout c cmd
  obtain ⟨x, hx⟩ := h.natHelp
  have htot : ¬ i ≥ t.tableEntries + t.expnTableEntries := by
    rw [hte, hee, h.nat.expn_eq]
    omega
  have hsz' : (dmaCmd c cmd).table.entrySize = 32 := (h.dmaCmd cmd).natSize
  have hte' : (dmaCmd c cmd).table.tableEntries = c.table.tableEntries := by rw [htab]
  simp only [ipaTableAddDmaCmd, htot, if_false, ipaTableDmaCmdGenerate]
  rw [dmaCmd_append, hte, hhelp, hx, hsz, h.natSize]
  -- the command's offset leads back to slot `i` and to the field's byte
  obtain ⟨hdiv, hmod⟩ := dma_offset c.addrOffset (natFieldOffset help)
    (if i ≥ c.table.tableEntries then i - c.table.tableEntries else i) 32
    (natFieldOffset_lt help)
  by_cases hb : i ≥ c.table.tableEntries
  · simp only [hb, if_true] at hdiv hmod
    simp only [hb, decide_true, if_true, dmaOne, natDmaHelp, IpaTable.dmaWrite, haddr, hsz', hdiv,
      hmod, hte', write16_natField, Nat.sub_add_cancel hb, IpaNatIp4TableCache.mapNat,
      IpaTable.mapSlot]
  · simp only [hb, if_false] at hdiv hmod
    simp only [hb, decide_false, Bool.false_eq_true, if_false, dmaOne, natDmaHelp,
      IpaTable.dmaWrite, haddr, hsz', hdiv, hmod, write16_natField, Nat.add_zero,
      IpaNatIp4TableCache.mapNat,
      IpaTable.mapSlot]

/-- **Executing an index command** writes its field of the record it was built for. -/
theorem dmaCmd_addIndex (h : Config base size c) (cmd : List NatDmaOne)
    (hte : t.tableEntries = c.indexTable.tableEntries)
    (hee : t.expnTableEntries = c.indexTable.expnTableEntries)
    (hsz : t.entrySize = c.indexTable.entrySize) (hhelp : t.dmaHelp = c.indexTable.dmaHelp)
    (help : DmaHelpType) (data : ℕ) (hi : i < size) :
    dmaCmd c (ipaTableAddDmaCmd t help i data cmd) =
      (dmaCmd c cmd).mapIndex i (indexField help data) := by
  obtain ⟨haddr, -, htab⟩ := dmaCmd_layout c cmd
  obtain ⟨x, hx⟩ := h.indexHelp
  have htot : ¬ i ≥ t.tableEntries + t.expnTableEntries := by
    rw [hte, hee, h.index.expn_eq]
    omega
  have hsz' : (dmaCmd c cmd).indexTable.entrySize = 4 := (h.dmaCmd cmd).indexSize
  have hte' : (dmaCmd c cmd).indexTable.tableEntries = c.indexTable.tableEntries := by rw [htab]
  simp only [ipaTableAddDmaCmd, htot, if_false, ipaTableDmaCmdGenerate]
  rw [dmaCmd_append, hte, hhelp, hx, hsz, h.indexSize]
  obtain ⟨hdiv, hmod⟩ := dma_offset c.addrOffset (indexFieldOffset help)
    (if i ≥ c.indexTable.tableEntries then i - c.indexTable.tableEntries else i) 4
    (indexFieldOffset_lt help)
  by_cases hb : i ≥ c.indexTable.tableEntries
  · simp only [hb, if_true] at hdiv hmod
    simp only [hb, decide_true, if_true, dmaOne, indexDmaHelp, IpaTable.dmaWrite, haddr, hsz',
      hdiv, hmod, hte', write16_indexField, Nat.sub_add_cancel hb, IpaNatIp4TableCache.mapIndex,
      IpaTable.mapSlot]
  · simp only [hb, if_false] at hdiv hmod
    simp only [hb, decide_false, Bool.false_eq_true, if_false, dmaOne, indexDmaHelp,
      IpaTable.dmaWrite, haddr, hsz', hdiv, hmod, write16_indexField, Nat.add_zero,
      IpaNatIp4TableCache.mapIndex,
      IpaTable.mapSlot]

end Dma

end Sm8750Modules.IpaNat
