import Sm8750Modules.Mmrm.ClkMgr

/-!
# The software clock manager of MMRM — the aggregate

The manager keeps the sum of the currents up to date: it recomputes it when the level of the rail
changes, and adds the difference else.
-/

namespace Mmrm

open Runs List

variable {K : Type*} {fw : Framework K} {s s' : State K} {c : ℕ}

def State.Counted (s : State K) (c : ℕ) : Prop :=
  c < s.totClkClients ∧ (s.table c).client = true ∧ (s.table c).clkRate ≠ 0

/-- **The aggregate**: the level is the highest that a client needs, and the value is what all clients draw
at that level. -/
structure Aggregate (s : State K) : Prop where
  highest : ∀ c, s.Counted c → (s.table c).vddLevel ≤ s.peak.aggregLevel
  reached : (∃ c, s.Counted c) → ∃ c, s.Counted c ∧ (s.table c).vddLevel = s.peak.aggregLevel
  val : s.peak.aggregVal = s.totalLoad

/-- A request at `reqLevel` of client `c` does not lower the rail, or another client is at the level of the
rail, or none needs more than the request; or among the others that do the last one in the table needs the
most. -/
def LevelKnown (s : State K) (c reqLevel : ℕ) : Prop :=
  s.peak.aggregLevel ≤ reqLevel ∨
    (∃ j, j ≠ c ∧ s.Counted j ∧ (s.table j).vddLevel = s.peak.aggregLevel) ∨
    (∀ j, j ≠ c → s.Counted j → (s.table j).vddLevel ≤ reqLevel) ∨
    ∃ k, k ≠ c ∧ s.Counted k ∧ reqLevel < (s.table k).vddLevel ∧
      ∀ j, j ≠ c → s.Counted j → reqLevel < (s.table j).vddLevel →
        j ≤ k ∧ (s.table j).vddLevel ≤ (s.table k).vddLevel

def Entry.askedLevel (fw : Framework K) (e : Entry K) (data : ClientData) (clkVal : ℕ) : Option ℕ :=
  match e.clk with
  | none => none
  | some clk => if clkVal ≠ 0 then getReqLevel fw clk (e.askedRate data clkVal) else some 0

/-- A last deregistration is of a client without a rate, or whose current is zero and that is not the only
one at the level of the rail while others have rates; a rate is not a multiple of `2 ^ 32`, and its level
is known. -/
def Careful (fw : Framework K) (s : State K) : Action K → Prop
  | .deregister (some c) =>
    1 < (s.table c).refCount ∨ (s.table c).clkRate = 0 ∨
      ((s.table c).load s.peak.aggregLevel = 0 ∧
        ((∀ j, j ≠ c → ¬ s.Counted j) ∨
          ∃ j, j ≠ c ∧ s.Counted j ∧ (s.table j).vddLevel = s.peak.aggregLevel))
  | .setval (some c) (some data) clkVal =>
    (u32 ((s.table c).askedRate data clkVal) = 0 → (s.table c).askedRate data clkVal = 0) ∧
      ∀ reqLevel ∈ (s.table c).askedLevel fw data clkVal, LevelKnown s c reqLevel
  | _ => True

section Loops

theorem u32_add (a b : ℕ) : u32 (u32 a + u32 b) = u32 (a + b) :=
  (Nat.add_mod a b (2 ^ 32)).symm

theorem u32_of_lt {n : ℕ} (h : n < 2 ^ 32) : u32 n = n := Nat.mod_eq_of_lt h

def State.Other (s : State K) (clkSrcId j : ℕ) : Prop :=
  (s.table j).Active ∧ (s.table j).clkSrcId ≠ clkSrcId

variable (nextMax : Option ℕ)

theorem levelLoop_found {id reqLevel : ℕ} {l : List ℕ} {j : ℕ} (hj : j ∈ l)
    (ho : s.Other id j) (hlevel : (s.table j).vddLevel = s.peak.aggregLevel) :
    (levelLoop s id reqLevel l nextMax).1 = true := by
  induction l generalizing nextMax with
  | nil => cases hj
  | cons c rest ih =>
    rw [levelLoop]
    rcases mem_cons.mp hj with rfl | hrest
    · rw [if_neg (not_or.mpr ⟨not_not.mpr ho.1, ho.2⟩), if_pos hlevel]
    · split_ifs
      · exact ih nextMax hrest
      · rfl
      · exact ih _ hrest
      · exact ih nextMax hrest

theorem levelLoop_none {id reqLevel : ℕ} {l : List ℕ}
    (hat : ∀ j ∈ l, s.Other id j → (s.table j).vddLevel ≠ s.peak.aggregLevel)
    (hnone : ∀ j ∈ l, s.Other id j → (s.table j).vddLevel ≤ reqLevel) :
    levelLoop s id reqLevel l nextMax = (false, nextMax) := by
  induction l generalizing nextMax with
  | nil => rfl
  | cons c rest ih =>
    have hrest := ih nextMax (fun j hj => hat j (mem_cons_of_mem c hj)) fun j hj =>
      hnone j (mem_cons_of_mem c hj)
    rw [levelLoop]
    by_cases ho : s.Other id c
    · have hle := hnone c mem_cons_self ho
      rw [if_neg (not_or.mpr ⟨not_not.mpr ho.1, ho.2⟩), if_neg (hat c mem_cons_self ho),
        if_neg fun hlt => absurd hlt.2 (Nat.not_lt.mpr hle)]
      exact hrest
    · rw [if_pos (by rwa [State.Other, not_and_or, not_ne_iff] at ho)]
      exact hrest

theorem levelLoop_last {id reqLevel k : ℕ} {l : List ℕ} (hsorted : l.Pairwise (· < ·))
    (hat : ∀ j ∈ l, s.Other id j → (s.table j).vddLevel < s.peak.aggregLevel)
    (hk : k ∈ l) (hok : s.Other id k) (hreq : reqLevel < (s.table k).vddLevel)
    (hlast : ∀ j ∈ l, s.Other id j → reqLevel < (s.table j).vddLevel → j ≤ k) :
    levelLoop s id reqLevel l nextMax = (false, some (s.table k).vddLevel) := by
  induction l generalizing nextMax with
  | nil => cases hk
  | cons c rest ih =>
    obtain ⟨hc, hrest⟩ := pairwise_cons.mp hsorted
    have hat' : ∀ j ∈ rest, s.Other id j → (s.table j).vddLevel < s.peak.aggregLevel := fun j hj =>
      hat j (mem_cons_of_mem c hj)
    have hlast' : ∀ j ∈ rest, s.Other id j → reqLevel < (s.table j).vddLevel → j ≤ k := fun j hj =>
      hlast j (mem_cons_of_mem c hj)
    rw [levelLoop]
    by_cases hkc : k = c
    · rw [hkc] at hok hreq hlast' ⊢
      have hlt := hat c mem_cons_self hok
      rw [if_neg (not_or.mpr ⟨not_not.mpr hok.1, hok.2⟩), if_neg hlt.ne, if_pos ⟨hlt, hreq⟩]
      refine levelLoop_none _ (fun j hj ho => (hat' j hj ho).ne) fun j hj ho => ?_
      by_contra hgt
      have hle := hlast' j hj ho (Nat.lt_of_not_le hgt)
      exact absurd (hc j hj) (Nat.not_lt.mpr hle)
    · have hkrest : k ∈ rest := (mem_cons.mp hk).resolve_left hkc
      by_cases ho : s.Other id c
      · have hlt := hat c mem_cons_self ho
        rw [if_neg (not_or.mpr ⟨not_not.mpr ho.1, ho.2⟩), if_neg hlt.ne]
        split_ifs
        · exact ih _ hrest hat' hkrest hlast'
        · exact ih _ hrest hat' hkrest hlast'
      · rw [if_pos (by rwa [State.Other, not_and_or, not_ne_iff] at ho)]
        exact ih _ hrest hat' hkrest hlast'

theorem currentLoop_eq (level entryNew : ℕ) (l : List ℕ) (sum : ℕ) (hsum : u32 sum = sum) :
    currentLoop s level entryNew l sum = u32 (sum + (l.map fun c =>
      if (s.table c).Active ∧ c ≠ entryNew then (s.table c).cur level else 0).sum) := by
  induction l generalizing sum with
  | nil => exact hsum.symm
  | cons c rest ih =>
    rw [currentLoop, map_cons, sum_cons]
    by_cases hc : (s.table c).Active ∧ c ≠ entryNew
    · have hidem : ∀ n, u32 (u32 n) = u32 n := fun n => Nat.mod_mod n _
      rw [if_neg (not_or.mpr ⟨not_not.mpr hc.1, hc.2⟩), if_pos hc, ih _ (hidem _), ← Nat.add_assoc]
      exact Nat.mod_add_mod _ _ _
    · rw [if_pos (by rwa [not_and_or, not_ne_iff] at hc), if_neg hc, ih _ hsum, Nat.zero_add]

end Loops

/-! ## The table and the peak data -/

/-- Rates are those of registered clients, each of the first entry with its id, and the peak data agree. -/
structure Inv (s : State K) : Prop where
  rated : ∀ c, (s.table c).clkRate ≠ 0 → (s.table c).clk.isSome = true
  client : ∀ c, (s.table c).clk.isSome = true → (s.table c).client = true
  first : ∀ c, (s.table c).client = true → findEntry s (s.table c).clkSrcId = some c
  fits : s.totalLoad < 2 ^ 31
  aggregate : Aggregate s

/-- The same without the levels: the value of the peak data is what the clients draw. -/
structure Booked (s : State K) : Prop where
  rated : ∀ c, (s.table c).clkRate ≠ 0 → (s.table c).clk.isSome = true
  client : ∀ c, (s.table c).clk.isSome = true → (s.table c).client = true
  first : ∀ c, (s.table c).client = true → findEntry s (s.table c).clkSrcId = some c
  fits : s.totalLoad < 2 ^ 31
  val : s.peak.aggregVal = s.totalLoad

theorem Inv.booked (h : Inv s) : Booked s := ⟨h.rated, h.client, h.first, h.fits, h.aggregate.val⟩

section Inv

variable {reqLevel level r blocks : ℕ} {peak : Peak}

theorem lt_of_findEntry {id : ℕ} (h : findEntry s id = some c) : c < s.totClkClients :=
  mem_range.mp (List.mem_of_find?_eq_some h)

theorem Booked.counted_iff (h : Booked s) : s.Counted c ↔ (s.table c).Active := by
  constructor
  · intro hc
    exact ⟨h.rated c hc.2.2, hc.2.2⟩
  · intro ha
    have hclient := h.client c ha.1
    exact ⟨lt_of_findEntry (h.first c hclient), hclient, ha.2⟩

theorem Inv.counted_iff (h : Inv s) : s.Counted c ↔ (s.table c).Active := h.booked.counted_iff

theorem Inv.other_iff (h : Inv s) (hc : (s.table c).client = true) (j : ℕ) :
    s.Other (s.table c).clkSrcId j ↔ j ≠ c ∧ s.Counted j := by
  rw [State.Other, h.counted_iff]
  constructor
  · rintro ⟨ha, hid⟩
    refine ⟨?_, ha⟩
    rintro rfl
    exact hid rfl
  · rintro ⟨hjc, ha⟩
    refine ⟨ha, fun hid => hjc ?_⟩
    have hj := h.first j (h.client j ha.1)
    rw [hid, h.first c hc] at hj
    exact (Option.some.inj hj).symm

def State.otherLoad (s : State K) (c level : ℕ) : ℕ :=
  ∑ j ∈ (Finset.range s.totClkClients).erase c, (s.table j).load level

theorem totalLoad_eq (hc : c < s.totClkClients) :
    s.totalLoad = (s.table c).load s.peak.aggregLevel + s.otherLoad c s.peak.aggregLevel :=
  (Finset.add_sum_erase _ _ (Finset.mem_range.mpr hc)).symm

theorem Booked.calculateTotalCurrent_eq (h : Booked s) (c level : ℕ) :
    calculateTotalCurrent s level c = u32 (s.otherLoad c level) := by
  have hload : ∀ j, (if (s.table j).Active ∧ j ≠ c then (s.table j).cur level else 0) =
      u32 (if j ≠ c then (s.table j).load level else 0) := by
    intro j
    have hiff : ((s.table j).client = true ∧ (s.table j).clkRate ≠ 0) ↔ (s.table j).Active :=
      ⟨fun hj => ⟨h.rated j hj.2, hj.2⟩, fun hj => ⟨h.client j hj.1, hj.2⟩⟩
    by_cases hjc : j = c
    · rw [if_neg fun hj => hj.2 hjc, if_neg fun hj => hj hjc]
      rfl
    · rw [if_pos hjc, Entry.load]
      by_cases ha : (s.table j).Active
      · rw [if_pos ⟨ha, hjc⟩, if_pos (hiff.mpr ha), Entry.cur]
      · rw [if_neg fun hj => ha hj.1, if_neg fun hj => ha (hiff.mp hj)]
        rfl
  have hsum : ((List.range s.totClkClients).map fun j =>
      if (s.table j).Active ∧ j ≠ c then (s.table j).cur level else 0).sum =
      ∑ j ∈ Finset.range s.totClkClients, u32 (if j ≠ c then (s.table j).load level else 0) := by
    simp only [hload]
    rfl
  have herase : ∑ j ∈ Finset.range s.totClkClients, (if j ≠ c then (s.table j).load level else 0) =
      s.otherLoad c level := by
    rw [State.otherLoad, ← Finset.filter_ne', Finset.sum_filter]
  rw [calculateTotalCurrent, currentLoop_eq level c _ 0 rfl, Nat.zero_add, hsum, ← herase]
  exact (Finset.sum_nat_mod _ _ _).symm

theorem Inv.checkReqLevel_top (h : Inv s) (hc : (s.table c).client = true)
    (hk : LevelKnown s c reqLevel) :
    reqLevel ≤ checkReqLevel s (s.table c).clkSrcId reqLevel ∧
      (∀ j, j ≠ c → s.Counted j →
        (s.table j).vddLevel ≤ checkReqLevel s (s.table c).clkSrcId reqLevel) ∧
      (checkReqLevel s (s.table c).clkSrcId reqLevel = reqLevel ∨ ∃ j, j ≠ c ∧ s.Counted j ∧
        (s.table j).vddLevel = checkReqLevel s (s.table c).clkSrcId reqLevel) := by
  have hhighest := h.aggregate.highest
  rw [checkReqLevel]
  by_cases hlow : reqLevel < s.peak.aggregLevel
  · rw [if_pos hlow]
    by_cases hat : ∃ j, j ≠ c ∧ s.Counted j ∧ (s.table j).vddLevel = s.peak.aggregLevel
    · obtain ⟨j, hjc, hj, hlevel⟩ := hat
      have hfound : (levelLoop s (s.table c).clkSrcId reqLevel (List.range s.totClkClients) none).1 = true :=
        levelLoop_found none (mem_range.mpr hj.1) ((h.other_iff hc j).mpr ⟨hjc, hj⟩) hlevel
      split
      · exact ⟨hlow.le, fun i _ hi => hhighest i hi, .inr ⟨j, hjc, hj, hlevel⟩⟩
      · rename_i heq
        rw [heq] at hfound
        cases hfound
      · rename_i heq
        rw [heq] at hfound
        cases hfound
    · have hne : ∀ j, s.Other (s.table c).clkSrcId j → (s.table j).vddLevel ≠ s.peak.aggregLevel := by
        intro j ho hlevel
        obtain ⟨hjc, hj⟩ := (h.other_iff hc j).mp ho
        exact hat ⟨j, hjc, hj, hlevel⟩
      rcases ((hk.resolve_left (Nat.not_le.mpr hlow)).resolve_left hat) with hnone | ⟨k, hkc, hkj, hreq, hlast⟩
      · rw [levelLoop_none none (fun j _ ho => hne j ho) fun j _ ho =>
          hnone j ((h.other_iff hc j).mp ho).1 ((h.other_iff hc j).mp ho).2]
        exact ⟨le_rfl, hnone, .inl rfl⟩
      · rw [levelLoop_last none pairwise_lt_range ?_ (mem_range.mpr hkj.1)
          ((h.other_iff hc k).mpr ⟨hkc, hkj⟩) hreq ?_]
        · show _ ≤ (if reqLevel < _ then _ else reqLevel) ∧ _
          simp only [if_pos hreq]
          refine ⟨hreq.le, fun j hjc hj => ?_, .inr ⟨k, hkc, hkj, rfl⟩⟩
          by_cases hjr : reqLevel < (s.table j).vddLevel
          · exact (hlast j hjc hj hjr).2
          · exact (Nat.le_of_not_lt hjr).trans hreq.le
        · intro j _ ho
          exact lt_of_le_of_ne (hhighest j ((h.other_iff hc j).mp ho).2) (hne j ho)
        · intro j _ ho hjr
          exact (hlast j ((h.other_iff hc j).mp ho).1 ((h.other_iff hc j).mp ho).2 hjr).1
  · rw [if_neg hlow]
    refine ⟨le_rfl, fun j _ hj => ?_, .inl rfl⟩
    exact (hhighest j hj).trans (Nat.le_of_not_lt hlow)

theorem checkPeakCurrent_level (h : checkPeakCurrent s c reqLevel r blocks = some peak) :
    peak.aggregLevel = checkReqLevel s (s.table c).clkSrcId reqLevel := by
  simp only [checkPeakCurrent] at h
  split_ifs at h <;> rw [← Option.some.inj h]

def Entry.newLoad (e : Entry K) (reqLevel level r blocks : ℕ) : ℕ :=
  if r ≠ 0 then e.currentMa reqLevel level * blocks else 0

theorem signed_nonpos_iff {n : ℕ} (h : n < 2 ^ 31) : signed n ≤ 0 ↔ n = 0 := by
  rw [signed, if_pos h]
  exact_mod_cast Nat.le_zero

theorem two_pow_31_lt : 2 ^ 31 < 2 ^ 32 := by decide

theorem u32_add_sub {a b old : ℕ} (hold : old < 2 ^ 32) : u32 (old + a + b + (2 ^ 32 - old)) = u32 (a + b) := by
  rw [show old + a + b + (2 ^ 32 - old) = a + b + 2 ^ 32 by omega]
  exact Nat.add_mod_right _ _

theorem newCur_eq (hr : u32 r = 0 → r = 0) :
    (if u32 r ≠ 0 then u32 ((s.table c).currentMa reqLevel level * blocks) else 0) =
      u32 ((s.table c).newLoad reqLevel level r blocks) := by
  rw [Entry.newLoad]
  by_cases hz : r = 0
  · rw [if_neg (not_not.mpr hz), hz]
    rfl
  · rw [if_pos hz, if_pos fun hu => hz (hr hu)]

theorem Booked.load_lt (h : Booked s) (hlt : c < s.totClkClients) :
    (s.table c).load s.peak.aggregLevel < 2 ^ 32 := by
  have hfit := h.fits
  rw [totalLoad_eq hlt] at hfit
  exact ((Nat.le_add_right _ _).trans_lt hfit).trans two_pow_31_lt

theorem Booked.oldCur_eq (h : Booked s) (hc : (s.table c).client = true) :
    (if (s.table c).clkRate ≠ 0 then (s.table c).cur s.peak.aggregLevel else 0) =
      (s.table c).load s.peak.aggregLevel := by
  have hle := h.load_lt (lt_of_findEntry (h.first c hc))
  rw [Entry.load] at hle ⊢
  by_cases hz : (s.table c).clkRate = 0
  · rw [if_neg (not_not.mpr hz), if_neg fun hcr => hcr.2 hz]
  · rw [if_pos ⟨hc, hz⟩] at hle
    rw [if_pos (show (s.table c).clkRate ≠ 0 from hz), if_pos ⟨hc, hz⟩, Entry.cur, u32_of_lt hle]

theorem Inv.checkPeakCurrent_val (h : Inv s) (hc : (s.table c).client = true) (hr : u32 r = 0 → r = 0)
    (hlevel : level = checkReqLevel s (s.table c).clkSrcId reqLevel)
    (hfits : (s.table c).newLoad reqLevel level r blocks + s.otherLoad c level < 2 ^ 31)
    (hsome : checkPeakCurrent s c reqLevel r blocks = some peak) :
    peak.aggregVal = (s.table c).newLoad reqLevel level r blocks + s.otherLoad c level := by
  have hlt := lt_of_findEntry (h.first c hc)
  have hold := h.booked.oldCur_eq hc
  have htotal : (if level ≠ s.peak.aggregLevel then
      u32 (calculateTotalCurrent s level c + u32 ((s.table c).newLoad reqLevel level r blocks))
      else u32 (s.peak.aggregVal + u32 ((s.table c).newLoad reqLevel level r blocks) +
        (2 ^ 32 - (s.table c).load s.peak.aggregLevel))) =
      (s.table c).newLoad reqLevel level r blocks + s.otherLoad c level := by
    have hnewlt : (s.table c).newLoad reqLevel level r blocks < 2 ^ 32 :=
      ((Nat.le_add_right _ _).trans_lt hfits).trans two_pow_31_lt
    split_ifs with hne
    · rw [h.booked.calculateTotalCurrent_eq, u32_add, Nat.add_comm]
      exact u32_of_lt (hfits.trans two_pow_31_lt)
    · rw [not_ne_iff] at hne
      have hval := h.aggregate.val
      rw [totalLoad_eq hlt] at hval
      rw [hval, u32_of_lt hnewlt, u32_add_sub (h.booked.load_lt hlt), hne, Nat.add_comm]
      rw [hne] at hfits
      exact u32_of_lt (hfits.trans two_pow_31_lt)
  rw [checkPeakCurrent] at hsome
  simp only [← hlevel, newCur_eq hr, hold, htotal, signed_nonpos_iff hfits] at hsome
  split_ifs at hsome with h1 h2 h3 h4
  · rw [← Option.some.inj hsome, h3]
  · rw [← Option.some.inj hsome]

end Inv

/-! ## One entry changes -/

section Replace

variable {e : Entry K} {peak : Peak}

theorem table_setEntry_self : (s.setEntry c e).table c = e := Function.update_self _ _ _

theorem table_setEntry_of_ne {j : ℕ} (hj : j ≠ c) : (s.setEntry c e).table j = s.table j :=
  Function.update_of_ne hj _ _

def State.replace (s : State K) (c : ℕ) (e : Entry K) (peak : Peak) : State K :=
  { s.setEntry c e with peak := peak }

theorem counted_replace {j : ℕ} (hj : j ≠ c) : (s.replace c e peak).Counted j ↔ s.Counted j := by
  show j < s.totClkClients ∧ ((s.setEntry c e).table j).client = true ∧ _ ↔ _
  rw [State.Counted]
  show _ ∧ _ ∧ ((s.setEntry c e).table j).clkRate ≠ 0 ↔ _
  rw [table_setEntry_of_ne hj]

theorem counted_replace_self (hc : c < s.totClkClients) :
    (s.replace c e peak).Counted c ↔ e.client = true ∧ e.clkRate ≠ 0 := by
  show c < s.totClkClients ∧ ((s.setEntry c e).table c).client = true ∧
    ((s.setEntry c e).table c).clkRate ≠ 0 ↔ _
  rw [table_setEntry_self]
  exact ⟨And.right, fun h => ⟨hc, h⟩⟩

theorem totalLoad_replace (hc : c < s.totClkClients) :
    (s.replace c e peak).totalLoad = e.load peak.aggregLevel + s.otherLoad c peak.aggregLevel := by
  have hsplit := totalLoad_eq (s := s.replace c e peak) (c := c) hc
  have hself : (s.replace c e peak).table c = e := table_setEntry_self
  rw [hself] at hsplit
  rw [hsplit]
  refine congrArg (_ + ·) (Finset.sum_congr rfl fun j hj => ?_)
  show ((s.setEntry c e).table j).load _ = _
  rw [table_setEntry_of_ne (Finset.ne_of_mem_erase hj)]
  rfl

theorem aggregate_replace (hc : c < s.totClkClients)
    (hhighest : ∀ j, j ≠ c → s.Counted j → (s.table j).vddLevel ≤ peak.aggregLevel)
    (hself : e.client = true ∧ e.clkRate ≠ 0 → e.vddLevel ≤ peak.aggregLevel)
    (hreached : (∃ j, j ≠ c ∧ s.Counted j) ∨ (e.client = true ∧ e.clkRate ≠ 0) →
      (∃ j, j ≠ c ∧ s.Counted j ∧ (s.table j).vddLevel = peak.aggregLevel) ∨
        ((e.client = true ∧ e.clkRate ≠ 0) ∧ e.vddLevel = peak.aggregLevel))
    (hval : peak.aggregVal = e.load peak.aggregLevel + s.otherLoad c peak.aggregLevel) :
    Aggregate (s.replace c e peak) := by
  have htable : ∀ j, j ≠ c → (s.replace c e peak).table j = s.table j := fun j hj =>
    table_setEntry_of_ne hj
  have hentry : (s.replace c e peak).table c = e := table_setEntry_self
  refine ⟨fun j hj => ?_, fun hsome => ?_, ?_⟩
  · by_cases hjc : j = c
    · rw [hjc] at hj ⊢
      rw [hentry]
      exact hself ((counted_replace_self hc).mp hj)
    · rw [htable j hjc]
      exact hhighest j hjc ((counted_replace hjc).mp hj)
  · have hor : (∃ j, j ≠ c ∧ s.Counted j) ∨ (e.client = true ∧ e.clkRate ≠ 0) := by
      obtain ⟨j, hj⟩ := hsome
      by_cases hjc : j = c
      · rw [hjc] at hj
        exact .inr ((counted_replace_self hc).mp hj)
      · exact .inl ⟨j, hjc, (counted_replace hjc).mp hj⟩
    rcases hreached hor with ⟨j, hjc, hj, hlevel⟩ | ⟨hcount, hlevel⟩
    · refine ⟨j, (counted_replace hjc).mpr hj, ?_⟩
      rw [htable j hjc]
      exact hlevel
    · refine ⟨c, (counted_replace_self hc).mpr hcount, ?_⟩
      rw [hentry]
      exact hlevel
  · rw [totalLoad_replace hc]
    exact hval

theorem findEntry_replace (hid : e.clkSrcId = (s.table c).clkSrcId) (id : ℕ) :
    findEntry (s.replace c e peak) id = findEntry s id := by
  have hids : ∀ j, ((s.replace c e peak).table j).clkSrcId = (s.table j).clkSrcId := by
    intro j
    by_cases hjc : j = c
    · rw [hjc]
      show ((s.setEntry c e).table c).clkSrcId = _
      rw [table_setEntry_self, hid]
    · show ((s.setEntry c e).table j).clkSrcId = _
      rw [table_setEntry_of_ne hjc]
  simp only [findEntry, hids]
  rfl

theorem Booked.replace (h : Booked s) (hid : e.clkSrcId = (s.table c).clkSrcId)
    (hrated : e.clkRate ≠ 0 → e.clk.isSome = true) (hclient : e.clk.isSome = true → e.client = true)
    (hfirst : e.client = true → findEntry s (s.table c).clkSrcId = some c)
    (hfits : (s.replace c e peak).totalLoad < 2 ^ 31)
    (hval : peak.aggregVal = (s.replace c e peak).totalLoad) : Booked (s.replace c e peak) := by
  have hentry : (s.replace c e peak).table c = e := table_setEntry_self
  have htable : ∀ j, j ≠ c → (s.replace c e peak).table j = s.table j := fun j hj =>
    table_setEntry_of_ne hj
  refine ⟨fun j hj => ?_, fun j hj => ?_, fun j hj => ?_, hfits, hval⟩
  · by_cases hjc : j = c
    · rw [hjc, hentry] at hj ⊢
      exact hrated hj
    · rw [htable j hjc] at hj ⊢
      exact h.rated j hj
  · by_cases hjc : j = c
    · rw [hjc, hentry] at hj ⊢
      exact hclient hj
    · rw [htable j hjc] at hj ⊢
      exact h.client j hj
  · rw [findEntry_replace hid]
    by_cases hjc : j = c
    · rw [hjc, hentry] at hj ⊢
      rw [hid]
      exact hfirst hj
    · rw [htable j hjc] at hj ⊢
      exact h.first j hj

theorem Inv.replace (h : Inv s) (hid : e.clkSrcId = (s.table c).clkSrcId)
    (hrated : e.clkRate ≠ 0 → e.clk.isSome = true) (hclient : e.clk.isSome = true → e.client = true)
    (hfirst : e.client = true → findEntry s (s.table c).clkSrcId = some c)
    (hfits : (s.replace c e peak).totalLoad < 2 ^ 31) (hagg : Aggregate (s.replace c e peak)) :
    Inv (s.replace c e peak) := by
  have hbooked := h.booked.replace hid hrated hclient hfirst hfits hagg.val
  exact ⟨hbooked.rated, hbooked.client, hbooked.first, hbooked.fits, hagg⟩

/-- What an entry becomes while the client draws what it drew, and no other level is needed. -/
structure Harmless (s : State K) (c : ℕ) (e : Entry K) : Prop where
  lt : c < s.totClkClients
  id : e.clkSrcId = (s.table c).clkSrcId
  rate : e.clkRate = (s.table c).clkRate
  rated : e.clkRate ≠ 0 → e.clk.isSome = true
  client : e.clk.isSome = true → e.client = true
  first : e.client = true → findEntry s (s.table c).clkSrcId = some c
  same : e.clkRate ≠ 0 → e.vddLevel = (s.table c).vddLevel ∧ e.currentMa = (s.table c).currentMa ∧
    e.numHwBlocks = (s.table c).numHwBlocks

theorem Harmless.counted_iff (he : Harmless s c e) (h : Booked s) :
    (e.client = true ∧ e.clkRate ≠ 0) ↔ s.Counted c := by
  rw [h.counted_iff, Entry.Active, ← he.rate]
  exact ⟨fun hn => ⟨h.rated c (he.rate ▸ hn.2), hn.2⟩, fun hn => ⟨he.client (he.rated hn.2), hn.2⟩⟩

theorem Harmless.load_eq (he : Harmless s c e) (h : Booked s) (level : ℕ) :
    e.load level = (s.table c).load level := by
  rw [Entry.load, Entry.load]
  by_cases hn : e.client = true ∧ e.clkRate ≠ 0
  · obtain ⟨hvdd, hcur, hblocks⟩ := he.same hn.2
    rw [if_pos hn, if_pos ((he.counted_iff h).mp hn).2, hvdd, hcur, hblocks]
  · have hnot : ¬ ((s.table c).client = true ∧ (s.table c).clkRate ≠ 0) := fun hs =>
      hn ((he.counted_iff h).mpr ⟨he.lt, hs⟩)
    rw [if_neg hn, if_neg hnot]

theorem Booked.replace_same (h : Booked s) (he : Harmless s c e) : Booked (s.setEntry c e) := by
  have hsame : (s.replace c e s.peak).totalLoad = s.totalLoad := by
    rw [totalLoad_replace he.lt, he.load_eq h, ← totalLoad_eq he.lt]
  exact h.replace (e := e) he.id he.rated he.client he.first (by rw [hsame]; exact h.fits)
    (by rw [hsame]; exact h.val)

theorem Inv.replace_same (h : Inv s) (he : Harmless s c e) : Inv (s.setEntry c e) := by
  have hcount := he.counted_iff h.booked
  have hload := he.load_eq h.booked
  have hval : s.peak.aggregVal = e.load s.peak.aggregLevel + s.otherLoad c s.peak.aggregLevel := by
    rw [hload, ← totalLoad_eq he.lt]
    exact h.aggregate.val
  have hagg : Aggregate (s.replace c e s.peak) := by
    refine aggregate_replace he.lt (fun j _ hj => h.aggregate.highest j hj) (fun hn => ?_)
      (fun hor => ?_) hval
    · rw [(he.same hn.2).1]
      exact h.aggregate.highest c (hcount.mp hn)
    · have hsome : ∃ j, s.Counted j := by
        rcases hor with ⟨j, -, hj⟩ | hn
        · exact ⟨j, hj⟩
        · exact ⟨c, hcount.mp hn⟩
      obtain ⟨j, hj, hlevel⟩ := h.aggregate.reached hsome
      by_cases hjc : j = c
      · rw [hjc] at hj hlevel
        have hn := hcount.mpr hj
        exact .inr ⟨hn, by rw [(he.same hn.2).1, hlevel]⟩
      · exact .inl ⟨j, hjc, hj, hlevel⟩
  refine h.replace (e := e) he.id he.rated he.client he.first ?_ hagg
  rw [totalLoad_replace he.lt, hload, ← totalLoad_eq he.lt]
  exact h.fits

end Replace

/-! ## The calls -/

section Calls

variable {client : Option ℕ} {clientData : Option ClientData} {clkVal : ℕ}

theorem setval_cases (fw : Framework K) (s : State K) (client : Option ℕ) (clientData : Option ClientData)
    (clkVal : ℕ) : (setval fw s client clientData clkVal).1 = s ∨
    ((setval fw s client clientData clkVal).2 = 0 ∧ ∃ c data, client = some c ∧ c < s.totClkClients ∧
      (s.table c).clk.isSome = true ∧
      (setval fw s client clientData clkVal).1 = s.setEntry c { s.table c with reserve := data }) ∨
    ((setval fw s client clientData clkVal).2 = 0 ∧ ∃ c data reqLevel peak, client = some c ∧
      clientData = some data ∧ c < s.totClkClients ∧ (s.table c).clk.isSome = true ∧
      (s.table c).askedLevel fw data clkVal = some reqLevel ∧
      checkPeakCurrent s c reqLevel ((s.table c).askedRate data clkVal) data.numHwBlocks = some peak ∧
      (setval fw s client clientData clkVal).1 =
        s.replace c ((s.table c).setRate data clkVal reqLevel) peak) := by
  match client, clientData with
  | none, _ => exact .inl rfl
  | some c, none => exact .inl rfl
  | some c, some data =>
    by_cases hc : s.totClkClients ≤ c
    · left
      rw [setval]
      exact congrArg Prod.fst (if_pos hc)
    · have hlt := Nat.lt_of_not_le hc
      cases hclk : (s.table c).clk with
      | none =>
        left
        simp only [setval, hclk, if_neg hc]
      | some clk =>
        have hsome : (s.table c).clk.isSome = true := by rw [hclk]; rfl
        obtain ⟨level, hlevel⟩ : ∃ level, (if clkVal ≠ 0 then
            getReqLevel fw clk ((s.table c).askedRate data clkVal) else some 0) = level := ⟨_, rfl⟩
        simp only [setval, hclk, if_neg hc, hlevel]
        split_ifs
        · exact .inl rfl
        · exact .inl rfl
        · exact .inr (.inl ⟨rfl, c, data.reserveOnly, rfl, hlt, hsome, by rw [hclk]⟩)
        · cases level <;> exact .inl rfl
        cases level with
        | none => exact .inl rfl
        | some reqLevel =>
          have hasked : (s.table c).askedLevel fw data clkVal = some reqLevel := by
            rw [Entry.askedLevel, hclk]
            exact hlevel
          cases hpeak : checkPeakCurrent s c reqLevel ((s.table c).askedRate data clkVal)
              data.numHwBlocks with
          | none =>
            left
            simp only [hpeak]
          | some peak =>
            simp only [hpeak]
            exact .inr (.inr ⟨trivial, c, data, reqLevel, peak, rfl, rfl, hlt, hsome, hasked, hpeak, rfl⟩)

theorem setval_error (h : (setval fw s client clientData clkVal).2 ≠ 0) :
    (setval fw s client clientData clkVal).1 = s := by
  rcases setval_cases fw s client clientData clkVal with hs | ⟨hrc, -⟩ | ⟨hrc, -⟩
  · exact hs
  · exact absurd hrc h
  · exact absurd hrc h

theorem le_askedRate (e : Entry K) (data : ClientData) (clkVal : ℕ) : clkVal ≤ e.askedRate data clkVal := by
  rw [Entry.askedRate]
  split_ifs
  · rw [Entry.maxCrmRate]
    split_ifs with h1 h2
    · exact le_rfl
    · simp only
      split_ifs with h3
      · exact le_rfl
      · exact (Nat.lt_of_not_le h3).le
    · exact Nat.le_of_not_lt h1
  · exact le_rfl

theorem setRate_load {reqLevel : ℕ} (hc : (s.table c).client = true) (data : ClientData) (clkVal level : ℕ) :
    ((s.table c).setRate data clkVal reqLevel).load level =
      (s.table c).newLoad reqLevel level ((s.table c).askedRate data clkVal) data.numHwBlocks := by
  have hrate : ((s.table c).setRate data clkVal reqLevel).clkRate = (s.table c).askedRate data clkVal := rfl
  rw [Entry.load, Entry.newLoad, hrate]
  by_cases hz : (s.table c).askedRate data clkVal = 0
  · rw [if_neg fun hn => hn.2 hz, if_neg (not_not.mpr hz)]
  · rw [if_pos ⟨hc, hz⟩, if_pos hz]
    rfl

theorem Inv.setval (h : Inv s) (hfits : (setval fw s client clientData clkVal).1.totalLoad < 2 ^ 31)
    (hcareful : Careful fw s (.setval client clientData clkVal)) :
    Inv (setval fw s client clientData clkVal).1 := by
  rcases setval_cases fw s client clientData clkVal with
    hs | ⟨-, c, reserve, -, hc, hsome, hs⟩ | ⟨-, c, data, reqLevel, peak, rfl, rfl, hc, hsome, hlevel, hpeak, hs⟩
  · rw [hs]
    exact h
  · rw [hs]
    exact h.replace_same ⟨hc, rfl, rfl, h.rated c, h.client c, h.first c, fun _ => ⟨rfl, rfl, rfl⟩⟩
  · rw [hs] at hfits ⊢
    obtain ⟨hr, hknown⟩ := hcareful
    have hclient := h.client c hsome
    have hadj := checkPeakCurrent_level hpeak
    obtain ⟨hreq, hothers, htop⟩ := h.checkReqLevel_top hclient (hknown reqLevel hlevel)
    rw [← hadj] at hreq hothers htop
    -- the new entry, and what it draws
    have hload : ((s.table c).setRate data clkVal reqLevel).load peak.aggregLevel =
        (s.table c).newLoad reqLevel peak.aggregLevel ((s.table c).askedRate data clkVal)
          data.numHwBlocks := setRate_load hclient data clkVal _
    have hfits' := hfits
    rw [totalLoad_replace hc, hload] at hfits'
    have hval := h.checkPeakCurrent_val hclient hr hadj hfits' hpeak
    refine h.replace rfl (fun _ => hsome) (fun _ => hclient) (h.first c) hfits ?_
    refine aggregate_replace hc hothers (fun _ => hreq) (fun hor => ?_) (by rw [hload]; exact hval)
    rcases htop with htop | ⟨j, hjc, hj, hjl⟩
    · by_cases hz : (s.table c).askedRate data clkVal = 0
      · -- a rate of zero asks for the lowest level
        have hzero : clkVal = 0 := Nat.le_zero.mp (hz ▸ le_askedRate (s.table c) data clkVal)
        have hlow : reqLevel = 0 := by
          rw [Entry.askedLevel] at hlevel
          split at hlevel
          · cases hlevel
          · rw [if_neg (not_not.mpr hzero)] at hlevel
            exact (Option.some.inj hlevel).symm
        obtain ⟨j, hjc, hj⟩ := hor.resolve_right fun hn => hn.2 hz
        have hle := hothers j hjc hj
        rw [htop, hlow] at hle
        exact .inl ⟨j, hjc, hj, by rw [htop, hlow]; exact Nat.le_zero.mp hle⟩
      · exact .inr ⟨⟨hclient, hz⟩, htop.symm⟩
    · exact .inl ⟨j, hjc, hj, hjl⟩

theorem harmless_cleared (hc : c < s.totClkClients) (hzero : (s.table c).clkRate = 0) :
    Harmless s c { s.table c with
      refCount := 0, vddLevel := 0, clkRate := 0, client := false, clk := none, isCrmClient := false
      maxRateIdx := 0, hwDrvInstances := 0, numPwrStates := 0, crmClientTblSize := 0 } :=
  ⟨hc, rfl, hzero.symm, fun hn => absurd rfl hn, fun hn => absurd hn (by simp),
    fun hn => absurd hn (by simp), fun hn => absurd rfl hn⟩

theorem Inv.deregister (h : Inv s) (hholds : s.Holds client)
    (hcareful : Careful fw s (.deregister client)) : Inv (deregister s client) := by
  match client with
  | none => exact h
  | some c =>
    rw [Mmrm.deregister]
    simp only
    split_ifs with hc hlast
    · exact h
    · have hlt := Nat.lt_of_not_le hc
      have hclient := hholds c rfl hlt
      rcases hcareful with hmany | hzero | ⟨hload, hlevel⟩
      · omega
      · exact h.replace_same (harmless_cleared hlt hzero)
      · have hdrops : ∀ e : Entry K, e.client = false → e.load s.peak.aggregLevel = 0 := fun e he => by
          rw [Entry.load, if_neg]
          rw [he]
          simp
        have hval : s.peak.aggregVal = 0 + s.otherLoad c s.peak.aggregLevel := by
          rw [← hload, ← totalLoad_eq hlt]
          exact h.aggregate.val
        refine h.replace rfl (fun hn => absurd rfl hn) (fun hn => absurd hn (by simp))
          (fun hn => absurd hn (by simp)) ?_ ?_
        · rw [totalLoad_replace hlt, hdrops _ rfl]
          have hfit := h.fits
          rw [totalLoad_eq hlt, hload] at hfit
          exact hfit
        · refine aggregate_replace hlt (fun j _ hj => h.aggregate.highest j hj) (fun hn => absurd rfl hn.2)
            (fun hor => ?_) (by rw [hdrops _ rfl]; exact hval)
          obtain ⟨j, hjc, hj⟩ := hor.resolve_right fun hn => absurd rfl hn.2
          rcases hlevel with hnone | hother
          · exact absurd hj (hnone j hjc)
          · exact .inl hother
    · have hlt := Nat.lt_of_not_le hc
      exact h.replace_same ⟨hlt, rfl, rfl, h.rated c, h.client c, h.first c, fun _ => ⟨rfl, rfl, rfl⟩⟩

theorem register_cases (h : Booked s) (fw : Framework K) (desc : ClientDesc K)
    (multiple allocated crmTbl : Bool) : register fw s desc multiple allocated crmTbl = s ∨
      ∃ c e, register fw s desc multiple allocated crmTbl = s.setEntry c e ∧ Harmless s c e := by
  by_cases hfull : s.totClkClients = s.enabledClkClients
  · rw [Mmrm.register, if_pos hfull]
    exact .inl rfl
  · rw [Mmrm.register, if_neg hfull]
    cases hfind : findEntry s (desc.clientDomain <<< 16 ||| desc.clientId) with
    | none => exact .inl rfl
    | some c =>
      have hlt := lt_of_findEntry hfind
      have hid : (s.table c).clkSrcId = desc.clientDomain <<< 16 ||| desc.clientId := by
        have hp := List.find?_some (show List.find? _ _ = some c from hfind)
        exact of_decide_eq_true hp
      simp only
      by_cases hclient : (s.table c).client = true
      · rw [if_pos hclient]
        split_ifs
        · exact .inr ⟨c, _, rfl, hlt, rfl, rfl, h.rated c, h.client c, h.first c,
            fun _ => ⟨rfl, rfl, rfl⟩⟩
        · exact .inl rfl
      · have hz : (s.table c).clkRate = 0 := by
          by_contra hne
          exact hclient (h.client c (h.rated c hne))
        have hcleared : ∀ e : Entry K, e.clkSrcId = (s.table c).clkSrcId →
            e.clkRate = (s.table c).clkRate → e.client = false → e.clk = none → Harmless s c e := by
          intro e hide hrate hclient hclk
          refine ⟨hlt, hide, hrate, fun hn => absurd (hrate.trans hz) hn, fun hn => ?_,
            fun hn => ?_, fun hn => absurd (hrate.trans hz) hn⟩
          · rw [hclk] at hn
            cases hn
          · rw [hclient] at hn
            cases hn
        right
        rw [if_neg hclient]
        split_ifs
        · exact ⟨c, _, rfl, hcleared _ rfl rfl rfl rfl⟩
        · exact ⟨c, _, rfl, hcleared _ rfl rfl rfl rfl⟩
        · exact ⟨c, _, rfl, hcleared _ rfl rfl rfl rfl⟩
        · refine ⟨c, _, rfl, hlt, rfl, rfl, fun hn => absurd hz hn, fun _ => rfl, fun _ => ?_,
            fun hn => absurd hz hn⟩
          rw [hid]
          exact hfind

theorem Inv.register (h : Inv s) (desc : ClientDesc K) (multiple allocated crmTbl : Bool) :
    Inv (register fw s desc multiple allocated crmTbl) := by
  rcases register_cases h.booked fw desc multiple allocated crmTbl with heq | ⟨c, e, heq, he⟩
  · rw [heq]
    exact h
  · rw [heq]
    exact h.replace_same he

theorem inv_of_initial (h : Initial s) : Inv s := by
  obtain ⟨htable, hval, hlevel⟩ := h
  have hload : s.totalLoad = 0 := by
    refine Finset.sum_eq_zero fun c _ => ?_
    rw [Entry.load, if_neg fun hn => hn.2 (htable c).2.2]
  have hnone : ∀ c, ¬ s.Counted c := fun c hc => hc.2.2 (htable c).2.2
  refine ⟨fun c hc => absurd (htable c).2.2 hc, fun c hc => ?_, fun c hc => ?_, ?_, ?_⟩
  · rw [(htable c).2.1] at hc
    cases hc
  · rw [(htable c).1] at hc
    cases hc
  · rw [hload]
    decide
  · exact ⟨fun c hc => absurd hc (hnone c), fun ⟨c, hc⟩ => absurd hc (hnone c), by rw [hval, hload]⟩

def carefulMachine (fw : Framework K) : Machine (State K) (Action K) :=
  { clkMgrMachine fw with guard := fun s a => Enabled fw s a ∧ Careful fw s a }

theorem inv_of_reachable (h : (carefulMachine fw).Reachable s) : Inv s := by
  refine h.invariant (I := Inv) (fun s hs => inv_of_initial hs) fun s a hs ha => ?_
  cases a with
  | register desc multiple client crmTbl => exact hs.register desc multiple client crmTbl
  | deregister client => exact hs.deregister ha.1 ha.2
  | setval client clientData clkVal => exact hs.setval ha.1.2 ha.2

/-- **The aggregate** in every run of careful calls, and an error of `setval` changes nothing. -/
theorem aggregate_of_reachable (h : (carefulMachine fw).Reachable s) : Aggregate s ∧
    ∀ client clientData clkVal, (setval fw s client clientData clkVal).2 ≠ 0 →
      (setval fw s client clientData clkVal).1 = s :=
  ⟨(inv_of_reachable h).aggregate, fun _ _ _ => setval_error⟩

/-- Rates are levels, and currents grow with the level of the client. -/
def someFramework : Framework Unit where
  roundRate _ rate := rate
  voltage _ rate := 64 * rate
  vddCorner level := 64 * (level + 1)
  current _ _ vddLevel _ := 100 * (vddLevel + 1)

def oneClock : State Unit where
  table c := ⟨c, 2, none, fun _ _ => 0, false, 0, 0, false, 0, 0, false, 0, 0, 0, 0, fun _ => 0⟩
  totClkClients := 1
  enabledClkClients := 0
  peak := ⟨1000, 0, 0⟩

theorem initial_oneClock : Initial oneClock := ⟨fun _ => ⟨rfl, rfl, rfl⟩, rfl, rfl⟩

def someDesc : ClientDesc Unit := ⟨0, 0, some (), 0, 0⟩

def someData : ClientData := ⟨1, false, false, 0, 0⟩

def busy : List (Action Unit) :=
  [.register someDesc false true true, .setval (some 0) (some someData) 3]

theorem holds_zero {s : State Unit} (h : (s.table 0).client = true) : s.Holds (some 0) := by
  intro c hc _
  cases hc
  exact h

theorem allows_busy : (carefulMachine someFramework).Allows oneClock busy :=
  ⟨⟨trivial, trivial⟩, ⟨⟨holds_zero rfl, by decide⟩, by decide, fun reqLevel _ => .inl (Nat.zero_le _)⟩, trivial⟩

theorem aggregate_busy : Aggregate ((carefulMachine someFramework).exec oneClock busy) :=
  (aggregate_of_reachable
    ((Machine.Reachable.init (M := carefulMachine someFramework) initial_oneClock).exec busy allows_busy)).1

def busyDeregister : List (Action Unit) :=
  [.register someDesc false true true, .setval (some 0) (some someData) 3, .deregister (some 0)]

/-- The current of that client stays in the sum. -/
theorem not_aggregate : ∃ s, (clkMgrMachine someFramework).Reachable s ∧ ¬ Aggregate s := by
  refine ⟨_, (Machine.Reachable.init (M := clkMgrMachine someFramework) initial_oneClock).exec
    busyDeregister
    ⟨trivial, ⟨holds_zero rfl, by decide⟩, holds_zero rfl, trivial⟩, fun h => ?_⟩
  exact absurd h.val (by decide)

end Calls

end Mmrm
