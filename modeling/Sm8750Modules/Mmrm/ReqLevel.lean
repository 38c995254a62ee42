import Sm8750Modules.Mmrm.Aggregate

/-!
# The software clock manager of MMRM — the level of the rail after a request

When a client asks for less than the rail has, the others decide the level.
-/

namespace Mmrm

open List

variable {K : Type*} {s : State K} {id reqLevel : ℕ}

def State.OtherIn (s : State K) (id j : ℕ) : Prop := j < s.totClkClients ∧ s.Other id j

structure RailHighest (s : State K) : Prop where
  highest : ∀ j < s.totClkClients, (s.table j).Active → (s.table j).vddLevel ≤ s.peak.aggregLevel
  reached : (∃ j < s.totClkClients, (s.table j).Active) →
    ∃ j < s.totClkClients, (s.table j).Active ∧ (s.table j).vddLevel = s.peak.aggregLevel

/-- **The adjusted level** is the highest of the request and of the other active entries. -/
def LevelRight (s : State K) (id reqLevel : ℕ) : Prop :=
  IsGreatest (insert reqLevel ((fun j => (s.table j).vddLevel) '' {j | s.OtherIn id j}))
    (checkReqLevel s id reqLevel)

/-- The request does not lower the rail, or another entry is at its level, or the last of the others that
need more than the request needs the most. -/
def LastHighest (s : State K) (id reqLevel : ℕ) : Prop :=
  s.peak.aggregLevel ≤ reqLevel ∨
    (∃ j, s.OtherIn id j ∧ (s.table j).vddLevel = s.peak.aggregLevel) ∨
    ∀ k, s.OtherIn id k → reqLevel < (s.table k).vddLevel →
      (∀ j, s.OtherIn id j → reqLevel < (s.table j).vddLevel → j ≤ k) →
      ∀ j, s.OtherIn id j → (s.table j).vddLevel ≤ (s.table k).vddLevel

theorem levelRight_of {level : ℕ} (heq : checkReqLevel s id reqLevel = level) (hreq : reqLevel ≤ level)
    (hle : ∀ j, s.OtherIn id j → (s.table j).vddLevel ≤ level)
    (hmem : level = reqLevel ∨ ∃ j, s.OtherIn id j ∧ (s.table j).vddLevel = level) :
    LevelRight s id reqLevel := by
  rw [LevelRight, heq]
  refine ⟨?_, ?_⟩
  · rcases hmem with h | ⟨j, hj, h⟩
    · exact Set.mem_insert_iff.mpr (.inl h)
    · exact Set.mem_insert_of_mem _ ⟨j, hj, h⟩
  · rintro l (rfl | ⟨j, hj, rfl⟩)
    · exact hreq
    · exact hle j hj

theorem LevelRight.le (h : LevelRight s id reqLevel) {j : ℕ} (hj : s.OtherIn id j) :
    (s.table j).vddLevel ≤ checkReqLevel s id reqLevel :=
  h.2 (Set.mem_insert_of_mem _ ⟨j, hj, rfl⟩)

theorem exists_last {p : ℕ → Prop} {n : ℕ} (hlt : ∀ j, p j → j < n) (h : ∃ j, p j) :
    ∃ k, p k ∧ ∀ j, p j → j ≤ k := by
  classical
  obtain ⟨j, hj⟩ := h
  refine ⟨Nat.findGreatest p n, Nat.findGreatest_spec (hlt j hj).le hj, fun i hi => ?_⟩
  exact Nat.le_findGreatest (hlt i hi).le hi

theorem levelRight_iff (h : RailHighest s) : LevelRight s id reqLevel ↔ LastHighest s id reqLevel := by
  have hhighest : ∀ j, s.OtherIn id j → (s.table j).vddLevel ≤ s.peak.aggregLevel := fun j hj =>
    h.highest j hj.1 hj.2.1
  by_cases hlow : s.peak.aggregLevel ≤ reqLevel
  · refine iff_of_true (levelRight_of (if_neg (Nat.not_lt.mpr hlow)) le_rfl ?_ (.inl rfl)) (.inl hlow)
    exact fun j hj => (hhighest j hj).trans hlow
  have hlt := Nat.lt_of_not_le hlow
  by_cases hat : ∃ j, s.OtherIn id j ∧ (s.table j).vddLevel = s.peak.aggregLevel
  · obtain ⟨j, hj, hlevel⟩ := hat
    have hfound : (levelLoop s id reqLevel (List.range s.totClkClients) none).1 = true :=
      levelLoop_found none (mem_range.mpr hj.1) hj.2 hlevel
    have heq : checkReqLevel s id reqLevel = s.peak.aggregLevel := by
      rw [checkReqLevel, if_pos hlt]
      split
      · rfl
      all_goals
        rename_i hloop
        rw [hloop] at hfound
        cases hfound
    exact iff_of_true (levelRight_of heq hlt.le hhighest (.inr ⟨j, hj, hlevel⟩)) (.inr (.inl ⟨j, hj, hlevel⟩))
  have hne : ∀ j ∈ List.range s.totClkClients, s.Other id j →
      (s.table j).vddLevel ≠ s.peak.aggregLevel := fun j hj ho hlevel =>
    hat ⟨j, ⟨mem_range.mp hj, ho⟩, hlevel⟩
  by_cases habove : ∃ k, s.OtherIn id k ∧ reqLevel < (s.table k).vddLevel
  · obtain ⟨k, ⟨hk, hreq⟩, hlast⟩ := exists_last (n := s.totClkClients) (fun j hj => hj.1.1) habove
    have hloop := levelLoop_last none pairwise_lt_range
      (fun j hj ho => lt_of_le_of_ne (hhighest j ⟨mem_range.mp hj, ho⟩) (hne j hj ho))
      (mem_range.mpr hk.1) hk.2 hreq fun j hj ho hjr => hlast j ⟨⟨mem_range.mp hj, ho⟩, hjr⟩
    have heq : checkReqLevel s id reqLevel = (s.table k).vddLevel := by
      rw [checkReqLevel, if_pos hlt, hloop]
      exact if_pos hreq
    constructor
    · intro hright
      refine .inr (.inr fun k' hk' hreq' hlast' j hj => ?_)
      -- both are the last one
      have hsame : k' = k := le_antisymm (hlast k' ⟨hk', hreq'⟩) (hlast' k hk hreq)
      rw [hsame, ← heq]
      exact hright.le hj
    · intro hcond
      have hmost := (hcond.resolve_left hlow).resolve_left hat k hk hreq fun j hj hjr => hlast j ⟨hj, hjr⟩
      exact levelRight_of heq hreq.le hmost (.inr ⟨k, hk, rfl⟩)
  · have hnone : ∀ j, s.OtherIn id j → (s.table j).vddLevel ≤ reqLevel := fun j hj =>
      Nat.le_of_not_lt fun hjr => habove ⟨j, hj, hjr⟩
    have hloop : levelLoop s id reqLevel (List.range s.totClkClients) none = (false, none) :=
      levelLoop_none none hne fun j hj ho => hnone j ⟨mem_range.mp hj, ho⟩
    have heq : checkReqLevel s id reqLevel = reqLevel := by
      rw [checkReqLevel, if_pos hlt, hloop]
    refine iff_of_true (levelRight_of heq le_rfl hnone (.inl rfl)) (.inr (.inr fun k hk hreq => ?_))
    exact absurd hreq (Nat.not_lt.mpr (hnone k hk))

def fallingLevels : State Unit where
  table c := ⟨c, 1, some (), fun _ _ => 0, true, 1, [5, 3, 2].getD c 0, false, 1, 1, false, 0, 0, 0, 0, fun _ => 0⟩
  totClkClients := 3
  enabledClkClients := 0
  peak := ⟨0, 0, 5⟩

theorem railHighest_fallingLevels : RailHighest fallingLevels := by
  refine ⟨?_, fun _ => ⟨0, by decide, by decide, rfl⟩⟩
  decide

/-- The first client gives up its level, and the level of the third is taken for that of the second. -/
theorem not_levelRight : RailHighest fallingLevels ∧ checkReqLevel fallingLevels 0 0 = 2 ∧
    ¬ LevelRight fallingLevels 0 0 := by
  have hlevel : checkReqLevel fallingLevels 0 0 = 2 := by decide
  refine ⟨railHighest_fallingLevels, hlevel, fun h => ?_⟩
  have hle : 3 ≤ checkReqLevel fallingLevels 0 0 := h.le (j := 1) ⟨by decide, by decide, by decide⟩
  omega

/-- Asking for the level of the second one is granted as it is. -/
theorem levelRight_fallingLevels : LevelRight fallingLevels 0 3 :=
  (levelRight_iff railHighest_fallingLevels).mpr (.inr (.inr fun k hk hlt => by
    obtain ⟨hk3, -, hid⟩ := hk
    have hcases : k = 0 ∨ k = 1 ∨ k = 2 := by
      have : k < 3 := hk3
      omega
    rcases hcases with rfl | rfl | rfl
    · exact absurd rfl hid
    · exact absurd hlt (by decide)
    · exact absurd hlt (by decide)))

end Mmrm
