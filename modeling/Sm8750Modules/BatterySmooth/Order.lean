import Sm8750Modules.BatterySmooth.Map

/-!
# Battery smoothing — the order of the map

A line that is drawn from the entry in front of it keeps the map in order. Where the entry in
front has reached the end of the line, the line is refused and the old entries stay, and they may
be lower.
-/

namespace Sm8750Modules.BatterySmooth

open Function List

variable {m m' : SmoothMap} {p : Point} {cfg : ReserveCfg} {x1 x2 y1 y2 : ℤ} {i j a b : ℕ}

theorem clampVal_mono {x y lo hi : ℤ} (h : x ≤ y) : clampVal x lo hi ≤ clampVal y lo hi :=
  min_le_min_right hi (max_le_max_right lo h)

theorem clampVal_mem (x : ℤ) {lo hi : ℤ} (h : lo ≤ hi) : lo ≤ clampVal x lo hi ∧ clampVal x lo hi ≤ hi :=
  ⟨le_min (le_max_right x lo) h, min_le_right _ _⟩

theorem lineAt_mem (x1 x2 y1 y2 : ℤ) (i : ℕ) :
    0 ≤ lineAt x1 x2 y1 y2 i ∧ lineAt x1 x2 y1 y2 i ≤ fullScale := clampVal_mem _ (by decide)

theorem slope_nonneg (hx : x1 < x2) (hy : y1 < y2) :
    0 ≤ ((y2 - y1) * percentScale * percentScale).tdiv (x2 - x1) := by
  apply Int.tdiv_nonneg
  · have hpos : 0 ≤ y2 - y1 := by omega
    exact mul_nonneg (mul_nonneg hpos (by decide)) (by decide)
  · omega

theorem slope_mul_le (hx : x1 < x2) (hy : y1 < y2) :
    ((y2 - y1) * percentScale * percentScale).tdiv (x2 - x1) * (x2 - x1) ≤
      (y2 - y1) * percentScale * percentScale := by
  have hnum : 0 ≤ (y2 - y1) * percentScale * percentScale :=
    mul_nonneg (mul_nonneg (by omega) (by decide)) (by decide)
  have hround := Int.tdiv_mul_le ((y2 - y1) * percentScale * percentScale) (b := x2 - x1) (by omega)
  rw [if_pos hnum] at hround
  simpa using hround

theorem lineAt_mono (hx : x1 < x2) (hy : y1 < y2) (hij : i ≤ j) :
    lineAt x1 x2 y1 y2 i ≤ lineAt x1 x2 y1 y2 j := by
  apply clampVal_mono
  apply Int.add_le_add_left
  apply Int.tdiv_le_tdiv (by decide)
  apply mul_le_mul_of_nonneg_right _ (slope_nonneg hx hy)
  have hcast : (i : ℤ) ≤ j := by exact_mod_cast hij
  have hmul : (i : ℤ) * percentScale ≤ j * percentScale :=
    mul_le_mul_of_nonneg_right hcast (by decide)
  omega

theorem le_lineAt (hx : x1 < x2) (hy : y1 < y2) (hi : x1 ≤ i * percentScale) (hfull : y1 ≤ fullScale) :
    y1 ≤ lineAt x1 x2 y1 y2 i := by
  have hrise : 0 ≤ ((i * percentScale - x1) *
      ((y2 - y1) * percentScale * percentScale).tdiv (x2 - x1)).tdiv (percentScale * percentScale) := by
    apply Int.tdiv_nonneg _ (by decide)
    exact mul_nonneg (by omega) (slope_nonneg hx hy)
  apply le_min _ hfull
  exact le_max_of_le_left (by omega)

theorem lineAt_le (hx : x1 < x2) (hy : y1 < y2) (hi : i * percentScale ≤ x2) (hzero : 0 ≤ y2) :
    lineAt x1 x2 y1 y2 i ≤ y2 := by
  apply min_le_of_left_le
  apply max_le _ hzero
  have hslope := slope_nonneg hx hy
  have hrise := slope_mul_le hx hy
  have hle : (i * percentScale - x1) *
      ((y2 - y1) * percentScale * percentScale).tdiv (x2 - x1) ≤
        (y2 - y1) * (percentScale * percentScale) := by
    refine le_trans (mul_le_mul_of_nonneg_right (b := i * percentScale - x1) (c := x2 - x1)
      (by omega) hslope) ?_
    rw [mul_comm, ← mul_assoc]
    exact hrise
  have hdiv := Int.tdiv_le_tdiv (c := percentScale * percentScale) (by decide) hle
  rw [Int.mul_tdiv_cancel _ (by decide)] at hdiv
  omega

def Bounded (m : SmoothMap) : Prop := ∀ i ≤ maxSoc, 0 ≤ m i ∧ m i ≤ fullScale

def RisesTo (m : SmoothMap) (k : ℕ) : Prop := ∀ i < k, m i ≤ m (i + 1)

def RisesFrom (m : SmoothMap) (k : ℕ) : Prop := ∀ i, k ≤ i → i < maxSoc → m i ≤ m (i + 1)

structure Good (m : SmoothMap) : Prop where
  zero : m 0 = 0
  full : m maxSoc = fullScale
  rises : ∀ i j, i ≤ j → j ≤ maxSoc → m i ≤ m j

theorem RisesTo.le {k : ℕ} (h : RisesTo m k) (hij : i ≤ j) (hj : j ≤ k) : m i ≤ m j := by
  induction j, hij using Nat.le_induction with
  | base => exact le_rfl
  | succ j hij ih => exact (ih (by omega)).trans (h j (by omega))

theorem Good.bounded (h : Good m) : Bounded m := fun i hi =>
  ⟨h.zero ▸ h.rises 0 i (Nat.zero_le i) hi, h.full ▸ h.rises i maxSoc hi le_rfl⟩

theorem Good.risesTo (h : Good m) {k : ℕ} (hk : k ≤ maxSoc) : RisesTo m k :=
  fun i hi => h.rises i (i + 1) (Nat.le_succ i) (by omega)

theorem Good.risesFrom (h : Good m) (k : ℕ) : RisesFrom m k :=
  fun i _ hi => h.rises i (i + 1) (Nat.le_succ i) hi

theorem good_setEnds (hb : Bounded m) (hr : RisesTo m maxSoc) : Good (setEnds m) where
  zero := by
    rw [setEnds, update_of_ne (by decide), update_self]
  full := by rw [setEnds, update_self]
  rises i j hij hj := by
    rw [setEnds]
    rcases eq_or_ne j maxSoc with rfl | hj'
    · rw [update_self]
      rcases eq_or_ne i maxSoc with rfl | hi'
      · rw [update_self]
      · rw [update_of_ne hi']
        rcases eq_or_ne i 0 with rfl | hi
        · rw [update_self]
          decide
        · rw [update_of_ne hi]
          exact (hb i hij).2
    · rw [update_of_ne hj', update_of_ne (by omega)]
      rcases eq_or_ne i 0 with rfl | hi
      · rw [update_self]
        rcases eq_or_ne j 0 with rfl | hj''
        · rw [update_self]
        · rw [update_of_ne hj'']
          exact (hb j hj).1
      · rw [update_of_ne hi, update_of_ne (by omega)]
        exact hr.le hij hj

/-! ### What a line does to the order -/

theorem percent_lt (h : i < j) : (i : ℤ) * percentScale < j * percentScale := by
  have hcast : (i : ℤ) < j := by exact_mod_cast h
  show (i : ℤ) * 100 < j * 100
  omega

theorem percent_lt_full (h : i < maxSoc) : (i : ℤ) * percentScale < fullScale := by
  have hcast : (i : ℤ) < 100 := by exact_mod_cast h
  show (i : ℤ) * 100 < 10000
  omega

theorem smoothSocToSocCenti_of_not (h : ¬LineOk a b x1 x2 y1 y2) :
    smoothSocToSocCenti m a b x1 x2 y1 y2 = m := by
  rw [smoothSocToSocCenti, if_neg h]

theorem smoothSocToSocCenti_in (h : LineOk a b x1 x2 y1 y2) (ha : a ≤ i) (hb : i ≤ b) :
    smoothSocToSocCenti m a b x1 x2 y1 y2 i = lineAt x1 x2 y1 y2 i := by
  rw [smoothSocToSocCenti, if_pos h]
  exact if_pos ⟨ha, hb⟩

theorem smoothSocToSocCenti_out (hi : i < a ∨ b < i) :
    smoothSocToSocCenti m a b x1 x2 y1 y2 i = m i := by
  rw [smoothSocToSocCenti]
  split
  · exact if_neg (by omega)
  · rfl

theorem bounded_line (h : Bounded m) : Bounded (smoothSocToSocCenti m a b x1 x2 y1 y2) := by
  intro i hi
  rw [smoothSocToSocCenti]
  split
  · show 0 ≤ (if a ≤ i ∧ i ≤ b then lineAt x1 x2 y1 y2 i else m i) ∧
      (if a ≤ i ∧ i ≤ b then lineAt x1 x2 y1 y2 i else m i) ≤ fullScale
    split
    · exact lineAt_mem x1 x2 y1 y2 i
    · exact h i hi
  · exact h i hi

theorem risesFrom_line (h : RisesFrom m (b + 1)) :
    RisesFrom (smoothSocToSocCenti m a b x1 x2 y1 y2) (b + 1) := by
  intro i hi hlt
  rw [smoothSocToSocCenti_out (by omega), smoothSocToSocCenti_out (by omega)]
  exact h i hi hlt

theorem risesTo_head (h : RisesTo m b) : RisesTo (smoothSocToSocCenti m 0 b x1 x2 y1 y2) b := by
  by_cases hok : LineOk 0 b x1 x2 y1 y2
  · intro i hi
    rw [smoothSocToSocCenti_in hok (Nat.zero_le i) (by omega),
      smoothSocToSocCenti_in hok (Nat.zero_le _) (by omega)]
    exact lineAt_mono hok.2.2.1 hok.2.2.2 (Nat.le_succ i)
  · rw [smoothSocToSocCenti_of_not hok]
    exact h

theorem risesTo_next (hok : LineOk (a + 1) b (a * percentScale) x2 (m a) y2) (h : RisesTo m a)
    (hb : Bounded m) : RisesTo (smoothSocToSocCenti m (a + 1) b (a * percentScale) x2 (m a) y2) b := by
  intro i hi
  rcases Nat.lt_trichotomy i a with hlt | rfl | hgt
  · rw [smoothSocToSocCenti_out (by omega), smoothSocToSocCenti_out (by omega)]
    exact h i hlt
  · rw [smoothSocToSocCenti_out (by omega), smoothSocToSocCenti_in hok le_rfl (by omega)]
    have ha : i ≤ maxSoc := by
      have := hok.1
      omega
    refine le_lineAt hok.2.2.1 hok.2.2.2 ?_ (hb i ha).2
    have hcast : (i : ℤ) ≤ ((i + 1 : ℕ) : ℤ) := by omega
    exact mul_le_mul_of_nonneg_right hcast (by decide)
  · rw [smoothSocToSocCenti_in hok (by omega) (by omega),
      smoothSocToSocCenti_in hok (by omega) (by omega)]
    exact lineAt_mono hok.2.2.1 hok.2.2.2 (Nat.le_succ i)

theorem risesTo_of_seam (h : RisesTo m a) (hfrom : RisesFrom m (a + 1))
    (hseam : a < maxSoc → m a ≤ m (a + 1)) : RisesTo m maxSoc := by
  intro i hi
  rcases Nat.lt_trichotomy i a with hlt | rfl | hgt
  · exact h i hlt
  · exact hseam hi
  · exact hfrom i hgt hi

theorem risesTo_lineToFull (ha : a ≤ maxSoc) (h : RisesTo m a) (hfrom : RisesFrom m (a + 1))
    (hb : Bounded m) (hseam : m a = fullScale → a < maxSoc → m (a + 1) = fullScale) :
    RisesTo (lineToFull m a) maxSoc := by
  by_cases hok : LineOk (a + 1) maxSoc (a * percentScale) fullScale (m a) fullScale
  · exact risesTo_next hok h hb
  · rw [lineToFull, smoothSocToSocCenti_of_not hok]
    refine risesTo_of_seam h hfrom fun hlt => ?_
    have hfull : m a = fullScale := by
      by_contra hne
      apply hok
      exact ⟨le_rfl, hlt, percent_lt_full hlt, lt_of_le_of_ne (hb a ha).2 hne⟩
    rw [hfull, hseam hfull hlt]

theorem bounded_lineToFull (h : Bounded m) : Bounded (lineToFull m a) := bounded_line h

theorem bounded_lineToEntry (h : Bounded m) {r : ℤ} : Bounded (lineToEntry m a r) := bounded_line h

theorem bounded_lineFromZero (h : Bounded m) : Bounded (lineFromZero m p) := by
  rw [lineFromZero]
  split
  · intro i hi
    rcases eq_or_ne i 0 with rfl | hne
    · rw [update_self]
      decide
    · rw [update_of_ne hne]
      exact h i hi
  · exact bounded_line h

theorem risesTo_lineFromZero (h : RisesTo m p.smoothSoc) : RisesTo (lineFromZero m p) p.smoothSoc := by
  rw [lineFromZero]
  split
  · rename_i hzero
    rw [hzero]
    exact fun i hi => absurd hi (Nat.not_lt_zero i)
  · exact risesTo_head h

theorem lineFromZero_out (hi : p.smoothSoc < i) : lineFromZero m p i = m i := by
  rw [lineFromZero]
  split
  · rw [update_of_ne (by omega)]
  · exact smoothSocToSocCenti_out (.inr hi)

theorem risesFrom_lineFromZero (h : RisesFrom m (p.smoothSoc + 1)) :
    RisesFrom (lineFromZero m p) (p.smoothSoc + 1) := by
  intro i hi hlt
  rw [lineFromZero_out (by omega), lineFromZero_out (by omega)]
  exact h i hi hlt

/-! ### Rewrites -/

def FullBehind (m : SmoothMap) (v : ℤ) (i : ℕ) : Prop := v = fullScale → m (i + 1) = fullScale
deriving Decidable

/-- The condition of a rewrite for charging. -/
def ChgSeam (m : SmoothMap) (p : Point) (cfg : ReserveCfg) : Prop :=
  let split := cfg.chgSplitSoc.toNat
  if split = maxSoc then
    p.smoothSoc < maxSoc - 1 → p.smoothSoc ≠ 0 →
      lineToPoint m p p.smoothSoc = fullScale - cfg.chgReserve →
        fullScale - cfg.chgReserve ≤ m (p.smoothSoc + 1)
  else if p.smoothSoc = split then
    FullBehind m (lineToEntry m split cfg.chgReserve split) split
  else if p.smoothSoc < split then
    if lineFromZero m p p.smoothSoc < m split - cfg.chgReserve then
      FullBehind m (lineAt (p.smoothSoc * percentScale) (split * percentScale)
        (lineFromZero m p p.smoothSoc) (m split - cfg.chgReserve) split) split
    else FullBehind m (lineFromZero m p p.smoothSoc) p.smoothSoc
  else m p.smoothSoc ≤ lineToEntry m split cfg.chgReserve split →
    FullBehind m (lineToEntry m split cfg.chgReserve split) split
deriving Decidable

/-- The condition of a rewrite for discharging. -/
def DischgSeam (m : SmoothMap) (soc : ℤ) (chgFull : Bool) (p : Point) (cfg : ReserveCfg) : Prop :=
  p.smoothSoc ≠ maxSoc → chgFull = false →
    if isDischgNoReserve soc p then FullBehind m (lineFromZero m p p.smoothSoc) p.smoothSoc
    else lineToEntry m (p.smoothSoc - 1) cfg.dischgReserve (p.smoothSoc - 1) ≤ m p.smoothSoc
deriving Decidable

section

variable (h : Good m)
include h

theorem good_wholeLine {x2 y2 : ℤ} : Good (setEnds (smoothSocToSocCenti m 0 maxSoc 0 x2 0 y2)) :=
  good_setEnds (bounded_line h.bounded) (risesTo_head (h.risesTo le_rfl))

theorem good_splitEqMax (hr : cfg.chgReserve ≤ 1000)
    (hseam : p.smoothSoc < maxSoc - 1 → p.smoothSoc ≠ 0 →
      lineToPoint m p p.smoothSoc = fullScale - cfg.chgReserve →
        fullScale - cfg.chgReserve ≤ m (p.smoothSoc + 1)) :
    Good (setEnds (handleChgMapSplitEqMax m p cfg)) := by
  simp only [handleChgMapSplitEqMax]
  split
  · rename_i hs
    have hlt : p.smoothSoc + 1 < maxSoc := by omega
    have hhead : RisesTo (lineToPoint m p) p.smoothSoc := risesTo_head (h.risesTo (by omega))
    have hbound : Bounded (lineToPoint m p) := bounded_line h.bounded
    have hbehind : RisesFrom (lineToPoint m p) (p.smoothSoc + 1) := risesFrom_line (h.risesFrom _)
    split
    · rename_i hle
      apply good_setEnds (bounded_line hbound)
      rcases hle.lt_or_eq with hless | heq
      · exact risesTo_next ⟨le_rfl, hlt.le, percent_lt_full (by omega), hless⟩ hhead hbound
      · rw [smoothSocToSocCenti_of_not fun hok => (hok.2.2.2.ne heq)]
        refine risesTo_of_seam hhead hbehind fun _ => ?_
        rw [heq, lineToPoint, smoothSocToSocCenti_out (.inr (Nat.lt_succ_self _))]
        exact hseam hs.1 hs.2 heq
    · apply good_setEnds (bounded_line hbound)
      have hok : LineOk 0 maxSoc 0 fullScale 0 (fullScale - cfg.chgReserve) := by
        refine ⟨le_rfl, Nat.zero_le _, by decide, ?_⟩
        show (0 : ℤ) < 10000 - cfg.chgReserve
        omega
      intro i hi
      rw [smoothSocToSocCenti_in hok (Nat.zero_le i) (by omega),
        smoothSocToSocCenti_in hok (Nat.zero_le _) (by omega)]
      exact lineAt_mono hok.2.2.1 hok.2.2.2 (Nat.le_succ i)
  · exact good_wholeLine h

theorem good_entryToFull (ha : a ≤ maxSoc) {r : ℤ}
    (hseam : FullBehind m (lineToEntry m a r a) a) :
    Good (setEnds (lineToFull (lineToEntry m a r) a)) := by
  apply good_setEnds (bounded_lineToFull (bounded_lineToEntry h.bounded))
  refine risesTo_lineToFull ha (risesTo_head (h.risesTo ha)) (risesFrom_line (h.risesFrom _))
    (bounded_lineToEntry h.bounded) fun hfull _ => ?_
  rw [lineToEntry, smoothSocToSocCenti_out (.inr (Nat.lt_succ_self _))]
  exact hseam hfull

theorem good_smoothEqSplit (hseam : FullBehind m
      (lineToEntry m p.smoothSoc cfg.chgReserve p.smoothSoc) p.smoothSoc) :
    Good (setEnds (handleChgMapSmoothEqSplit m p cfg)) := by
  rw [handleChgMapSmoothEqSplit]
  split
  · rename_i hs
    exact good_entryToFull h hs.1.le hseam
  · exact good_wholeLine h

theorem good_pointToFull (hp : p.smoothSoc ≤ maxSoc)
    (hseam : FullBehind m (lineFromZero m p p.smoothSoc) p.smoothSoc) :
    Good (setEnds (lineToFull (lineFromZero m p) p.smoothSoc)) := by
  apply good_setEnds (bounded_lineToFull (bounded_lineFromZero h.bounded))
  refine risesTo_lineToFull hp (risesTo_lineFromZero (h.risesTo hp))
    (risesFrom_lineFromZero (h.risesFrom _)) (bounded_lineFromZero h.bounded) fun hfull _ => ?_
  rw [lineFromZero_out (Nat.lt_succ_self _)]
  exact hseam hfull

theorem good_smoothLtSplit (hlt : p.smoothSoc < cfg.chgSplitSoc.toNat)
    (hs : cfg.chgSplitSoc.toNat ≤ maxSoc)
    (hseam : if lineFromZero m p p.smoothSoc < m cfg.chgSplitSoc.toNat - cfg.chgReserve then
        FullBehind m (lineAt (p.smoothSoc * percentScale) (cfg.chgSplitSoc.toNat * percentScale)
          (lineFromZero m p p.smoothSoc) (m cfg.chgSplitSoc.toNat - cfg.chgReserve)
          cfg.chgSplitSoc.toNat) cfg.chgSplitSoc.toNat
      else FullBehind m (lineFromZero m p p.smoothSoc) p.smoothSoc) :
    Good (setEnds (handleChgMapSmoothLtSplit m p cfg)) := by
  simp only [handleChgMapSmoothLtSplit, lineFromZero_out hlt]
  split
  · rename_i hless
    rw [if_pos hless] at hseam
    have hok : LineOk (p.smoothSoc + 1) cfg.chgSplitSoc.toNat (p.smoothSoc * percentScale)
        (cfg.chgSplitSoc.toNat * percentScale) (lineFromZero m p p.smoothSoc)
        (m cfg.chgSplitSoc.toNat - cfg.chgReserve) := ⟨hs, hlt, percent_lt hlt, hless⟩
    have hbound := bounded_lineFromZero (p := p) h.bounded
    have hfrom : RisesFrom (lineFromZero m p) (cfg.chgSplitSoc.toNat + 1) := fun i hi =>
      risesFrom_lineFromZero (h.risesFrom _) i (by omega)
    apply good_setEnds (bounded_lineToFull (bounded_line hbound))
    refine risesTo_lineToFull hs (risesTo_next hok (risesTo_lineFromZero (h.risesTo (by omega))) hbound)
      (risesFrom_line hfrom) (bounded_line hbound) fun hfull _ => ?_
    rw [smoothSocToSocCenti_in hok hlt le_rfl] at hfull
    rw [smoothSocToSocCenti_out (.inr (Nat.lt_succ_self _)), lineFromZero_out (by omega)]
    exact hseam hfull
  · rename_i hless
    rw [if_neg hless] at hseam
    exact good_pointToFull h (by omega) hseam

theorem good_smoothGtSplit (hlt : cfg.chgSplitSoc.toNat < p.smoothSoc)
    (hp : p.smoothSoc ≤ maxSoc)
    (hseam : m p.smoothSoc ≤ lineToEntry m cfg.chgSplitSoc.toNat cfg.chgReserve cfg.chgSplitSoc.toNat →
      FullBehind m (lineToEntry m cfg.chgSplitSoc.toNat cfg.chgReserve cfg.chgSplitSoc.toNat)
        cfg.chgSplitSoc.toNat) : Good (setEnds (handleChgMapSmoothGtSplit m p cfg)) := by
  have hsoc : lineToEntry m cfg.chgSplitSoc.toNat cfg.chgReserve p.smoothSoc = m p.smoothSoc :=
    smoothSocToSocCenti_out (.inr hlt)
  simp only [handleChgMapSmoothGtSplit, hsoc]
  split
  · rename_i hless
    have hok : LineOk (cfg.chgSplitSoc.toNat + 1) p.smoothSoc (cfg.chgSplitSoc.toNat * percentScale)
        (p.smoothSoc * percentScale)
        (lineToEntry m cfg.chgSplitSoc.toNat cfg.chgReserve cfg.chgSplitSoc.toNat)
        (m p.smoothSoc) := ⟨hp, hlt, percent_lt hlt, hless⟩
    have hbound : Bounded (lineToEntry m cfg.chgSplitSoc.toNat cfg.chgReserve) :=
      bounded_lineToEntry h.bounded
    have hfrom : RisesFrom (lineToEntry m cfg.chgSplitSoc.toNat cfg.chgReserve) (p.smoothSoc + 1) :=
      fun i hi => risesFrom_line (h.risesFrom _) i (by omega)
    apply good_setEnds (bounded_lineToFull (bounded_line hbound))
    refine risesTo_lineToFull hp (risesTo_next hok (risesTo_head (h.risesTo (by omega))) hbound)
      (risesFrom_line hfrom) (bounded_line hbound) fun hfull hpfull => ?_
    rw [smoothSocToSocCenti_in hok hlt le_rfl] at hfull
    have hle := lineAt_le hok.2.2.1 hok.2.2.2 le_rfl (h.bounded _ hp).1
    rw [hfull] at hle
    have hnext := h.rises p.smoothSoc (p.smoothSoc + 1) (Nat.le_succ _) hpfull
    rw [smoothSocToSocCenti_out (.inr (Nat.lt_succ_self _)),
      lineToEntry, smoothSocToSocCenti_out (by omega)]
    exact le_antisymm (h.bounded _ hpfull).2 (hle.trans hnext)
  · rename_i hless
    exact good_entryToFull h (by omega) (hseam (not_lt.mp hless))

theorem good_chgMap (hp : p.smoothSoc ≤ maxSoc) (hr : cfg.chgReserve ≤ 1000)
    (hs : cfg.chgSplitSoc ≤ 100) (hseam : ChgSeam m p cfg) :
    Good (setEnds (if cfg.chgSplitSoc.toNat = maxSoc then handleChgMapSplitEqMax m p cfg
      else if p.smoothSoc = cfg.chgSplitSoc.toNat then handleChgMapSmoothEqSplit m p cfg
      else if p.smoothSoc < cfg.chgSplitSoc.toNat then handleChgMapSmoothLtSplit m p cfg
      else handleChgMapSmoothGtSplit m p cfg)) := by
  have hs' : cfg.chgSplitSoc.toNat ≤ maxSoc := by
    have : maxSoc = 100 := rfl
    omega
  simp only [ChgSeam] at hseam
  split
  · rename_i hmax
    rw [if_pos hmax] at hseam
    exact good_splitEqMax h hr hseam
  · rename_i hmax
    rw [if_neg hmax] at hseam
    split
    · rename_i heq
      rw [if_pos heq, ← heq] at hseam
      exact good_smoothEqSplit h hseam
    · rename_i hne
      rw [if_neg hne] at hseam
      split
      · rename_i hlt
        rw [if_pos hlt] at hseam
        exact good_smoothLtSplit h hlt hs' hseam
      · rename_i hlt
        rw [if_neg hlt] at hseam
        exact good_smoothGtSplit h (by omega) hp hseam

theorem good_dischgOther (hp : p.smoothSoc ≤ maxSoc) (hpos : 0 < p.smoothSoc)
    (hseam : lineToEntry m (p.smoothSoc - 1) cfg.dischgReserve (p.smoothSoc - 1) ≤ m p.smoothSoc) :
    Good (setEnds (dischgOther m p cfg)) := by
  have hout : ∀ i, p.smoothSoc ≤ i → lineToEntry m (p.smoothSoc - 1) cfg.dischgReserve i = m i :=
    fun i hi => smoothSocToSocCenti_out (.inr (by omega))
  have hbound : Bounded (lineToEntry m (p.smoothSoc - 1) cfg.dischgReserve) :=
    bounded_lineToEntry h.bounded
  apply good_setEnds (bounded_lineToFull hbound)
  refine risesTo_lineToFull hp ?_ (fun i hi hlt => ?_) hbound fun hfull hlt => ?_
  · intro i hi
    rcases eq_or_ne i (p.smoothSoc - 1) with rfl | hne
    · rw [Nat.sub_add_cancel hpos, hout p.smoothSoc le_rfl]
      exact hseam
    · have hhead : RisesTo (lineToEntry m (p.smoothSoc - 1) cfg.dischgReserve) (p.smoothSoc - 1) :=
        risesTo_head (h.risesTo (by omega))
      exact hhead i (by omega)
  · rw [hout i (by omega), hout (i + 1) (by omega)]
    exact h.rises i (i + 1) (Nat.le_succ i) hlt
  · rw [hout p.smoothSoc le_rfl] at hfull
    rw [hout _ (Nat.le_succ _)]
    have hnext := h.rises p.smoothSoc (p.smoothSoc + 1) (Nat.le_succ _) hlt
    rw [hfull] at hnext
    exact le_antisymm (h.bounded _ hlt).2 hnext

end

variable {soc : ℤ}

theorem good_dischgMap (h : Good m) (hp : p.smoothSoc ≤ maxSoc) {chgFull : Bool}
    (hseam : DischgSeam m soc chgFull p cfg) {y y' : ℤ} :
    Good (setEnds (if p.smoothSoc = maxSoc then smoothSocToSocCenti m 0 maxSoc 0 p.smoothSocCenti 0 y
      else if chgFull = true then smoothSocToSocCenti m 0 maxSoc 0 fullScale 0 y'
      else if isDischgNoReserve soc p = true then dischgNoReserve m p
      else dischgOther m p cfg)) := by
  split
  · exact good_wholeLine h
  · rename_i hmax
    split
    · exact good_wholeLine h
    · rename_i hfull
      have hseam := hseam hmax (Bool.eq_false_iff.mpr hfull)
      split
      · rename_i hlow
        rw [if_pos hlow] at hseam
        exact good_pointToFull h hp hseam
      · rename_i hlow
        rw [if_neg hlow] at hseam
        refine good_dischgOther h hp ?_ hseam
        simp only [isDischgNoReserve, Bool.or_eq_true, decide_eq_true_eq, not_or] at hlow
        omega

/-! ### The table -/

/-- What the parser checks of each configuration, as far as the order needs it. -/
structure Valid (cfg : ReserveCfg) : Prop where
  reserve : cfg.chgReserve ≤ 1000
  split : 20 ≤ cfg.chgSplitSoc ∧ cfg.chgSplitSoc ≤ 100
  low : cfg.chgReserve < cfg.chgSplitSoc * percentScale
  high : cfg.chgSplitSoc < 100 → cfg.chgSplitSoc * percentScale - cfg.chgReserve < fullScale

theorem pos_of_validSlope {n d : ℤ} (hd : 0 < d) (h : ReserveCfg.validSlope (n.tdiv d) = true) :
    0 < n := by
  by_contra hn
  have hle : n.tdiv d ≤ (0 : ℤ).tdiv d := Int.tdiv_le_tdiv hd (not_lt.mp hn)
  rw [Int.zero_tdiv] at hle
  simp only [ReserveCfg.validSlope, Bool.not_eq_true', Bool.or_eq_false_iff,
    decide_eq_false_iff_not] at h
  omega

theorem valid_of_validate (h : cfg.validate = true) : Valid cfg := by
  simp only [ReserveCfg.validate, Bool.and_eq_true] at h
  obtain ⟨⟨hvalue, hrange⟩, hslope⟩ := h
  simp only [ReserveCfg.validateValue, ReserveCfg.isValidReserve, Bool.and_eq_true,
    decide_eq_true_eq] at hvalue
  simp only [ReserveCfg.validateSocRange, Bool.and_eq_true, Bool.not_eq_true', Bool.or_eq_false_iff,
    decide_eq_false_iff_not, not_lt] at hrange
  simp only [ReserveCfg.validateChgSlope, Bool.and_eq_true, Bool.or_eq_true, Bool.not_eq_true',
    decide_eq_false_iff_not] at hslope
  obtain ⟨-, hsplit⟩ := hrange
  refine ⟨(le_abs_self _).trans hvalue.2.2, hsplit, ?_, fun hlt => ?_⟩
  · have hpos := pos_of_validSlope (by omega) (hslope.1.resolve_left (by omega))
    omega
  · have hpos := pos_of_validSlope (by omega) (hslope.2.resolve_left (by omega))
    omega

variable {cfgs : List ReserveCfg}

theorem searchCfg_mem {fuel left stop : ℕ}
    (h : searchCfg cfgs soc fuel left stop = some cfg) : cfg ∈ cfgs := by
  induction fuel generalizing left stop with
  | zero => cases h
  | succ fuel ih =>
    rw [searchCfg] at h
    split at h
    · cases h
    · simp only at h
      split at h
      · cases h
      · rename_i hget
        split at h
        · cases h
          exact List.mem_of_getElem? hget
        · split at h
          · exact ih h
          · exact ih h

variable {prop : List ℤ}

theorem valid_of_find {soc : ℕ}
    (hparse : parseReserveConfig prop = some cfgs) (h : findReserveCfgBySoc cfgs soc = some cfg) :
    Valid cfg := by
  rw [parseReserveConfig] at hparse
  split at hparse
  · cases hparse
  · split at hparse
    · rename_i hall
      cases hparse
      rw [Bool.and_eq_true, all_eq_true] at hall
      exact valid_of_validate (hall.1 cfg (searchCfg_mem h))
    · cases hparse

/-- The ranges of a table follow each other and none is empty. -/
structure Ranges (cfgs : List ReserveCfg) : Prop where
  adjacent : adjacent cfgs = true
  ordered : ∀ cfg ∈ cfgs, cfg.startSoc ≤ cfg.endSoc

theorem adjacent_cons (c d : ReserveCfg) (rest : List ReserveCfg) :
    adjacent (c :: d :: rest) = (d.startSoc == c.endSoc + 1 && adjacent (d :: rest)) := rfl

theorem Ranges.tail {c : ReserveCfg} (h : Ranges (c :: cfgs)) : Ranges cfgs := by
  refine ⟨?_, fun d hd => h.ordered d (mem_cons_of_mem c hd)⟩
  cases cfgs with
  | nil => rfl
  | cons d rest =>
    have hadj := h.adjacent
    rw [adjacent_cons, Bool.and_eq_true] at hadj
    exact hadj.2

theorem Ranges.lt {c : ReserveCfg} (h : Ranges (c :: cfgs)) : ∀ d ∈ cfgs, c.endSoc < d.startSoc := by
  induction cfgs generalizing c with
  | nil => exact fun d hd => absurd hd not_mem_nil
  | cons b rest ih =>
    have hadj := h.adjacent
    rw [adjacent_cons, Bool.and_eq_true, beq_iff_eq] at hadj
    intro d hd
    rcases mem_cons.mp hd with rfl | hd
    · omega
    · have hlater := ih h.tail d hd
      have hb := h.ordered b (by simp)
      omega

theorem Ranges.pairwise (h : Ranges cfgs) : cfgs.Pairwise fun c d => c.endSoc < d.startSoc := by
  induction cfgs with
  | nil => exact List.Pairwise.nil
  | cons c rest ih => exact pairwise_cons.mpr ⟨h.lt, ih h.tail⟩

theorem Ranges.covers (h : Ranges cfgs) {first last : ReserveCfg}
    (hfirst : cfgs.head? = some first) (hlast : cfgs.getLast? = some last)
    (hlow : first.startSoc ≤ soc) (hhigh : soc ≤ last.endSoc) :
    ∃ (k : ℕ) (cfg : ReserveCfg), cfgs[k]? = some cfg ∧ cfg.startSoc ≤ soc ∧ soc ≤ cfg.endSoc := by
  induction cfgs generalizing first with
  | nil => cases hfirst
  | cons c rest ih =>
    cases hfirst
    by_cases hc : soc ≤ c.endSoc
    · exact ⟨0, c, rfl, hlow, hc⟩
    · cases rest with
      | nil =>
        cases hlast
        exact absurd hhigh hc
      | cons d rest =>
        have hadj := h.adjacent
        rw [adjacent_cons, Bool.and_eq_true, beq_iff_eq] at hadj
        rw [List.getLast?_cons_cons] at hlast
        obtain ⟨k, cfg, hk, hcfg⟩ := ih h.tail rfl hlast (by omega)
        exact ⟨k + 1, cfg, hk, hcfg⟩

theorem searchCfg_isSome (h : Ranges cfgs) {k : ℕ}
    (hk : cfgs[k]? = some cfg) (hlow : cfg.startSoc ≤ soc) (hhigh : soc ≤ cfg.endSoc)
    {fuel left stop : ℕ} (hfuel : stop - left < fuel) (hleft : left ≤ k) (hstop : k < stop)
    (hlen : stop ≤ cfgs.length) : (searchCfg cfgs soc fuel left stop).isSome := by
  induction fuel generalizing left stop with
  | zero => omega
  | succ fuel ih =>
    rw [searchCfg, if_neg (by omega)]
    have hmid : left + (stop - 1 - left) / 2 < cfgs.length := by omega
    simp only [List.getElem?_eq_getElem hmid]
    obtain ⟨hkl, hcfg⟩ := List.getElem?_eq_some_iff.mp hk
    have hpair := pairwise_iff_getElem.mp h.pairwise
    have hord := h.ordered (cfgs[left + (stop - 1 - left) / 2]) (getElem_mem hmid)
    split
    · rfl
    · rename_i hnot
      -- the ranges on one side of the middle are all on that side of the percentage
      split
      · rename_i hbefore
        refine ih (by omega) hleft ?_ (by omega)
        by_contra hge
        rcases (not_lt.mp hge).eq_or_lt with heq | hlt
        · subst heq
          rw [hcfg] at hbefore
          omega
        · have := hpair _ k hmid hkl hlt
          rw [hcfg] at this
          omega
      · rename_i hafter
        refine ih (by omega) ?_ hstop hlen
        by_contra hge
        rcases (Nat.lt_succ_iff.mp (not_le.mp hge)).eq_or_lt with heq | hlt
        · subst heq
          rw [hcfg] at hnot
          exact hnot ⟨hlow, hhigh⟩
        · have := hpair k _ hkl hmid hlt
          rw [hcfg] at this
          omega

theorem findReserveCfgBySoc_isSome
    (hparse : parseReserveConfig prop = some cfgs) (soc : ℕ) :
    (findReserveCfgBySoc cfgs soc).isSome := by
  rw [parseReserveConfig] at hparse
  split at hparse
  · cases hparse
  · split at hparse
    · rename_i hall
      cases hparse
      rw [Bool.and_eq_true, all_eq_true] at hall
      obtain ⟨hvalid, hcont⟩ := hall
      rw [validateContinuity] at hcont
      split at hcont
      · rename_i first last hfirst hlast
        rw [Bool.and_eq_true, Bool.and_eq_true, beq_iff_eq, beq_iff_eq] at hcont
        have hranges : Ranges (readCfgs prop) := by
          refine ⟨hcont.2, fun cfg hcfg => ?_⟩
          have hrange := hvalid cfg hcfg
          simp only [ReserveCfg.validate, ReserveCfg.validateSocRange, Bool.and_eq_true,
            Bool.not_eq_true', decide_eq_false_iff_not, not_lt] at hrange
          exact hrange.1.2.1.2
        obtain ⟨hzero, hhundred⟩ := clampVal_mem soc (show (0 : ℤ) ≤ 100 by decide)
        obtain ⟨k, cfg, hk, hlow, hhigh⟩ := hranges.covers hfirst hlast
          (show first.startSoc ≤ clampVal soc 0 100 by omega) (by omega)
        have hkl := (List.getElem?_eq_some_iff.mp hk).1
        exact searchCfg_isSome hranges hk hlow hhigh (by omega) (Nat.zero_le k) hkl le_rfl
      · cases hcont
    · cases hparse

theorem good_percent : Good fun i => i * percentScale where
  zero := by decide
  full := by decide
  rises i j hij _ := mul_le_mul_of_nonneg_right (by exact_mod_cast hij) (by decide)

theorem good_bsInitMap (h : Valid cfg) : Good (bsInitMap cfg) := by
  show Good (setEnds (if cfg.chgSplitSoc.toNat = maxSoc then
      smoothSocToSocCenti (fun i => i * percentScale) 0 maxSoc 0 fullScale 0
        (fullScale - cfg.chgReserve)
    else lineToFull (lineToEntry (fun i => i * percentScale) cfg.chgSplitSoc.toNat cfg.chgReserve)
      cfg.chgSplitSoc.toNat))
  have hcast : (cfg.chgSplitSoc.toNat : ℤ) = cfg.chgSplitSoc := Int.toNat_of_nonneg (by linarith [h.split.1])
  have hmax : maxSoc = 100 := rfl
  split
  · exact good_wholeLine good_percent
  · rename_i hne
    have hlt : cfg.chgSplitSoc < 100 := by have := h.split; omega
    refine good_entryToFull good_percent (by omega) fun hfull => ?_
    -- the entry of the split is below the full charge
    have hok : LineOk 0 cfg.chgSplitSoc.toNat 0 (cfg.chgSplitSoc.toNat * percentScale) 0
        (cfg.chgSplitSoc.toNat * percentScale - cfg.chgReserve) := by
      refine ⟨by omega, Nat.zero_le _, ?_, ?_⟩
      · show (0 : ℤ) < cfg.chgSplitSoc.toNat * 100
        have := h.split
        omega
      · rw [hcast]
        have := h.low
        omega
    rw [lineToEntry, smoothSocToSocCenti_in hok (Nat.zero_le _) le_rfl] at hfull
    have hle := lineAt_le hok.2.2.1 hok.2.2.2 le_rfl hok.2.2.2.le
    rw [hfull, hcast] at hle
    exact absurd (h.high hlt) (not_lt.mpr hle)

theorem smoothSocOf_le (m : SmoothMap) (c : ℤ) : smoothSocOf m c ≤ maxSoc := by
  rw [smoothSocOf]
  cases h : (List.range (maxSoc + 1)).find? fun i => c ≤ m i with
  | none => exact le_rfl
  | some i =>
    have hmem := List.mem_of_find?_eq_some h
    exact Nat.lt_succ_iff.mp (mem_range.mp hmem)

theorem lt_of_lt_smoothSocOf {c : ℤ} (hi : i < smoothSocOf m c) : m i < c := by
  have hle := smoothSocOf_le m c
  rw [smoothSocOf] at hi hle
  cases h : (List.range (maxSoc + 1)).find? fun i => c ≤ m i with
  | none =>
    rw [h] at hi
    have hnot := List.find?_eq_none.mp h i (mem_range.mpr (Nat.lt_succ_of_lt hi))
    simpa using hnot
  | some j =>
    rw [h] at hi
    rw [List.find?_range_eq_some] at h
    have hnot := h.2.2 i hi
    simpa using hnot

theorem le_smoothSocOf (m : SmoothMap) (c : ℤ) : c ≤ m (smoothSocOf m c) ∨ smoothSocOf m c = maxSoc := by
  rw [smoothSocOf]
  cases h : (List.range (maxSoc + 1)).find? fun i => c ≤ m i with
  | none => exact .inr rfl
  | some i => exact .inl (by simpa using List.find?_some h)

theorem smoothSocOf_mono (m : SmoothMap) {c c' : ℤ} (hc : c ≤ c') :
    smoothSocOf m c ≤ smoothSocOf m c' := by
  rcases le_smoothSocOf m c' with hreach | hlast
  · by_contra hlt
    have hfront := lt_of_lt_smoothSocOf (not_le.mp hlt)
    omega
  · rw [hlast]
    exact smoothSocOf_le m c

/-! ### Runs -/

namespace BsStrategy

variable {bs : BsStrategy}

/-- The condition of a rewrite of the map, for the reading that it is made for. -/
def SeamKept (bs : BsStrategy) (r : Reading) : Prop :=
  ∀ cfg ∈ findReserveCfgBySoc bs.cfgs (bs.updateData r).point.smoothSoc,
    if bs.chgOnline then ChgSeam bs.map (bs.updateData r).point cfg
    else DischgSeam bs.map r.soc bs.chgFull (bs.updateData r).point cfg
deriving Decidable

def OrderKept (bs : BsStrategy) : Event → Prop
  | .updateMap r => bs.SeamKept r
  | _ => True

instance (bs : BsStrategy) : ∀ e, Decidable (bs.OrderKept e)
  | .updateMap r => inferInstanceAs (Decidable (bs.SeamKept r))
  | .initMap | .getData _ | .setOnline _ | .setFull _ => isTrue trivial

instance (allowed : BsStrategy → Event → Prop) [∀ bs e, Decidable (allowed bs e)] (bs : BsStrategy)
    (e : Event) : Decidable ((machine allowed).guard bs e) :=
  inferInstanceAs (Decidable (e.InRange ∧ allowed bs e))

structure Ordered (bs : BsStrategy) : Prop where
  table : ∃ prop, parseReserveConfig prop = some bs.cfgs
  map : Good bs.map

theorem Ordered.valid (h : bs.Ordered) {soc : ℕ} (hfind : findReserveCfgBySoc bs.cfgs soc = some cfg) :
    Valid cfg := by
  obtain ⟨prop, hparse⟩ := h.table
  exact valid_of_find hparse hfind

theorem ordered_alloc (hparse : parseReserveConfig prop = some cfgs) : (alloc cfgs).Ordered := by
  obtain ⟨cfg, hcfg⟩ := Option.isSome_iff_exists.mp (findReserveCfgBySoc_isSome hparse 0)
  rw [alloc, initMap]
  simp only [hcfg]
  exact ⟨⟨prop, hparse⟩, good_bsInitMap (valid_of_find hparse hcfg)⟩

theorem ordered_initMap (h : bs.Ordered) : bs.initMap.Ordered := by
  rw [initMap]
  split
  · exact h
  · rename_i cfg hcfg
    exact ⟨h.table, good_bsInitMap (h.valid hcfg)⟩

theorem ordered_updateMap (h : bs.Ordered) {r : Reading} (hseam : bs.SeamKept r) :
    (bs.updateMap r).Ordered := by
  have hp : (bs.updateData r).point.smoothSoc ≤ maxSoc := smoothSocOf_le bs.map _
  obtain ⟨cfg, hcfg⟩ := Option.isSome_iff_exists.mp
    (findReserveCfgBySoc_isSome h.table.choose_spec (bs.updateData r).point.smoothSoc)
  have hseam := hseam cfg hcfg
  rw [updateMap, rewrite]
  by_cases hon : bs.chgOnline
  · rw [if_pos hon] at hseam
    rw [if_pos (show (bs.updateData r).chgOnline = true from hon)]
    refine ⟨h.table, ?_⟩
    show Good (bsUpdateChgMap bs.cfgs bs.map (bs.updateData r).point)
    rw [bsUpdateChgMap]
    simp only [hcfg]
    exact good_chgMap h.map hp (h.valid hcfg).reserve (h.valid hcfg).split.2 hseam
  · rw [if_neg hon] at hseam
    rw [if_neg (show ¬(bs.updateData r).chgOnline = true from hon)]
    refine ⟨h.table, ?_⟩
    show Good (bsUpdateDischgMap bs.cfgs bs.map r.soc bs.chgFull (bs.updateData r).point)
    rw [bsUpdateDischgMap]
    simp only [hcfg]
    exact good_dischgMap h.map hp hseam

theorem ordered_next (h : bs.Ordered) {e : Event} (hseam : bs.OrderKept e) : (bs.next e).Ordered := by
  cases e with
  | initMap => exact ordered_initMap h
  | updateMap r => exact ordered_updateMap h hseam
  | getData r => exact ⟨h.table, h.map⟩
  | setOnline online => exact ⟨h.table, h.map⟩
  | setFull full => exact ⟨h.table, h.map⟩

theorem init_alloc (hparse : parseReserveConfig prop = some cfgs)
    (allowed : BsStrategy → Event → Prop) : (machine allowed).Reachable (alloc cfgs) :=
  .init ⟨prop, cfgs, hparse, rfl⟩

theorem ordered_of_reachable (h : (machine OrderKept).Reachable bs) : bs.Ordered := by
  refine h.invariant (I := Ordered) ?_ ?_
  · intro bs ⟨prop, cfgs, hparse, hbs⟩
    rw [hbs]
    exact ordered_alloc hparse
  · exact fun bs e hord he => ordered_next hord he.2

/-- What a map is for: it rises from zero to the full charge, and the percentage that is looked up in it
is one, and no lower for a higher charge. -/
def MapOk (m : SmoothMap) : Prop :=
  Good m ∧ (∀ i ≤ maxSoc, 0 ≤ m i ∧ m i ≤ fullScale) ∧ (∀ c, smoothSocOf m c ≤ maxSoc) ∧
    ∀ c c', c ≤ c' → smoothSocOf m c ≤ smoothSocOf m c'

/-- **The map stays in order** in all runs in which each rewrite meets its condition. -/
theorem mapOk_of_reachable (h : (machine OrderKept).Reachable bs) : MapOk bs.map := by
  have hgood := (ordered_of_reachable h).map
  exact ⟨hgood, hgood.bounded, smoothSocOf_le bs.map, fun c c' => smoothSocOf_mono bs.map⟩

def plainTable : List ℤ := [0, 100, 200, 300, 500, 50]

def reading (socCenti : ℤ) : Reading := ⟨0, 5000, 5000, socCenti, socCenti.tdiv percentScale⟩

def plugAndUnplug : List Event :=
  [.updateMap (reading 3000), .getData (reading 6100), .setOnline false, .updateMap (reading 6120)]

theorem mapOk_of_reachable_plugAndUnplug :
    (machine OrderKept).Allows (alloc (readCfgs plainTable)) plugAndUnplug ∧
      MapOk ((machine OrderKept).exec (alloc (readCfgs plainTable)) plugAndUnplug).map := by
  have hparse : parseReserveConfig plainTable = some (readCfgs plainTable) := by decide
  have hallows : (machine OrderKept).Allows (alloc (readCfgs plainTable)) plugAndUnplug := by
    decide +kernel
  exact ⟨hallows, mapOk_of_reachable ((init_alloc hparse OrderKept).exec plugAndUnplug hallows)⟩

def negativeTable : List ℤ := [0, 100, -200, 0, 0, 50]

/-- The line in front of the current percentage goes above its entry. -/
theorem not_mapOk : ∃ bs, (machine fun _ _ => True).Reachable bs ∧ ¬MapOk bs.map := by
  refine ⟨(machine fun _ _ => True).exec (alloc (readCfgs negativeTable))
      [.setOnline false, .updateMap (reading 5000)], ?_, ?_⟩
  · exact (init_alloc (show parseReserveConfig negativeTable = _ by decide) _).exec _ (by decide +kernel)
  · intro hok
    have hrises := hok.1.rises 49 50 (by decide) (by decide)
    revert hrises
    decide +kernel

end BsStrategy

end Sm8750Modules.BatterySmooth
