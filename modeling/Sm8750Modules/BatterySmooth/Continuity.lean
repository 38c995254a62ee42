import Sm8750Modules.BatterySmooth.Order

/-!
# Battery smoothing — the seam

The map is rewritten so that the percentage that is shown stays where it is. The lines that end at
the current point do that.
-/

namespace Sm8750Modules.BatterySmooth

open Function

variable {m m' : SmoothMap} {p : Point} {cfg : ReserveCfg} {x1 x2 y1 y2 c : ℤ} {i s a b : ℕ}

theorem smoothSocOf_le_iff (h : Good m) (hc : c ≤ fullScale) (hi : i ≤ maxSoc) :
    smoothSocOf m c ≤ i ↔ c ≤ m i := by
  constructor
  · intro hle
    rcases le_smoothSocOf m c with hreach | hlast
    · exact hreach.trans (h.rises _ _ hle hi)
    · have hmax : i = maxSoc := by omega
      rw [hmax, h.full]
      exact hc
  · intro hreach
    by_contra hlt
    have hfront := lt_of_lt_smoothSocOf (not_le.mp hlt)
    omega

def Within (m : SmoothMap) (s : ℕ) (c : ℤ) : Prop :=
  (2 ≤ s → m (s - 2) < c) ∧ (s < maxSoc - 1 → c ≤ m (s + 1))

theorem abs_smoothSocOf_sub_le_iff (h : Good m) (hc : c ≤ fullScale) (hs : s ≤ maxSoc) :
    |(smoothSocOf m c : ℤ) - s| ≤ 1 ↔ Within m s c := by
  have hmax : maxSoc = 100 := rfl
  have hle := smoothSocOf_le m c
  rw [abs_le, Within]
  constructor
  · intro ⟨hlow, hhigh⟩
    constructor
    · intro htwo
      have hnot := (smoothSocOf_le_iff h hc (i := s - 2) (by omega)).not
      rw [not_le] at hnot
      exact lt_of_not_ge (hnot.mp (by omega))
    · intro hlt
      exact (smoothSocOf_le_iff h hc (by omega)).mp (by omega)
  · intro ⟨hbehind, hahead⟩
    constructor
    · by_cases htwo : 2 ≤ s
      · have hnot := (smoothSocOf_le_iff h hc (i := s - 2) (by omega)).not.mpr
          (not_le.mpr (hbehind htwo))
        omega
      · omega
    · by_cases hlt : s < maxSoc - 1
      · have := (smoothSocOf_le_iff h hc (i := s + 1) (by omega)).mpr (hahead hlt)
        omega
      · omega

/-- A line has reached the charge at an entry. -/
def Reaches (x1 x2 y1 y2 : ℤ) (i : ℕ) (c : ℤ) : Prop :=
  (c - y1) * (percentScale * percentScale) ≤
    (i * percentScale - x1) * ((y2 - y1) * percentScale * percentScale).tdiv (x2 - x1)
deriving Decidable

theorem le_lineAt_iff (hx : x1 < x2) (hy : y1 < y2) (hi : x1 ≤ i * percentScale) (hzero : 0 ≤ y1)
    (hc : c ≤ fullScale) : c ≤ lineAt x1 x2 y1 y2 i ↔ Reaches x1 x2 y1 y2 i c := by
  have hrise : 0 ≤ (i * percentScale - x1) *
      ((y2 - y1) * percentScale * percentScale).tdiv (x2 - x1) :=
    mul_nonneg (by omega) (slope_nonneg hx hy)
  rw [lineAt, clampVal, Reaches, le_min_iff, Int.tdiv_eq_ediv_of_nonneg hrise]
  have hquot := Int.ediv_nonneg hrise (b := percentScale * percentScale) (by decide)
  rw [max_eq_left (by omega), ← Int.le_ediv_iff_mul_le (by decide)]
  constructor
  · intro h
    omega
  · intro h
    exact ⟨by omega, hc⟩

theorem lineAt_lt (hy : 0 < y2) (hi : i * percentScale < x2) (hc : y2 ≤ fullScale) :
    lineAt 0 x2 0 y2 i < y2 := by
  have hi0 : (0 : ℤ) ≤ i * percentScale := mul_nonneg (Int.natCast_nonneg i) (by decide)
  have hx : 0 < x2 := hi0.trans_lt hi
  rw [← not_le, le_lineAt_iff hx hy hi0 le_rfl hc, Reaches]
  have hslope := slope_nonneg hx hy
  have hrise := slope_mul_le hx hy
  simp only [sub_zero] at hslope hrise ⊢
  intro hreach
  have hpos : 0 < y2 * (percentScale * percentScale) := mul_pos hy (by decide)
  rcases hslope.lt_or_eq with hlt | heq
  · have hless := mul_lt_mul_of_pos_right hi hlt
    rw [mul_comm x2] at hless
    rw [← mul_assoc] at hreach
    omega
  · rw [← heq, mul_zero] at hreach
    omega

theorem line_lt_iff (hb : b ≤ maxSoc) (hai : a ≤ i) (hib : i ≤ b) (hx : x1 < x2)
    (hi : x1 ≤ i * percentScale) (hzero : 0 ≤ y1) (hc : c ≤ fullScale) (hold : m i < c) :
    smoothSocToSocCenti m a b x1 x2 y1 y2 i < c ↔ (y1 < y2 → ¬Reaches x1 x2 y1 y2 i c) := by
  by_cases hy : y1 < y2
  · rw [smoothSocToSocCenti_in ⟨hb, hai.trans hib, hx, hy⟩ hai hib, ← not_le,
      le_lineAt_iff hx hy hi hzero hc]
    exact ⟨fun h _ => h, fun h => h hy⟩
  · rw [smoothSocToSocCenti_of_not fun hok => hy hok.2.2.2]
    exact ⟨fun _ hy' => absurd hy' hy, fun _ => hold⟩

theorem le_line_iff (hb : b ≤ maxSoc) (hai : a ≤ i) (hib : i ≤ b) (hx : x1 < x2)
    (hi : x1 ≤ i * percentScale) (hzero : 0 ≤ y1) (hc : c ≤ fullScale) (hold : c ≤ m i) :
    c ≤ smoothSocToSocCenti m a b x1 x2 y1 y2 i ↔ (y1 < y2 → Reaches x1 x2 y1 y2 i c) := by
  by_cases hy : y1 < y2
  · rw [smoothSocToSocCenti_in ⟨hb, hai.trans hib, hx, hy⟩ hai hib, le_lineAt_iff hx hy hi hzero hc]
    exact ⟨fun h _ => h, fun h => h hy⟩
  · rw [smoothSocToSocCenti_of_not fun hok => hy hok.2.2.2]
    exact ⟨fun _ hy' => absurd hy' hy, fun _ => hold⟩

def Behind (s : ℕ) (x1 x2 y1 y2 c : ℤ) : Prop := 2 ≤ s → y1 < y2 → ¬Reaches x1 x2 y1 y2 (s - 2) c
deriving Decidable

/-- The line over the entry one percent ahead has reached the charge there. -/
def Ahead (s : ℕ) (x1 x2 y1 y2 c : ℤ) : Prop :=
  s < maxSoc - 1 → y1 < y2 → Reaches x1 x2 y1 y2 (s + 1) c
deriving Decidable

def NearLine (s : ℕ) (x2 y2 c : ℤ) : Prop := Behind s 0 x2 0 y2 c ∧ Ahead s 0 x2 0 y2 c
deriving Decidable

/-- The line from the current point to the full charge. -/
def AheadToFull (p : Point) (v : ℤ) : Prop :=
  Ahead p.smoothSoc (p.smoothSoc * percentScale) fullScale v fullScale p.socCenti
deriving Decidable

/-- The condition of a rewrite for charging. -/
def ChgClose (m : SmoothMap) (p : Point) (cfg : ReserveCfg) : Prop :=
  let s := p.smoothSoc
  let split := cfg.chgSplitSoc.toNat
  let top := fullScale - cfg.chgReserve
  if split = maxSoc then
    if (s < maxSoc - 1 ∧ s ≠ 0) ∧ lineToPoint m p s ≤ top then
      Ahead s (s * percentScale) fullScale (lineToPoint m p s) top p.socCenti
    else NearLine s fullScale top p.socCenti
  else if s = split then
    Behind s 0 (s * percentScale) 0 (m s - cfg.chgReserve) p.socCenti ∧
      AheadToFull p (lineToEntry m s cfg.chgReserve s)
  else if s < split then
    if lineFromZero m p s < m split - cfg.chgReserve then
      Ahead s (s * percentScale) (split * percentScale) (lineFromZero m p s) (m split - cfg.chgReserve)
        p.socCenti
    else AheadToFull p (lineFromZero m p s)
  else if lineToEntry m split cfg.chgReserve split < m s then
    (if s = split + 1 then Behind s 0 (split * percentScale) 0 (m split - cfg.chgReserve) p.socCenti
      else Behind s (split * percentScale) (s * percentScale) (lineToEntry m split cfg.chgReserve split)
        (m s) p.socCenti) ∧
      AheadToFull p (lineAt (split * percentScale) (s * percentScale)
        (lineToEntry m split cfg.chgReserve split) (m s) s)
  else s = split + 1 ∧ Behind s 0 (split * percentScale) 0 (m split - cfg.chgReserve) p.socCenti
deriving Decidable

/-- The condition of a rewrite for discharging. -/
def DischgClose (m : SmoothMap) (soc : ℤ) (chgFull : Bool) (p : Point) (cfg : ReserveCfg) : Prop :=
  let s := p.smoothSoc
  let top := p.socCenti - cfg.dischgReserve - if chgFull then cfg.fullReserve else 0
  if s = maxSoc then NearLine s p.smoothSocCenti top p.socCenti
  else if chgFull then NearLine s fullScale top p.socCenti
  else if isDischgNoReserve soc p then AheadToFull p (lineFromZero m p s)
  else Behind s 0 ((s - 1 : ℕ) * percentScale) 0 (m (s - 1) - cfg.dischgReserve) p.socCenti
deriving Decidable

/-! ### Rewrites -/

structure Shown (m : SmoothMap) (p : Point) : Prop where
  le : p.smoothSoc ≤ maxSoc
  front : ∀ i < p.smoothSoc, m i < p.socCenti
  reached : p.socCenti ≤ m p.smoothSoc
  charge : p.socCenti ≤ fullScale
  centi : p.smoothSoc ≠ 0 → ((p.smoothSoc : ℤ) - 1) * percentScale ≤ p.smoothSocCenti

theorem Shown.pos (h : Shown m p) (hm : Good m) (hs : p.smoothSoc ≠ 0) : 0 < p.socCenti :=
  hm.zero ▸ h.front 0 (Nat.pos_of_ne_zero hs)

theorem Shown.next (h : Shown m p) (hm : Good m) (hs : p.smoothSoc < maxSoc) :
    p.socCenti ≤ m (p.smoothSoc + 1) :=
  h.reached.trans (hm.rises _ _ (Nat.le_succ _) hs)

theorem setEnds_apply (h : m 0 = 0) (hi : i < maxSoc) : setEnds m i = m i := by
  rw [setEnds, update_of_ne hi.ne]
  rcases eq_or_ne i 0 with rfl | hne
  · rw [update_self, h]
  · rw [update_of_ne hne]

theorem within_setEnds (h : m 0 = 0) (hs : s ≤ maxSoc) : Within (setEnds m) s c ↔ Within m s c := by
  have hmax : maxSoc = 100 := rfl
  rw [Within, Within]
  constructor
  · intro ⟨hbehind, hahead⟩
    refine ⟨fun htwo => ?_, fun hlt => ?_⟩
    · rw [← setEnds_apply h (i := s - 2) (by omega)]
      exact hbehind htwo
    · rw [← setEnds_apply h (i := s + 1) (by omega)]
      exact hahead hlt
  · intro ⟨hbehind, hahead⟩
    refine ⟨fun htwo => ?_, fun hlt => ?_⟩
    · rw [setEnds_apply h (by omega)]
      exact hbehind htwo
    · rw [setEnds_apply h (by omega)]
      exact hahead hlt

theorem lineAt_zero (x2 y2 : ℤ) : lineAt 0 x2 0 y2 0 = 0 := by
  simp [lineAt, clampVal, fullScale]

theorem head_zero (h : m 0 = 0) : smoothSocToSocCenti m 0 b 0 x2 0 y2 0 = 0 := by
  by_cases hok : LineOk 0 b 0 x2 0 y2
  · rw [smoothSocToSocCenti_in hok le_rfl (Nat.zero_le b), lineAt_zero]
  · rw [smoothSocToSocCenti_of_not hok, h]

theorem tail_zero (h : m 0 = 0) : smoothSocToSocCenti m (a + 1) b x1 x2 y1 y2 0 = 0 := by
  rw [smoothSocToSocCenti_out (.inl (Nat.succ_pos a)), h]

theorem lineToFull_zero (h : m 0 = 0) : lineToFull m a 0 = 0 := tail_zero h

theorem lineToFull_front (hi : i ≤ a) : lineToFull m a i = m i :=
  smoothSocToSocCenti_out (.inl (Nat.lt_succ_of_le hi))

theorem lineToEntry_zero (h : m 0 = 0) {r : ℤ} : lineToEntry m a r 0 = 0 := head_zero h

theorem lineToEntry_out (hi : a < i) {r : ℤ} : lineToEntry m a r i = m i :=
  smoothSocToSocCenti_out (.inr hi)

theorem lineFromZero_zero (h : m 0 = 0) : lineFromZero m p 0 = 0 := by
  rw [lineFromZero]
  split
  · rw [update_self]
  · exact head_zero h

theorem Shown.within (h : Shown m p) (hm : Good m) : Within m p.smoothSoc p.socCenti := by
  refine ⟨fun htwo => h.front _ (by omega), fun hlt => h.next hm ?_⟩
  omega

theorem behind_iff (hold : 2 ≤ s → m (s - 2) < c) (hb : b ≤ maxSoc) (ha : a ≤ s - 2) (hsb : s - 2 ≤ b)
    (hx : x1 < x2) (hi : x1 ≤ (s - 2 : ℕ) * percentScale) (hzero : 0 ≤ y1) (hc : c ≤ fullScale) :
    (2 ≤ s → smoothSocToSocCenti m a b x1 x2 y1 y2 (s - 2) < c) ↔ Behind s x1 x2 y1 y2 c := by
  rw [Behind]
  constructor
  · intro h htwo
    exact (line_lt_iff hb ha hsb hx hi hzero hc (hold htwo)).mp (h htwo)
  · intro h htwo
    exact (line_lt_iff hb ha hsb hx hi hzero hc (hold htwo)).mpr (h htwo)

theorem ahead_iff (hold : s < maxSoc - 1 → c ≤ m (s + 1)) (hb : b ≤ maxSoc) (ha : a ≤ s + 1)
    (hsb : s < maxSoc - 1 → s + 1 ≤ b) (hx : s < maxSoc - 1 → x1 < x2)
    (hi : x1 ≤ (s + 1 : ℕ) * percentScale) (hzero : 0 ≤ y1) (hc : c ≤ fullScale) :
    (s < maxSoc - 1 → c ≤ smoothSocToSocCenti m a b x1 x2 y1 y2 (s + 1)) ↔ Ahead s x1 x2 y1 y2 c := by
  rw [Ahead]
  constructor
  · intro h hlt
    exact (le_line_iff hb ha (hsb hlt) (hx hlt) hi hzero hc (hold hlt)).mp (h hlt)
  · intro h hlt
    exact (le_line_iff hb ha (hsb hlt) (hx hlt) hi hzero hc (hold hlt)).mpr (h hlt)

theorem within_whole (hold : Within m s c) (hs : s ≤ maxSoc) (hx : 0 < x2) (hc : c ≤ fullScale) :
    Within (smoothSocToSocCenti m 0 maxSoc 0 x2 0 y2) s c ↔ NearLine s x2 y2 c := by
  apply and_congr
  · exact behind_iff hold.1 le_rfl (Nat.zero_le _) (by omega) hx
      (mul_nonneg (Int.natCast_nonneg _) (by decide)) le_rfl hc
  · exact ahead_iff hold.2 le_rfl (Nat.zero_le _) (fun hlt => by omega) (fun _ => hx)
      (mul_nonneg (Int.natCast_nonneg _) (by decide)) le_rfl hc

theorem lineToPoint_front (h : Shown m p) (hm : Good m) (htwo : 2 ≤ p.smoothSoc) :
    lineToPoint m p (p.smoothSoc - 2) < p.socCenti := by
  have hpos := h.pos hm (by omega)
  have hcenti := h.centi (by omega)
  by_cases hok : LineOk 0 p.smoothSoc 0 p.smoothSocCenti 0 p.socCenti
  · rw [lineToPoint, smoothSocToSocCenti_in hok (Nat.zero_le _) (by omega)]
    apply lineAt_lt hpos _ h.charge
    refine lt_of_lt_of_le ?_ hcenti
    have hcast : ((p.smoothSoc - 2 : ℕ) : ℤ) < (p.smoothSoc : ℤ) - 1 := by omega
    exact mul_lt_mul_of_pos_right hcast (by decide)
  · rw [lineToPoint, smoothSocToSocCenti_of_not hok]
    exact h.front _ (by omega)

theorem lineToPoint_within (h : Shown m p) (hm : Good m) :
    Within (lineToPoint m p) p.smoothSoc p.socCenti := by
  refine ⟨lineToPoint_front h hm, fun hlt => ?_⟩
  rw [lineToPoint, smoothSocToSocCenti_out (.inr (Nat.lt_succ_self _))]
  exact h.next hm (by omega)

theorem lineFromZero_within (h : Shown m p) (hm : Good m) :
    Within (lineFromZero m p) p.smoothSoc p.socCenti := by
  refine ⟨fun htwo => ?_, fun hlt => ?_⟩
  · rw [lineFromZero, if_neg (by omega)]
    exact lineToPoint_front h hm htwo
  · rw [lineFromZero_out (Nat.lt_succ_self _)]
    exact h.next hm (by omega)

theorem within_next (hold : Within m s c) (hb : b ≤ maxSoc)
    (hsb : s < maxSoc - 1 → s + 1 ≤ b) (hx : s < maxSoc - 1 → s * percentScale < x2) (hzero : 0 ≤ m s)
    (hc : c ≤ fullScale) :
    Within (smoothSocToSocCenti m (s + 1) b (s * percentScale) x2 (m s) y2) s c ↔
      Ahead s (s * percentScale) x2 (m s) y2 c := by
  have hahead : (s < maxSoc - 1 →
      c ≤ smoothSocToSocCenti m (s + 1) b (s * percentScale) x2 (m s) y2 (s + 1)) ↔
        Ahead s (s * percentScale) x2 (m s) y2 c :=
    ahead_iff hold.2 hb le_rfl hsb hx (mul_le_mul_of_nonneg_right (by omega) (by decide)) hzero hc
  rw [Within, hahead]
  refine ⟨And.right, fun h => ⟨fun htwo => ?_, h⟩⟩
  rw [smoothSocToSocCenti_out (.inl (by omega))]
  exact hold.1 htwo

theorem within_lineToFull (hold : Within m p.smoothSoc p.socCenti) (hs : p.smoothSoc ≤ maxSoc)
    (hzero : 0 ≤ m p.smoothSoc) (hc : p.socCenti ≤ fullScale) :
    Within (lineToFull m p.smoothSoc) p.smoothSoc p.socCenti ↔ AheadToFull p (m p.smoothSoc) :=
  within_next hold le_rfl (fun hlt => by omega) (fun hlt => percent_lt_full (by omega)) hzero hc

section

variable (h : Shown m p)
include h

section

variable (hm : Good m)
include hm

theorem within_splitEqMax :
    Within (setEnds (handleChgMapSplitEqMax m p cfg)) p.smoothSoc p.socCenti ↔
      if (p.smoothSoc < maxSoc - 1 ∧ p.smoothSoc ≠ 0) ∧
          lineToPoint m p p.smoothSoc ≤ fullScale - cfg.chgReserve then
        Ahead p.smoothSoc (p.smoothSoc * percentScale) fullScale (lineToPoint m p p.smoothSoc)
          (fullScale - cfg.chgReserve) p.socCenti
      else NearLine p.smoothSoc fullScale (fullScale - cfg.chgReserve) p.socCenti := by
  simp only [handleChgMapSplitEqMax]
  have hpoint : lineToPoint m p 0 = 0 := head_zero hm.zero
  by_cases hs : p.smoothSoc < maxSoc - 1 ∧ p.smoothSoc ≠ 0
  · rw [if_pos hs]
    by_cases hle : lineToPoint m p p.smoothSoc ≤ fullScale - cfg.chgReserve
    · rw [if_pos hle, if_pos ⟨hs, hle⟩, within_setEnds (tail_zero hpoint) h.le]
      exact within_next (lineToPoint_within h hm) le_rfl (fun hlt => by omega)
        (fun hlt => percent_lt_full (by omega)) (bounded_line hm.bounded _ h.le).1 h.charge
    · rw [if_neg hle, if_neg fun hboth => hle hboth.2, within_setEnds (head_zero hpoint) h.le]
      exact within_whole (lineToPoint_within h hm) h.le (by decide) h.charge
  · rw [if_neg hs, if_neg fun hboth => hs hboth.1, within_setEnds (head_zero hm.zero) h.le]
    exact within_whole (h.within hm) h.le (by decide) h.charge

theorem within_smoothEqSplit (hpos : p.smoothSoc ≠ 0)
    (hlt : p.smoothSoc < maxSoc) :
    Within (setEnds (handleChgMapSmoothEqSplit m p cfg)) p.smoothSoc p.socCenti ↔
      Behind p.smoothSoc 0 (p.smoothSoc * percentScale) 0 (m p.smoothSoc - cfg.chgReserve) p.socCenti ∧
        AheadToFull p (lineToEntry m p.smoothSoc cfg.chgReserve p.smoothSoc) := by
  rw [handleChgMapSmoothEqSplit, if_pos ⟨hlt, hpos⟩]
  have hbound := bounded_lineToEntry (a := p.smoothSoc) (r := cfg.chgReserve) hm.bounded
  rw [within_setEnds (lineToFull_zero (lineToEntry_zero hm.zero)) h.le]
  have hold := h.within hm
  apply and_congr
  · rw [lineToFull_front (by omega), lineToEntry]
    exact behind_iff hold.1 h.le (Nat.zero_le _) (by omega) (percent_lt (Nat.pos_of_ne_zero hpos))
      (mul_nonneg (Int.natCast_nonneg _) (by decide)) le_rfl h.charge
  · refine ahead_iff (fun hlt' => ?_) le_rfl le_rfl (fun _ => by omega) (fun _ => percent_lt_full hlt)
      (mul_le_mul_of_nonneg_right (by omega) (by decide)) (hbound _ h.le).1 h.charge
    rw [lineToEntry_out (Nat.lt_succ_self _)]
    exact hold.2 hlt'

theorem within_pointToFull :
    Within (setEnds (lineToFull (lineFromZero m p) p.smoothSoc)) p.smoothSoc p.socCenti ↔
      AheadToFull p (lineFromZero m p p.smoothSoc) := by
  rw [within_setEnds (lineToFull_zero (lineFromZero_zero hm.zero)) h.le]
  exact within_lineToFull (lineFromZero_within h hm) h.le (bounded_lineFromZero hm.bounded _ h.le).1
    h.charge

theorem within_smoothLtSplit (hlt : p.smoothSoc < cfg.chgSplitSoc.toNat)
    (hs : cfg.chgSplitSoc.toNat ≤ maxSoc) :
    Within (setEnds (handleChgMapSmoothLtSplit m p cfg)) p.smoothSoc p.socCenti ↔
      if lineFromZero m p p.smoothSoc < m cfg.chgSplitSoc.toNat - cfg.chgReserve then
        Ahead p.smoothSoc (p.smoothSoc * percentScale) (cfg.chgSplitSoc.toNat * percentScale)
          (lineFromZero m p p.smoothSoc) (m cfg.chgSplitSoc.toNat - cfg.chgReserve) p.socCenti
      else AheadToFull p (lineFromZero m p p.smoothSoc) := by
  simp only [handleChgMapSmoothLtSplit, lineFromZero_out hlt]
  split
  · rw [within_setEnds (lineToFull_zero (tail_zero (lineFromZero_zero hm.zero))) h.le]
    -- the line to the full charge starts behind the entries that count
    rw [Within, lineToFull_front (by omega), lineToFull_front (by omega)]
    exact within_next (lineFromZero_within h hm) hs (fun _ => hlt) (fun _ => percent_lt hlt)
      (bounded_lineFromZero hm.bounded _ h.le).1 h.charge
  · exact within_pointToFull h hm

theorem behind_gtSplit (hpos : 0 < a) (hlt : a < p.smoothSoc) {r v : ℤ}
    (hv : lineToEntry m a r a = v) (hless : v < m p.smoothSoc) :
    (2 ≤ p.smoothSoc → smoothSocToSocCenti (lineToEntry m a r) (a + 1) p.smoothSoc (a * percentScale)
        (p.smoothSoc * percentScale) v (m p.smoothSoc) (p.smoothSoc - 2) < p.socCenti) ↔
      if p.smoothSoc = a + 1 then Behind p.smoothSoc 0 (a * percentScale) 0 (m a - r) p.socCenti
      else Behind p.smoothSoc (a * percentScale) (p.smoothSoc * percentScale) v (m p.smoothSoc)
        p.socCenti := by
  have hle := h.le
  have hfront : 2 ≤ p.smoothSoc → m (p.smoothSoc - 2) < p.socCenti := fun htwo => h.front _ (by omega)
  have hbound := (bounded_lineToEntry (a := a) (r := r) hm.bounded a (by omega)).1
  rw [hv] at hbound
  by_cases hnext : p.smoothSoc = a + 1
  · rw [if_pos hnext, smoothSocToSocCenti_out (.inl (by omega)), lineToEntry]
    exact behind_iff hfront (by omega) (Nat.zero_le _) (by omega) (percent_lt hpos)
      (mul_nonneg (Int.natCast_nonneg _) (by decide)) le_rfl h.charge
  · rw [if_neg hnext]
    rcases (show a ≤ p.smoothSoc - 2 by omega).eq_or_lt with heq | hgt
    -- the entry two behind is the one that the line starts from
    · rw [smoothSocToSocCenti_out (.inl (by omega)), ← heq, hv, Behind, ← heq, Reaches, sub_self,
        zero_mul]
      constructor
      · intro hfar htwo _ hreach
        have := hfar htwo
        have hpos' : 0 < (p.socCenti - v) * (percentScale * percentScale) :=
          mul_pos (by omega) (by decide)
        omega
      · intro hnot htwo
        by_contra hge
        exact hnot htwo hless (mul_nonpos_of_nonpos_of_nonneg (by omega) (by decide))
    · refine behind_iff (fun htwo => ?_) h.le (by omega) (by omega) (percent_lt hlt) ?_ hbound h.charge
      · rw [lineToEntry_out hgt]
        exact hfront htwo
      · exact mul_le_mul_of_nonneg_right (by exact_mod_cast hgt.le) (by decide)

theorem within_smoothGtSplit (hpos : 0 < cfg.chgSplitSoc.toNat)
    (hlt : cfg.chgSplitSoc.toNat < p.smoothSoc)
    (hgood : Good (setEnds (handleChgMapSmoothGtSplit m p cfg))) :
    Within (setEnds (handleChgMapSmoothGtSplit m p cfg)) p.smoothSoc p.socCenti ↔
      if lineToEntry m cfg.chgSplitSoc.toNat cfg.chgReserve cfg.chgSplitSoc.toNat < m p.smoothSoc then
        (if p.smoothSoc = cfg.chgSplitSoc.toNat + 1 then
            Behind p.smoothSoc 0 (cfg.chgSplitSoc.toNat * percentScale) 0
              (m cfg.chgSplitSoc.toNat - cfg.chgReserve) p.socCenti
          else Behind p.smoothSoc (cfg.chgSplitSoc.toNat * percentScale) (p.smoothSoc * percentScale)
            (lineToEntry m cfg.chgSplitSoc.toNat cfg.chgReserve cfg.chgSplitSoc.toNat) (m p.smoothSoc)
            p.socCenti) ∧
          AheadToFull p (lineAt (cfg.chgSplitSoc.toNat * percentScale) (p.smoothSoc * percentScale)
            (lineToEntry m cfg.chgSplitSoc.toNat cfg.chgReserve cfg.chgSplitSoc.toNat) (m p.smoothSoc)
            p.smoothSoc)
      else p.smoothSoc = cfg.chgSplitSoc.toNat + 1 ∧
        Behind p.smoothSoc 0 (cfg.chgSplitSoc.toNat * percentScale) 0
          (m cfg.chgSplitSoc.toNat - cfg.chgReserve) p.socCenti := by
  have hle := h.le
  have hmax : maxSoc = 100 := rfl
  have hsoc : lineToEntry m cfg.chgSplitSoc.toNat cfg.chgReserve p.smoothSoc = m p.smoothSoc :=
    lineToEntry_out hlt
  have hentry := lineToEntry_zero (a := cfg.chgSplitSoc.toNat) hm.zero (r := cfg.chgReserve)
  have hbound := bounded_lineToEntry (a := cfg.chgSplitSoc.toNat) (r := cfg.chgReserve) hm.bounded
  have hout : ∀ i, cfg.chgSplitSoc.toNat < i →
      lineToEntry m cfg.chgSplitSoc.toNat cfg.chgReserve i = m i := fun i hi => lineToEntry_out hi
  have hbehind := @behind_gtSplit m p cfg.chgSplitSoc.toNat h hm hpos hlt cfg.chgReserve
  simp only [handleChgMapSmoothGtSplit, hsoc] at hgood ⊢
  generalize hv : lineToEntry m cfg.chgSplitSoc.toNat cfg.chgReserve cfg.chgSplitSoc.toNat = v at *
  by_cases hless : v < m p.smoothSoc
  · rw [if_pos hless, if_pos hless, ← hbehind rfl hless]
    have hok : LineOk (cfg.chgSplitSoc.toNat + 1) p.smoothSoc (cfg.chgSplitSoc.toNat * percentScale)
        (p.smoothSoc * percentScale) v (m p.smoothSoc) := ⟨hle, hlt, percent_lt hlt, hless⟩
    rw [within_setEnds (lineToFull_zero (tail_zero hentry)) h.le]
    apply and_congr
    · rw [lineToFull_front (by omega)]
    · rw [AheadToFull, lineToFull, smoothSocToSocCenti_in hok hlt le_rfl]
      refine ahead_iff (fun hnext => ?_) le_rfl le_rfl (fun hnext => by omega)
        (fun hnext => percent_lt_full (by omega)) (mul_le_mul_of_nonneg_right (by omega) (by decide))
        (lineAt_mem _ _ _ _ _).1 h.charge
      rw [smoothSocToSocCenti_out (.inr (Nat.lt_succ_self _)), hout _ (by omega)]
      exact h.next hm (by omega)
  · rw [if_neg hless] at hgood ⊢
    rw [if_neg hless]
    have hsplit : setEnds (lineToFull (lineToEntry m cfg.chgSplitSoc.toNat cfg.chgReserve)
        cfg.chgSplitSoc.toNat) cfg.chgSplitSoc.toNat = v := by
      rw [setEnds_apply (lineToFull_zero hentry) (by omega), lineToFull_front le_rfl, hv]
    have hreached : p.socCenti ≤ v := h.reached.trans (not_lt.mp hless)
    have hnear : p.smoothSoc = cfg.chgSplitSoc.toNat + 1 →
        ((2 ≤ p.smoothSoc → setEnds (lineToFull (lineToEntry m cfg.chgSplitSoc.toNat cfg.chgReserve)
          cfg.chgSplitSoc.toNat) (p.smoothSoc - 2) < p.socCenti) ↔
        Behind p.smoothSoc 0 (cfg.chgSplitSoc.toNat * percentScale) 0
          (m cfg.chgSplitSoc.toNat - cfg.chgReserve) p.socCenti) := by
      intro hnext
      rw [setEnds_apply (lineToFull_zero hentry) (by omega), lineToFull_front (by omega), lineToEntry]
      exact behind_iff (fun htwo => h.front _ (by omega)) (by omega) (Nat.zero_le _) (by omega)
        (percent_lt hpos) (mul_nonneg (Int.natCast_nonneg _) (by decide)) le_rfl h.charge
    constructor
    · intro hwithin
      have hnext : p.smoothSoc = cfg.chgSplitSoc.toNat + 1 := by
        by_contra hne
        have hrise := hgood.rises cfg.chgSplitSoc.toNat (p.smoothSoc - 2) (by omega) (by omega)
        have hfar := hwithin.1 (by omega)
        omega
      exact ⟨hnext, (hnear hnext).mp hwithin.1⟩
    · rintro ⟨hnext, hfar⟩
      refine ⟨(hnear hnext).mpr hfar, fun hlast => ?_⟩
      have hrise := hgood.rises cfg.chgSplitSoc.toNat (p.smoothSoc + 1) (by omega) (by omega)
      omega

theorem within_dischgOther (htwo : 2 ≤ p.smoothSoc)
    (hlt : p.smoothSoc < maxSoc) (hgood : Good (setEnds (dischgOther m p cfg))) :
    Within (setEnds (dischgOther m p cfg)) p.smoothSoc p.socCenti ↔
      Behind p.smoothSoc 0 ((p.smoothSoc - 1 : ℕ) * percentScale) 0
        (m (p.smoothSoc - 1) - cfg.dischgReserve) p.socCenti := by
  have hmax : maxSoc = 100 := rfl
  have hzero := lineToEntry_zero (a := p.smoothSoc - 1) hm.zero (r := cfg.dischgReserve)
  have hfar : (2 ≤ p.smoothSoc → setEnds (dischgOther m p cfg) (p.smoothSoc - 2) < p.socCenti) ↔
      Behind p.smoothSoc 0 ((p.smoothSoc - 1 : ℕ) * percentScale) 0
        (m (p.smoothSoc - 1) - cfg.dischgReserve) p.socCenti := by
    rw [dischgOther, setEnds_apply (lineToFull_zero hzero) (by omega), lineToFull_front (by omega),
      lineToEntry]
    exact behind_iff (fun _ => h.front _ (by omega)) (by omega) (Nat.zero_le _) (by omega)
      (percent_lt (show 0 < p.smoothSoc - 1 by omega))
      (mul_nonneg (Int.natCast_nonneg _) (by decide)) le_rfl h.charge
  rw [Within, hfar]
  refine ⟨And.left, fun hbehind => ⟨hbehind, fun hlast => ?_⟩⟩
  have hrise := hgood.rises p.smoothSoc (p.smoothSoc + 1) (Nat.le_succ _) (by omega)
  rw [dischgOther, setEnds_apply (i := p.smoothSoc) (lineToFull_zero hzero) hlt,
    lineToFull_front le_rfl, lineToEntry_out (by omega)] at hrise
  exact h.reached.trans hrise

theorem within_chgMap (hv : Valid cfg)
    (hgood : Good (setEnds (if cfg.chgSplitSoc.toNat = maxSoc then handleChgMapSplitEqMax m p cfg
      else if p.smoothSoc = cfg.chgSplitSoc.toNat then handleChgMapSmoothEqSplit m p cfg
      else if p.smoothSoc < cfg.chgSplitSoc.toNat then handleChgMapSmoothLtSplit m p cfg
      else handleChgMapSmoothGtSplit m p cfg))) :
    Within (setEnds (if cfg.chgSplitSoc.toNat = maxSoc then handleChgMapSplitEqMax m p cfg
      else if p.smoothSoc = cfg.chgSplitSoc.toNat then handleChgMapSmoothEqSplit m p cfg
      else if p.smoothSoc < cfg.chgSplitSoc.toNat then handleChgMapSmoothLtSplit m p cfg
      else handleChgMapSmoothGtSplit m p cfg)) p.smoothSoc p.socCenti ↔ ChgClose m p cfg := by
  have hmax : maxSoc = 100 := rfl
  have hsplit := hv.split
  simp only [ChgClose]
  by_cases hfull : cfg.chgSplitSoc.toNat = maxSoc
  · rw [if_pos hfull, if_pos hfull]
    exact within_splitEqMax h hm
  · rw [if_neg hfull] at hgood ⊢
    rw [if_neg hfull]
    by_cases heq : p.smoothSoc = cfg.chgSplitSoc.toNat
    · rw [if_pos heq, if_pos heq]
      exact within_smoothEqSplit h hm (by omega) (by omega)
    · rw [if_neg heq] at hgood ⊢
      rw [if_neg heq]
      by_cases hlt : p.smoothSoc < cfg.chgSplitSoc.toNat
      · rw [if_pos hlt, if_pos hlt]
        exact within_smoothLtSplit h hm hlt (by omega)
      · rw [if_neg hlt] at hgood ⊢
        rw [if_neg hlt]
        exact within_smoothGtSplit h hm (by omega) (by omega) hgood

theorem within_dischgMap {soc : ℤ} {chgFull : Bool}
    (hgood : Good (setEnds (if p.smoothSoc = maxSoc then
        smoothSocToSocCenti m 0 maxSoc 0 p.smoothSocCenti 0
          (p.socCenti - cfg.dischgReserve - if chgFull = true then cfg.fullReserve else 0)
      else if chgFull = true then
        smoothSocToSocCenti m 0 maxSoc 0 fullScale 0
          (p.socCenti - cfg.dischgReserve - if chgFull = true then cfg.fullReserve else 0)
      else if isDischgNoReserve soc p = true then dischgNoReserve m p
      else dischgOther m p cfg))) :
    Within (setEnds (if p.smoothSoc = maxSoc then
        smoothSocToSocCenti m 0 maxSoc 0 p.smoothSocCenti 0
          (p.socCenti - cfg.dischgReserve - if chgFull = true then cfg.fullReserve else 0)
      else if chgFull = true then
        smoothSocToSocCenti m 0 maxSoc 0 fullScale 0
          (p.socCenti - cfg.dischgReserve - if chgFull = true then cfg.fullReserve else 0)
      else if isDischgNoReserve soc p = true then dischgNoReserve m p
      else dischgOther m p cfg)) p.smoothSoc p.socCenti ↔ DischgClose m soc chgFull p cfg := by
  have hmax : maxSoc = 100 := rfl
  simp only [DischgClose]
  by_cases hlast : p.smoothSoc = maxSoc
  · rw [if_pos hlast, if_pos hlast, within_setEnds (head_zero hm.zero) h.le]
    have hcenti := h.centi (by omega)
    rw [hlast] at hcenti
    have hpos : (0 : ℤ) < ((maxSoc : ℤ) - 1) * percentScale := by decide
    exact within_whole (h.within hm) h.le (hpos.trans_le hcenti) h.charge
  · rw [if_neg hlast] at hgood ⊢
    rw [if_neg hlast]
    have hlt : p.smoothSoc < maxSoc := lt_of_le_of_ne h.le hlast
    by_cases hfull : chgFull = true
    · simp only [if_pos hfull]
      rw [within_setEnds (head_zero hm.zero) h.le]
      exact within_whole (h.within hm) h.le (by decide) h.charge
    · rw [if_neg hfull] at hgood ⊢
      rw [if_neg hfull]
      by_cases hlow : isDischgNoReserve soc p = true
      · rw [if_pos hlow, if_pos hlow]
        exact within_pointToFull h hm
      · rw [if_neg hlow] at hgood ⊢
        rw [if_neg hlow]
        refine within_dischgOther h hm ?_ hlt hgood
        simp only [isDischgNoReserve, Bool.or_eq_true, decide_eq_true_eq, not_or] at hlow
        omega

end

end

theorem shown_bsUpdateSmoothSoc (hm : Good m) (hc : c ≤ fullScale) : Shown m (bsUpdateSmoothSoc m c) where
  le := smoothSocOf_le m c
  front _ hi := lt_of_lt_smoothSocOf hi
  reached := (smoothSocOf_le_iff hm hc (smoothSocOf_le m c)).mp le_rfl
  charge := hc
  centi hne := by
    have hle := smoothSocOf_le m c
    have hreach : c ≤ m (smoothSocOf m c) := (smoothSocOf_le_iff hm hc hle).mp le_rfl
    have hne : smoothSocOf m c ≠ 0 := hne
    have hfront : m (smoothSocOf m c - 1) < c := lt_of_lt_smoothSocOf (by omega)
    show ((smoothSocOf m c : ℤ) - 1) * percentScale ≤ _
    simp only [bsUpdateSmoothSoc]
    rw [if_neg (not_lt.mpr hreach), if_neg hne, if_neg (by omega)]
    have hquot : 0 ≤ ((c - m (smoothSocOf m c - 1)) * percentScale).tdiv
        (m (smoothSocOf m c) - m (smoothSocOf m c - 1)) :=
      Int.tdiv_nonneg (mul_nonneg (by omega) (by decide)) (by omega)
    apply le_min
    · exact le_max_of_le_left (by omega)
    · show ((smoothSocOf m c : ℤ) - 1) * 100 ≤ 10000
      have hmax : maxSoc = 100 := rfl
      omega

namespace BsStrategy

variable {bs : BsStrategy} {r : Reading}

/-- The condition of a rewrite of the map. -/
def CloseKept (bs : BsStrategy) (r : Reading) : Prop :=
  ∀ cfg ∈ findReserveCfgBySoc bs.cfgs (bs.updateData r).point.smoothSoc,
    if bs.chgOnline then ChgClose bs.map (bs.updateData r).point cfg
    else DischgClose bs.map r.soc bs.chgFull (bs.updateData r).point cfg
deriving Decidable

theorem soc_of_reachable {allowed : BsStrategy → Event → Prop} (h : (machine allowed).Reachable bs) :
    0 ≤ bs.soc ∧ bs.soc ≤ 100 := by
  refine h.invariant (I := fun bs => 0 ≤ bs.soc ∧ bs.soc ≤ 100) ?_ ?_
  · intro bs ⟨prop, cfgs, hparse, hbs⟩
    rw [hbs, alloc, initMap]
    split
    · exact ⟨le_rfl, by norm_num⟩
    · exact ⟨le_rfl, by norm_num⟩
  · intro bs e hsoc he
    cases e with
    | initMap =>
      show 0 ≤ bs.initMap.soc ∧ bs.initMap.soc ≤ 100
      rw [initMap]
      split <;> exact hsoc
    | updateMap r =>
      show 0 ≤ (bs.updateMap r).soc ∧ (bs.updateMap r).soc ≤ 100
      rw [updateMap, rewrite]
      split <;> exact he.1
    | getData r => exact he.1
    | setOnline online => exact hsoc
    | setFull full => exact hsoc

theorem readSocCenti_le (hsoc : bs.soc ≤ 100) (hr : r.soc ≤ 100) : bs.readSocCenti r ≤ fullScale := by
  have hlast : ∀ x : ℤ, x ≤ 100 → x * percentScale ≤ fullScale := fun x hx => by
    show x * 100 ≤ 10000
    omega
  have hclamp : ∀ x, clampVal x 0 fullScale ≤ fullScale := fun x => (clampVal_mem x (by decide)).2
  have hchoose : ∀ x ≤ fullScale,
      (if 300 ≤ |r.soc * percentScale - x| then r.soc * percentScale else x) ≤ fullScale := by
    intro x hx
    split
    · exact hlast r.soc hr
    · exact hx
  have hcharge : ∀ fcc : ℤ, (if fcc ≤ 0 then bs.soc * percentScale
      else clampVal ((max r.rm 0 * fullScale).tdiv fcc) 0 fullScale) ≤ fullScale := by
    intro fcc
    split
    · exact hlast bs.soc hsoc
    · exact hclamp _
  apply hchoose
  by_cases hknown : r.socCenti < 0
  · rw [if_pos hknown]
    exact hcharge _
  · rw [if_neg hknown]
    exact hclamp _

/-- **A rewrite moves the percentage of a charge by at most one exactly under its condition**, in all runs
that keep the order of the map. -/
theorem smoothSoc_close_iff (h : (machine OrderKept).Reachable bs) (hr : (Event.updateMap r).InRange)
    (hseam : bs.SeamKept r) :
    |(smoothSocOf (bs.updateMap r).map (bs.readSocCenti r) : ℤ) - smoothSocOf bs.map (bs.readSocCenti r)|
      ≤ 1 ↔ bs.CloseKept r := by
  have hord := ordered_of_reachable h
  have hc := readSocCenti_le (r := r) (soc_of_reachable h).2 hr.2
  have hnew := (ordered_updateMap hord hseam).map
  have hshown : Shown bs.map (bs.updateData r).point := shown_bsUpdateSmoothSoc hord.map hc
  rw [abs_smoothSocOf_sub_le_iff hnew hc (smoothSocOf_le _ _)]
  obtain ⟨cfg, hcfg⟩ := Option.isSome_iff_exists.mp
    (findReserveCfgBySoc_isSome hord.table.choose_spec (bs.updateData r).point.smoothSoc)
  rw [CloseKept, hcfg]
  simp only [Option.mem_some_iff, forall_eq']
  by_cases hon : bs.chgOnline = true
  · rw [if_pos hon]
    have hmap : (bs.updateMap r).map = bsUpdateChgMap bs.cfgs bs.map (bs.updateData r).point := by
      rw [updateMap, rewrite, if_pos (show (bs.updateData r).chgOnline = true from hon)]
      rfl
    rw [hmap, bsUpdateChgMap] at hnew ⊢
    simp only [hcfg] at hnew ⊢
    exact within_chgMap hshown hord.map (hord.valid hcfg) hnew
  · rw [if_neg hon]
    have hmap : (bs.updateMap r).map =
        bsUpdateDischgMap bs.cfgs bs.map r.soc bs.chgFull (bs.updateData r).point := by
      rw [updateMap, rewrite, if_neg (show ¬(bs.updateData r).chgOnline = true from hon)]
      rfl
    rw [hmap, bsUpdateDischgMap] at hnew ⊢
    simp only [hcfg] at hnew ⊢
    exact within_dischgMap hshown hord.map hnew

def unplugAndPlug : List Event := [.setOnline false, .updateMap (reading 5200), .setOnline true]

def replugged : BsStrategy := (machine OrderKept).exec (alloc (readCfgs plainTable)) unplugAndPlug

theorem smoothSoc_close_iff_replugged :
    |(smoothSocOf (replugged.updateMap (reading 4480)).map (replugged.readSocCenti (reading 4480)) : ℤ) -
      smoothSocOf replugged.map (replugged.readSocCenti (reading 4480))| ≤ 1 := by
  have hparse : parseReserveConfig plainTable = some (readCfgs plainTable) := by decide
  have hreach : (machine OrderKept).Reachable replugged :=
    (init_alloc hparse OrderKept).exec unplugAndPlug (by decide +kernel)
  have hseam : replugged.SeamKept (reading 4480) := by decide +kernel
  have hclose : replugged.CloseKept (reading 4480) := by decide +kernel
  exact (smoothSoc_close_iff hreach (by decide) hseam).mpr hclose

/-- At the split the reserve is taken from the entry at once, and the percentage goes from 50 to 55. -/
theorem not_smoothSoc_close : ∃ bs r, (machine fun _ _ => True).Reachable bs ∧
    (Event.updateMap r).InRange ∧
      ¬|(smoothSocOf (bs.updateMap r).map (bs.readSocCenti r) : ℤ) -
        smoothSocOf bs.map (bs.readSocCenti r)| ≤ 1 := by
  have hparse : parseReserveConfig plainTable = some (readCfgs plainTable) := by decide
  refine ⟨(machine fun _ _ => True).exec (alloc (readCfgs plainTable)) unplugAndPlug, reading 4420, ?_,
    by decide, by decide +kernel⟩
  exact (init_alloc hparse _).exec _ (by decide +kernel)

end BsStrategy

end Sm8750Modules.BatterySmooth
