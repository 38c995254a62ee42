import Sm8750Modules.Lib.KeyedLists
import Sm8750Modules.Lib.RefCounts
import Sm8750Modules.MgmtRxReo.Machine

/-!
# Management frame reordering: how wait counts go down

The counts of a link and their total are kept apart and lowered apart, in four places.
-/

namespace MgmtRxReo

open KeyedLists Runs Function

def WaitCount.Consistent (w : WaitCount) : Prop :=
  w.totalCount.toNat = ∑ link, (w.perLinkCount link).toNat

def WaitCount.Le (w w' : WaitCount) : Prop :=
  ∀ link, w.perLinkCount link ≤ w'.perLinkCount link

theorem WaitCount.Le.trans {a b c : WaitCount} (h : a.Le b) (h' : b.Le c) : a.Le c :=
  fun link => UInt32.le_trans (h link) (h' link)

theorem sum_perLinkCount_lt (f : Link → UInt32) :
    ∑ link, (f link).toNat ≤ maxMloLinks * (2 ^ 32 - 1) := by
  calc ∑ link, (f link).toNat ≤ ∑ _link : Link, (2 ^ 32 - 1) :=
        Finset.sum_le_sum fun link _ => by have := (f link).toNat_lt; omega
    _ = maxMloLinks * (2 ^ 32 - 1) := by rw [Finset.sum_const, Finset.card_fin, smul_eq_mul]

theorem WaitCount.zero_consistent : WaitCount.zero.Consistent := by
  simp [WaitCount.Consistent, WaitCount.zero]

theorem WaitCount.add_consistent {w : WaitCount} {link : Link} {n : UInt32} (h : w.Consistent)
    (hzero : w.perLinkCount link = 0) : (w.add link n).Consistent := by
  have hsum := RefCounts.sum_update UInt32.toNat w.perLinkCount link n
  have hlt := sum_perLinkCount_lt (update w.perLinkCount link n)
  rw [hzero, UInt32.toNat_zero, Nat.add_zero] at hsum
  have hadd : (w.totalCount + n.toUInt64).toNat = w.totalCount.toNat + n.toNat := by
    rw [UInt64.toNat_add, UInt32.toNat_toUInt64, Nat.mod_eq_of_lt]
    rw [h]
    show _ < 2 ^ 64
    have hlinks : maxMloLinks = 6 := rfl
    omega
  show (w.totalCount + n.toUInt64).toNat = _
  rw [hadd, h]
  exact hsum.symm

theorem WaitCount.lowerLink_consistent {w : WaitCount} {link : Link} {n : UInt32}
    (h : w.Consistent) (hle : n ≤ w.perLinkCount link) : (w.lowerLink link n).Consistent := by
  have hsum := RefCounts.sum_update UInt32.toNat w.perLinkCount link n
  have hmem : (w.perLinkCount link).toNat ≤ ∑ l, (w.perLinkCount l).toNat :=
    Finset.single_le_sum (f := fun l => (w.perLinkCount l).toNat) (fun _ _ => Nat.zero_le _)
      (Finset.mem_univ link)
  have hdiff : (w.perLinkCount link - n).toUInt64.toNat =
      (w.perLinkCount link).toNat - n.toNat := by
    rw [UInt32.toNat_toUInt64, UInt32.toNat_sub_of_le _ _ hle]
  have hle' := UInt32.le_iff_toNat_le.1 hle
  have htotal := h
  unfold WaitCount.Consistent at htotal
  have hsub : (w.totalCount - (w.perLinkCount link - n).toUInt64).toNat =
      w.totalCount.toNat - ((w.perLinkCount link).toNat - n.toNat) := by
    rw [UInt64.toNat_sub_of_le _ _ (by rw [UInt64.le_iff_toNat_le, hdiff]; omega), hdiff]
  show (w.totalCount - (w.perLinkCount link - n).toUInt64).toNat =
    ∑ l, (update w.perLinkCount link n l).toNat
  rw [hsub]
  omega

theorem WaitCount.lowerLink_le {w : WaitCount} {link : Link} {n : UInt32}
    (hle : n ≤ w.perLinkCount link) : (w.lowerLink link n).Le w := by
  intro l
  show update w.perLinkCount link n l ≤ _
  by_cases hl : l = link
  · rw [hl, update_self]
    exact hle
  · rw [update_of_ne hl]
    exact UInt32.le_refl _

theorem updateLinkWaitCount_spec (new old : WaitCount) (link : Link) :
    (updateLinkWaitCount new old link).Le old ∧
      (old.Consistent → (updateLinkWaitCount new old link).Consistent) := by
  have hmin : (if old.perLinkCount link < new.perLinkCount link then old.perLinkCount link
      else new.perLinkCount link) ≤ old.perLinkCount link := by
    split
    · exact UInt32.le_refl _
    · rename_i h
      exact UInt32.not_lt.1 h
  unfold updateLinkWaitCount
  split
  · exact ⟨WaitCount.lowerLink_le hmin, fun h => WaitCount.lowerLink_consistent h hmin⟩
  · exact ⟨fun _ => UInt32.le_refl _, id⟩

theorem updateWaitCount_spec (old new : WaitCount) :
    (updateWaitCount old new).Le old ∧
      (old.Consistent → (updateWaitCount old new).Consistent) := by
  unfold updateWaitCount
  induction List.finRange maxMloLinks generalizing old with
  | nil => exact ⟨fun _ => UInt32.le_refl _, id⟩
  | cons link rest ih =>
    have hone := updateLinkWaitCount_spec new old link
    have hrest := ih (updateLinkWaitCount new old link)
    exact ⟨hrest.1.trans hone.1, fun h => hrest.2 (hone.2 h)⟩

/-- **The calculation.**  The total of a calculated wait count is the sum of its counts. -/
theorem waitLoop_consistent {inFrameLink : Link} {ts : UInt32} {views : Link → LinkView}
    {links : List Link} {host : Link → SnapshotParams} {w : WaitCount} {r : WaitResult}
    (hnodup : links.Nodup) (hw : w.Consistent) (hzero : ∀ l ∈ links, w.perLinkCount l = 0)
    (h : waitLoop inFrameLink ts views links host w = some r) : r.waitCount.Consistent := by
  induction links generalizing host w with
  | nil =>
    cases h
    exact hw
  | cons link rest ih =>
    obtain ⟨hnotin, hrest⟩ := List.nodup_cons.1 hnodup
    have hnext : ∀ n, (w.add link n).Consistent ∧
        ∀ l ∈ rest, (w.add link n).perLinkCount l = 0 := by
      intro n
      refine ⟨WaitCount.add_consistent hw (hzero link List.mem_cons_self), fun l hl => ?_⟩
      have hne : l ≠ link := fun he => hnotin (he ▸ hl)
      show update w.perLinkCount link n l = 0
      rw [update_of_ne hne]
      exact hzero l (List.mem_cons_of_mem _ hl)
    unfold waitLoop at h
    cases hv : views link with
    | idle =>
      rw [hv] at h
      exact ih hrest (hnext 0).1 (hnext 0).2 h
    | failed =>
      rw [hv] at h
      cases h
      exact hw
    | ready shared =>
      rw [hv] at h
      dsimp only at h
      split at h
      · cases h
        exact hw
      · obtain ⟨n, -, hn⟩ := Option.bind_eq_some_iff.1 h
        exact ih hrest (hnext n).1 (hnext n).2 hn

theorem calculateWaitCount_consistent {inFrameLink : Link} {ts : UInt32}
    {views : Link → LinkView} {host : Link → SnapshotParams} {r : WaitResult}
    (h : calculateWaitCount inFrameLink ts views host = some r) : r.waitCount.Consistent :=
  waitLoop_consistent (List.nodup_finRange _) WaitCount.zero_consistent (fun _ _ => rfl) h

/-! ## Entries -/

/-- The books of an entry: its total is right, and it waits as long as there is something to
wait for. -/
structure Entry.Kept (e : Entry) : Prop where
  total : e.waitCount.Consistent
  waits : e.status.waitForFrameOnOtherLinks = true ↔ e.waitCount.totalCount ≠ 0

/-- A change of the other bits of the status, and of the fields that have nothing to do with the
wait count. -/
structure Entry.SameCounts (e e' : Entry) : Prop where
  id : e.id = e'.id
  seenBefore : e'.seenBefore = e.seenBefore
  lowered : e'.lowered = e.lowered
  waitCount : e'.waitCount = e.waitCount
  waits : e'.status.waitForFrameOnOtherLinks = e.status.waitForFrameOnOtherLinks

/-- What may happen to an entry in a step: its counts go down, on each link by at most `d` for
packet counters, and it stays well kept. -/
structure Entry.Lowers (d : Link → ℕ) (e e' : Entry) : Prop where
  id : e.id = e'.id
  seenBefore : e'.seenBefore = e.seenBefore
  count_le : e'.waitCount.Le e.waitCount
  kept : e.Kept → e'.Kept
  lowered_le : ∀ link, e'.lowered link ≤ e.lowered link + d link

namespace Entry.Lowers

variable {d d' : Link → ℕ} {e e' e'' : Entry}

theorem refl (d : Link → ℕ) (e : Entry) : e.Lowers d e where
  id := rfl
  seenBefore := rfl
  count_le _ := UInt32.le_refl _
  kept h := h
  lowered_le _ := Nat.le_add_right _ _

theorem mono (h : e.Lowers (fun _ => 0) e') (d : Link → ℕ) : e.Lowers d e' :=
  { h with lowered_le := fun link => (h.lowered_le link).trans (Nat.add_le_add_left (Nat.zero_le _) _) }

theorem trans (h : e.Lowers d e') (h' : e'.Lowers d' e'') :
    e.Lowers (fun link => d link + d' link) e'' where
  id := h.id.trans h'.id
  seenBefore := h'.seenBefore.trans h.seenBefore
  count_le := h'.count_le.trans h.count_le
  kept hk := h'.kept (h.kept hk)
  lowered_le link := by
    have h₁ := h.lowered_le link
    have h₂ := h'.lowered_le link
    omega

theorem trans_zero (h : e.Lowers (fun _ => 0) e') (h' : e'.Lowers d e'') : e.Lowers d e'' := by
  simpa only [Nat.zero_add] using h.trans h'

theorem of_sameCounts (h : e.SameCounts e') : e.Lowers d e' where
  id := h.id
  seenBefore := h.seenBefore
  count_le _ := by rw [h.waitCount]; exact UInt32.le_refl _
  kept hk := ⟨by rw [h.waitCount]; exact hk.total, by rw [h.waitCount, h.waits]; exact hk.waits⟩
  lowered_le _ := by rw [h.lowered]; exact Nat.le_add_right _ _

end Entry.Lowers

theorem Entry.setWaitCount_kept {e : Entry} {w : WaitCount} (hk : e.Kept)
    (hle : w.Le e.waitCount) (hw : w.Consistent) : (e.setWaitCount w).Kept where
  total := hw
  waits := by
    unfold Entry.setWaitCount
    dsimp only
    split
    · rename_i hzero
      simp [hzero]
    · rename_i hzero
      rw [hk.waits]
      refine ⟨fun _ => hzero, fun _ hold => hzero ?_⟩
      -- where the old total is zero, so are the old counts, and the new ones with them
      have hsum := hk.total
      have hsum' := hw
      unfold WaitCount.Consistent at hsum hsum'
      rw [hold, UInt64.toNat_zero] at hsum
      have hsumle : ∑ l, (w.perLinkCount l).toNat ≤ ∑ l, (e.waitCount.perLinkCount l).toNat :=
        Finset.sum_le_sum fun l _ => UInt32.le_iff_toNat_le.1 (hle l)
      exact UInt64.toNat_inj.1 (by rw [UInt64.toNat_zero]; omega)

theorem Entry.setWaitCount_lowers {e : Entry} {w : WaitCount} (hle : w.Le e.waitCount)
    (hw : e.waitCount.Consistent → w.Consistent) :
    e.Lowers (fun _ => 0) (e.setWaitCount w) where
  id := rfl
  seenBefore := rfl
  count_le := hle
  kept hk := Entry.setWaitCount_kept hk hle (hw hk.total)
  lowered_le _ := le_rfl

theorem Entry.lowerTo_lowers (e : Entry) (w : WaitCount) : e.Lowers (fun _ => 0) (e.lowerTo w) :=
  Entry.setWaitCount_lowers (updateWaitCount_spec e.waitCount w).1
    (updateWaitCount_spec e.waitCount w).2

theorem Entry.lowers_of_lowerTo {e e' : Entry} {w : WaitCount}
    (h : (e.lowerTo w).SameCounts e') : e.Lowers (fun _ => 0) e' :=
  (e.lowerTo_lowers w).trans_zero (.of_sameCounts h)

theorem countLeft_spec (old : UInt32) (pktCtrDelta : UInt16) :
    countLeft old pktCtrDelta ≤ old ∧
      old.toNat - (countLeft old pktCtrDelta).toNat ≤ pktCtrDelta.toNat := by
  unfold countLeft
  split
  · rename_i hge
    rw [UInt32.le_iff_toNat_le, UInt32.toNat_sub_of_le _ _ hge, UInt16.toNat_toUInt32]
    omega
  · rename_i hlt
    have hlt' := UInt32.lt_iff_toNat_lt.1 (UInt32.not_le.1 hlt)
    rw [UInt16.toNat_toUInt32] at hlt'
    rw [UInt32.le_iff_toNat_le, UInt32.toNat_zero]
    omega

theorem Entry.lowerBy_lowers (link : Link) (pktCtrDelta : UInt16) (e : Entry) :
    e.Lowers (fun l => if l = link then pktCtrDelta.toNat else 0) (e.lowerBy link pktCtrDelta) := by
  obtain ⟨hle, hdiff⟩ := countLeft_spec (e.waitCount.perLinkCount link) pktCtrDelta
  unfold Entry.lowerBy
  split
  · refine ⟨rfl, rfl, WaitCount.lowerLink_le hle, fun hk => ?_, fun l => ?_⟩
    · have hkept := Entry.setWaitCount_kept hk (WaitCount.lowerLink_le hle)
        (WaitCount.lowerLink_consistent hk.total hle)
      exact ⟨hkept.total, hkept.waits⟩
    · show update e.lowered link _ l ≤ _
      by_cases hl : l = link
      · rw [hl, update_self, if_pos rfl, UInt32.toNat_sub_of_le _ _ hle]
        omega
      · rw [update_of_ne hl]
        exact Nat.le_add_right _ _
  · exact .refl _ e

theorem prepareListEntry_kept (id : ℕ) (seen : Link → ℤ) {desc : FrameDescriptor}
    (h : desc.waitCount.Consistent) : (prepareListEntry id seen desc).Kept where
  total := h
  waits := by simp [prepareListEntry]

end MgmtRxReo
