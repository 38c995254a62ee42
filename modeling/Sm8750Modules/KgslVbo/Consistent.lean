import Sm8750Modules.KgslVbo.Edits

/-!
# Ranges and pages that agree
-/

namespace KgslVbo

open Intervals List

def background (noMapZero : NoMapZero) : PageMap := if noMapZero then .unmapped else .zero

/-- The window of a bind that was accepted. -/
structure Accepted (size start last : ℕ) : Prop where
  le : start ≤ last
  lt : last < size
  aligned : pageSize ∣ start ∧ pageSize ∣ last + 1

/-- **The ranges agree with the pages**: the ranges are disjoint, not empty, aligned and inside the
VBO; each page of a range maps to its entry, and to what `K` says; the other pages map to the zero
page or to nothing. -/
structure Consistent (noMapZero : NoMapZero) (size : ℕ) (K : ℕ → PageMap → Prop)
    (ranges : List BindRange) (pageMap : ℕ → PageMap) : Prop where
  apart : Apart BindRange.start BindRange.last ranges
  inside : ∀ r ∈ ranges, Accepted size r.start r.last
  bound : ∀ r ∈ ranges, ∀ p, r.Covers p → (∃ c, pageMap p = .child r.entry c) ∧ K p (pageMap p)
  free : ∀ p, p * pageSize < size → (∀ r ∈ ranges, ¬r.Covers p) → pageMap p = background noMapZero

section Bind

variable {noMapZero : NoMapZero} {size start last : ℕ} {K K' : ℕ → PageMap → Prop}
  {ranges done post : List BindRange} {m m₀ : Mmu} {b : Binding} {r q : BindRange}

theorem Consistent.nonempty {pageMap : ℕ → PageMap}
    (h : Consistent noMapZero size K ranges pageMap) : ∀ r ∈ ranges, r.start ≤ r.last :=
  fun r hr => (h.inside r hr).le

theorem Accepted.exists_page (h : Accepted size start last) :
    ∃ p, p * pageSize = start ∧ InWindow start last p ∧ p * pageSize < size := by
  obtain ⟨p, hp⟩ := h.aligned.1
  have hpage : p * pageSize = start := by
    rw [hp, Nat.mul_comm]
  have hle := h.le
  have hlt := h.lt
  exact ⟨p, hpage, ⟨hpage.ge, by omega⟩, by omega⟩

theorem Accepted.trim (hr : Accepted size r.start r.last) (hw : Accepted size start last)
    (hq : q ∈ KgslVbo.trim start last r) : Accepted size q.start q.last := by
  obtain ⟨-, -, hle, hlast, -⟩ := of_mem_trim hq hr.le
  refine ⟨hle, hlast.trans_lt hr.lt, ?_, ?_⟩
  · rcases mem_trim.mp hq with ⟨-, rfl⟩ | ⟨-, rfl⟩
    · exact hr.aligned.1
    · rcases max_choice r.start (last + 1) with hmax | hmax
      · exact hmax.symm ▸ hr.aligned.1
      · exact hmax.symm ▸ hw.aligned.2
  · rcases mem_trim.mp hq with ⟨hlt, rfl⟩ | ⟨-, rfl⟩
    · rcases min_choice r.last (start - 1) with hmin | hmin
      · exact hmin.symm ▸ hr.aligned.2
      · have hone : start - 1 + 1 = start := by omega
        show pageSize ∣ min r.last (start - 1) + 1
        rw [hmin, hone]
        exact hw.aligned.1
    · exact hr.aligned.2

theorem covers_of_mem_trim (hr : r.start ≤ r.last) (hq : q ∈ KgslVbo.trim start last r) {p : ℕ}
    (hp : q.Covers p) : r.Covers p ∧ ¬InWindow start last p := by
  obtain ⟨-, hstart, -, hlast, hout⟩ := of_mem_trim hq hr
  refine ⟨⟨hstart.trans hp.1, hp.2.trans hlast⟩, fun hwin => ?_⟩
  have := hp.1
  have := hp.2
  have := hwin.1
  have := hwin.2
  omega

/-- **A bind that stopped** has cut some ranges and unmapped what it cut. -/
theorem Consistent.partial (h : Consistent true size K ranges m₀.pageMap)
    (hw : Accepted size start last) (hlist : ranges = done ++ post)
    (hpages : Pages true start last m₀ done m) :
    Consistent true size K (done.flatMap (trim start last) ++ post) m.pageMap := by
  have hdone : ∀ r ∈ done, r ∈ ranges := fun r hr => hlist ▸ mem_append_left _ hr
  have hpost : ∀ r ∈ post, r ∈ ranges := fun r hr => hlist ▸ mem_append_right _ hr
  have hpair := h.apart
  rw [hlist] at hpair
  obtain ⟨hpairDone, hpairPost, hcross⟩ := pairwise_append.mp hpair
  refine ⟨pairwise_append.mpr ⟨?_, hpairPost, ?_⟩, fun r hr => ?_, fun r hr p hp => ?_,
    fun p hp hnone => ?_⟩
  · exact apart_flatMap_trim hw.le hpairDone fun r hr => h.nonempty r (hdone r hr)
  · intro q hq y hy
    obtain ⟨r, hr, hqr⟩ := mem_flatMap.mp hq
    have hlast := (of_mem_trim hqr (h.nonempty r (hdone r hr))).2.2.2.1
    exact hlast.trans_lt (hcross r hr y hy)
  · rcases mem_append.mp hr with hcut | hold
    · obtain ⟨r', hr', hrr'⟩ := mem_flatMap.mp hcut
      exact (h.inside r' (hdone r' hr')).trim hw hrr'
    · exact h.inside r (hpost r hold)
  · rcases mem_append.mp hr with hcut | hold
    · obtain ⟨r', hr', hrr'⟩ := mem_flatMap.mp hcut
      have hne := h.nonempty r' (hdone r' hr')
      obtain ⟨hcovers, hout⟩ := covers_of_mem_trim hne hrr' hp
      rw [hpages.kept p fun _ hwin => absurd hwin hout, (of_mem_trim hrr' hne).1]
      exact h.bound r' (hdone r' hr') p hcovers
    · rw [hpages.kept p fun _ _ r' hr' hcovers => ?_]
      · exact h.bound r (hpost r hold) p hp
      · have := hcross r' hr' r hold
        have := hcovers.2
        have := hp.1
        omega
  · by_cases hwin : InWindow start last p ∧ ∃ r ∈ done, r.Covers p
    · exact hpages.cleared rfl p hwin.1 hwin.2
    · rw [hpages.kept p fun _ hin r hr hc => hwin ⟨hin, r, hr, hc⟩]
      refine h.free p hp fun r hr hcovers => ?_
      rw [hlist] at hr
      rcases mem_append.mp hr with hold | hold
      · have hout : p * pageSize < start ∨ last < p * pageSize := by
          by_contra hin
          rw [not_or, Nat.not_lt, Nat.not_lt] at hin
          exact hwin ⟨hin, r, hold, hcovers⟩
        obtain ⟨q, hq, hqcovers⟩ := exists_mem_trim hcovers hout
        exact hnone q (mem_append_left _ (mem_flatMap.mpr ⟨r, hold, hq⟩)) hqcovers
      · exact hnone r (mem_append_right _ hold) hcovers

theorem Consistent.bind (h : Consistent noMapZero size K b.ranges b.mmu.pageMap)
    (hw : Accepted size start last) (hcut : Cut noMapZero start last b m) {entry : ℕ}
    {page : ℕ → ℕ} (hK : ∀ p, ¬InWindow start last p → ∀ x, K p x → K' p x)
    (hnew : ∀ p, InWindow start last p → K' p (.child entry (page p))) :
    Consistent noMapZero size K'
      (insertRange ⟨start, last, entry⟩ (b.ranges.flatMap (trim start last)))
      (fun p => if InWindow start last p then .child entry (page p) else m.pageMap p) := by
  have hcutNe : ∀ q ∈ b.ranges.flatMap (trim start last), q.start ≤ q.last ∧
      (q.last < start ∨ last < q.start) := by
    intro q hq
    obtain ⟨r, hr, hqr⟩ := mem_flatMap.mp hq
    obtain ⟨-, -, hle, -, hout⟩ := of_mem_trim hqr (h.nonempty r hr)
    exact ⟨hle, hout⟩
  refine ⟨?_, fun r hr => ?_, fun r hr p hp => ?_, fun p hp hnone => ?_⟩
  · exact (apart_flatMap_trim hw.le h.apart h.nonempty).insertBy hw.le (fun q hq => (hcutNe q hq).1)
      fun q hq => (hcutNe q hq).2
  · rcases (mem_insertBy BindRange.start).mp hr with rfl | hold
    · exact hw
    · obtain ⟨r', hr', hrr'⟩ := mem_flatMap.mp hold
      exact (h.inside r' hr').trim hw hrr'
  · rcases (mem_insertBy BindRange.start).mp hr with rfl | hold
    · have hwin : InWindow start last p := hp
      rw [if_pos hwin]
      exact ⟨⟨page p, rfl⟩, hnew p hwin⟩
    · obtain ⟨r', hr', hrr'⟩ := mem_flatMap.mp hold
      have hne := h.nonempty r' hr'
      obtain ⟨hcovers, hout⟩ := covers_of_mem_trim hne hrr' hp
      rw [if_neg hout, hcut.outside p hout, (of_mem_trim hrr' hne).1]
      obtain ⟨hchild, hk⟩ := h.bound r' hr' p hcovers
      exact ⟨hchild, hK p hout _ hk⟩
  · have hout : ¬InWindow start last p := fun hwin =>
      hnone ⟨start, last, entry⟩ ((mem_insertBy BindRange.start).mpr (.inl rfl)) hwin
    rw [if_neg hout, hcut.outside p hout]
    refine h.free p hp fun r hr hcovers => ?_
    have hout' : p * pageSize < start ∨ last < p * pageSize := by
      by_contra hin
      rw [not_or, Nat.not_lt, Nat.not_lt] at hin
      exact hout hin
    obtain ⟨q, hq, hqcovers⟩ := exists_mem_trim hcovers hout'
    exact hnone q ((mem_insertBy BindRange.start).mpr (.inr (mem_flatMap.mpr ⟨r, hr, hq⟩)))
      hqcovers

theorem Cut.pages (h : Cut true start last b m) : Pages true start last b.mmu b.ranges m := by
  refine ⟨fun _ => h.covered, fun p hp => ?_⟩
  by_cases hwin : InWindow start last p
  · exact h.rest p hwin (hp rfl hwin)
  · exact h.outside p hwin

end Bind

/-! ## An unbind -/

def Matches (entry : Option ℕ) (r : BindRange) : Prop := entry = none ∨ entry = some r.entry
deriving Decidable

def ZeroMapsHold : ℕ → List Bool → Prop
  | 0, _ => True
  | n + 1, fails =>
    if fails.head? = some true then ZeroMapsHold n fails.tail
    else fails.tail.head? ≠ some true ∧ ZeroMapsHold n fails.tail.tail

instance decidableZeroMapsHold : ∀ n fails, Decidable (ZeroMapsHold n fails)
  | 0, _ => isTrue trivial
  | n + 1, fails =>
    have := decidableZeroMapsHold n fails.tail
    have := decidableZeroMapsHold n fails.tail.tail
    inferInstanceAs (Decidable (if fails.head? = some true then ZeroMapsHold n fails.tail
      else fails.tail.head? ≠ some true ∧ ZeroMapsHold n fails.tail.tail))

theorem zeroMapsHold_nil (n : ℕ) : ZeroMapsHold n [] := by
  induction n with
  | zero => trivial
  | succ n ih =>
    rw [ZeroMapsHold, if_neg (by decide)]
    exact ⟨by decide, ih⟩

def Bare (size : ℕ) (ranges : List BindRange) (pageMap : ℕ → PageMap) : Prop :=
  ∃ p, p * pageSize < size ∧ (∀ r ∈ ranges, ¬r.Covers p) ∧ pageMap p = .unmapped

section Unbind

variable {noMapZero : NoMapZero} {size start last : ℕ} {K : ℕ → PageMap → Prop}
  {pre post : List BindRange} {pageMap : ℕ → PageMap} {a : BindRange} {b : Binding} {entry : Option ℕ}

theorem inSpan_len (hle : a.start ≤ a.last) (p : ℕ) : InSpan a.start a.len p ↔ a.Covers p := by
  rw [InSpan, BindRange.Covers, BindRange.len]
  omega

theorem Consistent.remove (h : Consistent noMapZero size K (pre ++ a :: post) pageMap) :
    Consistent noMapZero size K (pre ++ post)
      (fun p => if a.Covers p then background noMapZero else pageMap p) := by
  have hsub : ∀ r ∈ pre ++ post, r ∈ pre ++ a :: post := by
    intro r hr
    rcases mem_append.mp hr with hpre | hpost
    · exact mem_append_left _ hpre
    · exact mem_append_right _ (mem_cons_of_mem a hpost)
  have hne : ∀ r ∈ pre ++ post, ∀ p, r.Covers p → ¬a.Covers p := by
    intro r hr p hp ha
    have hparts := pairwise_append.mp h.apart
    rcases mem_append.mp hr with hpre | hpost
    · have := hparts.2.2 r hpre a mem_cons_self
      have := hp.2
      have := ha.1
      omega
    · have := (pairwise_cons.mp hparts.2.1).1 r hpost
      have := ha.2
      have := hp.1
      omega
  refine ⟨?_, fun r hr => h.inside r (hsub r hr), fun r hr p hp => ?_, fun p hp hnone => ?_⟩
  · exact h.apart.sublist ((List.Sublist.refl pre).append (sublist_cons_self a post))
  · rw [if_neg (hne r hr p hp)]
    exact h.bound r (hsub r hr) p hp
  · split
    · rfl
    · rename_i hnot
      refine h.free p hp fun r hr hcovers => ?_
      rcases mem_append.mp hr with hpre | hpost
      · exact hnone r (mem_append_left _ hpre) hcovers
      · rcases mem_cons.mp hpost with rfl | hpost
        · exact hnot hcovers
        · exact hnone r (mem_append_right _ hpost) hcovers

/-- What an unbind has done behind some of the ranges. -/
structure Unbound (noMapZero : NoMapZero) (size start last : ℕ) (K : ℕ → PageMap → Prop)
    (entry : Option ℕ) (b : Binding) (pre post : List BindRange) (x : Mmu × (ℕ → ℤ)) : Prop where
  apart : Apart BindRange.start BindRange.last (pre ++ post)
  sub : ∀ r ∈ pre ++ post, r ∈ b.ranges
  count : ∀ e, x.2 e = b.vboCount e + naming (pre ++ post) e - naming b.ranges e
  state : (Consistent noMapZero size K (pre ++ post) x.1.pageMap ∧
      (noMapZero = false → (ZeroMapsHold (post.countP fun r =>
        Meets BindRange.start BindRange.last start last r ∧ Matches entry r) x.1.fails ↔
        ZeroMapsHold (b.ranges.countP fun r =>
          Meets BindRange.start BindRange.last start last r ∧ Matches entry r) b.mmu.fails))) ∨
    (noMapZero = false ∧ ¬ZeroMapsHold (b.ranges.countP fun r =>
        Meets BindRange.start BindRange.last start last r ∧ Matches entry r) b.mmu.fails ∧
      Bare size (pre ++ post) x.1.pageMap)

variable {x : Mmu × (ℕ → ℤ)}

theorem meant_cons (ha : Meets BindRange.start BindRange.last start last a ∧ Matches entry a) :
    ((a :: post).countP fun r =>
      Meets BindRange.start BindRange.last start last r ∧ Matches entry r) =
      (post.countP fun r =>
        Meets BindRange.start BindRange.last start last r ∧ Matches entry r) + 1 := by
  rw [countP_cons_of_pos]
  exact decide_eq_true ha

section

variable (h : Unbound noMapZero size start last K entry b pre (a :: post) x)
include h

theorem Unbound.keep
    (ha : ¬(Meets BindRange.start BindRange.last start last a ∧ Matches entry a)) :
    Unbound noMapZero size start last K entry b (pre ++ [a]) post x := by
  have hlist : pre ++ [a] ++ post = pre ++ a :: post := append_assoc _ _ _
  refine ⟨hlist ▸ h.apart, hlist ▸ h.sub, hlist ▸ h.count, ?_⟩
  rw [hlist]
  have hcount := h.state
  rw [countP_cons_of_neg (by simpa using ha)] at hcount
  exact hcount

theorem Unbound.unmapFails
    (ha : Meets BindRange.start BindRange.last start last a ∧ Matches entry a)
    (hhead : x.1.fails.head? = some true) :
    Unbound noMapZero size start last K entry b (pre ++ [a]) post
      ({ x.1 with fails := x.1.fails.tail }, x.2) := by
  have hlist : pre ++ [a] ++ post = pre ++ a :: post := append_assoc _ _ _
  refine ⟨hlist ▸ h.apart, hlist ▸ h.sub, hlist ▸ h.count, ?_⟩
  rw [hlist]
  refine h.state.imp_left fun hgood => ⟨hgood.1, fun hnz => ?_⟩
  have hiff := hgood.2 hnz
  rw [meant_cons ha, ZeroMapsHold, if_pos hhead] at hiff
  exact hiff

theorem Unbound.count_remove
    (e : ℕ) : countDestroy x.2 a.entry e = b.vboCount e + naming (pre ++ post) e - naming b.ranges e := by
  have hcount := h.count e
  have hnaming : naming (pre ++ a :: post) e = naming (pre ++ post) e + if a.entry = e then 1 else 0 := by
    rw [naming, naming, countP_append, countP_append, countP_cons]
    simp only [decide_eq_true_eq]
    exact (Nat.add_assoc _ _ _).symm
  rw [countDestroy_apply, hcount, hnaming]
  push_cast
  ring

theorem Unbound.remove
    (hle : a.start ≤ a.last) (hsize : a.start < size ∧ pageSize ∣ a.start)
    (ha : Meets BindRange.start BindRange.last start last a ∧ Matches entry a)
    (hhead : x.1.fails.head? ≠ some true) {m : Mmu}
    (hm : m = (⟨fun p => if a.Covers p then .unmapped else x.1.pageMap p, x.1.fails.tail⟩ : Mmu)) :
    Unbound noMapZero size start last K entry b pre post
      (if noMapZero then m else (m.mapZeroPageToRange a.start a.len).1, countDestroy x.2 a.entry) := by
  have hsublist : (pre ++ post).Sublist (pre ++ a :: post) :=
    (List.Sublist.refl pre).append (sublist_cons_self a post)
  refine ⟨h.apart.sublist hsublist, fun r hr => h.sub r (hsublist.subset hr), h.count_remove, ?_⟩
  have hstate := h.state
  rw [meant_cons ha, ZeroMapsHold, if_neg hhead] at hstate
  cases noMapZero with
  | true =>
    rw [if_pos rfl]
    rcases hstate with ⟨hgood, -⟩ | ⟨hf, -⟩
    · refine .inl ⟨?_, fun hf => (Bool.noConfusion hf)⟩
      rw [hm]
      exact hgood.remove
    · cases hf
  | false =>
    rw [if_neg Bool.false_ne_true]
    by_cases hzero : m.fails.head? = some true
    · -- the pages of the range stay without a mapping
      rw [Mmu.mapZeroPageToRange, Mmu.update_fails hzero]
      rw [hm] at hzero
      refine .inr ⟨rfl, ?_, ?_⟩
      · rcases hstate with ⟨-, hiff⟩ | ⟨-, hnot, -⟩
        · exact fun hhold => ((hiff rfl).mpr hhold).1 hzero
        · exact hnot
      · rw [hm]
        rcases hstate with ⟨hgood, -⟩ | ⟨-, -, p, hp, hnone, hpage⟩
        · obtain ⟨p, hp⟩ := hsize.2
          have hpage : p * pageSize = a.start := by
            rw [hp, Nat.mul_comm]
          have hcovers : a.Covers p := ⟨hpage.ge, hpage.trans_le hle⟩
          refine ⟨p, hpage.trans_lt hsize.1, fun r hr hrp => ?_, if_pos hcovers⟩
          have hcross := pairwise_append.mp hgood.apart
          rcases mem_append.mp hr with hpre | hpost
          · have := hcross.2.2 r hpre a mem_cons_self
            have := hrp.2
            omega
          · have := (pairwise_cons.mp hcross.2.1).1 r hpost
            have := hrp.1
            omega
        · refine ⟨p, hp, fun r hr => hnone r (hsublist.subset hr), ?_⟩
          show (if a.Covers p then PageMap.unmapped else x.1.pageMap p) = _
          rw [if_neg (hnone a (mem_append_right _ mem_cons_self)), hpage]
    · have hspan : ∀ p, InSpan a.start a.len p ↔ a.Covers p := inSpan_len hle
      rw [Mmu.mapZeroPageToRange, Mmu.update_succeeds hzero]
      rw [hm] at hzero ⊢
      dsimp only at hzero ⊢
      simp only [hspan]
      rcases hstate with ⟨hgood, hiff⟩ | ⟨-, hnot, p, hp, hnone, hpage⟩
      · refine .inl ⟨?_, fun _ => ?_⟩
        · have hpages : (fun p => if a.Covers p then PageMap.zero else
              if a.Covers p then PageMap.unmapped else x.1.pageMap p) =
              fun p => if a.Covers p then background false else x.1.pageMap p := by
            funext p
            split
            · rfl
            · rfl
          rw [hpages]
          exact hgood.remove
        · rw [← hiff rfl]
          exact ⟨fun hhold => ⟨hzero, hhold⟩, fun hhold => hhold.2⟩
      · refine .inr ⟨trivial, hnot, p, hp, fun r hr => hnone r (hsublist.subset hr), ?_⟩
        have hna := hnone a (mem_append_right _ mem_cons_self)
        dsimp only
        rw [if_neg hna, if_neg hna, hpage]

end

/-- **An unbind** takes out the ranges that it means, and keeps the agreement exactly when no call
that maps the zero page fails. -/
theorem removeRange_cases (h : Consistent noMapZero size K b.ranges b.mmu.pageMap) {r : Binding}
    (hr : r = removeRange noMapZero start last entry b) :
    Unbound noMapZero size start last K entry b r.ranges [] (r.mmu, r.vboCount) := by
  have hinit : Unbound noMapZero size start last K entry b [] b.ranges (b.mmu, b.vboCount) :=
    ⟨h.apart, fun r hr => hr, fun e => (add_sub_cancel_right _ _).symm, .inl ⟨h, fun _ => Iff.rfl⟩⟩
  have hrule := @walk_rule _ _ _ BindRange.start BindRange.last (removeBody noMapZero entry) start last
    (Unbound noMapZero size start last K entry b) (fun _ _ => False) ?_ ?_ ?_ _ _ _ _ hinit
    (Nat.lt_succ_self b.ranges.length)
  · rw [removeRange] at hr
    rw [hr]
    exact (hrule.resolve_right fun hE => hE.2).1
  · intro pre a post x h hmeets
    exact h.keep fun hboth => hmeets hboth.1
  · intro pre a post x hx hmem
    have hne := h.nonempty a (hx.sub a (mem_append_left _ hmem))
    have := (pairwise_append.mp hx.apart).2.2 a hmem a mem_cons_self
    omega
  · intro pre a post x hx hmeets
    have hmem := hx.sub a (mem_append_right _ mem_cons_self)
    have haccepted := h.inside a hmem
    left
    by_cases hmatch : Matches entry a
    · have hmatch' : entry = none ∨ entry = some a.entry := hmatch
      rw [removeBody, if_pos hmatch']
      dsimp only
      by_cases hhead : x.1.fails.head? = some true
      · rw [Mmu.unmapRange, Mmu.update_fails hhead, if_neg Bool.false_ne_true]
        refine ⟨pre ++ [a], ?_, rfl, hx.unmapFails ⟨hmeets, hmatch⟩ hhead⟩
        rw [append_assoc]
        rfl
      · have hnot : a ∉ pre := by
          intro hpre
          have := (pairwise_append.mp hx.apart).2.2 a hpre a mem_cons_self
          have := haccepted.le
          omega
        have herase : (pre ++ a :: post).erase a = pre ++ post := by
          rw [erase_append_right _ hnot, erase_cons_head]
        have hspan : ∀ p, InSpan a.start a.len p ↔ a.Covers p := inSpan_len haccepted.le
        rw [Mmu.unmapRange, Mmu.update_succeeds hhead, if_pos rfl, herase]
        simp only [hspan]
        exact ⟨pre, rfl, trivial, hx.remove haccepted.le
          ⟨haccepted.le.trans_lt haccepted.lt, haccepted.aligned.1⟩ ⟨hmeets, hmatch⟩ hhead rfl⟩
    · have hmatch' : ¬(entry = none ∨ entry = some a.entry) := hmatch
      rw [removeBody, if_neg hmatch']
      refine ⟨pre ++ [a], ?_, rfl, hx.keep fun hboth => hmatch hboth.2⟩
      rw [append_assoc]
      rfl

end Unbind

end KgslVbo
