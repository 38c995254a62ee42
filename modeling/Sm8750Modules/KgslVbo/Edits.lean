import Sm8750Modules.KgslVbo.Ranges

/-!
# What a bind and an unbind do

A bind walks over the ranges that meet its window, cuts each of them, and in a VBO without the zero
page unmaps what it cuts. The walk stops where an unmap fails.
-/

namespace KgslVbo

open Intervals Function List

def InWindow (start last p : ℕ) : Prop := start ≤ p * pageSize ∧ p * pageSize ≤ last
deriving Decidable

namespace Mmu

variable {m : Mmu} {start length : ℕ} {f : ℕ → PageMap}

theorem update_fails (h : m.fails.head? = some true) :
    m.update start length f = ({ m with fails := m.fails.tail }, false) := by
  rw [update, if_pos h]

theorem update_succeeds (h : m.fails.head? ≠ some true) :
    m.update start length f =
      (⟨fun p => if InSpan start length p then f p else m.pageMap p, m.fails.tail⟩, true) := by
  rw [update, if_neg h]

end Mmu

section Walk

variable (noMapZero : NoMapZero) (start last : ℕ)

def Splits (r : BindRange) : Prop := r.start < start ∧ last < r.last
deriving Decidable

structure Pages (m₀ : Mmu) (done : List BindRange) (m : Mmu) : Prop where
  cleared : noMapZero = true → ∀ p, InWindow start last p → (∃ r ∈ done, r.Covers p) →
    m.pageMap p = .unmapped
  kept : ∀ p, (noMapZero = true → InWindow start last p → ∀ r ∈ done, ¬r.Covers p) →
    m.pageMap p = m₀.pageMap p

/-- No call has failed in these ranges. -/
structure Cleared (m₀ : Mmu) (done : List BindRange) (m : Mmu) : Prop extends
    Pages noMapZero start last m₀ done m where
  none : m₀.fails = [] → m.fails = []
  quiet : (∀ r ∈ done, ¬Meets BindRange.start BindRange.last start last r) → m.fails = m₀.fails
  split : noMapZero = true → m₀.fails.head? = some true → ∀ r ∈ done, ¬Splits start last r
  zero : noMapZero = false → m = m₀

/-- The walk is behind the ranges of `done`. -/
structure Progress (ranges : List BindRange) (m₀ : Mmu) (count₀ : ℕ → ℤ) (done post : List BindRange)
    (x : Mmu × (ℕ → ℤ)) : Prop where
  list : ranges = done ++ post
  count : ∀ e, x.2 e = count₀ e + ((done.flatMap (trim start last)).countP (·.entry = e) : ℤ) -
    (done.countP (·.entry = e) : ℤ)
  pages : Cleared noMapZero start last m₀ done x.1

/-- The walk has stopped: a range is put back as it was, or a range that was to be split is put back
beside its own far side. -/
def Stopped (ranges : List BindRange) (m₀ : Mmu) (l : List BindRange) (x : Mmu × (ℕ → ℤ)) : Prop :=
  noMapZero = true ∧ m₀.fails ≠ [] ∧
    ((∃ done a post, ranges = done ++ a :: post ∧ l = done.flatMap (trim start last) ++ a :: post ∧
        ¬Splits start last a ∧ Meets BindRange.start BindRange.last start last a ∧
        Pages noMapZero start last m₀ done x.1) ∨
      (m₀.fails.head? = some true ∧ ∃ a ∈ ranges, Splits start last a ∧ a ∈ l ∧
        ⟨last + 1, a.last, a.entry⟩ ∈ l))

variable {noMapZero start last} {ranges done post : List BindRange} {m₀ m : Mmu} {count₀ : ℕ → ℤ}
  {a : BindRange} {x : Mmu × (ℕ → ℤ)} {s len : ℕ}

theorem Cleared.unmapIf (h : Cleared noMapZero start last m₀ done m)
    (hspan : ∀ p, InSpan s len p ↔ InWindow start last p ∧ a.Covers p)
    (hbefore : ∀ r ∈ done, r.last < a.start)
    (hmeets : Meets BindRange.start BindRange.last start last a)
    (hok : (KgslVbo.unmapIf noMapZero m s len).2 = true) :
    Cleared noMapZero start last m₀ (done ++ [a]) (KgslVbo.unmapIf noMapZero m s len).1 := by
  have hquiet : ¬∀ r ∈ done ++ [a], ¬Meets BindRange.start BindRange.last start last r := fun hall =>
    hall a (mem_append_right _ (mem_singleton_self a)) hmeets
  cases noMapZero with
  | false =>
    have hsame : KgslVbo.unmapIf false m s len = (m, true) := rfl
    rw [hsame]
    refine ⟨⟨fun hf => (Bool.noConfusion hf), fun p _ => ?_⟩, h.none, fun hall => absurd hall hquiet,
      fun hf => (Bool.noConfusion hf), h.zero⟩
    exact h.kept p fun hf => (Bool.noConfusion hf)
  | true =>
    have hhead : m.fails.head? ≠ some true := by
      intro hfails
      have hupdate : KgslVbo.unmapIf true m s len = ({ m with fails := m.fails.tail }, false) :=
        Mmu.update_fails hfails
      rw [hupdate] at hok
      cases hok
    have hupdate : KgslVbo.unmapIf true m s len =
        (⟨fun p => if InSpan s len p then .unmapped else m.pageMap p, m.fails.tail⟩, true) :=
      Mmu.update_succeeds hhead
    rw [hupdate]
    refine ⟨⟨fun _ p hp hex => ?_, fun p hp => ?_⟩, fun hnone => ?_, fun hall => absurd hall hquiet,
      fun _ hfail r hr hsplits => ?_, fun hf => (Bool.noConfusion hf)⟩
    · show (if InSpan s len p then PageMap.unmapped else m.pageMap p) = _
      split
      · rfl
      · rename_i hnot
        obtain ⟨r, hr, hcovers⟩ := hex
        rcases mem_append.mp hr with hold | hnew
        · exact h.cleared rfl p hp ⟨r, hold, hcovers⟩
        · rw [mem_singleton.mp hnew] at hcovers
          exact absurd ((hspan p).mpr ⟨hp, hcovers⟩) hnot
    · show (if InSpan s len p then PageMap.unmapped else m.pageMap p) = _
      have hnot : ¬InSpan s len p := fun hin => by
        obtain ⟨hwin, hcovers⟩ := (hspan p).mp hin
        exact hp rfl hwin a (mem_append_right _ (mem_singleton_self a)) hcovers
      rw [if_neg hnot]
      exact h.kept p fun ht hwin r hr => hp ht hwin r (mem_append_left _ hr)
    · show m.fails.tail = []
      rw [h.none hnone, tail_nil]
    · rcases mem_append.mp hr with hold | hnew
      · exact h.split rfl hfail r hold hsplits
      · -- the first call of the walk is the one for this range
        rw [mem_singleton.mp hnew] at hsplits
        refine hhead ?_
        rw [h.quiet fun q hq hmeets' => ?_]
        · exact hfail
        · have hlt := hbefore q hq
          have hstart := hsplits.1
          have := hmeets'.2
          omega

theorem Cleared.unmapIf_fails (h : Cleared noMapZero start last m₀ done m)
    (hfail : (KgslVbo.unmapIf noMapZero m s len).2 = false) :
    noMapZero = true ∧ m₀.fails ≠ [] ∧ m.fails.head? = some true ∧
      Pages noMapZero start last m₀ done (KgslVbo.unmapIf noMapZero m s len).1 := by
  cases noMapZero with
  | false => cases hfail
  | true =>
    by_cases hhead : m.fails.head? = some true
    · have hupdate : KgslVbo.unmapIf true m s len = ({ m with fails := m.fails.tail }, false) :=
        Mmu.update_fails hhead
      rw [hupdate]
      refine ⟨rfl, fun hnone => ?_, hhead, h.cleared, h.kept⟩
      rw [h.none hnone] at hhead
      cases hhead
    · have hupdate : KgslVbo.unmapIf true m s len =
          (⟨fun p => if InSpan s len p then .unmapped else m.pageMap p, m.fails.tail⟩, true) :=
        Mmu.update_succeeds hhead
      rw [hupdate] at hfail
      cases hfail

theorem insertRange_between {pre : List BindRange} {q : BindRange}
    (hpre : ∀ r ∈ pre, r.start < a.start) (hpost : ∀ r ∈ post, a.last < r.start)
    (hq : a.start ≤ q.start ∧ q.start ≤ a.last) :
    insertRange q (pre ++ post) = pre ++ q :: post := by
  refine insertBy_append BindRange.start (fun r hr => ?_) fun r hr => ?_
  · have := hpre r hr
    omega
  · have := hpost r hr
    omega

theorem countCreate_apply (count : ℕ → ℤ) (entry e : ℕ) :
    countCreate count entry e = count e + if entry = e then 1 else 0 := by
  rw [countCreate]
  by_cases h : entry = e
  · rw [h, update_self, if_pos rfl]
  · rw [update_of_ne fun he => h he.symm, if_neg h, add_zero]

theorem countDestroy_apply (count : ℕ → ℤ) (entry e : ℕ) :
    countDestroy count entry e = count e - if entry = e then 1 else 0 := by
  rw [countDestroy]
  by_cases h : entry = e
  · rw [h, update_self, if_pos rfl]
  · rw [update_of_ne fun he => h he.symm, if_neg h, sub_zero]

theorem Progress.count_snoc (h : Progress noMapZero start last ranges m₀ count₀ done (a :: post) x)
    {count : ℕ → ℤ} (hcount : ∀ e, count e = x.2 e +
      ((trim start last a).countP (·.entry = e) : ℤ) - if a.entry = e then 1 else 0) (e : ℕ) :
    count e = count₀ e + (((done ++ [a]).flatMap (trim start last)).countP (·.entry = e) : ℤ) -
      ((done ++ [a]).countP (·.entry = e) : ℤ) := by
  rw [hcount e, h.count e, flatMap_append, flatMap_singleton, countP_append,
    countP_append, countP_singleton]
  by_cases he : a.entry = e
  · simp only [he, decide_true, if_true]
    push_cast
    ring
  · simp only [he, decide_false, if_false, Bool.false_eq_true]
    push_cast
    ring

theorem count_piece {q : BindRange} (hq : q.entry = a.entry) (c : ℤ) (e : ℕ) :
    c = c + ([q].countP (·.entry = e) : ℤ) - if a.entry = e then 1 else 0 := by
  rw [countP_singleton, hq]
  by_cases he : a.entry = e
  · simp only [he, decide_true, if_true, Nat.cast_one, add_sub_cancel_right]
  · simp only [he, decide_false, Bool.false_eq_true, if_false, Nat.cast_zero, add_zero, sub_zero]

theorem trim_whole (hstart : start ≤ a.start) (hlast : a.last ≤ last) : trim start last a = [] := by
  rw [trim, if_neg (Nat.not_lt.mpr hstart), if_neg (Nat.not_lt.mpr hlast)]
  rfl

theorem trim_right (hstart : start ≤ a.start) (hlast : last < a.last) (hmeets : a.start ≤ last) :
    trim start last a = [{ a with start := last + 1 }] := by
  rw [trim, if_neg (Nat.not_lt.mpr hstart), if_pos hlast, max_eq_right (by omega)]
  rfl

theorem trim_left (hstart : a.start < start) (hle : start ≤ last) (hmeets : start ≤ a.last) :
    trim start last a = { a with last := start - 1 } ::
      if last < a.last then [⟨last + 1, a.last, a.entry⟩] else [] := by
  rw [trim, if_pos hstart, min_eq_right (by omega), max_eq_right (by omega)]
  rfl

/-- **The loop body of a bind** cuts the range, or stops the walk. -/
theorem addBody_spec (hapart : Apart BindRange.start BindRange.last ranges)
    (hne : ∀ r ∈ ranges, r.start ≤ r.last) (hle : start ≤ last)
    (h : Progress noMapZero start last ranges m₀ count₀ done (a :: post) x)
    (hmeets : Meets BindRange.start BindRange.last start last a) {pre : List BindRange}
    (hpre : pre = done.flatMap (trim start last)) {r : List BindRange × (Mmu × (ℕ → ℤ)) × Bool}
    (hr : r = addBody noMapZero start last a (pre ++ a :: post) x) :
    (r.1 = (done ++ [a]).flatMap (trim start last) ++ post ∧ r.2.2 = true ∧
        Progress noMapZero start last ranges m₀ count₀ (done ++ [a]) post r.2.1) ∨
      (r.2.2 = false ∧ Stopped noMapZero start last ranges m₀ r.1 r.2.1) := by
  have hlist := h.list
  have hpair := hapart
  rw [hlist] at hpair
  obtain ⟨-, hpost, hcross⟩ := pairwise_append.mp hpair
  have hbefore : ∀ q ∈ done, q.last < a.start := fun q hq => hcross q hq a mem_cons_self
  have hafter : ∀ q ∈ post, a.last < q.start := (pairwise_cons.mp hpost).1
  have hapre : ∀ q ∈ pre, q.start < a.start := by
    intro q hq
    rw [hpre] at hq
    obtain ⟨r, hr, hqr⟩ := mem_flatMap.mp hq
    have hrlist : r ∈ ranges := hlist ▸ mem_append_left _ hr
    obtain ⟨-, -, hq₁, hq₂, -⟩ := of_mem_trim hqr (hne r hrlist)
    have := hbefore r hr
    omega
  have haranges : a ∈ ranges := hlist ▸ mem_append_right _ mem_cons_self
  have hane := hne a haranges
  have hnot : a ∉ pre := fun hmem => Nat.lt_irrefl _ (hapre a hmem)
  have herase : (pre ++ a :: post).erase a = pre ++ post := by
    rw [erase_append_right _ hnot, erase_cons_head]
  have hback : insertRange a (pre ++ post) = pre ++ a :: post :=
    insertRange_between hapre hafter ⟨le_rfl, hane⟩
  have hsnoc : (done ++ [a]).flatMap (trim start last) = pre ++ trim start last a := by
    rw [flatMap_append, flatMap_singleton, hpre]
  have hsplit : ranges = (done ++ [a]) ++ post := by
    rw [hlist, append_assoc]
    rfl
  -- the range is cut, or it is put back and the walk stops
  have hcut : ∀ {p n : ℕ} {count : ℕ → ℤ},
      (∀ q, InSpan p n q ↔ InWindow start last q ∧ a.Covers q) →
      (unmapIf noMapZero x.1 p n).2 = true → (∀ e, count e = x.2 e +
        ((trim start last a).countP (·.entry = e) : ℤ) - if a.entry = e then 1 else 0) →
      r = (pre ++ (trim start last a ++ post), ((unmapIf noMapZero x.1 p n).1, count), true) →
      r.1 = (done ++ [a]).flatMap (trim start last) ++ post ∧ r.2.2 = true ∧
        Progress noMapZero start last ranges m₀ count₀ (done ++ [a]) post r.2.1 := by
    intro p n count hspan hok hcount hr
    rw [hr, hsnoc, append_assoc]
    exact ⟨rfl, rfl, hsplit, h.count_snoc hcount, h.pages.unmapIf hspan hbefore hmeets hok⟩
  have hstop : ∀ {p n : ℕ}, (unmapIf noMapZero x.1 p n).2 ≠ true → ¬Splits start last a →
      r = (pre ++ a :: post, ((unmapIf noMapZero x.1 p n).1, x.2), false) →
      r.2.2 = false ∧ Stopped noMapZero start last ranges m₀ r.1 r.2.1 := by
    intro p n hok hnosplit hr
    obtain ⟨hnz, hne₀, -, hpages⟩ := h.pages.unmapIf_fails (Bool.eq_false_iff.mpr hok)
    rw [hr]
    exact ⟨rfl, hnz, hne₀, .inl ⟨done, a, post, hlist, by rw [hpre], hnosplit, hmeets, hpages⟩⟩
  obtain ⟨hmeets₁, hmeets₂⟩ := hmeets
  rw [addBody, herase] at hr
  dsimp only at hr
  by_cases hstart : start ≤ a.start
  · have hnosplit : ¬Splits start last a := fun hs => Nat.not_lt.mpr hstart hs.1
    rw [if_pos hstart] at hr
    by_cases hlast : a.last ≤ last
    · have htrim := trim_whole hstart hlast
      have hspan : ∀ p, InSpan a.start a.len p ↔ InWindow start last p ∧ a.Covers p := by
        intro p
        rw [InSpan, InWindow, BindRange.Covers, BindRange.len]
        omega
      rw [if_pos hlast] at hr
      by_cases hok : (unmapIf noMapZero x.1 a.start a.len).2 = true
      · rw [if_pos hok] at hr
        refine .inl (hcut hspan hok (fun e => ?_) (by rw [htrim]; exact hr))
        rw [countDestroy_apply, htrim, countP_nil, Nat.cast_zero, add_zero]
      · rw [if_neg hok, hback] at hr
        exact .inr (hstop hok hnosplit hr)
    · have htrim := trim_right hstart (Nat.lt_of_not_le hlast) hmeets₁
      have hspan : ∀ p, InSpan a.start (last - a.start + 1) p ↔ InWindow start last p ∧ a.Covers p := by
        intro p
        rw [InSpan, InWindow, BindRange.Covers]
        omega
      rw [if_neg hlast] at hr
      by_cases hok : (unmapIf noMapZero x.1 a.start (last - a.start + 1)).2 = true
      · have hput : insertRange { a with start := last + 1 } (pre ++ post) =
            pre ++ { a with start := last + 1 } :: post :=
          insertRange_between hapre hafter ⟨by show a.start ≤ last + 1; omega,
            Nat.lt_of_not_le hlast⟩
        rw [if_pos hok, hput] at hr
        refine .inl (hcut hspan hok (fun e => ?_) (by rw [htrim]; exact hr))
        rw [htrim]
        exact count_piece rfl _ e
      · rw [if_neg hok, hback] at hr
        exact .inr (hstop hok hnosplit hr)
  · replace hstart : a.start < start := Nat.lt_of_not_le hstart
    have htrim := trim_left hstart hle hmeets₂
    have hspan : ∀ p, InSpan start (min a.last last - start + 1) p ↔
        InWindow start last p ∧ a.Covers p := by
      intro p
      rw [InSpan, InWindow, BindRange.Covers]
      have hmin : start ≤ min a.last last := le_min hmeets₂ hle
      rw [show start + (min a.last last - start + 1) = min a.last last + 1 by omega,
        Nat.lt_succ_iff, le_min_iff]
      omega
    rw [if_neg (Nat.not_le.mpr hstart)] at hr
    have hput : ∀ (q : BindRange) l, q.start = a.start → (∀ t ∈ l, a.start < t.start) →
        insertRange q (pre ++ l) = pre ++ q :: l := by
      intro q l hq hl
      exact insertBy_append BindRange.start (fun t ht => hq ▸ (hapre t ht).le) fun t ht => hq ▸ hl t ht
    have hlate : ∀ q ∈ post, a.start < q.start := fun q hq => hane.trans_lt (hafter q hq)
    by_cases hfar : last < a.last
    · have hfarPut : insertRange ⟨last + 1, a.last, a.entry⟩ (pre ++ post) =
          pre ++ ⟨last + 1, a.last, a.entry⟩ :: post :=
        insertRange_between hapre hafter ⟨by show a.start ≤ last + 1; omega, hfar⟩
      have hlate' : ∀ q ∈ (⟨last + 1, a.last, a.entry⟩ : BindRange) :: post, a.start < q.start := by
        intro q hq
        rcases mem_cons.mp hq with rfl | hq
        · show a.start < last + 1
          omega
        · exact hlate q hq
      rw [if_pos hfar, if_pos hfar, hfarPut] at hr
      rw [if_pos hfar] at htrim
      by_cases hok : (unmapIf noMapZero x.1 start (min a.last last - start + 1)).2 = true
      · rw [if_pos hok, hput { a with last := start - 1 } _ rfl hlate'] at hr
        refine .inl (hcut hspan hok (fun e => ?_) (by rw [htrim]; exact hr))
        rw [htrim, countCreate_apply, countP_cons, countP_singleton]
        by_cases he : a.entry = e
        · simp only [he, decide_true, if_true]
          push_cast
          ring
        · simp only [he, decide_false, if_false, Bool.false_eq_true]
          push_cast
          ring
      · rw [if_neg hok, hput a _ rfl hlate'] at hr
        obtain ⟨hnz, hne₀, hhead, -⟩ := h.pages.unmapIf_fails (Bool.eq_false_iff.mpr hok)
        have hfirst : m₀.fails.head? = some true := by
          rw [← h.pages.quiet fun q hq hmeets' => ?_]
          · exact hhead
          · have := hbefore q hq
            have := hmeets'.2
            omega
        rw [hr]
        exact .inr ⟨rfl, hnz, hne₀, .inr ⟨hfirst, a, haranges, ⟨hstart, hfar⟩,
          mem_append_right _ mem_cons_self,
          mem_append_right _ (mem_cons_of_mem _ mem_cons_self)⟩⟩
    · rw [if_neg hfar, if_neg hfar] at hr
      rw [if_neg hfar] at htrim
      by_cases hok : (unmapIf noMapZero x.1 start (min a.last last - start + 1)).2 = true
      · rw [if_pos hok, hput { a with last := start - 1 } _ rfl hlate] at hr
        refine .inl (hcut hspan hok (fun e => ?_) (by rw [htrim]; exact hr))
        rw [htrim]
        exact count_piece rfl _ e
      · rw [if_neg hok, hput a _ rfl hlate] at hr
        exact .inr (hstop hok (fun hs => hfar hs.2) hr)

theorem Progress.skip (hne : ∀ r ∈ ranges, r.start ≤ r.last) (hle : start ≤ last)
    (h : Progress noMapZero start last ranges m₀ count₀ done (a :: post) x)
    (hmeets : ¬Meets BindRange.start BindRange.last start last a) :
    trim start last a = [a] ∧ Progress noMapZero start last ranges m₀ count₀ (done ++ [a]) post x := by
  have hane : a.start ≤ a.last := hne a (h.list ▸ mem_append_right _ mem_cons_self)
  have htrim := trim_of_not_meets hane hle hmeets
  have hcovers : ∀ p, InWindow start last p → ¬a.Covers p := fun p hp hc =>
    hmeets ⟨hc.1.trans hp.2, hp.1.trans hc.2⟩
  refine ⟨htrim, ?_, h.count_snoc fun e => ?_, ⟨⟨fun hnz p hp hex => ?_, fun p hp => ?_⟩,
    h.pages.none, fun hall => ?_, fun hnz hfail r hr hsplits => ?_, h.pages.zero⟩⟩
  · rw [h.list, append_assoc]
    rfl
  · rw [htrim]
    exact count_piece rfl _ e
  · obtain ⟨r, hr, hc⟩ := hex
    rcases mem_append.mp hr with hold | hnew
    · exact h.pages.cleared hnz p hp ⟨r, hold, hc⟩
    · rw [mem_singleton.mp hnew] at hc
      exact absurd hc (hcovers p hp)
  · exact h.pages.kept p fun hnz hwin r hr => hp hnz hwin r (mem_append_left _ hr)
  · exact h.pages.quiet fun r hr => hall r (mem_append_left _ hr)
  · rcases mem_append.mp hr with hold | hnew
    · exact h.pages.split hnz hfail r hold hsplits
    · rw [mem_singleton.mp hnew] at hsplits
      refine hmeets ⟨?_, ?_⟩
      · have := hsplits.1
        omega
      · have := hsplits.2
        omega

variable (noMapZero m₀ count₀) in
theorem walk_addBody (hapart : Apart BindRange.start BindRange.last ranges)
    (hne : ∀ r ∈ ranges, r.start ≤ r.last) (hle : start ≤ last)
    {r : List BindRange × (Mmu × (ℕ → ℤ)) × Bool}
    (hr : r = walk BindRange.start BindRange.last (addBody noMapZero start last) start last
      (ranges.length + 1) (iterFirst BindRange.start BindRange.last start last ranges) ranges
      (m₀, count₀)) :
    (r.2.2 = true ∧ r.1 = ranges.flatMap (trim start last) ∧
        Progress noMapZero start last ranges m₀ count₀ ranges [] r.2.1) ∨
      (r.2.2 = false ∧ Stopped noMapZero start last ranges m₀ r.1 r.2.1) := by
  have hinit : ∃ done, ([] : List BindRange) = done.flatMap (trim start last) ∧
      Progress noMapZero start last ranges m₀ count₀ done ranges (m₀, count₀) := by
    refine ⟨[], rfl, rfl, fun e => ?_, ⟨⟨fun _ p _ hex => ?_, fun p _ => rfl⟩, id, fun _ => rfl,
      fun _ _ r hr => (nomatch hr), fun _ => rfl⟩⟩
    · rw [flatMap_nil, countP_nil, Nat.cast_zero, add_zero, sub_zero]
    · obtain ⟨r, hr, -⟩ := hex
      cases hr
  have hrule := @walk_rule _ _ _ BindRange.start BindRange.last (addBody noMapZero start last) start
    last (fun pre post x => ∃ done, pre = done.flatMap (trim start last) ∧
      Progress noMapZero start last ranges m₀ count₀ done post x)
    (Stopped noMapZero start last ranges m₀) ?_ ?_ ?_ _ _ _ _ hinit (Nat.lt_succ_self ranges.length)
  · rw [nil_append, ← hr] at hrule
    rcases hrule with ⟨⟨done, hlist, hprogress⟩, htrue⟩ | hstop
    · have hdone : ranges = done := by
        rw [hprogress.list, append_nil]
      rw [← hdone] at hlist hprogress
      exact .inl ⟨htrue, hlist, hprogress⟩
    · exact .inr hstop
  · rintro pre a post x ⟨done, hpre, h⟩ hmeets
    obtain ⟨htrim, hnext⟩ := h.skip hne hle hmeets
    refine ⟨done ++ [a], ?_, hnext⟩
    rw [flatMap_append, flatMap_singleton, htrim, hpre]
  · rintro pre a post x ⟨done, hpre, h⟩ hmem
    rw [hpre] at hmem
    obtain ⟨q, hq, haq⟩ := mem_flatMap.mp hmem
    have hpair := hapart
    rw [h.list] at hpair
    have hlt := (pairwise_append.mp hpair).2.2 q hq a mem_cons_self
    obtain ⟨-, -, hle₁, hle₂, -⟩ := of_mem_trim haq (hne q (h.list ▸ mem_append_left _ hq))
    omega
  · rintro pre a post x ⟨done, hpre, h⟩ hmeets
    rcases addBody_spec hapart hne hle h hmeets hpre rfl with ⟨hlist, htrue, hnext⟩ | hstop
    · exact .inl ⟨_, hlist, htrue, done ++ [a], rfl, hnext⟩
    · exact .inr hstop

def naming (ranges : List BindRange) (e : ℕ) : ℕ := ranges.countP fun r => r.entry = e

variable (noMapZero start last) in
structure Cut (b : Binding) (m : Mmu) : Prop where
  outside : ∀ p, ¬InWindow start last p → m.pageMap p = b.mmu.pageMap p
  covered : ∀ p, InWindow start last p → (∃ r ∈ b.ranges, r.Covers p) → m.pageMap p = .unmapped
  rest : ∀ p, InWindow start last p → (∀ r ∈ b.ranges, ¬r.Covers p) →
    m.pageMap p = if noMapZero then b.mmu.pageMap p else .unmapped
  none : b.mmu.fails = [] → m.fails = []
  zero : noMapZero = false → b.mmu.fails.head? ≠ some true ∧ m.fails = b.mmu.fails.tail
  split : noMapZero = true → b.mmu.fails.head? = some true → ∀ r ∈ b.ranges, ¬Splits start last r

theorem inSpan_iff (hle : start ≤ last) (p : ℕ) :
    InSpan start (last - start + 1) p ↔ InWindow start last p := by
  rw [InSpan, InWindow]
  omega

theorem Progress.cut {b : Binding} {m : Mmu} {count : ℕ → ℤ}
    (h : Progress true start last b.ranges b.mmu count₀ b.ranges [] (m, count)) :
    Cut true start last b m :=
  ⟨fun p hp => h.pages.kept p fun _ hwin => absurd hwin hp, h.pages.cleared rfl,
    fun p _ hnone => h.pages.kept p fun _ _ => hnone, h.pages.none, fun hf => (Bool.noConfusion hf),
    h.pages.split⟩

/-- **A bind** does nothing, stops at a range, cuts the ranges and maps nothing, or succeeds. -/
theorem addRange_cases (b : Binding) (entry offset : ℕ)
    (hapart : Apart BindRange.start BindRange.last b.ranges)
    (hne : ∀ r ∈ b.ranges, r.start ≤ r.last) (hle : start ≤ last) {r : Binding}
    (hr : r = addRange noMapZero start last entry offset b) :
    (noMapZero = false ∧ b.mmu.fails.head? = some true ∧ r.ranges = b.ranges ∧
      r.mmu.pageMap = b.mmu.pageMap) ∨
    (∃ count, Stopped noMapZero start last b.ranges b.mmu r.ranges (r.mmu, count)) ∨
    (∃ m, Cut noMapZero start last b m ∧ m.fails.head? = some true ∧
      r.ranges = b.ranges.flatMap (trim start last) ∧ r.mmu.pageMap = m.pageMap) ∨
    (∃ m, Cut noMapZero start last b m ∧ m.fails.head? ≠ some true ∧
      r.ranges = insertRange ⟨start, last, entry⟩ (b.ranges.flatMap (trim start last)) ∧
      (r.mmu.pageMap = fun p => if InWindow start last p then
        .child entry ((offset + (p * pageSize - start)) / pageSize) else m.pageMap p) ∧
      ∀ e, r.vboCount e = b.vboCount e + naming r.ranges e - naming b.ranges e) := by
  -- the end of the function, behind the walk
  have hend : ∀ (m₀ m : Mmu) (ranges : List BindRange) (count : ℕ → ℤ),
      Progress noMapZero start last b.ranges m₀ (countCreate b.vboCount entry) b.ranges [] (m, count) →
      ranges = b.ranges.flatMap (trim start last) → Cut noMapZero start last b m →
      r = (if (m.mapChild start entry offset (last - start + 1)).2 then
        ⟨insertRange ⟨start, last, entry⟩ ranges,
          (m.mapChild start entry offset (last - start + 1)).1, count⟩
        else ⟨ranges, (m.mapChild start entry offset (last - start + 1)).1, countDestroy count entry⟩) →
      (∃ m, Cut noMapZero start last b m ∧ m.fails.head? = some true ∧
        r.ranges = b.ranges.flatMap (trim start last) ∧ r.mmu.pageMap = m.pageMap) ∨
      (∃ m, Cut noMapZero start last b m ∧ m.fails.head? ≠ some true ∧
        r.ranges = insertRange ⟨start, last, entry⟩ (b.ranges.flatMap (trim start last)) ∧
        (r.mmu.pageMap = fun p => if InWindow start last p then
          .child entry ((offset + (p * pageSize - start)) / pageSize) else m.pageMap p) ∧
        ∀ e, r.vboCount e = b.vboCount e + naming r.ranges e - naming b.ranges e) := by
    intro m₀ m ranges count hprogress hranges hcut hr
    by_cases hhead : m.fails.head? = some true
    · rw [Mmu.mapChild, Mmu.update_fails hhead, if_neg Bool.false_ne_true] at hr
      refine .inl ⟨m, hcut, hhead, ?_, ?_⟩
      · rw [hr, hranges]
      · rw [hr]
    · rw [Mmu.mapChild, Mmu.update_succeeds hhead, if_pos rfl] at hr
      refine .inr ⟨m, hcut, hhead, ?_, ?_, fun e => ?_⟩
      · rw [hr, hranges]
      · rw [hr]
        funext p
        show (if InSpan start (last - start + 1) p then _ else _) = _
        simp only [inSpan_iff hle]
      · have hcount := hprogress.count e
        dsimp only at hcount
        rw [countCreate_apply, ← hranges] at hcount
        rw [hr]
        show count e = b.vboCount e + (naming (insertRange ⟨start, last, entry⟩ ranges) e : ℤ) -
          naming b.ranges e
        rw [hcount, naming, naming, insertRange, countP_insertBy]
        by_cases he : entry = e
        · simp only [he, decide_true, if_true]
          push_cast
          ring
        · simp only [he, decide_false, Bool.false_eq_true, if_false]
          push_cast
          ring
  rw [addRange] at hr
  dsimp only at hr
  cases noMapZero with
  | true =>
    rw [if_pos rfl, Bool.not_true, if_neg Bool.false_ne_true] at hr
    dsimp only at hr
    obtain ⟨w, hw⟩ : ∃ w, w = walk BindRange.start BindRange.last (addBody true start last) start last
        (b.ranges.length + 1) (iterFirst BindRange.start BindRange.last start last b.ranges) b.ranges
        (b.mmu, countCreate b.vboCount entry) := ⟨_, rfl⟩
    rw [← hw] at hr
    rcases walk_addBody true b.mmu (countCreate b.vboCount entry) hapart hne hle hw with
      ⟨htrue, hlist, hprogress⟩ | ⟨hfalse, hstop⟩
    · rw [htrue, Bool.not_true, if_neg Bool.false_ne_true] at hr
      exact .inr (.inr (hend _ _ _ _ hprogress hlist hprogress.cut hr))
    · rw [hfalse, Bool.not_false, if_pos rfl] at hr
      refine .inr (.inl ⟨w.2.1.2, ?_⟩)
      rw [hr]
      exact hstop
  | false =>
    rw [if_neg Bool.false_ne_true] at hr
    by_cases hhead : b.mmu.fails.head? = some true
    · rw [Mmu.unmapRange, Mmu.update_fails hhead, Bool.not_false, if_pos rfl] at hr
      refine .inl ⟨rfl, hhead, ?_, ?_⟩
      · rw [hr]
      · rw [hr]
    · rw [Mmu.unmapRange, Mmu.update_succeeds hhead, Bool.not_true, if_neg Bool.false_ne_true] at hr
      dsimp only at hr
      obtain ⟨m₀, hm₀⟩ : ∃ m₀ : Mmu, m₀ = ⟨fun p => if InSpan start (last - start + 1) p then
        .unmapped else b.mmu.pageMap p, b.mmu.fails.tail⟩ := ⟨_, rfl⟩
      rw [← hm₀] at hr
      rcases walk_addBody false m₀ (countCreate b.vboCount entry) hapart hne hle rfl with
        ⟨htrue, hlist, hprogress⟩ | ⟨-, hnz, -⟩
      · rw [htrue, Bool.not_true, if_neg Bool.false_ne_true] at hr
        refine .inr (.inr (hend _ _ _ _ hprogress hlist ?_ hr))
        rw [hprogress.pages.zero rfl, hm₀]
        refine ⟨fun p hp => ?_, fun p hp _ => ?_, fun p hp _ => ?_, fun hnone => ?_,
          fun _ => ⟨hhead, rfl⟩, fun hf => (Bool.noConfusion hf)⟩
        · exact if_neg fun hin => hp ((inSpan_iff hle p).mp hin)
        · exact if_pos ((inSpan_iff hle p).mpr hp)
        · exact if_pos ((inSpan_iff hle p).mpr hp)
        · show b.mmu.fails.tail = []
          rw [hnone, tail_nil]
      · cases hnz

end Walk

end KgslVbo
