import Sm8750Modules.KgslVbo.Agree

/-!
# Calls of the MMU that fail

Any call of the MMU in a part of a worker may fail, and then leaves the page table as it was.
-/

namespace KgslVbo

open Intervals Runs Function List

/-- Ranges are disjoint and their pages are mapped to their entries. -/
structure Survives (noMapZero : NoMapZero) (size : ℕ) (ranges : List BindRange)
    (pageMap : ℕ → PageMap) : Prop where
  apart : Apart BindRange.start BindRange.last ranges
  bound : ∀ r ∈ ranges, ∀ p, r.Covers p → ∃ c, pageMap p = .child r.entry c
  outside : ∀ p, p * pageSize < size → (∀ r ∈ ranges, ¬r.Covers p) →
    (∀ e c, pageMap p ≠ .child e c) ∧ (noMapZero = false → pageMap p = .zero)

theorem Consistent.survives {noMapZero : NoMapZero} {size : ℕ} {K : ℕ → PageMap → Prop}
    {ranges : List BindRange} {pageMap : ℕ → PageMap}
    (h : Consistent noMapZero size K ranges pageMap) : Survives noMapZero size ranges pageMap := by
  refine ⟨h.apart, fun r hr p hp => (h.bound r hr p hp).1, fun p hp hnone => ?_⟩
  rw [h.free p hp hnone]
  cases noMapZero with
  | true => exact ⟨fun e c => (nomatch ·), fun hf => (nomatch hf)⟩
  | false => exact ⟨fun e c => (nomatch ·), fun _ => rfl⟩

/-- In a zero-mapped VBO the map of the child does not fail behind an unmap that succeeded. -/
def BindCareful (noMapZero : NoMapZero) (start last : ℕ) (ranges : List BindRange)
    (fails : List Bool) : Prop :=
  if noMapZero then ¬(fails.head? = some true ∧ ∃ r ∈ ranges, Splits start last r)
  else ¬(fails.head? ≠ some true ∧ fails.tail.head? = some true)
deriving Decidable

def UnbindCareful (noMapZero : NoMapZero) (start last : ℕ) (entry : Option ℕ) (ranges : List BindRange)
    (fails : List Bool) : Prop :=
  noMapZero = false → ZeroMapsHold (ranges.countP fun r =>
    Meets BindRange.start BindRange.last start last r ∧ Matches entry r) fails
deriving Decidable

section Edits

variable {noMapZero : NoMapZero} {size start last entry offset : ℕ} {K : ℕ → PageMap → Prop}
  {b r : Binding} {o : Option ℕ} {m : Mmu} {a : BindRange}

theorem Consistent.eq_of_splits {pageMap : ℕ → PageMap} {ranges : List BindRange}
    (h : Consistent noMapZero size K ranges pageMap) (hle : start ≤ last) {x : BindRange} (hx : x ∈ ranges)
    (hsplits : Splits start last x) (ha : a ∈ ranges)
    (hmeets : Meets BindRange.start BindRange.last start last a) : a = x := by
  obtain ⟨hstart, hlast⟩ := hsplits
  obtain ⟨hmeets₁, hmeets₂⟩ := hmeets
  have hane := h.nonempty a ha
  refine h.apart.eq_of_mem (p := max a.start start) ha hx ⟨le_max_left _ _, max_le hane hmeets₂⟩ ?_
  exact ⟨hstart.le.trans (le_max_right _ _), (max_le hmeets₁ hle).trans hlast.le⟩

theorem addRange_survives (h : Consistent noMapZero size (fun _ _ => True) b.ranges b.mmu.pageMap)
    (hw : Accepted size start last) (hr : r = addRange noMapZero start last entry offset b) :
    (BindCareful noMapZero start last b.ranges b.mmu.fails ∧
        Consistent noMapZero size (fun _ _ => True) r.ranges r.mmu.pageMap) ∨
      (¬BindCareful noMapZero start last b.ranges b.mmu.fails ∧
        ¬Survives noMapZero size r.ranges r.mmu.pageMap) := by
  rcases addRange_cases b entry offset h.apart h.nonempty hw.le hr with
    ⟨hnz, hhead, hranges, hpages⟩ | ⟨count, hstopped⟩ | ⟨m, hcut, hhead, hranges, hpages⟩ |
    ⟨m, hcut, hhead, hranges, hpages, -⟩
  · -- the unmap of the window failed
    left
    rw [BindCareful, hnz, if_neg Bool.false_ne_true, hranges, hpages, ← hnz]
    exact ⟨fun hboth => hboth.1 hhead, h⟩
  · obtain ⟨hnz, -, hhow⟩ := hstopped
    rw [BindCareful, hnz, if_pos rfl]
    rw [hnz] at h
    rcases hhow with ⟨done, a, post, hlist, hl, hnosplit, hmeets, hpages⟩ | ⟨hhead, a, ha, hsplits, hmem, hfar⟩
    · left
      refine ⟨fun hboth => ?_, ?_⟩
      · obtain ⟨-, x, hx, hsplits⟩ := hboth
        have ha : a ∈ b.ranges := hlist ▸ mem_append_right _ mem_cons_self
        exact hnosplit (h.eq_of_splits hw.le hx hsplits ha hmeets ▸ hsplits)
      · rw [hnz] at hpages
        rw [hl]
        exact h.partial hw hlist hpages
    · -- the range lies beside its own far side
      right
      refine ⟨fun hnot => hnot ⟨hhead, a, ha, hsplits⟩, fun hsurvives => ?_⟩
      have heq := hsurvives.apart.eq_of_mem (p := a.last) hmem hfar ⟨h.nonempty a ha, le_rfl⟩
        ⟨hsplits.2, le_rfl⟩
      have hstart : a.start = last + 1 := congrArg BindRange.start heq
      have := hsplits.1
      have := hw.le
      omega
  · cases noMapZero with
    | true =>
      left
      rw [BindCareful, if_pos rfl]
      refine ⟨fun hboth => ?_, ?_⟩
      · obtain ⟨hfirst, x, hx, hsplits⟩ := hboth
        exact hcut.split rfl hfirst x hx hsplits
      · have hpartial := h.partial hw (append_nil b.ranges).symm hcut.pages
        rw [append_nil] at hpartial
        rw [hranges, hpages]
        exact hpartial
    | false =>
      -- the window is mapped to nothing
      right
      obtain ⟨hfirst, hfails⟩ := hcut.zero rfl
      rw [BindCareful, if_neg Bool.false_ne_true, hranges, hpages]
      rw [hfails] at hhead
      refine ⟨fun hnot => hnot ⟨hfirst, hhead⟩, fun hsurvives => ?_⟩
      obtain ⟨p, -, hwin, hsize⟩ := hw.exists_page
      have hzero := (hsurvives.outside p hsize fun q hq hcovers => ?_).2 rfl
      · by_cases hex : ∃ x ∈ b.ranges, x.Covers p
        · rw [hcut.covered p hwin hex] at hzero
          cases hzero
        · rw [hcut.rest p hwin fun x hx hc => hex ⟨x, hx, hc⟩] at hzero
          cases hzero
      · obtain ⟨x, hx, hqx⟩ := mem_flatMap.mp hq
        exact (covers_of_mem_trim (h.nonempty x hx) hqx hcovers).2 hwin
  · left
    refine ⟨?_, ?_⟩
    · cases noMapZero with
      | true =>
        rw [BindCareful, if_pos rfl]
        intro hboth
        obtain ⟨hfirst, x, hx, hsplits⟩ := hboth
        exact hcut.split rfl hfirst x hx hsplits
      | false =>
        obtain ⟨-, hfails⟩ := hcut.zero rfl
        rw [BindCareful, if_neg Bool.false_ne_true, ← hfails]
        exact fun hboth => hhead hboth.2
    · rw [hranges, hpages]
      exact h.bind hw hcut (fun _ _ _ _ => trivial) fun _ _ => trivial

theorem removeRange_survives (h : Consistent noMapZero size K b.ranges b.mmu.pageMap)
    (hr : r = removeRange noMapZero start last o b) :
    (UnbindCareful noMapZero start last o b.ranges b.mmu.fails ∧
        Consistent noMapZero size K r.ranges r.mmu.pageMap) ∨
      (¬UnbindCareful noMapZero start last o b.ranges b.mmu.fails ∧
        ¬Survives noMapZero size r.ranges r.mmu.pageMap) := by
  have hun := removeRange_cases h hr
  rcases hun.state with ⟨hgood, hiff⟩ | ⟨hnz, hbad, p, hp, hnone, hpage⟩
  · rw [append_nil] at hgood
    exact .inl ⟨fun hnz => (hiff hnz).mp trivial, hgood⟩
  · rw [append_nil] at hnone
    refine .inr ⟨fun hcareful => hbad (hcareful hnz), fun hsurvives => ?_⟩
    rw [(hsurvives.outside p hp hnone).2 hnz] at hpage
    cases hpage

end Edits

/-! ## Runs -/

def AllSurvive (s : State) : Prop :=
  ∀ v e, s.entries v = some e → e.vbo = true → Survives e.noMapZero e.size (s.ranges v) (s.pageMap v)

/-- The failures of a part are careful. -/
def CarefulSlot (s : State) (v : ℕ) (e : Entry) (slot : BindSlot) (fails : List Bool) : Prop :=
  if slot.op = .bind then
    (slot.entry.any s.bindable) = true →
      BindCareful e.noMapZero slot.start slot.last (s.ranges v) fails
  else UnbindCareful e.noMapZero slot.start slot.last slot.entry (s.ranges v) fails
deriving Decidable

/-- The failures of a step are careful. -/
def Careful (s : State) : Action → Prop
  | .work i fails => ∀ op ∈ s.ops[i]?, ∀ slot ∈ (op.work.getD []).head?, ∀ e ∈ s.entries op.target,
      CarefulSlot s op.target e slot fails
  | _ => True

instance (s : State) : ∀ a, Decidable (Careful s a)
  | .work _ _ => inferInstanceAs (Decidable (∀ op ∈ s.ops[_]?, _))
  | .createBindOp _ _ | .alloc _ _ | .allocVbo _ _ _ _ | .pendFree _ | .bindRanges _ | .finish _
  | .put _ => isTrue trivial

section Runs

variable {s : State} {v i : ℕ} {e : Entry} {slot : BindSlot} {rest : List BindSlot} {op : BindOp}
  {fails : List Bool}

/-- **A part** keeps the invariant, or leaves a VBO that does not survive. -/
theorem Sound.runSlot_survives (h : Sound (fun _ _ _ => True) s) (he : s.entries v = some e)
    (hvbo : e.vbo = true) (hslot : SlotOk e.size slot) :
    (CarefulSlot s v e slot fails ∧ Sound (fun _ _ _ => True) (s.runSlot v slot fails)) ∨
      (¬CarefulSlot s v e slot fails ∧ ¬AllSurvive (s.runSlot v slot fails)) := by
  obtain ⟨-, hconsistent⟩ := h.flagged v e he hvbo
  have hbroken : ∀ {b : Binding} {bound : List Bound}, ¬Survives e.noMapZero e.size b.ranges b.mmu.pageMap →
      ¬AllSurvive (s.edited v b bound) := by
    intro b bound hnot hall
    have hv : Survives e.noMapZero e.size (update s.ranges v b.ranges v)
        (update s.pageMap v b.mmu.pageMap v) := hall v e he hvbo
    rw [update_self, update_self] at hv
    exact hnot hv
  rcases runSlot_cases he slot fails with ⟨hbind, hskip, hsame⟩ | ⟨entry, hbind, hentry, hb, hsame⟩ |
    ⟨hnot, hsame⟩
  · left
    rw [CarefulSlot, if_pos hbind, hsame]
    refine ⟨fun hany => ?_, h⟩
    cases hentry : slot.entry with
    | none =>
      rw [hentry] at hany
      cases hany
    | some entry =>
      have hb : s.bindable entry = true := by
        rw [hentry] at hany
        exact hany
      rw [hskip entry hentry] at hb
      cases hb
  · have hany : slot.entry.any s.bindable = true := by
      rw [hentry]
      exact hb
    rw [CarefulSlot, if_pos hbind, hsame]
    rcases @addRange_survives _ _ _ _ entry slot.childOffset (s.binding v fails) _ hconsistent
      hslot.window rfl with ⟨hcareful, hgood⟩ | ⟨hbad, hnot⟩
    · exact .inl ⟨fun _ => hcareful, h.edited he hgood⟩
    · exact .inr ⟨fun hall => hbad (hall hany), hbroken hnot⟩
  · rw [CarefulSlot, if_neg hnot, hsame]
    rcases @removeRange_survives _ _ slot.start slot.last _ (s.binding v fails) _ slot.entry
      hconsistent rfl with ⟨hcareful, hgood⟩ | ⟨hbad, hnot⟩
    · exact .inl ⟨hcareful, h.edited he hgood⟩
    · exact .inr ⟨hbad, hbroken hnot⟩

/-- **A step of a worker** keeps the invariant exactly when its failures are careful. -/
theorem Sound.work_survives (h : Sound (fun _ _ _ => True) s) (ha : Enabled s (.work i fails)) :
    (Careful s (.work i fails) ∧ Sound (fun _ _ _ => True) (KgslVbo.next s (.work i fails))) ∨
      (¬Careful s (.work i fails) ∧ ¬AllSurvive (KgslVbo.next s (.work i fails))) := by
  obtain ⟨op, hop, hne⟩ := ha
  have hop' : s.ops[i]? = some op := hop
  have hmem := List.mem_of_getElem? hop'
  obtain ⟨l, hl⟩ : ∃ l, op.work = some l := by
    cases hwork : op.work with
    | none =>
      rw [hwork] at hne
      exact absurd rfl hne
    | some l => exact ⟨l, rfl⟩
  rw [hl] at hne
  obtain ⟨slot, rest, rfl⟩ := exists_cons_of_ne_nil hne
  obtain ⟨e, he, hvbo, hslots⟩ := h.target op hmem
  have hslot := hslots slot (h.work op hmem _ hl slot mem_cons_self)
  have hcareful : Careful s (.work i fails) ↔ CarefulSlot s op.target e slot fails := by
    refine ⟨fun hall => ?_, fun hone op' hop₁ slot' hslot' e' he' => ?_⟩
    · refine hall op hop slot ?_ e he
      rw [hl]
      exact rfl
    · have hopeq : op = op' := Option.some.inj (hop'.symm.trans hop₁)
      rw [← hopeq] at hslot' he' ⊢
      rw [hl] at hslot'
      have hsloteq : slot = slot' := Option.some.inj hslot'
      have heeq : e = e' := Option.some.inj (he.symm.trans he')
      rw [← hsloteq, ← heeq]
      exact hone
  rw [hcareful]
  rcases @Sound.runSlot_survives _ _ _ _ fails h he hvbo hslot with ⟨hone, hgood⟩ | ⟨hbad, hnot⟩
  · exact .inl ⟨hone, h.work_next hop' hl hgood (runSlot_ops _ _ _ _)⟩
  · refine .inr ⟨hbad, fun hall => hnot ?_⟩
    rw [next_work hop' hl] at hall
    exact hall

theorem Sound.allSurvive {K : List Bound → ℕ → PageMap → Prop} (h : Sound K s) : AllSurvive s :=
  fun v e he hvbo => (h.flagged v e he hvbo).2.survives

theorem sound_of_reachable (h : (bindMachine Careful).Reachable s) : Sound (fun _ _ _ => True) s := by
  refine h.invariant (fun s hs => ?_) fun s a hi ha => ?_
  · have hs' : s = initial := hs
    rw [hs']
    exact sound_initial
  · obtain ⟨henabled, hcareful⟩ := ha
    by_cases hwork : ∃ i fails, a = .work i fails
    · obtain ⟨i, fails, rfl⟩ := hwork
      rcases hi.work_survives henabled with ⟨-, hgood⟩ | ⟨hbad, -⟩
      · exact hgood
      · exact absurd hcareful hbad
    · exact hi.next henabled fun i fails ha => hwork ⟨i, fails, ha⟩

/-- **Bindings survive** as long as all failures are careful, and a part of a worker in such a state
leaves them intact exactly when its failures are careful. -/
theorem survives_of_reachable (h : (bindMachine Careful).Reachable s) :
    AllSurvive s ∧ ∀ i fails, Enabled s (.work i fails) →
      (AllSurvive (next s (.work i fails)) ↔ Careful s (.work i fails)) := by
  have hinv := sound_of_reachable h
  refine ⟨hinv.allSurvive, fun i fails hi => ?_⟩
  rcases hinv.work_survives hi with ⟨hcareful, hgood⟩ | ⟨hbad, hnot⟩
  · exact ⟨fun _ => hcareful, fun _ => hgood.allSurvive⟩
  · exact ⟨fun hall => absurd hall hnot, fun hcareful => absurd hcareful hbad⟩

/-- A child of three pages is bound as a whole. -/
def failedBinds : List Action :=
  [.alloc 2 ⟨12288, false, false, false, false⟩, .allocVbo 1 12288 true false,
    .createBindOp 1 [⟨0, 0, 12288, 2, .bind⟩, ⟨0, 4096, 4096, 2, .bind⟩, ⟨0, 8192, 4096, 2, .bind⟩],
    .bindRanges 0, .work 0 [], .work 0 [false, true], .work 0 [true]]

theorem survives_failedBinds :
    AllSurvive ((bindMachine Careful).exec initial failedBinds) ∧ ∀ i fails,
      Enabled ((bindMachine Careful).exec initial failedBinds) (.work i fails) →
      (AllSurvive (next ((bindMachine Careful).exec initial failedBinds) (.work i fails)) ↔
        Careful ((bindMachine Careful).exec initial failedBinds) (.work i fails)) :=
  survives_of_reachable ((Machine.Reachable.init (M := bindMachine Careful) rfl).exec failedBinds
    (by decide))

/-- The unmap of a bind that splits a range fails. -/
def failedSplit : List Action :=
  [.alloc 2 ⟨12288, false, false, false, false⟩, .allocVbo 1 12288 true false,
    .createBindOp 1 [⟨0, 0, 12288, 2, .bind⟩, ⟨0, 4096, 4096, 2, .bind⟩],
    .bindRanges 0, .work 0 [], .work 0 [true]]

/-- Two ranges of the VBO overlap. -/
theorem not_survives : ¬∀ s, (bindMachine fun _ _ => True).Reachable s → AllSurvive s := by
  intro hall
  have h := hall _ ((Machine.Reachable.init (M := bindMachine fun _ _ => True) rfl).exec failedSplit
    (by decide))
  have hv := h 1 ⟨12288, true, true, false, false⟩ rfl rfl
  have hapart := hv.apart
  revert hapart
  rw [Apart]
  decide

end Runs

end KgslVbo
