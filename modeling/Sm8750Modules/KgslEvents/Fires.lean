import Sm8750Modules.KgslEvents.Group

/-!
# Events fire once and never early
-/

namespace KgslEvents

open Runs List

structure Sound (s : Group) : Prop where
  owned : (s.events ++ s.fired.map Prod.fst).Perm s.accepted
  distinct : ((s.accepted ++ s.adding).map Event.id).Nodup
  fresh : ∀ e ∈ s.accepted ++ s.adding, e.id < s.made
  early : ∀ e, (e, Result.retired) ∈ s.fired → e.timestamp ≤ s.retired
  ahead : ∀ e ∈ s.events, s.processed < e.timestamp
  le : s.processed ≤ s.retired
  ran : s.ran ≤ s.fired.length
  refs : s.ref = s.users + s.adding.length + s.events.length + (s.fired.length - s.ran)

section Steps

variable {c : Config} {s : Group} {e : Event} {f : Event → Option Result} {flush : Bool}

theorem sound_initial : Sound initial :=
  ⟨List.Perm.refl _, nodup_nil, fun _ he => (nomatch he), fun _ he => (nomatch he),
    fun _ he => (nomatch he), le_rfl, le_rfl, rfl⟩

theorem perm_signal (f : Event → Option Result) (l : List Event) :
    ((l.filter fun e => f e = none) ++
      (l.filterMap fun e => (f e).map fun r => (e, r)).map Prod.fst).Perm l := by
  induction l with
  | nil => exact List.Perm.refl _
  | cons e l ih =>
    cases he : f e with
    | none =>
      rw [filterMap_cons, he, filter_cons_of_pos]
      · exact ih.cons e
      · exact decide_eq_true he
    | some r =>
      rw [filterMap_cons, he, filter_cons_of_neg]
      · exact perm_middle.trans (ih.cons e)
      · intro hnone
        rw [of_decide_eq_true hnone] at he
        cases he

theorem Sound.signalWhere (h : Sound s)
    (hf : ∀ e ∈ s.events, f e = some .retired → e.timestamp ≤ s.retired) :
    Sound (KgslEvents.signalWhere f s) := by
  have hperm := perm_signal f s.events
  have hlen := hperm.length_eq
  rw [length_append, length_map] at hlen
  refine ⟨?_, h.distinct, h.fresh, fun e he => ?_, fun e he => ?_, h.le, ?_, ?_⟩
  · show ((s.events.filter _) ++ (s.fired ++ s.events.filterMap _).map Prod.fst).Perm s.accepted
    rw [map_append]
    refine List.Perm.trans ?_ h.owned
    rw [← append_assoc]
    refine (perm_append_right_iff _ |>.mpr perm_append_comm).trans ?_
    rw [append_assoc]
    exact (perm_append_comm).trans (perm_append_right_iff _ |>.mpr hperm)
  · rcases mem_append.mp he with hold | hnew
    · exact h.early e hold
    · obtain ⟨e', he', hmap⟩ := mem_filterMap.mp hnew
      obtain ⟨r, hr, hpair⟩ := Option.map_eq_some_iff.mp hmap
      obtain ⟨rfl, rfl⟩ := Prod.mk.inj hpair
      exact hf e' he' hr
  · exact h.ahead e (mem_of_mem_filter he)
  · show s.ran ≤ (s.fired ++ s.events.filterMap _).length
    have := h.ran
    rw [length_append]
    omega
  · show s.ref = s.users + s.adding.length + (s.events.filter _).length +
      ((s.fired ++ s.events.filterMap _).length - s.ran)
    have hran := h.ran
    rw [h.refs, length_append]
    omega

theorem near_of_mem (hhalf : InHalf s) (he : e ∈ s.events ∨ e ∈ s.adding) :
    Near e.timestamp s.retired := by
  refine hhalf _ (mem_cons_of_mem _ (mem_map_of_mem ?_))
  exact mem_append.mpr he

theorem processResult_eq (hhalf : InHalf s) (he : e ∈ s.events) :
    processResult flush (wrap s.retired) e =
      if e.timestamp ≤ s.retired then some .retired else if flush then some .cancelled else none := by
  rw [processResult, timestampCmp_wrap (near_of_mem hhalf (.inl he))]
  rcases Nat.lt_trichotomy e.timestamp s.retired with hlt | heq | hgt
  · rw [if_neg hlt.ne, if_neg (Nat.lt_asymm hlt), if_pos (by decide), if_pos hlt.le]
  · rw [if_pos heq, if_pos (le_refl _), if_pos heq.le]
  · rw [if_neg hgt.ne', if_pos hgt, if_neg (by decide), if_neg (Nat.not_le.mpr hgt)]

theorem Sound.events_nil (h : Sound s) (href : s.ref = 0) : s.events = [] := by
  have hrefs := h.refs
  exact eq_nil_of_length_eq_zero (by omega)

theorem mem_signalWhere (he : e ∈ (signalWhere f s).events) : e ∈ s.events ∧ f e = none := by
  obtain ⟨hmem, hnone⟩ := mem_filter.mp he
  exact ⟨hmem, of_decide_eq_true hnone⟩

/-- **Nothing that has retired is left** behind a processing, shortcuts included, and nothing at all
behind a flush. -/
theorem processGroup_left (h : Sound s) (hhalf : InHalf s)
    (he : e ∈ (processGroup c flush s).events) : s.retired < e.timestamp ∧ flush = false := by
  rw [processGroup] at he
  split at he
  · rename_i hdead
    rw [Bool.and_eq_true, decide_eq_true_eq] at hdead
    rw [h.events_nil hdead.2] at he
    cases he
  · split at he
    · rename_i hshort
      rw [Bool.and_eq_true, Bool.not_eq_true', Bool.not_eq_true'] at hshort
      have hnear := hhalf s.processed mem_cons_self
      rw [← doProcessGroup_wrap hnear h.le hshort.2]
      exact ⟨h.ahead e he, hshort.1⟩
    · obtain ⟨hmem, hnone⟩ := mem_signalWhere he
      rw [processResult_eq hhalf hmem] at hnone
      by_cases hle : e.timestamp ≤ s.retired
      · rw [if_pos hle] at hnone
        cases hnone
      · rw [if_neg hle] at hnone
        refine ⟨Nat.lt_of_not_le hle, ?_⟩
        cases flush with
        | false => rfl
        | true => cases hnone

theorem Sound.processGroup (h : Sound s) (hhalf : InHalf s) :
    Sound (KgslEvents.processGroup c flush s) := by
  have hleft : ∀ e ∈ (KgslEvents.processGroup c flush s).events, s.retired < e.timestamp :=
    fun e he => (processGroup_left h hhalf he).1
  revert hleft
  rw [KgslEvents.processGroup]
  split
  · exact fun _ => h
  · split
    · exact fun _ => h
    · intro hleft
      have hsignal : Sound (KgslEvents.signalWhere (processResult flush (wrap s.retired)) s) := by
        refine h.signalWhere fun e he hresult => ?_
        rw [processResult_eq hhalf he] at hresult
        by_cases hle : e.timestamp ≤ s.retired
        · exact hle
        · rw [if_neg hle] at hresult
          cases flush with
          | false => cases hresult
          | true => cases hresult
      exact ⟨hsignal.owned, hsignal.distinct, hsignal.fresh, hsignal.early, hleft, le_rfl, hsignal.ran,
        hsignal.refs⟩

theorem Sound.cancelEvent (h : Sound s) (timestamp func priv : ℕ) :
    Sound (KgslEvents.cancelEvent timestamp func priv s) := by
  rw [KgslEvents.cancelEvent]
  split
  · exact h
  · rename_i e hfind
    have hmem := List.mem_of_find?_eq_some hfind
    have hlen := length_erase_of_mem hmem
    have hpos := length_pos_of_mem hmem
    refine ⟨?_, h.distinct, h.fresh, fun x hx => ?_, fun x hx => ?_, h.le, ?_, ?_⟩
    · show (s.events.erase e ++ (s.fired ++ [(e, Result.cancelled)]).map Prod.fst).Perm s.accepted
      rw [map_append, ← append_assoc]
      refine List.Perm.trans ?_ h.owned
      refine perm_append_comm.trans ?_
      exact perm_append_right_iff _ |>.mpr (perm_cons_erase hmem).symm
    · rcases mem_append.mp hx with hold | hnew
      · exact h.early x hold
      · cases mem_singleton.mp hnew
    · exact h.ahead x (mem_of_mem_erase hx)
    · show s.ran ≤ (s.fired ++ [_]).length
      have := h.ran
      rw [length_append]
      omega
    · show s.ref = s.users + s.adding.length + (s.events.erase e).length + ((s.fired ++ [_]).length - s.ran)
      have hran := h.ran
      rw [h.refs, length_append, hlen, length_singleton]
      omega

theorem Sound.beginAdd (h : Sound s) (timestamp func priv : ℕ) :
    Sound (KgslEvents.beginAdd c timestamp func priv s) := by
  rw [KgslEvents.beginAdd]
  split
  · exact h
  · refine ⟨h.owned, ?_, fun e he => ?_, h.early, h.ahead, h.le, h.ran, ?_⟩
    · show ((s.accepted ++ (s.adding ++ [_])).map Event.id).Nodup
      rw [← append_assoc, map_append]
      refine nodup_append.mpr ⟨h.distinct, nodup_singleton _, fun a ha b hb => ?_⟩
      obtain ⟨e, he, rfl⟩ := mem_map.mp ha
      rw [map_singleton, mem_singleton] at hb
      rw [hb]
      exact (h.fresh e he).ne
    · show e.id < s.made + 1
      have he' : e ∈ s.accepted ++ (s.adding ++ [⟨s.made, timestamp, func, priv⟩]) := he
      rw [← append_assoc] at he'
      rcases mem_append.mp he' with hold | hnew
      · exact (h.fresh e hold).trans (Nat.lt_succ_self _)
      · rw [mem_singleton.mp hnew]
        exact Nat.lt_succ_self _
    · show s.ref + 1 = s.users + (s.adding ++ [_]).length + s.events.length + (s.fired.length - s.ran)
      rw [h.refs, length_append, length_singleton]
      omega

theorem Sound.finishAdd (h : Sound s) (hhalf : InHalf s) (he : e ∈ s.adding) :
    Sound (KgslEvents.finishAdd e s) := by
  have hlen := length_erase_of_mem he
  have hpos := length_pos_of_mem he
  have hran := h.ran
  have hmove : (s.accepted ++ [e] ++ s.adding.erase e).Perm (s.accepted ++ s.adding) := by
    rw [append_assoc]
    exact perm_append_left_iff _ |>.mpr (perm_cons_erase he).symm
  have hdistinct : ((s.accepted ++ [e] ++ s.adding.erase e).map Event.id).Nodup :=
    (hmove.map Event.id).nodup_iff.mpr h.distinct
  have hfresh : ∀ x ∈ s.accepted ++ [e] ++ s.adding.erase e, x.id < s.made :=
    fun x hx => h.fresh x (hmove.mem_iff.mp hx)
  have hcmp := timestampCmp_wrap (near_of_mem hhalf (.inr he)).symm
  rw [KgslEvents.finishAdd]
  dsimp only
  split
  · -- the timestamp has retired already
    rename_i hretired
    rw [hcmp] at hretired
    refine ⟨?_, hdistinct, hfresh, fun x hx => ?_, h.ahead, h.le, ?_, ?_⟩
    · show (s.events ++ (s.fired ++ [(e, Result.retired)]).map Prod.fst).Perm (s.accepted ++ [e])
      rw [map_append, ← append_assoc]
      exact perm_append_right_iff _ |>.mpr h.owned
    · rcases mem_append.mp hx with hold | hnew
      · exact h.early x hold
      · have hxe : x = e := (Prod.mk.inj (mem_singleton.mp hnew)).1
        rw [hxe]
        show e.timestamp ≤ s.retired
        by_cases heq : s.retired = e.timestamp
        · exact heq.ge
        · rw [if_neg heq] at hretired
          by_cases hlt : e.timestamp < s.retired
          · exact hlt.le
          · rw [if_neg hlt] at hretired
            exact absurd hretired (by decide)
    · show s.ran ≤ (s.fired ++ [_]).length
      rw [length_append]
      omega
    · show s.ref = s.users + (s.adding.erase e).length + s.events.length + ((s.fired ++ [_]).length - s.ran)
      rw [h.refs, length_append, hlen, length_singleton]
      omega
  · rename_i hahead
    rw [hcmp] at hahead
    refine ⟨?_, hdistinct, hfresh, h.early, fun x hx => ?_, h.le, h.ran, ?_⟩
    · show ((s.events ++ [e]) ++ s.fired.map Prod.fst).Perm (s.accepted ++ [e])
      rw [append_assoc]
      refine (perm_append_left_iff _ |>.mpr perm_append_comm).trans ?_
      rw [← append_assoc]
      exact perm_append_right_iff _ |>.mpr h.owned
    · rcases mem_append.mp hx with hold | hnew
      · exact h.ahead x hold
      · rw [mem_singleton.mp hnew]
        refine h.le.trans_lt (Nat.lt_of_not_le fun hle => hahead ?_)
        rcases Nat.eq_or_lt_of_le hle with heq | hlt
        · rw [if_pos heq.symm]
        · rw [if_neg hlt.ne', if_pos hlt]
          decide
    · show s.ref = s.users + (s.adding.erase e).length + (s.events ++ [e]).length +
        (s.fired.length - s.ran)
      rw [h.refs, length_append, hlen, length_singleton]
      omega

theorem Sound.next (h : Sound s) (hhalf : InHalf s) {a : Action} (ha : Enabled s a) :
    Sound (KgslEvents.next c s a) := by
  cases a with
  | retire ts =>
    have hle : s.retired ≤ ts := ha
    exact ⟨h.owned, h.distinct, h.fresh, fun e he => (h.early e he).trans hle, h.ahead, h.le.trans hle,
      h.ran, h.refs⟩
  | queue ts => exact ⟨h.owned, h.distinct, h.fresh, h.early, h.ahead, h.le, h.ran, h.refs⟩
  | beginAdd timestamp func priv => exact h.beginAdd timestamp func priv
  | finishAdd e => exact h.finishAdd hhalf ha
  | process flush => exact h.processGroup hhalf
  | cancelTimestamp timestamp =>
    refine h.signalWhere fun e _ hresult => ?_
    split at hresult
    · cases hresult
    · cases hresult
  | cancelAll => exact h.signalWhere fun _ _ hresult => (nomatch hresult)
  | cancel timestamp func priv => exact h.cancelEvent timestamp func priv
  | runWork =>
    have hlt : s.ran < s.fired.length := ha
    refine ⟨h.owned, h.distinct, h.fresh, h.early, h.ahead, h.le, hlt, ?_⟩
    show s.ref - 1 = s.users + s.adding.length + s.events.length + (s.fired.length - (s.ran + 1))
    rw [h.refs]
    omega
  | getContext =>
    refine ⟨h.owned, h.distinct, h.fresh, h.early, h.ahead, h.le, h.ran, ?_⟩
    show s.ref + 1 = s.users + 1 + s.adding.length + s.events.length + (s.fired.length - s.ran)
    rw [h.refs]
    omega
  | putContext =>
    have hlt : 0 < s.users := ha
    refine ⟨h.owned, h.distinct, h.fresh, h.early, h.ahead, h.le, h.ran, ?_⟩
    show s.ref - 1 = s.users - 1 + s.adding.length + s.events.length + (s.fired.length - s.ran)
    rw [h.refs]
    omega

end Steps

/-- **What should hold of a group.** Each accepted event waits or has been queued, once. -/
structure FiresOnce (c : Config) (s : Group) : Prop where
  once : (s.events ++ s.fired.map Prod.fst).Perm s.accepted ∧ s.accepted.Nodup
  early : ∀ e, (e, Result.retired) ∈ s.fired → e.timestamp ≤ s.retired
  processed : ∀ flush, ∀ e ∈ (processGroup c flush s).events,
    (processGroup c flush s).retired < e.timestamp
  flushed : (processGroup c true s).events = []

theorem processGroup_retired (c : Config) (flush : Bool) (s : Group) :
    (processGroup c flush s).retired = s.retired := by
  rw [processGroup]
  split
  · rfl
  · split
    · rfl
    · rfl

/-- **Events fire once and never early**, in every run whose live timestamps stay inside half of the
range. -/
theorem fires_once {c : Config} {s : Group} (h : (groupMachine c).Reachable s) : FiresOnce c s := by
  have hinv : Sound s ∧ InHalf s := by
    refine h.invariant (I := fun s => Sound s ∧ InHalf s) (fun s hs => ?_) fun s a hi ha => ?_
    · have hs' : s = initial := hs
      rw [hs']
      exact ⟨sound_initial, by decide⟩
    · exact ⟨hi.1.next hi.2 ha.1, ha.2⟩
  obtain ⟨hsound, hhalf⟩ := hinv
  refine ⟨⟨hsound.owned, ?_⟩, hsound.early, fun flush e he => ?_, ?_⟩
  · have hdistinct := hsound.distinct
    rw [map_append] at hdistinct
    exact (nodup_append.mp hdistinct).1.of_map
  · rw [processGroup_retired]
    exact (processGroup_left hsound hhalf he).1
  · refine eq_nil_iff_forall_not_mem.mpr fun e he => ?_
    cases (processGroup_left hsound hhalf he).2

/-- Timestamps wrap while one event is listed, another is added late, and a third is cancelled. -/
def wrapped : List Action :=
  [.queue (2 ^ 31 - 1), .retire (2 ^ 31 - 1), .process false, .queue (2 ^ 32 - 3), .retire (2 ^ 32 - 3),
    .process false, .queue (2 ^ 32 + 10), .beginAdd (2 ^ 32 + 1) 7 0, .finishAdd ⟨0, 2 ^ 32 + 1, 7, 0⟩,
    .process false, .beginAdd (2 ^ 32 + 2) 7 1, .beginAdd (2 ^ 32 + 9) 7 2, .retire (2 ^ 32 + 4),
    .finishAdd ⟨1, 2 ^ 32 + 2, 7, 1⟩, .process false, .finishAdd ⟨2, 2 ^ 32 + 9, 7, 2⟩,
    .cancel 9 7 2, .runWork]

theorem fires_once_wrapped :
    FiresOnce ⟨true, false⟩ ((groupMachine ⟨true, false⟩).exec initial wrapped) :=
  fires_once ((Machine.Reachable.init (M := groupMachine ⟨true, false⟩) rfl).exec wrapped (by decide))

end KgslEvents
