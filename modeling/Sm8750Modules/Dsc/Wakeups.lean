import Sm8750Modules.Dsc.Exclusion

/-!
# Transitions of the driver synchronization core — wake-ups

A waiter is triggered by the stop of a transition on the path of its node, or below it, or below a
node of that path that waits too.
-/

namespace Dsc

open Runs

section Covered

variable {P V : Type*} {T : Tree P V} {s s' : State P V} {m n : Place P V} {p q : P}

/-- Something is active on a node, above it or below it, or below a node above it that waits too. -/
def Covers (T : Tree P V) (s : State P V) (n : Place P V) : Prop :=
  ∃ m, T.Has m ∧ s.active m = true ∧ (m = n ∨ m.Above n ∨ n.Above m ∨
    ∃ a, T.Has a ∧ a.Above n ∧ s.queued a = true ∧ a.Above m)

/-- **No lost wake-up**: the nodes that waiters are queued on are covered. -/
def Covered (T : Tree P V) (s : State P V) : Prop :=
  ∀ n, T.Has n → s.queued n = true → Covers T s n

theorem covers_of_driver (h : s.active .driver = true) (n : Place P V) : Covers T s n := by
  refine ⟨.driver, trivial, h, ?_⟩
  by_cases hn : n = .driver
  · exact .inl hn.symm
  · exact .inr (.inl (driver_above hn))

theorem covers_of_driver_queued (h : s.queued .driver = true) (hm : T.Has m) (ha : s.active m = true)
    (n : Place P V) : Covers T s n := by
  by_cases hmd : m = .driver
  · exact covers_of_driver (hmd ▸ ha) n
  · refine ⟨m, hm, ha, ?_⟩
    by_cases hn : n = .driver
    · rw [hn]
      exact .inr (.inr (.inl (driver_above hmd)))
    · exact .inr (.inr (.inr ⟨.driver, trivial, driver_above hn, h, driver_above hmd⟩))

theorem Covers.below (h : Covers T s (.psoc p)) (hp : p ∈ T.psocs) (hq : s.queued (.psoc p) = true) (v : V) :
    Covers T s (.vdev p v) := by
  obtain ⟨m, hm, ha, rfl | habove | hbelow | ⟨a, hhas, haa, haq, ham⟩⟩ := h
  · exact ⟨.psoc p, hm, ha, .inr (.inl rfl)⟩
  · cases m with
    | driver => exact covers_of_driver ha _
    | psoc r => exact absurd habove id
    | vdev r u => exact absurd habove id
  · exact ⟨m, hm, ha, .inr (.inr (.inr ⟨.psoc p, hp, rfl, hq, hbelow⟩))⟩
  · cases a with
    | driver => exact covers_of_driver_queued haq hm ha _
    | psoc r => exact absurd haa id
    | vdev r u => exact absurd haa id

theorem Covers.mono (h : Covers T s n) (hactive : ∀ m, s.active m = true → s'.active m = true)
    (hqueued : ∀ m, s.queued m = true → s'.queued m = true) : Covers T s' n := by
  obtain ⟨m, hm, ha, hrel⟩ := h
  refine ⟨m, hm, hactive m ha, hrel.imp_right (Or.imp_right (Or.imp_right ?_))⟩
  rintro ⟨a, hhas, haa, haq, ham⟩
  exact ⟨a, hhas, haa, hqueued a haq, ham⟩

theorem driverActiveDownTree_true (h : driverActiveDownTree T s = true) :
    ∃ m, T.Has m ∧ m ≠ .driver ∧ s.active m = true := by
  by_contra hnone
  push Not at hnone
  have hfalse : driverActiveDownTree T s = false := by
    rw [driverActiveDownTree_false]
    intro n hn hne
    rw [Bool.eq_false_iff]
    exact hnone n hn hne
  rw [hfalse] at h
  cases h

theorem psocActiveDownTree_true (h : psocActiveDownTree T s p = true) :
    ∃ v ∈ T.vdevs p, s.active (.vdev p v) = true := by
  rw [psocActiveDownTree, List.any_eq_true] at h
  exact h

theorem State.activeOrQueued_true :
    (s.trans n).activeOrQueued = true ↔ s.active n = true ∨ s.queued n = true := by
  rw [Trans.activeOrQueued, Bool.or_eq_true, State.active, State.queued]

theorem Covered.covers_driver (h : Covered T s) (hc : driverCanTrans T s = false) :
    Covers T s .driver := by
  rw [driverCanTrans, Bool.and_eq_false_iff, Bool.not_eq_false', Bool.not_eq_false',
    State.activeOrQueued_true] at hc
  rcases hc with (ha | hq) | hdown
  · exact covers_of_driver ha _
  · exact h .driver trivial hq
  · obtain ⟨m, hm, hne, ha⟩ := driverActiveDownTree_true hdown
    exact ⟨m, hm, ha, .inr (.inr (.inl (driver_above hne)))⟩

theorem Covered.covers_psoc (h : Covered T s) (hp : p ∈ T.psocs) (hc : psocCanTrans T s p ≠ .success)
    (hinval : psocCanTrans T s p ≠ .inval) : Covers T s (.psoc p) := by
  rw [psocCanTrans] at hc hinval
  split_ifs at hc hinval with hd ha
  · exact absurd rfl hinval
  · rw [Bool.or_eq_true, State.activeOrQueued_true] at ha
    rcases ha with (ha | hq) | hdown
    · exact ⟨.psoc p, hp, ha, .inl rfl⟩
    · exact h (.psoc p) hp hq
    · obtain ⟨v, hv, ha⟩ := psocActiveDownTree_true hdown
      exact ⟨.vdev p v, ⟨hp, hv⟩, ha, .inr (.inr (.inl rfl))⟩
  · exact absurd rfl hc

theorem Covered.covers_vdev (h : Covered T s) {recovering unloading : Bool} {v : V}
    (hv : T.Has (.vdev p v)) (hc : vdevCanTrans s recovering unloading p v ≠ .success)
    (hinval : vdevCanTrans s recovering unloading p v ≠ .inval) : Covers T s (.vdev p v) := by
  rw [vdevCanTrans] at hc hinval
  split_ifs at hc hinval with hd hr hp hu ha
  · exact absurd rfl hinval
  · exact absurd rfl hinval
  · exact absurd rfl hinval
  · rw [State.activeOrQueued_true] at hp
    rcases hp with ha | hq
    · exact ⟨.psoc p, hv.1, ha, .inr (.inl rfl)⟩
    · exact (h (.psoc p) hv.1 hq).below hv.1 hq v
  · rw [State.activeOrQueued_true] at ha
    rcases ha with ha | hq
    · exact ⟨.vdev p v, hv, ha, .inl rfl⟩
    · exact h (.vdev p v) hv hq
  · exact absurd rfl hc

theorem Tree.Has.inSubtree (h : T.Has n) (hn : n ≠ .driver) : ∃ q ∈ T.psocs, InSubtree T q n := by
  cases n with
  | driver => exact absurd rfl hn
  | psoc q => exact ⟨q, h, rfl⟩
  | vdev q v => exact ⟨q, h.1, rfl, h.2⟩

theorem InSubtree.of_above (h : InSubtree T q n) (hm : T.Has m) (hd : m ≠ .driver)
    (habove : m.Above n ∨ n.Above m) : InSubtree T q m := by
  cases m with
  | driver => exact absurd rfl hd
  | psoc r =>
    cases n with
    | driver => exact absurd h id
    | psoc q' => exact absurd habove (by simp [Place.Above])
    | vdev q' v =>
      have hr : r = q' := habove.resolve_right id
      exact hr.trans h.1
  | vdev r u =>
    cases n with
    | driver => exact absurd h id
    | psoc q' =>
      have hr : q' = r := habove.resolve_left id
      have hq : q' = q := h
      exact ⟨hr.symm.trans hq, (hr.symm.trans hq) ▸ hm.2⟩
    | vdev q' v => exact absurd habove (by simp [Place.Above])

theorem Covers.elsewhere (h : Covers T s n) (hn : InSubtree T q n) (hda : s.active .driver = false)
    (hdq : s.queued .driver = false) (hsame : ∀ m, InSubtree T q m → s'.trans m = s.trans m) :
    Covers T s' n := by
  have hactive : ∀ m, InSubtree T q m → s.active m = true → s'.active m = true := fun m hm ha => by
    rw [State.active, hsame m hm]
    exact ha
  obtain ⟨m, hm, ha, hrel⟩ := h
  have hmd : m ≠ .driver := by
    rintro rfl
    exact Bool.eq_false_iff.mp hda ha
  rcases hrel with rfl | habove | hbelow | ⟨a, hhas, haa, haq, ham⟩
  · exact ⟨m, hm, hactive m hn ha, .inl rfl⟩
  · exact ⟨m, hm, hactive m (hn.of_above hm hmd (.inl habove)) ha, .inr (.inl habove)⟩
  · exact ⟨m, hm, hactive m (hn.of_above hm hmd (.inr hbelow)) ha, .inr (.inr (.inl hbelow))⟩
  · have had : a ≠ .driver := by
      rintro rfl
      exact Bool.eq_false_iff.mp hdq haq
    have hain := hn.of_above hhas had (.inl haa)
    refine ⟨m, hm, hactive m (hain.of_above hm hmd (.inr ham)) ha, .inr (.inr (.inr ⟨a, hhas, haa, ?_, ham⟩))⟩
    rw [State.queued, hsame a hain]
    exact haq

structure Settled (T : Tree P V) (s : State P V) (p : P) : Prop where
  psoc : s.queued (.psoc p) = true → s.active (.psoc p) = true
  vdev : ∀ v ∈ T.vdevs p, s.queued (.vdev p v) = true →
    s.active (.vdev p v) = true ∨ s.active (.psoc p) = true

theorem Settled.covers (h : Settled T s p) (hp : p ∈ T.psocs) (hn : InSubtree T p n)
    (hq : s.queued n = true) : Covers T s n := by
  cases n with
  | driver => exact absurd hn id
  | psoc q =>
    have hqp : q = p := hn
    rw [hqp] at hq ⊢
    exact ⟨.psoc p, hp, h.psoc hq, .inl rfl⟩
  | vdev q v =>
    obtain ⟨hqp, hv⟩ := hn
    rw [hqp] at hq ⊢
    rcases h.vdev v hv hq with ha | ha
    · exact ⟨.vdev p v, ⟨hp, hv⟩, ha, .inl rfl⟩
    · exact ⟨.psoc p, hp, ha, .inr (.inl rfl)⟩

theorem Settled.mono {R : Place P V → Prop} (h : Settled T s p) (hw : Wakes R s s') : Settled T s' p :=
  ⟨fun hq => hw.kept _ (h.psoc (hw.queued _ hq)),
    fun v hv hq => (h.vdev v hv (hw.queued _ hq)).imp (hw.kept _) (hw.kept _)⟩

theorem InSubtree.unique (h : InSubtree T p n) (h' : InSubtree T q n) : p = q := by
  cases n with
  | driver => exact absurd h id
  | psoc r =>
    have hp : r = p := h
    have hq : r = q := h'
    rw [← hp, hq]
  | vdev r v => rw [← h.1, h'.1]

theorem Covered.elsewhere (h : Covered T s) (hda : s.active .driver = false) (hdq : s.queued .driver = false)
    (hsame : ∀ m, ¬ InSubtree T p m → s'.trans m = s.trans m)
    (hin : ∀ n, InSubtree T p n → s'.queued n = true → Covers T s' n) : Covered T s' := by
  intro n hn hq
  have hne : n ≠ .driver := by
    rintro rfl
    rw [State.queued, hsame .driver id] at hq
    exact Bool.eq_false_iff.mp hdq hq
  obtain ⟨q, hqp, hnq⟩ := hn.inSubtree hne
  by_cases hpq : q = p
  · exact hin n (hpq ▸ hnq) hq
  · have hnot : ∀ m, InSubtree T q m → ¬ InSubtree T p m := fun m hm hmp => hpq (hm.unique hmp)
    rw [State.queued, hsame n (hnot n hnq)] at hq
    exact (h n hn hq).elsewhere hnq hda hdq fun m hm => hsame m (hnot m hm)

theorem InSubtree.queued_of_not (hn : InSubtree T q n) (hq : s.queued n = true) :
    ¬ (s.queued (.psoc q) = false ∧ ∀ v ∈ T.vdevs q, s.queued (.vdev q v) = false) := by
  rintro ⟨hpsoc, hvdevs⟩
  cases n with
  | driver => exact hn
  | psoc r =>
    have hr : r = q := hn
    rw [hr] at hq
    exact Bool.eq_false_iff.mp hpsoc hq
  | vdev r v =>
    obtain ⟨hr, hv⟩ := hn
    rw [hr] at hq
    exact Bool.eq_false_iff.mp (hvdevs v hv) hq

theorem Covered.of_trans (h : Covered T s) (htrans : ∀ m, s'.trans m = s.trans m) : Covered T s' := by
  intro n hn hq
  rw [State.queued, htrans] at hq
  refine (h n hn hq).mono (fun m hm => ?_) fun m hm => ?_
  · rw [State.active, htrans]
    exact hm
  · rw [State.queued, htrans]
    exact hm

end Covered

section Calls

variable {P V : Type*} [DecidableEq P] [DecidableEq V] {T : Tree P V} {s s' : State P V}
  {m n : Place P V} {p q : P}

theorem active_of_triggerVdevs {v : V} {vdevs : List V} (hv : v ∈ vdevs)
    (hq : (triggerVdevs p vdevs s).queued (.vdev p v) = true) :
    (triggerVdevs p vdevs s).active (.vdev p v) = true := by
  induction vdevs generalizing s with
  | nil => cases hv
  | cons u rest ih =>
    have hw := wakes_triggerVdevs p rest (s.trigger (.vdev p u))
    rcases List.mem_cons.mp hv with rfl | hrest
    · refine hw.kept _ (State.active_trigger.mpr (.inr ⟨rfl, ?_⟩))
      exact State.queued_of_trigger (hw.queued _ hq)
    · exact ih hrest hq

theorem settled_triggerPsoc (s : State P V) (p : P) : Settled T (triggerPsoc T s p) p := by
  rw [triggerPsoc]
  split_ifs with hq
  · have ha : (s.trigger (.psoc p)).active (.psoc p) = true :=
      State.active_trigger.mpr (.inr ⟨rfl, hq⟩)
    exact ⟨fun _ => ha, fun _ _ _ => .inr ha⟩
  · have hw := wakes_triggerVdevs p (T.vdevs p) s
    refine ⟨fun hqp => absurd (hw.queued _ hqp) hq, fun v hv hqv => ?_⟩
    exact .inl (active_of_triggerVdevs hv hqv)

theorem settled_triggerPsocs {psocs : List P} (hp : p ∈ psocs) :
    Settled T (triggerPsocs T psocs s) p := by
  induction psocs generalizing s with
  | nil => cases hp
  | cons q rest ih =>
    rcases List.mem_cons.mp hp with rfl | hrest
    · exact (settled_triggerPsoc s p).mono (wakes_triggerPsocs rest _)
    · exact ih hrest

theorem Covered.start (h : Covered T s) (n : Place P V) (desc : String) : Covered T (s.start n desc) := by
  intro m hm hq
  rw [State.queued_start] at hq
  refine (h m hm hq).mono (fun k hk => (State.active_start desc).mpr (.inl hk)) fun k hk => ?_
  rw [State.queued_start]
  exact hk

theorem Covered.enqueue (h : Covered T s) (hn : Covers T s n) (desc : String) :
    Covered T (s.enqueue n desc) := by
  intro m hm hq
  have hcovers : Covers T s m := by
    rcases (State.queued_enqueue desc).mp hq with hq | rfl
    · exact h m hm hq
    · exact hn
  refine hcovers.mono (fun k hk => ?_) fun k hk => (State.queued_enqueue desc).mpr (.inl hk)
  rw [State.active_enqueue]
  exact hk

theorem Covered.driverStart (h : Covered T s) (wait : Bool) (desc : String) :
    Covered T (next T s (.driverStart wait desc)) := by
  rw [next_driverStart]
  split_ifs with hc hw
  · exact h.start _ _
  · exact h.enqueue (h.covers_driver (Bool.eq_false_iff.mpr hc)) desc
  · exact h

theorem Covered.psocStart (h : Covered T s) (wait : Bool) (hp : p ∈ T.psocs) (desc : String) :
    Covered T (next T s (.psocStart wait p desc)) := by
  rw [next_psocStart]
  split
  · exact h.start _ _
  · exact h
  · rename_i hsuccess hinval
    split_ifs
    · exact h.enqueue (h.covers_psoc hp hsuccess hinval) desc
    · exact h

theorem Covered.vdevStart (h : Covered T s) (wait recovering unloading : Bool) {v : V}
    (hv : T.Has (.vdev p v)) (desc : String) :
    Covered T (next T s (.vdevStart wait recovering unloading p v desc)) := by
  rw [next_vdevStart]
  split
  · exact h.start _ _
  · exact h
  · rename_i hsuccess hinval
    split_ifs
    · exact h.enqueue (h.covers_vdev hv hsuccess hinval) desc
    · exact h

theorem covered_driverStop (s : State P V) : Covered T (driverTransStop T s) := by
  rw [driverTransStop, driverTriggerTrans]
  split_ifs with hq
  · intro n _ _
    exact covers_of_driver (State.active_trigger.mpr (.inr ⟨rfl, hq⟩)) n
  · intro n hn hqn
    have hw := wakes_triggerPsocs (T := T) T.psocs (s.stop .driver)
    have hne : n ≠ .driver := by
      rintro rfl
      exact hq (hw.queued _ hqn)
    obtain ⟨p, hp, hin⟩ := hn.inSubtree hne
    exact (settled_triggerPsocs hp).covers hp hin hqn

theorem covered_driverChecked (h : (driverTransTriggerChecked T s).2 = true) :
    Covered T (driverTransTriggerChecked T s).1 := by
  rw [driverTransTriggerChecked] at h ⊢
  split_ifs at h ⊢ with hq hc
  · rw [Bool.not_eq_true, Bool.not_eq_false'] at hq
    intro n _ _
    rw [driverCanTrigger, Bool.not_eq_true', Bool.and_eq_false_iff, Bool.not_eq_false',
      Bool.not_eq_false'] at hc
    rcases hc with ha | hdown
    · exact covers_of_driver ha n
    · obtain ⟨m, hm, -, ha⟩ := driverActiveDownTree_true hdown
      exact covers_of_driver_queued hq hm ha n
  · rw [Bool.not_eq_true, Bool.not_eq_false'] at hq
    intro n _ _
    exact covers_of_driver (State.active_trigger.mpr (.inr ⟨rfl, hq⟩)) n

theorem trans_stop_of_ne (hm : m ≠ n) : (s.stop n).trans m = s.trans m := by
  rw [State.stop, State.trans_setTrans, if_neg hm]

theorem Covered.psocStop (h : Covered T s) (hx : Exclusive T s) (hp : p ∈ T.psocs)
    (ha : s.active (.psoc p) = true) : Covered T (psocTransStop T s p) := by
  rw [psocTransStop, if_pos ha, psocTriggerTrans]
  split_ifs with hc
  · exact covered_driverChecked hc
  · have hclear := hx.clear_stop_psoc ha hp
    have hdq := (driverChecked_of_not (Bool.eq_false_iff.mpr hc)).2
    rw [State.queued_stop] at hdq
    have hda : s.active .driver = false := by
      rw [Bool.eq_false_iff]
      exact fun hd => hx .driver (.psoc p) trivial hp trivial ⟨hd, ha⟩
    have hw := wakes_triggerPsoc (T := T) (s.stop (.psoc p)) p
    refine h.elsewhere (p := p) hda hdq (fun m hm => ?_) fun n hn hq =>
      (settled_triggerPsoc _ p).covers hp hn hq
    have hne : m ≠ .psoc p := by
      rintro rfl
      exact hm rfl
    rw [hw.outside m hm, trans_stop_of_ne hne]

theorem Covered.vdevStop (h : Covered T s) (hx : Exclusive T s) {v : V} (hv : T.Has (.vdev p v))
    (ha : s.active (.vdev p v) = true) : Covered T (vdevTransStop T s p v) := by
  have hda : s.active .driver = false := by
    rw [Bool.eq_false_iff]
    exact fun hd => hx .driver (.vdev p v) trivial hv trivial ⟨hd, ha⟩
  have hpa : s.active (.psoc p) = false := by
    rw [Bool.eq_false_iff]
    exact fun hd => hx (.psoc p) (.vdev p v) hv.1 hv rfl ⟨hd, ha⟩
  have hstop : ∀ m, ¬ InSubtree T p m → (s.stop (.vdev p v)).trans m = s.trans m := by
    intro m hm
    refine trans_stop_of_ne ?_
    rintro rfl
    exact hm ⟨rfl, hv.2⟩
  rw [vdevTransStop, vdevTriggerTrans]
  split_ifs with hc hcp
  · exact covered_driverChecked hc
  · have hdq := (driverChecked_of_not (Bool.eq_false_iff.mpr hc)).2
    have hdq' : s.queued .driver = false := by rwa [State.queued_stop] at hdq
    rw [psocTransTriggerChecked] at hcp ⊢
    split_ifs at hcp ⊢ with hq hcan
    · -- the psoc waits for another of its vdevs
      rw [Bool.not_eq_true, Bool.not_eq_false'] at hq
      rw [psocCanTrigger, Bool.not_eq_true', Bool.and_eq_false_iff, Bool.and_eq_false_iff,
        Bool.not_eq_false', Bool.not_eq_false', Bool.not_eq_false', State.activeOrQueued_true] at hcan
      have hdown : psocActiveDownTree T (s.stop (.vdev p v)) p = true := by
        rcases hcan with (hd | hps) | hdown
        · rcases hd with hd | hd
          · exact absurd (State.active_stop.mp hd).1 (Bool.eq_false_iff.mp hda)
          · exact absurd hd (Bool.eq_false_iff.mp hdq)
        · exact absurd (State.active_stop.mp hps).1 (Bool.eq_false_iff.mp hpa)
        · exact hdown
      obtain ⟨u, hu, hua⟩ := psocActiveDownTree_true hdown
      have hcovers : Covers T (s.stop (.vdev p v)) (.psoc p) :=
        ⟨.vdev p u, ⟨hv.1, hu⟩, hua, .inr (.inr (.inl rfl))⟩
      refine h.elsewhere (p := p) hda hdq' hstop fun n hn _ => ?_
      cases n with
      | driver => exact absurd hn id
      | psoc r =>
        have hr : r = p := hn
        rw [hr]
        exact hcovers
      | vdev r w =>
        rw [hn.1]
        exact hcovers.below hv.1 hq w
    · rw [Bool.not_eq_true, Bool.not_eq_false'] at hq
      have hact : ((s.stop (.vdev p v)).trigger (.psoc p)).active (.psoc p) = true :=
        State.active_trigger.mpr (.inr ⟨rfl, hq⟩)
      refine h.elsewhere (p := p) hda hdq' (fun m hm => ?_) fun n hn hqn => ?_
      · have hw := wakes_trigger (s.stop (.vdev p v)) (.psoc p)
        have hne : m ≠ .psoc p := by
          rintro rfl
          exact hm rfl
        exact (hw.outside m hne).trans (hstop m hm)
      · exact Settled.covers ⟨fun _ => hact, fun _ _ _ => .inr hact⟩ hv.1 hn hqn
  · have hdq := (driverChecked_of_not (Bool.eq_false_iff.mpr hc)).2
    rw [State.queued_stop] at hdq
    have hpq := (psocChecked_of_not (Bool.eq_false_iff.mpr hcp)).2
    rw [State.queued_stop] at hpq
    have hw := wakes_trigger (s.stop (.vdev p v)) (.vdev p v)
    refine h.elsewhere (p := p) hda hdq (fun m hm => ?_) fun n hn hqn => ?_
    · have hne : m ≠ .vdev p v := by
        rintro rfl
        exact hm ⟨rfl, hv.2⟩
      exact (hw.outside m hne).trans (hstop m hm)
    · have hqs : s.queued n = true := by
        have hq' := hw.queued n hqn
        rwa [State.queued_stop] at hq'
      cases n with
      | driver => exact absurd hn id
      | psoc r =>
        have hr : r = p := hn
        rw [hr] at hqs
        exact absurd hqs (Bool.eq_false_iff.mp hpq)
      | vdev r u =>
        obtain ⟨hr, hu⟩ := hn
        rw [hr] at hqs hqn ⊢
        by_cases huv : u = v
        · rw [huv] at hqn ⊢
          refine ⟨.vdev p v, hv, State.active_trigger.mpr (.inr ⟨rfl, ?_⟩), .inl rfl⟩
          exact State.queued_of_trigger hqn
        · -- nothing but a transition of its own covered the vdev
          obtain ⟨m, hm, hma, hrel⟩ := h (.vdev p u) ⟨hv.1, hu⟩ hqs
          have hmu : m = .vdev p u := by
            rcases hrel with hmu | habove | hbelow | ⟨a, hhas, haa, haq, ham⟩
            · exact hmu
            · cases m with
              | driver => exact absurd hma (Bool.eq_false_iff.mp hda)
              | psoc r =>
                have hrp : r = p := habove
                rw [hrp] at hma
                exact absurd hma (Bool.eq_false_iff.mp hpa)
              | vdev r w => exact absurd habove id
            · cases m <;> exact absurd hbelow id
            · cases a with
              | driver => exact absurd haq (Bool.eq_false_iff.mp hdq)
              | psoc r =>
                have hrp : r = p := haa
                rw [hrp] at haq
                exact absurd haq (Bool.eq_false_iff.mp hpq)
              | vdev r w => exact absurd haa id
          have hne : m ≠ .vdev p v := by
            rw [hmu]
            intro heq
            cases heq
            exact huv rfl
          exact ⟨m, hm, hw.kept m (State.active_stop.mpr ⟨hma, hne⟩), .inl hmu⟩

/-- A stop through a psoc of the driver's transition while nobody waits for the driver, which leaves the
waiters of other psocs where they are. -/
def Careful (T : Tree P V) (s : State P V) : Action P V → Prop
  | .psocStop p => s.active (.psoc p) = true ∨ s.queued .driver = true ∨
      ∀ q ∈ T.psocs, q ≠ p → s.queued (.psoc q) = false ∧ ∀ v ∈ T.vdevs q, s.queued (.vdev q v) = false
  | _ => True

theorem covered_psocStop_iff (hx : Exclusive T s) (hp : p ∈ T.psocs) (hd : s.active .driver = true) :
    Covered T (psocTransStop T s p) ↔ Careful T s (.psocStop p) := by
  have hpa : s.active (.psoc p) = false := (hx.clear_of_active hp (.inr hd)).1 hd
  rw [psocTransStop, if_neg (Bool.eq_false_iff.mp hpa), psocTriggerTrans]
  split_ifs with hc
  · have hq : s.queued .driver = true := by
      rw [driverTransTriggerChecked] at hc
      split_ifs at hc with hq <;>
      · rw [Bool.not_eq_true, Bool.not_eq_false', State.queued_stop] at hq
        exact hq
    exact ⟨fun _ => .inr (.inl hq), fun _ => covered_driverChecked hc⟩
  · have hdq := (driverChecked_of_not (Bool.eq_false_iff.mpr hc)).2
    rw [State.queued_stop] at hdq
    have hw := wakes_triggerPsoc (T := T) (s.stop .driver) p
    have hquiet : ∀ m, T.Has m → ¬ InSubtree T p m →
        (triggerPsoc T (s.stop .driver) p).active m = false := by
      intro m hm hin
      refine hw.inactive hin ?_
      by_cases hmd : m = .driver
      · rw [hmd]
        exact inactive_stop_self
      · refine inactive_stop (Bool.eq_false_iff.mpr fun ha => ?_)
        exact hx .driver m trivial hm (driver_above hmd) ⟨hd, ha⟩
    have hqueued : ∀ m, ¬ InSubtree T p m →
        (triggerPsoc T (s.stop .driver) p).queued m = s.queued m := by
      intro m hin
      rw [State.queued, hw.outside m hin]
      exact State.queued_stop
    constructor
    · intro hcov
      refine .inr (.inr fun q hq hqp => ?_)
      by_contra hnone
      -- a waiter of another psoc, whose relatives are all inactive
      obtain ⟨n, hin, hn, hnq⟩ : ∃ n, InSubtree T q n ∧ T.Has n ∧ s.queued n = true := by
        by_contra hno
        push Not at hno
        refine hnone ⟨Bool.eq_false_iff.mpr (hno (.psoc q) rfl hq), fun v hv => ?_⟩
        exact Bool.eq_false_iff.mpr (hno (.vdev q v) ⟨rfl, hv⟩ ⟨hq, hv⟩)
      have hnot : ∀ m, InSubtree T q m → ¬ InSubtree T p m := fun m hm hmp => hqp (hm.unique hmp)
      have hdriver : (triggerPsoc T (s.stop .driver) p).active .driver = false :=
        hquiet .driver trivial id
      have hdriverq : (triggerPsoc T (s.stop .driver) p).queued .driver = false :=
        (hqueued .driver id).trans hdq
      obtain ⟨m, hm, ha, hrel⟩ := hcov n hn ((hqueued n (hnot n hin)).trans hnq)
      have hmd : m ≠ .driver := by
        rintro rfl
        exact Bool.eq_false_iff.mp hdriver ha
      have hmin : InSubtree T q m := by
        rcases hrel with rfl | habove | hbelow | ⟨a, hhas, haa, haq, ham⟩
        · exact hin
        · exact hin.of_above hm hmd (.inl habove)
        · exact hin.of_above hm hmd (.inr hbelow)
        · have had : a ≠ .driver := by
            rintro rfl
            exact Bool.eq_false_iff.mp hdriverq haq
          exact (hin.of_above hhas had (.inl haa)).of_above hm hmd (.inr ham)
      exact Bool.eq_false_iff.mp (hquiet m hm (hnot m hmin)) ha
    · intro hcareful
      have hothers := (hcareful.resolve_left (Bool.eq_false_iff.mp hpa)).resolve_left
        (Bool.eq_false_iff.mp hdq)
      intro n hn hq
      have hne : n ≠ .driver := by
        rintro rfl
        rw [hqueued .driver id] at hq
        exact Bool.eq_false_iff.mp hdq hq
      obtain ⟨q, hqs, hin⟩ := hn.inSubtree hne
      by_cases hqp : q = p
      · exact (settled_triggerPsoc _ p).covers hp (hqp ▸ hin) hq
      · rw [hqueued n fun hnp => hqp (hin.unique hnp)] at hq
        exact absurd (hothers q hqs hqp) (hin.queued_of_not hq)

/-- **A call keeps the waiters covered if and only if it is careful.** -/
theorem covered_next_iff (h : Covered T s) (hx : Exclusive T s) (a : Action P V) (ha : Enabled T s a) :
    Covered T (next T s a) ↔ Careful T s a := by
  cases a with
  | driverStart wait desc => exact iff_of_true (h.driverStart wait desc) trivial
  | psocStart wait p desc => exact iff_of_true (h.psocStart wait ha desc) trivial
  | vdevStart wait recovering unloading p v desc =>
    exact iff_of_true (h.vdevStart wait recovering unloading ha desc) trivial
  | driverStop => exact iff_of_true (covered_driverStop s) trivial
  | psocStop p =>
    by_cases hpa : s.active (.psoc p) = true
    · exact iff_of_true (h.psocStop hx ha.1 hpa) (.inl hpa)
    · exact covered_psocStop_iff hx ha.1 (ha.2.resolve_left hpa)
  | vdevStop p v => exact iff_of_true (h.vdevStop hx ha.1 ha.2) trivial
  | driverOp => exact iff_of_true (h.of_trans (trans_next_op (.inl rfl))) trivial
  | psocOp p => exact iff_of_true (h.of_trans (trans_next_op (.inr (.inl ⟨p, rfl⟩)))) trivial
  | vdevOp recovering unloading p v =>
    exact iff_of_true
      (h.of_trans (trans_next_op (.inr (.inr (.inl ⟨recovering, unloading, p, v, rfl⟩))))) trivial
  | opStop n => exact iff_of_true (h.of_trans (trans_next_op (.inr (.inr (.inr ⟨n, rfl⟩))))) trivial

def carefulMachine (T : Tree P V) : Machine (State P V) (Action P V) :=
  { dscMachine T with guard := fun s a => Enabled T s a ∧ Careful T s a }

theorem exclusive_of_careful (h : (carefulMachine T).Reachable s) : Exclusive T s :=
  .of_reachable (Machine.Reachable.mono (M := dscMachine T) (fun _ _ ha => ha.1) h)

/-- **No lost wake-up** in the runs whose stops are careful. -/
theorem covered_of_reachable (h : (carefulMachine T).Reachable s) : Covered T s := by
  induction h with
  | init hs =>
    rw [show _ = initial from hs]
    exact fun _ _ hq => nomatch hq
  | next hr ha ih => exact (covered_next_iff ih (exclusive_of_careful hr) _ ha.1).mpr ha.2

instance (T : Tree P V) (s : State P V) : ∀ a, Decidable (Careful T s a)
  | .psocStop p => inferInstanceAs (Decidable (s.active (.psoc p) = true ∨ s.queued .driver = true ∨
      ∀ q ∈ T.psocs, q ≠ p → s.queued (.psoc q) = false ∧ ∀ v ∈ T.vdevs q, s.queued (.vdev q v) = false))
  | .driverStart _ _ => isTrue trivial
  | .psocStart _ _ _ => isTrue trivial
  | .vdevStart _ _ _ _ _ _ => isTrue trivial
  | .driverStop => isTrue trivial
  | .vdevStop _ _ => isTrue trivial
  | .driverOp => isTrue trivial
  | .psocOp _ => isTrue trivial
  | .vdevOp _ _ _ _ => isTrue trivial
  | .opStop _ => isTrue trivial

instance (T : Tree P V) (s : State P V) (a : Action P V) : Decidable ((carefulMachine T).guard s a) :=
  inferInstanceAs (Decidable (Enabled T s a ∧ Careful T s a))

/-- The waiters of the first psoc stay covered when its holder stops it. -/
theorem covered_driverWaits : Covered twoPsocs ((carefulMachine twoPsocs).exec initial driverWaits) :=
  covered_of_reachable
    ((Machine.Reachable.init (M := carefulMachine twoPsocs) rfl).exec driverWaits (by decide))

/-- The driver, which was triggered when the first psoc stopped, is stopped through the second one. -/
def lostWakeup : List (Action (Fin 2) (Fin 1)) :=
  [.psocStart false firstPsoc "shutdown", .psocStart true firstPsoc "idle restart",
    .driverStart true "recovery", .psocStop firstPsoc, .psocStop secondPsoc]

/-- The caller that waits for the first psoc is left with nothing active. -/
theorem not_covered_lostWakeup : ∃ s, (dscMachine twoPsocs).Reachable s ∧ ¬ Covered twoPsocs s := by
  refine ⟨_, (Machine.Reachable.init (M := dscMachine twoPsocs) rfl).exec lostWakeup (by decide),
    fun h => ?_⟩
  obtain ⟨m, -, ha, -⟩ := h (.psoc 0) (by decide) (by decide)
  have hquiet : ((dscMachine twoPsocs).exec initial lostWakeup).active m = false := by
    cases m with
    | driver => decide
    | psoc p =>
      revert p
      decide
    | vdev p v =>
      revert p v
      decide
  exact Bool.eq_false_iff.mp hquiet ha

end Calls

end Dsc
