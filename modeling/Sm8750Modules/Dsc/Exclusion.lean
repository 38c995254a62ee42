import Sm8750Modules.Dsc.Tree

/-!
# Transitions of the driver synchronization core — mutual exclusion

A start looks at the whole path of its node and at the nodes below. A trigger does not: it relies on the
transition that stops just then, above or below which nothing was active.
-/

namespace Dsc

open Runs Function List

variable {P V : Type*} {T : Tree P V} {s s' s'' : State P V} {m n : Place P V} {p : P}

/-- Triggers wake nodes of `R` only. -/
structure Wakes (R : Place P V → Prop) (s s' : State P V) : Prop where
  kept : ∀ m, s.active m = true → s'.active m = true
  woken : ∀ m, s'.active m = true → s.active m = true ∨ R m
  queued : ∀ m, s'.queued m = true → s.queued m = true
  outside : ∀ m, ¬ R m → s'.trans m = s.trans m

namespace Wakes

variable {R R' : Place P V → Prop}

theorem refl (R : Place P V → Prop) (s : State P V) : Wakes R s s :=
  ⟨fun _ h => h, fun _ h => .inl h, fun _ h => h, fun _ _ => rfl⟩

theorem trans (h : Wakes R s s') (h' : Wakes R s' s'') : Wakes R s s'' := by
  refine ⟨fun m hm => h'.kept m (h.kept m hm), fun m hm => ?_, fun m hm => h.queued m (h'.queued m hm),
    fun m hm => (h'.outside m hm).trans (h.outside m hm)⟩
  rcases h'.woken m hm with hw | hr
  · exact h.woken m hw
  · exact .inr hr

theorem mono (h : Wakes R s s') (hR : ∀ m, R m → R' m) : Wakes R' s s' :=
  ⟨h.kept, fun m hm => (h.woken m hm).imp_right (hR m), h.queued,
    fun m hm => h.outside m fun hr => hm (hR m hr)⟩

theorem inactive (h : Wakes R s s') (hR : ¬ R m) (hm : s.active m = false) : s'.active m = false := by
  rw [Bool.eq_false_iff] at hm ⊢
  intro hs
  rcases h.woken m hs with hw | hr
  · exact hm hw
  · exact hR hr

end Wakes

/-! ## Nodes that are active -/

theorem State.activeOrQueued_false :
    (s.trans n).activeOrQueued = false ↔ s.active n = false ∧ s.queued n = false := by
  rw [Trans.activeOrQueued, Bool.or_eq_false_iff, State.active, State.queued]

/-- **Mutual exclusion**: no node is active together with an ancestor. -/
def Exclusive (T : Tree P V) (s : State P V) : Prop :=
  ∀ m n, T.Has m → T.Has n → m.Above n → ¬ (s.active m = true ∧ s.active n = true)

theorem Exclusive.wake (h : Exclusive T s) {R : Place P V → Prop}
    (hwoken : ∀ m, s'.active m = true → s.active m = true ∨ R m)
    (hclear : ∀ m n, T.Has m → R n → m.Above n ∨ n.Above m → s.active m = false)
    (hapart : ∀ m n, R m → R n → ¬ m.Above n) : Exclusive T s' := by
  intro m n hm hn habove hboth
  rcases hwoken m hboth.1 with hma | hmr
  · rcases hwoken n hboth.2 with hna | hnr
    · exact h m n hm hn habove ⟨hma, hna⟩
    · exact absurd hma (Bool.eq_false_iff.mp (hclear m n hm hnr (.inl habove)))
  · rcases hwoken n hboth.2 with hna | hnr
    · exact absurd hna (Bool.eq_false_iff.mp (hclear n m hn hmr (.inr habove)))
    · exact hapart m n hmr hnr habove

theorem Exclusive.fewer (h : Exclusive T s) (hfewer : ∀ m, s'.active m = true → s.active m = true) :
    Exclusive T s' :=
  fun m n hm hn habove hboth => h m n hm hn habove ⟨hfewer m hboth.1, hfewer n hboth.2⟩

theorem not_above_self (n : Place P V) : ¬ n.Above n := by
  cases n <;> exact id

theorem Exclusive.wake_one (h : Exclusive T s) (hwoken : ∀ m, s'.active m = true → s.active m = true ∨ m = n)
    (hclear : ∀ m, T.Has m → m.Above n ∨ n.Above m → s.active m = false) : Exclusive T s' := by
  refine h.wake hwoken (fun m k hm hk habove => ?_) fun m k hm hk => ?_
  · rw [hk] at habove
    exact hclear m hm habove
  · rw [hm, hk]
    exact not_above_self n

theorem psocActiveDownTree_false :
    psocActiveDownTree T s p = false ↔ ∀ v ∈ T.vdevs p, s.active (.vdev p v) = false := by
  rw [psocActiveDownTree, any_eq_false]
  simp only [Bool.not_eq_true]

theorem driverActiveDownTree_false : driverActiveDownTree T s = false ↔
    ∀ n, T.Has n → n ≠ .driver → s.active n = false := by
  rw [driverActiveDownTree, any_eq_false]
  simp only [Bool.not_eq_true, Bool.or_eq_false_iff, psocActiveDownTree_false]
  constructor
  · intro h n hn hd
    cases n with
    | driver => exact absurd rfl hd
    | psoc p => exact (h p hn).1
    | vdev p v => exact (h p hn.1).2 v hn.2
  · intro h p hp
    exact ⟨h (.psoc p) hp (by simp), fun v hv => h (.vdev p v) ⟨hp, hv⟩ (by simp)⟩

theorem ne_driver_of_above (h : m.Above n) : n ≠ .driver := by
  rintro rfl
  cases m <;> exact h

theorem driver_above (h : n ≠ .driver) : Place.driver.Above n := by
  cases n with
  | driver => exact absurd rfl h
  | psoc p => trivial
  | vdev p v => trivial

def InSubtree (T : Tree P V) (p : P) : Place P V → Prop
  | .driver => False
  | .psoc q => q = p
  | .vdev q v => q = p ∧ v ∈ T.vdevs p

structure Clear (T : Tree P V) (s : State P V) (p : P) : Prop where
  driver : s.active .driver = false
  psoc : s.active (.psoc p) = false
  vdevs : psocActiveDownTree T s p = false

theorem Clear.inactive (h : Clear T s p) (hn : InSubtree T p n) (hm : m.Above n ∨ n.Above m) (hhas : T.Has m) :
    s.active m = false := by
  have hvdevs := psocActiveDownTree_false.mp h.vdevs
  cases m with
  | driver => exact h.driver
  | psoc q =>
    cases n with
    | driver => exact absurd hn id
    | psoc r => exact absurd hm (by simp [Place.Above])
    | vdev r v =>
      have hqr : q = r := hm.resolve_right id
      rw [hqr, hn.1]
      exact h.psoc
  | vdev q u =>
    cases n with
    | driver => exact absurd hn id
    | psoc r =>
      have hrq : r = q := hm.resolve_left id
      have hqp : q = p := hrq ▸ hn
      rw [hqp]
      exact hvdevs u (hqp ▸ hhas.2)
    | vdev r v => exact absurd hm (by simp [Place.Above])

theorem Exclusive.wake_driver (h : Exclusive T s) (hdown : driverActiveDownTree T s = false)
    (hwoken : ∀ m, s'.active m = true → s.active m = true ∨ m = .driver) : Exclusive T s' := by
  refine h.wake_one hwoken fun m hm habove => ?_
  have hne : m ≠ .driver := by
    rcases habove with ha | ha
    · exact absurd rfl (ne_driver_of_above ha)
    · exact ne_driver_of_above ha
  exact driverActiveDownTree_false.mp hdown m hm hne

theorem psocCanTrans_success (h : psocCanTrans T s p = .success) : Clear T s p := by
  rw [psocCanTrans] at h
  split_ifs at h with hd hp
  rw [Bool.not_eq_true, State.activeOrQueued_false] at hd
  rw [Bool.not_eq_true, Bool.or_eq_false_iff, State.activeOrQueued_false] at hp
  exact ⟨hd.1, hp.1.1, hp.2⟩

theorem vdevCanTrans_success {recovering unloading : Bool} {v : V}
    (h : vdevCanTrans s recovering unloading p v = .success) :
    s.active .driver = false ∧ s.active (.psoc p) = false := by
  rw [vdevCanTrans] at h
  split_ifs at h with hd hr hp hu hv
  rw [Bool.not_eq_true, State.activeOrQueued_false] at hd hp
  exact ⟨hd.1, hp.1⟩

theorem Exclusive.clear_of_active (h : Exclusive T s) (hp : p ∈ T.psocs)
    (hn : s.active (.psoc p) = true ∨ s.active .driver = true) :
    (s.active .driver = true → s.active (.psoc p) = false) ∧ psocActiveDownTree T s p = false := by
  constructor
  · intro hd
    rw [Bool.eq_false_iff]
    exact fun ha => h .driver (.psoc p) trivial hp trivial ⟨hd, ha⟩
  · rw [psocActiveDownTree_false]
    intro v hv
    rw [Bool.eq_false_iff]
    intro ha
    rcases hn with hn | hn
    · exact h (.psoc p) (.vdev p v) hp ⟨hp, hv⟩ rfl ⟨hn, ha⟩
    · exact h .driver (.vdev p v) trivial ⟨hp, hv⟩ trivial ⟨hn, ha⟩

theorem Exclusive.of_trans (h : Exclusive T s) (htrans : ∀ m, s'.trans m = s.trans m) : Exclusive T s' := by
  refine h.fewer fun m hm => ?_
  rw [State.active, htrans] at hm
  exact hm

theorem exclusive_initial : Exclusive T (initial : State P V) :=
  fun _ _ _ _ _ h => nomatch h.1

variable [DecidableEq P] [DecidableEq V]

/-! ## What the calls do to a node -/

namespace State

theorem trans_setTrans (t : Trans) : (s.setTrans n t).trans m = if m = n then t else s.trans m := by
  show (update s.node n { s.node n with trans := t } m).trans = _
  by_cases h : m = n
  · rw [if_pos h, h, update_self]
  · rw [if_neg h, update_of_ne h, trans]

variable (desc : String)

theorem active_start : (s.start n desc).active m = true ↔ s.active m = true ∨ m = n := by
  rw [active, start, trans_setTrans]
  by_cases h : m = n <;> simp [h, active]

theorem active_stop : (s.stop n).active m = true ↔ s.active m = true ∧ m ≠ n := by
  rw [active, stop, trans_setTrans]
  by_cases h : m = n <;> simp [h, active]

theorem active_enqueue : (s.enqueue n desc).active m = s.active m := by
  rw [active, enqueue, trans_setTrans]
  by_cases h : m = n <;> simp [h, active]

theorem active_trigger :
    (s.trigger n).active m = true ↔ s.active m = true ∨ (m = n ∧ s.queued n = true) := by
  rw [active, trigger, trans_setTrans]
  by_cases h : m = n <;> simp [h, active, queued]

theorem queued_start : (s.start n desc).queued m = s.queued m := by
  rw [queued, start, trans_setTrans]
  by_cases h : m = n <;> simp [h, queued]

theorem queued_stop : (s.stop n).queued m = s.queued m := by
  rw [queued, stop, trans_setTrans]
  by_cases h : m = n <;> simp [h, queued]

theorem queued_enqueue : (s.enqueue n desc).queued m = true ↔ s.queued m = true ∨ m = n := by
  rw [queued, enqueue, trans_setTrans]
  by_cases h : m = n <;> simp [h, queued]

theorem queued_of_trigger (h : (s.trigger n).queued m = true) : s.queued m = true := by
  rw [queued, trigger, trans_setTrans] at h
  by_cases hm : m = n
  · rw [if_pos hm] at h
    rw [hm]
    exact Trans.queued_of_trigger _ h
  · rw [if_neg hm] at h
    exact h

theorem trans_opsInsert : (s.opsInsert n).trans m = s.trans m := by
  show (update s.node n { s.node n with ops := (s.node n).ops + 1 } m).trans = _
  by_cases h : m = n
  · rw [h, update_self, trans]
  · rw [update_of_ne h, trans]

theorem trans_opsRemove : (s.opsRemove n).trans m = s.trans m := by
  show (update s.node n { s.node n with ops := (s.node n).ops - 1 } m).trans = _
  by_cases h : m = n
  · rw [h, update_self, trans]
  · rw [update_of_ne h, trans]

end State

theorem wakes_trigger (s : State P V) (n : Place P V) : Wakes (· = n) s (s.trigger n) :=
  ⟨fun _ hm => State.active_trigger.mpr (.inl hm),
    fun _ hm => (State.active_trigger.mp hm).imp_right And.left, fun _ => State.queued_of_trigger,
    fun m hm => by rw [State.trigger, State.trans_setTrans, if_neg hm]⟩

theorem wakes_triggerVdevs (p : P) (vdevs : List V) (s : State P V) :
    Wakes (fun m => ∃ v ∈ vdevs, m = .vdev p v) s (triggerVdevs p vdevs s) := by
  induction vdevs generalizing s with
  | nil => exact Wakes.refl _ _
  | cons v rest ih =>
    have hfirst : Wakes (fun m => ∃ u ∈ v :: rest, m = .vdev p u) s (s.trigger (.vdev p v)) :=
      (wakes_trigger s (.vdev p v)).mono fun m hm => ⟨v, mem_cons_self, hm⟩
    refine hfirst.trans ((ih (s.trigger (.vdev p v))).mono ?_)
    rintro m ⟨u, hu, rfl⟩
    exact ⟨u, mem_cons_of_mem v hu, rfl⟩

theorem wakes_triggerPsoc (s : State P V) (p : P) : Wakes (InSubtree T p) s (triggerPsoc T s p) := by
  rw [triggerPsoc]
  split
  · refine (wakes_trigger s (.psoc p)).mono ?_
    rintro m rfl
    exact rfl
  · refine (wakes_triggerVdevs p (T.vdevs p) s).mono ?_
    rintro m ⟨v, hv, rfl⟩
    exact ⟨rfl, hv⟩

theorem wakes_triggerPsocs (psocs : List P) (s : State P V) :
    Wakes (· ≠ .driver) s (triggerPsocs T psocs s) := by
  induction psocs generalizing s with
  | nil => exact Wakes.refl _ _
  | cons p rest ih =>
    refine Wakes.trans ((wakes_triggerPsoc s p).mono ?_) (ih _)
    intro m hm hd
    rw [hd] at hm
    exact hm

theorem Exclusive.triggerPsoc (h : Exclusive T s) (hc : Clear T s p) :
    Exclusive T (triggerPsoc T s p) := by
  rw [Dsc.triggerPsoc]
  split
  · refine h.wake_one (wakes_trigger s (.psoc p)).woken fun m hm habove => ?_
    exact hc.inactive (n := .psoc p) rfl habove hm
  · refine h.wake (wakes_triggerVdevs p (T.vdevs p) s).woken ?_ ?_
    · rintro m n hm ⟨v, hv, rfl⟩ habove
      exact hc.inactive (n := .vdev p v) ⟨rfl, hv⟩ habove hm
    · rintro m n ⟨v, hv, rfl⟩ ⟨u, hu, rfl⟩
      exact id

theorem Exclusive.triggerPsocs {psocs : List P} (h : Exclusive T s) (hnodup : psocs.Nodup)
    (hc : ∀ p ∈ psocs, Clear T s p) : Exclusive T (triggerPsocs T psocs s) := by
  induction psocs generalizing s with
  | nil => exact h
  | cons p rest ih =>
    obtain ⟨hp, hrest⟩ := nodup_cons.mp hnodup
    have hw := wakes_triggerPsoc (T := T) s p
    refine ih (h.triggerPsoc (hc p mem_cons_self)) hrest fun q hq => ?_
    have hqp : q ≠ p := fun hqp => hp (hqp ▸ hq)
    have hcq := hc q (mem_cons_of_mem p hq)
    refine ⟨hw.inactive id hcq.driver, hw.inactive hqp hcq.psoc, ?_⟩
    rw [psocActiveDownTree_false]
    intro v hv
    exact hw.inactive (fun hin => hqp hin.1) (psocActiveDownTree_false.mp hcq.vdevs v hv)

/-! ## The calls -/

theorem next_driverStart (wait : Bool) (desc : String) : next T s (.driverStart wait desc) =
    if driverCanTrans T s then s.start .driver desc
    else if wait then s.enqueue .driver desc else s := by
  cases hc : driverCanTrans T s <;> cases wait <;>
    simp [next, driverTransStart, driverTransStartWait, hc]

theorem next_psocStart (wait : Bool) (p : P) (desc : String) : next T s (.psocStart wait p desc) =
    match psocCanTrans T s p with
    | .success => s.start (.psoc p) desc
    | .inval => s
    | _ => if wait then s.enqueue (.psoc p) desc else s := by
  cases hc : psocCanTrans T s p <;> cases wait <;>
    simp [next, psocTransStart, psocTransStartWait, hc]

theorem next_vdevStart (wait recovering unloading : Bool) (p : P) (v : V) (desc : String) :
    next T s (.vdevStart wait recovering unloading p v desc) =
      match vdevCanTrans s recovering unloading p v with
      | .success => s.start (.vdev p v) desc
      | .inval => s
      | _ => if wait then s.enqueue (.vdev p v) desc else s := by
  cases hc : vdevCanTrans s recovering unloading p v <;> cases wait <;>
    simp [next, vdevTransStart, vdevTransStartWait, hc]

section

variable (h : Exclusive T s)
include h

theorem Exclusive.start (hclear : ∀ m, T.Has m → m.Above n ∨ n.Above m → s.active m = false)
    (desc : String) : Exclusive T (s.start n desc) :=
  h.wake_one (fun _ hm => (State.active_start desc).mp hm) hclear

theorem Exclusive.enqueue (n : Place P V) (desc : String) : Exclusive T (s.enqueue n desc) :=
  h.fewer fun m hm => by rwa [State.active_enqueue] at hm

theorem Exclusive.stop (n : Place P V) : Exclusive T (s.stop n) :=
  h.fewer fun _ hm => (State.active_stop.mp hm).1

theorem Exclusive.driverStart (wait : Bool) (desc : String) :
    Exclusive T (next T s (.driverStart wait desc)) := by
  rw [next_driverStart]
  split_ifs with hc hw
  · rw [driverCanTrans, Bool.and_eq_true, Bool.not_eq_true', Bool.not_eq_true'] at hc
    exact h.wake_driver hc.2 fun _ hm => (State.active_start desc).mp hm
  · exact h.enqueue _ _
  · exact h

theorem Exclusive.psocStart (wait : Bool) (p : P) (desc : String) :
    Exclusive T (next T s (.psocStart wait p desc)) := by
  rw [next_psocStart]
  split
  · rename_i hc
    have hclear := psocCanTrans_success hc
    exact h.start (fun m hm habove => hclear.inactive (n := .psoc p) rfl habove hm) desc
  · exact h
  · split_ifs
    · exact h.enqueue _ _
    · exact h

theorem Exclusive.vdevStart (wait recovering unloading : Bool) (p : P) (v : V)
    (desc : String) : Exclusive T (next T s (.vdevStart wait recovering unloading p v desc)) := by
  rw [next_vdevStart]
  split
  · rename_i hc
    obtain ⟨hdriver, hpsoc⟩ := vdevCanTrans_success hc
    refine h.start (fun m _ habove => ?_) desc
    have habove' : m.Above (.vdev p v) := habove.resolve_right (by cases m <;> exact id)
    cases m with
    | driver => exact hdriver
    | psoc q =>
      have hqp : q = p := habove'
      rw [hqp]
      exact hpsoc
    | vdev q u => exact absurd habove' id
  · exact h
  · split_ifs
    · exact h.enqueue _ _
    · exact h

end

theorem inactive_stop (hm : s.active m = false) : (s.stop n).active m = false := by
  rw [Bool.eq_false_iff] at hm ⊢
  exact fun ha => hm (State.active_stop.mp ha).1

theorem inactive_stop_self : (s.stop n).active n = false := by
  rw [Bool.eq_false_iff]
  exact fun ha => (State.active_stop.mp ha).2 rfl

theorem Exclusive.clear_stop_driver (h : Exclusive T s) (hd : s.active .driver = true) (hp : p ∈ T.psocs) :
    Clear T (s.stop .driver) p := by
  obtain ⟨hpsoc, hdown⟩ := h.clear_of_active hp (.inr hd)
  refine ⟨inactive_stop_self, inactive_stop (hpsoc hd), ?_⟩
  rw [psocActiveDownTree_false] at hdown ⊢
  exact fun v hv => inactive_stop (hdown v hv)

theorem Exclusive.clear_stop_psoc (h : Exclusive T s) (ha : s.active (.psoc p) = true) (hp : p ∈ T.psocs) :
    Clear T (s.stop (.psoc p)) p := by
  obtain ⟨hpsoc, hdown⟩ := h.clear_of_active hp (.inl ha)
  refine ⟨inactive_stop ?_, inactive_stop_self, ?_⟩
  · rw [Bool.eq_false_iff]
    exact fun hd => absurd ha (Bool.eq_false_iff.mp (hpsoc hd))
  · rw [psocActiveDownTree_false] at hdown ⊢
    exact fun v hv => inactive_stop (hdown v hv)

theorem Exclusive.driverStop (h : Exclusive T s) (hd : s.active .driver = true) :
    Exclusive T (driverTransStop T s) := by
  have hstop := h.stop .driver
  have hclear : ∀ p ∈ T.psocs, Clear T (s.stop .driver) p := fun p hp => h.clear_stop_driver hd hp
  rw [driverTransStop, driverTriggerTrans]
  split_ifs
  · refine hstop.wake_driver ?_ (wakes_trigger _ _).woken
    rw [driverActiveDownTree_false]
    intro n hn hne
    cases n with
    | driver => exact absurd rfl hne
    | psoc p => exact (hclear p hn).psoc
    | vdev p v => exact psocActiveDownTree_false.mp (hclear p hn.1).vdevs v hn.2
  · exact hstop.triggerPsocs T.nodup_psocs hclear

theorem Exclusive.driverChecked (h : Exclusive T s) : Exclusive T (driverTransTriggerChecked T s).1 := by
  rw [driverTransTriggerChecked]
  split_ifs with hq hc
  · exact h
  · exact h
  · rw [driverCanTrigger, Bool.not_eq_true, Bool.not_eq_false', Bool.and_eq_true, Bool.not_eq_true',
      Bool.not_eq_true'] at hc
    exact h.wake_driver hc.2 (wakes_trigger _ _).woken

theorem Exclusive.psocChecked (h : Exclusive T s) (p : P) : Exclusive T (psocTransTriggerChecked T s p).1 := by
  rw [psocTransTriggerChecked]
  split_ifs with hq hc
  · exact h
  · exact h
  · rw [psocCanTrigger, Bool.not_eq_true, Bool.not_eq_false', Bool.and_eq_true, Bool.and_eq_true,
      Bool.not_eq_true', Bool.not_eq_true', Bool.not_eq_true', State.activeOrQueued_false] at hc
    have hclear : Clear T s p := ⟨hc.1.1.1, hc.1.2, hc.2⟩
    exact h.wake_one (wakes_trigger _ _).woken fun m hm habove =>
      hclear.inactive (n := .psoc p) rfl habove hm

theorem driverChecked_of_not (h : (driverTransTriggerChecked T s).2 = false) :
    (driverTransTriggerChecked T s).1 = s ∧ s.queued .driver = false := by
  rw [driverTransTriggerChecked] at h ⊢
  split_ifs at h ⊢ with hq
  rw [Bool.not_eq_true'] at hq
  exact ⟨rfl, hq⟩

theorem psocChecked_of_not (h : (psocTransTriggerChecked T s p).2 = false) :
    (psocTransTriggerChecked T s p).1 = s ∧ s.queued (.psoc p) = false := by
  rw [psocTransTriggerChecked] at h ⊢
  split_ifs at h ⊢ with hq
  rw [Bool.not_eq_true'] at hq
  exact ⟨rfl, hq⟩

theorem Exclusive.psocTrigger (h : Exclusive T s) (hc : Clear T s p) :
    Exclusive T (psocTriggerTrans T s p) := by
  rw [psocTriggerTrans]
  split_ifs
  · exact h.driverChecked
  · exact h.triggerPsoc hc

theorem Exclusive.psocStop (h : Exclusive T s) (hp : p ∈ T.psocs)
    (ha : s.active (.psoc p) = true ∨ s.active .driver = true) : Exclusive T (psocTransStop T s p) := by
  rw [psocTransStop]
  split_ifs with hactive
  · exact (h.stop _).psocTrigger (h.clear_stop_psoc hactive hp)
  · exact (h.stop _).psocTrigger (h.clear_stop_driver (ha.resolve_left hactive) hp)

theorem Exclusive.vdevStop (h : Exclusive T s) {v : V} (hp : p ∈ T.psocs) (hv : v ∈ T.vdevs p)
    (ha : s.active (.vdev p v) = true) : Exclusive T (vdevTransStop T s p v) := by
  have hstop := h.stop (.vdev p v)
  rw [vdevTransStop, vdevTriggerTrans]
  split_ifs with hd hps
  · exact hstop.driverChecked
  · exact hstop.psocChecked p
  · refine hstop.wake_one (wakes_trigger _ _).woken fun m hm habove => inactive_stop ?_
    have habove' : m.Above (.vdev p v) := habove.resolve_right (by cases m <;> exact id)
    rw [Bool.eq_false_iff]
    exact fun hma => h m (.vdev p v) hm ⟨hp, hv⟩ habove' ⟨hma, ha⟩

theorem trans_next_op {a : Action P V} (ha : a = .driverOp ∨ (∃ p, a = .psocOp p) ∨
    (∃ recovering unloading p v, a = .vdevOp recovering unloading p v) ∨ ∃ n, a = .opStop n)
    (m : Place P V) : (next T s a).trans m = s.trans m := by
  rcases ha with rfl | ⟨p, rfl⟩ | ⟨recovering, unloading, p, v, rfl⟩ | ⟨n, rfl⟩
  · rw [next, driverOpStart]
    split_ifs
    · rfl
    · exact State.trans_opsInsert
  · rw [next, psocOpStart]
    split_ifs
    · rfl
    · exact State.trans_opsInsert
  · rw [next, vdevOpStart]
    split_ifs
    · rfl
    · exact State.trans_opsInsert
  · exact State.trans_opsRemove

theorem Exclusive.next (h : Exclusive T s) (a : Action P V) (ha : Enabled T s a) :
    Exclusive T (next T s a) := by
  cases a with
  | driverStart wait desc => exact h.driverStart wait desc
  | psocStart wait p desc => exact h.psocStart wait p desc
  | vdevStart wait recovering unloading p v desc => exact h.vdevStart wait recovering unloading p v desc
  | driverStop => exact h.driverStop ha
  | psocStop p => exact h.psocStop ha.1 ha.2
  | vdevStop p v => exact h.vdevStop ha.1.1 ha.1.2 ha.2
  | driverOp => exact h.of_trans (trans_next_op (.inl rfl))
  | psocOp p => exact h.of_trans (trans_next_op (.inr (.inl ⟨p, rfl⟩)))
  | vdevOp recovering unloading p v =>
    exact h.of_trans (trans_next_op (.inr (.inr (.inl ⟨recovering, unloading, p, v, rfl⟩))))
  | opStop n => exact h.of_trans (trans_next_op (.inr (.inr (.inr ⟨n, rfl⟩))))

theorem Exclusive.of_reachable (h : (dscMachine T).Reachable s) : Exclusive T s := by
  refine h.invariant (I := Exclusive T) (fun s hs => ?_) fun s a hs ha => hs.next a ha
  rw [show s = initial from hs]
  exact exclusive_initial

/-- **Mutual exclusion** on every tree and in every run. -/
theorem mutualExclusion_of_reachable (h : (dscMachine T).Reachable s) : Exclusive T s :=
  .of_reachable h

instance (T : Tree P V) : ∀ n, Decidable (T.Has n)
  | .driver => isTrue trivial
  | .psoc p => inferInstanceAs (Decidable (_ ∈ _))
  | .vdev p v => inferInstanceAs (Decidable (_ ∈ _ ∧ _ ∈ _))

instance (T : Tree P V) (s : State P V) : ∀ a, Decidable (Enabled T s a) := by
  intro a
  cases a <;> dsimp only [Enabled] <;> infer_instance

instance (T : Tree P V) (s : State P V) (a : Action P V) : Decidable ((dscMachine T).guard s a) :=
  inferInstanceAs (Decidable (Enabled T s a))

def twoPsocs : Tree (Fin 2) (Fin 1) where
  psocs := [0, 1]
  vdevs _ := [0]
  nodup_psocs := by decide
  nodup_vdevs _ := by decide

def firstPsoc : Fin 2 := 0

def secondPsoc : Fin 2 := 1

def driverWaits : List (Action (Fin 2) (Fin 1)) :=
  [.psocStart false 0 "shutdown", .psocStart true 0 "idle restart",
    .vdevStart true false false 1 0 "start", .driverStart true "recovery", .psocStop 0, .vdevStop 1 0]

theorem exclusive_driverWaits : Exclusive twoPsocs ((dscMachine twoPsocs).exec initial driverWaits) :=
  mutualExclusion_of_reachable
    ((Machine.Reachable.init (M := dscMachine twoPsocs) rfl).exec driverWaits (by decide))

end Dsc
