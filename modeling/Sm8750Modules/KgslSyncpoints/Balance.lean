import Sm8750Modules.KgslSyncpoints.Refs

/-!
# References of GPU syncpoints — they balance

Each reference is in one place: with the bit, with a callback that has cleared it, with a work, or with
the destroyer. The steps of the callbacks, the works and the destroyer carry it from one place to the
next, or put it.
-/

namespace KgslSyncobj

open Runs Function

/-- What the creator does with an event. -/
inductive Stage where
  | open
  | adding
  | added
  | cancelling
  | releasing
  | dropping
  | passed
deriving DecidableEq

def Creator.stage (c : Creator) (i : ℕ) : Stage :=
  match c with
  | .building => .open
  | .adding j => if i = j then .adding else .open
  | .added j => if i = j then .added else .open
  | .destroying j => if i < j then .passed else .open
  | .cancelling j => if i = j then .cancelling else if i < j then .passed else .open
  | .releasing j => if i = j then .releasing else if i < j then .passed else .open
  | .dropping j => if i = j then .dropping else if i < j then .passed else .open
  | .putting => .passed
  | .done => .passed

def tok (p : Prop) [Decidable p] : ℕ := if p then 1 else 0

@[simp] theorem tok_true {p : Prop} [Decidable p] (h : p) : tok p = 1 := if_pos h

@[simp] theorem tok_false {p : Prop} [Decidable p] (h : ¬ p) : tok p = 0 := if_neg h

theorem tok_congr {p q : Prop} [Decidable p] [Decidable q] (h : p ↔ q) : tok p = tok q := by
  rw [tok, tok, if_congr h rfl rfl]

/-- The places of an event that hold a reference to the object. -/
def objTok (st : Stage) (e : SyncEvent) : ℕ :=
  match e.kind with
  | .timestamp => tok (e.callback ≠ .absent ∧ e.callback ≠ .finished) + tok (st = .adding)
  | .fence => tok (e.pending = true) + tok (e.callback = .cleared) +
      tok (st = .cancelling ∨ st = .releasing)
  | .timeline => tok (e.pending = true) + tok (e.callback = .cleared) +
      tok (e.work = .queued ∨ e.work = .putting) +
      tok (st = .cancelling ∨ st = .releasing ∨ st = .dropping)

/-- The places that hold the reference that was handed to its callback. -/
def refTok (st : Stage) (freed : Bool) (e : SyncEvent) : ℕ :=
  match e.kind with
  | .timestamp => tok (e.pending = true) + tok (e.callback = .cleared) +
      tok (st = .cancelling ∨ st = .releasing)
  | .fence => tok (e.callback ≠ .absent ∧ freed = false)
  | .timeline => tok (e.pending = true) + tok (e.callback = .cleared) + tok (e.work = .queued) +
      tok (st = .cancelling ∨ st = .releasing)

/-- An event amid the steps. -/
structure EventOk (st : Stage) (freed : Bool) (e : SyncEvent) : Prop where
  single : objTok st e ≤ 1
  gets : e.gets = tok (e.kind ≠ .fence ∨ e.callback ≠ .absent)
  refs : e.puts + refTok st freed e = e.gets
  listed : e.callback = .listed → e.pending = true ∨ st = .cancelling
  running : e.callback = .running → e.kind = .timestamp ∨ e.pending = true ∨ st = .cancelling
  locked : e.kind ≠ .timestamp → e.callback ≠ .queued ∧ e.callback ≠ .putting
  adding : st = .adding → e.callback = .absent ∧ e.pending = true
  passed : st = .passed → e.pending = false
  creation : e.creation = true → st = .adding ∨ st = .added
  timeline : e.kind ≠ .timeline → e.work = .idle ∧ e.creation = false ∧ st ≠ .dropping
  removed : e.kind = .timestamp → e.callback ≠ .removed

/-- The object has a reference of the creator, one for each place of an event, and `d` more. -/
structure Inv (d : ℕ) (s : State) : Prop where
  sum : s.refcount = tok (s.creator ≠ .done) +
    ∑ i ∈ Finset.range s.numsyncs, objTok (s.creator.stage i) (s.events i) + d
  once : s.frees = tok (s.refcount = 0)
  event : ∀ i < s.numsyncs, EventOk (s.creator.stage i) (s.refcount = 0) (s.events i)
  fresh : ∀ i, s.numsyncs ≤ i → s.events i = .zero
  bound : ∀ i, s.numsyncs ≤ i → s.creator.stage i = .open ∨ s.creator.stage i = .passed

section Steps

variable {d : ℕ} {s : State} {i : ℕ} {e e' : SyncEvent} {st st' : Stage} {freed : Bool} {c : Creator}

theorem inv_initial : Inv 0 initial :=
  ⟨rfl, rfl, fun _ h => absurd h (Nat.not_lt_zero _), fun _ _ => rfl, fun _ _ => .inl rfl⟩

/-- **A step of one event**, in which `δ` of its references are let go. -/
theorem Inv.change (h : Inv d s) (hi : i < s.numsyncs) {δ : ℕ}
    (hok : EventOk (c.stage i) (s.refcount = 0) e') (htok : objTok (s.creator.stage i) (s.events i) =
      objTok (c.stage i) e' + δ)
    (hstage : ∀ j, j ≠ i → c.stage j = s.creator.stage j)
    (hdone : c = .done ↔ s.creator = .done) : Inv (d + δ) ((s.setEvent i e').goto c) := by
  have hmem := Finset.mem_range.mpr hi
  have hother : ∀ j, j ≠ i → ((s.setEvent i e').goto c).events j = s.events j := fun j hj =>
    update_of_ne hj _ _
  have hself : ((s.setEvent i e').goto c).events i = e' := update_self _ _ _
  refine ⟨?_, h.once, fun j hj => ?_, fun j hj => ?_, fun j hj => ?_⟩
  · show s.refcount = tok (c ≠ .done) +
      ∑ j ∈ Finset.range s.numsyncs, objTok (c.stage j) (((s.setEvent i e').goto c).events j) + (d + δ)
    have hcreator : tok (c ≠ .done) = tok (s.creator ≠ .done) := tok_congr (not_congr hdone)
    have hrest : ∑ j ∈ (Finset.range s.numsyncs).erase i,
        objTok (c.stage j) (((s.setEvent i e').goto c).events j) =
        ∑ j ∈ (Finset.range s.numsyncs).erase i, objTok (s.creator.stage j) (s.events j) := by
      refine Finset.sum_congr rfl fun j hj => ?_
      rw [hstage j (Finset.ne_of_mem_erase hj), hother j (Finset.ne_of_mem_erase hj)]
    have hsum := h.sum
    rw [← Finset.add_sum_erase _ _ hmem] at hsum ⊢
    rw [hcreator, hrest, hself]
    omega
  · by_cases hji : j = i
    · rw [hji, hself]
      exact hok
    · rw [hother j hji]
      show EventOk (c.stage j) _ _
      rw [hstage j hji]
      exact h.event j hj
  · have hji : j ≠ i := fun hji => absurd hi (Nat.not_lt.mpr (hji ▸ hj))
    rw [hother j hji]
    exact h.fresh j hj
  · have hji : j ≠ i := fun hji => absurd hi (Nat.not_lt.mpr (hji ▸ hj))
    show c.stage j = _ ∨ c.stage j = _
    rw [hstage j hji]
    exact h.bound j hj

theorem EventOk.destroyObject (h : EventOk st false e) : EventOk st true e.destroyObject := by
  rw [SyncEvent.destroyObject]
  split
  · rename_i hfence
    have hrefs := h.refs
    have hgets := h.gets
    refine ⟨h.single, h.gets, ?_, h.listed, h.running, h.locked, h.adding, h.passed, h.creation, h.timeline, h.removed⟩
    simp only [refTok, hfence.1] at hrefs
    rw [tok_true ⟨hfence.2, trivial⟩] at hrefs
    show e.puts + 1 + refTok st true { e with puts := e.puts + 1 } = e.gets
    simp only [refTok, hfence.1]
    rw [tok_false fun hc => Bool.noConfusion hc.2]
    exact hrefs
  · rename_i hnot
    refine ⟨h.single, h.gets, ?_, h.listed, h.running, h.locked, h.adding, h.passed, h.creation, h.timeline, h.removed⟩
    have hrefs := h.refs
    rw [← hrefs, refTok, refTok]
    cases hk : e.kind with
    | timestamp => rfl
    | timeline => rfl
    | fence =>
      have habsent : ¬ e.callback ≠ .absent := fun hne => hnot ⟨hk, hne⟩
      show e.puts + tok _ = e.puts + tok _
      rw [tok_false fun hc => habsent hc.1, tok_false fun hc => habsent hc.1]

theorem objTok_destroyObject (st : Stage) (e : SyncEvent) : objTok st e.destroyObject = objTok st e := by
  rw [SyncEvent.destroyObject]
  split <;> rfl

theorem Inv.put (h : Inv 1 s) : Inv 0 s.put := by
  have hsum := h.sum
  rw [State.put]
  by_cases hone : s.refcount = 1
  · rw [if_pos hone]
    refine ⟨?_, ?_, fun i hi => ?_, fun i hi => ?_, h.bound⟩
    · show 0 = tok (s.creator ≠ .done) + ∑ i ∈ Finset.range s.numsyncs,
        objTok (s.creator.stage i) (s.events i).destroyObject + 0
      simp only [objTok_destroyObject]
      omega
    · show s.frees + 1 = tok (0 = 0)
      rw [h.once, hone]
      rfl
    · have hev := h.event i hi
      have hne : decide (s.refcount = 0) = false := by rw [hone]; rfl
      rw [hne] at hev
      exact hev.destroyObject
    · show (s.events i).destroyObject = _
      rw [h.fresh i hi]
      rfl
  · rw [if_neg hone]
    have hzero : decide (s.refcount - 1 = 0) = decide (s.refcount = 0) := by
      rw [decide_eq_decide]
      omega
    refine ⟨?_, ?_, fun i hi => ?_, h.fresh, h.bound⟩
    · show s.refcount - 1 = tok (s.creator ≠ .done) + ∑ i ∈ Finset.range s.numsyncs,
        objTok (s.creator.stage i) (s.events i) + 0
      omega
    · show s.frees = tok (s.refcount - 1 = 0)
      rw [h.once, tok_false (by omega), tok_false (by omega)]
    · show EventOk _ (decide (s.refcount - 1 = 0)) _
      rw [hzero]
      exact h.event i hi

end Steps

/-! ## The steps of one event -/

/-- A step of an event and of what the creator does with it, in which `δ` references are let go. -/
def Moves (st : Stage) (e : SyncEvent) (st' : Stage) (e' : SyncEvent) (δ : ℕ) : Prop :=
  EventOk st false e → EventOk st' false e' ∧ objTok st e = objTok st' e' + δ

section Moves

variable {e : SyncEvent} {st : Stage}

theorem EventOk.tok_pos {freed : Bool} (h : EventOk st freed e) (hb : e.callback = .listed ∨ e.Busy) :
    0 < objTok st e := by
  have hlisted := h.listed
  have hrunning := h.running
  have hlocked := h.locked
  have htimeline := h.timeline
  rw [SyncEvent.Busy] at hb
  rw [objTok]
  cases hk : e.kind with
  | timestamp =>
    rcases hb with hb | hb | hb | hb | hb | hb | hb
    all_goals simp_all
  | fence =>
    rcases hb with hb | hb | hb | hb | hb | hb | hb
    · rcases hlisted hb with hp | hp <;> simp [hp]
    · exact absurd hb (hlocked (by simp [hk])).1
    · rcases (hrunning hb).resolve_left (by simp [hk]) with hp | hp <;> simp [hp]
    · simp [hb]
    · exact absurd hb (hlocked (by simp [hk])).2
    · rw [(htimeline (by simp [hk])).1] at hb
      cases hb
    · rw [(htimeline (by simp [hk])).1] at hb
      cases hb
  | timeline =>
    rcases hb with hb | hb | hb | hb | hb | hb | hb
    · rcases hlisted hb with hp | hp <;> simp [hp]
    · exact absurd hb (hlocked (by simp [hk])).1
    · rcases (hrunning hb).resolve_left (by simp [hk]) with hp | hp <;> simp [hp]
    · simp [hb]
    · exact absurd hb (hlocked (by simp [hk])).2
    · simp [hb]
    · simp [hb]

attribute [mk_iff] EventOk

theorem eventOk_new (kind : Kind) : EventOk .adding false (SyncEvent.new kind) ∧
    objTok .adding (SyncEvent.new kind) = 1 := by
  cases kind <;> exact ⟨⟨by decide, by decide, by decide, by decide, by decide, by decide, by decide,
    by decide, by decide, by decide, by decide⟩, by decide⟩

theorem moves_registered (retired : Bool) : Moves .adding e
    (if e.kind = .timeline then .added else .open) (e.registered retired) 0 := by
  intro h
  obtain ⟨kind, pending, callback, work, gets, puts, creation⟩ := e
  obtain ⟨hsingle, hgets, hrefs, -, -, -, hadding, -, -, htimeline, hremoved⟩ := h
  obtain ⟨rfl, rfl⟩ := hadding rfl
  cases kind with
  | timestamp =>
    cases retired <;> refine ⟨⟨?_, ?_, ?_, ?_, ?_, ?_, ?_, ?_, ?_, ?_, ?_⟩, ?_⟩ <;>
      simp_all [SyncEvent.registered, objTok, refTok]
  | fence =>
    refine ⟨⟨?_, ?_, ?_, ?_, ?_, ?_, ?_, ?_, ?_, ?_, ?_⟩, ?_⟩ <;>
      simp_all [SyncEvent.registered, objTok, refTok]
  | timeline =>
    refine ⟨⟨?_, ?_, ?_, ?_, ?_, ?_, ?_, ?_, ?_, ?_, ?_⟩, ?_⟩ <;>
      simp_all [SyncEvent.registered, objTok, refTok]

theorem moves_failed : Moves .adding e .open e.failed 1 := by
  intro h
  obtain ⟨kind, pending, callback, work, gets, puts, creation⟩ := e
  obtain ⟨hsingle, hgets, hrefs, -, -, -, hadding, -, -, htimeline, hremoved⟩ := h
  obtain ⟨rfl, rfl⟩ := hadding rfl
  cases kind <;> refine ⟨⟨?_, ?_, ?_, ?_, ?_, ?_, ?_, ?_, ?_, ?_, ?_⟩, ?_⟩ <;>
    simp_all [SyncEvent.failed, objTok, refTok]
  omega

theorem moves_endAdd : Moves .added e .open { e with creation := false } 0 := by
  obtain ⟨kind, pending, callback, work, gets, puts, creation⟩ := e
  rw [Moves, eventOk_iff, eventOk_iff]
  cases kind <;> simp_all [objTok, refTok]

theorem moves_clear (hp : e.pending = true) : Moves .open e .cancelling { e with pending := false } 0 := by
  obtain ⟨kind, pending, callback, work, gets, puts, creation⟩ := e
  rw [Moves, eventOk_iff, eventOk_iff]
  cases hp
  cases kind <;> simp_all [objTok, refTok] <;> omega

theorem moves_pass (hp : e.pending = false) : Moves .open e .passed e 0 := by
  obtain ⟨kind, pending, callback, work, gets, puts, creation⟩ := e
  rw [Moves, eventOk_iff, eventOk_iff]
  cases hp
  cases kind <;> simp_all [objTok, refTok]

theorem moves_cancel (hlock : e.kind = .timestamp ∨ (e.callback ≠ .running ∧ e.callback ≠ .cleared)) :
    Moves .cancelling e .releasing e.cancelled 0 := by
  obtain ⟨kind, pending, callback, work, gets, puts, creation⟩ := e
  rw [Moves, eventOk_iff, eventOk_iff, SyncEvent.cancelled]
  by_cases hc : callback = .listed
  · cases hc
    cases kind <;> simp_all [objTok, refTok]
  · cases kind <;> simp_all [objTok, refTok]

theorem moves_releaseTimestamp (hk : e.kind = .timestamp) :
    Moves .releasing e .passed { e with puts := e.puts + 1 } 0 := by
  obtain ⟨kind, pending, callback, work, gets, puts, creation⟩ := e
  rw [Moves, eventOk_iff, eventOk_iff]
  cases hk
  cases pending <;> simp_all [objTok, refTok] <;> omega

theorem moves_releaseFence (hk : e.kind = .fence) : Moves .releasing e .passed e 1 := by
  obtain ⟨kind, pending, callback, work, gets, puts, creation⟩ := e
  rw [Moves, eventOk_iff, eventOk_iff]
  cases hk
  cases pending <;> simp_all [objTok, refTok]

theorem moves_releaseTimeline (hk : e.kind = .timeline) :
    Moves .releasing e .dropping { e with puts := e.puts + 1 } 0 := by
  obtain ⟨kind, pending, callback, work, gets, puts, creation⟩ := e
  rw [Moves, eventOk_iff, eventOk_iff]
  cases hk
  cases pending <;> simp_all [objTok, refTok]
  omega

theorem moves_drop : Moves .dropping e .passed e 1 := by
  obtain ⟨kind, pending, callback, work, gets, puts, creation⟩ := e
  rw [Moves, eventOk_iff, eventOk_iff]
  cases kind <;> cases pending <;> simp_all [objTok, refTok]

theorem moves_fire (hc : e.callback = .listed) : Moves st e st
    { e with callback := if e.kind = .timestamp then .queued else .running } 0 := by
  obtain ⟨kind, pending, callback, work, gets, puts, creation⟩ := e
  rw [Moves, eventOk_iff, eventOk_iff]
  cases hc
  cases kind <;> simp_all [objTok, refTok]

theorem moves_run (hc : e.callback = .queued) : Moves st e st { e with callback := .running } 0 := by
  obtain ⟨kind, pending, callback, work, gets, puts, creation⟩ := e
  rw [Moves, eventOk_iff, eventOk_iff]
  cases hc
  cases kind <;> simp_all [objTok, refTok]

theorem moves_expire (hc : e.callback = .running) (hp : e.pending = true) :
    Moves st e st { e with pending := false, callback := .cleared } 0 := by
  obtain ⟨kind, pending, callback, work, gets, puts, creation⟩ := e
  rw [Moves, eventOk_iff, eventOk_iff]
  cases hc
  cases hp
  cases kind <;> simp_all [objTok, refTok]

theorem moves_late (hc : e.callback = .running) (hp : e.pending = false) : Moves st e st
    { e with callback := if e.kind = .timestamp then .putting else .finished } 0 := by
  obtain ⟨kind, pending, callback, work, gets, puts, creation⟩ := e
  rw [Moves, eventOk_iff, eventOk_iff]
  cases hc
  cases hp
  cases kind <;> simp_all [objTok, refTok]
  intro hsingle hgets hrefs hst hcreation
  simp_all

theorem moves_proceedTimestamp (hc : e.callback = .cleared) (hk : e.kind = .timestamp) :
    Moves st e st { e with puts := e.puts + 1, callback := .putting } 0 := by
  obtain ⟨kind, pending, callback, work, gets, puts, creation⟩ := e
  rw [Moves, eventOk_iff, eventOk_iff]
  cases hc
  cases hk
  simp_all [objTok, refTok]
  omega

theorem moves_proceedFence (hc : e.callback = .cleared) (hk : e.kind = .fence) :
    Moves st e st { e with callback := .finished } 1 := by
  obtain ⟨kind, pending, callback, work, gets, puts, creation⟩ := e
  rw [Moves, eventOk_iff, eventOk_iff]
  cases hc
  cases hk
  simp_all [objTok, refTok]
  omega

theorem moves_proceedTimeline (hc : e.callback = .cleared) (hk : e.kind = .timeline) :
    Moves st e st { e with callback := .finished, work := .queued } 0 := by
  obtain ⟨kind, pending, callback, work, gets, puts, creation⟩ := e
  rw [Moves, eventOk_iff, eventOk_iff]
  cases hc
  cases hk
  cases work <;> simp_all [objTok, refTok] <;> omega

theorem moves_putObj (hc : e.callback = .putting) : Moves st e st { e with callback := .finished } 1 := by
  obtain ⟨kind, pending, callback, work, gets, puts, creation⟩ := e
  rw [Moves, eventOk_iff, eventOk_iff]
  cases hc
  cases kind <;> simp_all [objTok, refTok]

theorem moves_work (hw : e.work = .queued) :
    Moves st e st { e with puts := e.puts + 1, work := .putting } 0 := by
  obtain ⟨kind, pending, callback, work, gets, puts, creation⟩ := e
  rw [Moves, eventOk_iff, eventOk_iff]
  cases hw
  cases kind <;> simp_all [objTok, refTok]
  omega

theorem moves_workPut (hw : e.work = .putting) : Moves st e st { e with work := .finished } 1 := by
  obtain ⟨kind, pending, callback, work, gets, puts, creation⟩ := e
  rw [Moves, eventOk_iff, eventOk_iff]
  cases hw
  cases kind <;> simp_all [objTok, refTok] <;> omega

end Moves

/-! ## The steps of the object -/

section Objects

variable {s : State} {i : ℕ} {e' : SyncEvent} {c : Creator} {δ : ℕ}

theorem Inv.alive (h : Inv 0 s) (hlive : s.creator ≠ .done ∨
    ∃ i < s.numsyncs, 0 < objTok (s.creator.stage i) (s.events i)) : s.refcount ≠ 0 := by
  have hsum := h.sum
  rcases hlive with hc | ⟨i, hi, hpos⟩
  · rw [tok_true hc] at hsum
    omega
  · have hle := Finset.single_le_sum (f := fun i => objTok (s.creator.stage i) (s.events i))
      (fun _ _ => Nat.zero_le _) (Finset.mem_range.mpr hi)
    have hle' : objTok (s.creator.stage i) (s.events i) ≤
      ∑ i ∈ Finset.range s.numsyncs, objTok (s.creator.stage i) (s.events i) := hle
    omega

theorem Inv.moves (h : Inv 0 s) (hi : i < s.numsyncs) (halive : s.refcount ≠ 0)
    (hm : Moves (s.creator.stage i) (s.events i) (c.stage i) e' δ)
    (hstage : ∀ j, j ≠ i → c.stage j = s.creator.stage j) (hdone : c = .done ↔ s.creator = .done) :
    Inv δ ((s.setEvent i e').goto c) := by
  have hev := h.event i hi
  have hfalse : decide (s.refcount = 0) = false := decide_eq_false halive
  rw [hfalse] at hev
  obtain ⟨hok, htok⟩ := hm hev
  rw [← hfalse] at hok
  rw [← Nat.zero_add δ]
  exact h.change hi hok htok hstage hdone

theorem Inv.movesCallback (h : Inv 0 s) (hb : (s.events i).callback = .listed ∨ (s.events i).Busy)
    (hm : Moves (s.creator.stage i) (s.events i) (s.creator.stage i) e' δ) :
    Inv δ (s.setEvent i e') := by
  have hi : i < s.numsyncs := by
    by_contra hge
    rw [h.fresh i (Nat.le_of_not_lt hge), SyncEvent.Busy, SyncEvent.zero] at hb
    simp at hb
  have hpos := (h.event i hi).tok_pos hb
  exact h.moves (c := s.creator) hi (h.alive (.inr ⟨i, hi, hpos⟩)) hm (fun _ _ => rfl) Iff.rfl

theorem Inv.movesCreator (h : Inv 0 s) (hopen : s.creator.stage i ≠ .open ∧ s.creator.stage i ≠ .passed ∨
      i < s.numsyncs) (hc : s.creator ≠ .done) (hc' : c ≠ .done)
    (hm : Moves (s.creator.stage i) (s.events i) (c.stage i) e' δ)
    (hstage : ∀ j, j ≠ i → c.stage j = s.creator.stage j) :
    Inv δ ((s.setEvent i e').goto c) := by
  have hi : i < s.numsyncs := by
    rcases hopen with ⟨hno, hnp⟩ | hi
    · by_contra hge
      rcases h.bound i (Nat.le_of_not_lt hge) with ho | hp
      · exact hno ho
      · exact hnp hp
    · exact hi
  exact h.moves hi (h.alive (.inl hc)) hm hstage ⟨fun hd => absurd hd hc', fun hd => absurd hd hc⟩

theorem Inv.begin (h : Inv 0 s) (hc : s.creator = .building) (kind : Kind) :
    Inv 0 (next s (.begin kind)) := by
  have halive := h.alive (.inl (by rw [hc]; decide))
  have hstage : ∀ j, j ≠ s.numsyncs → (Creator.adding s.numsyncs).stage j = s.creator.stage j := by
    intro j hj
    rw [hc, Creator.stage, Creator.stage, if_neg hj]
  have hself : (Creator.adding s.numsyncs).stage s.numsyncs = .adding := by
    rw [Creator.stage, if_pos rfl]
  have hev : ∀ j, j ≠ s.numsyncs → (next s (.begin kind)).events j = s.events j := fun j hj =>
    update_of_ne hj _ _
  have hnew : (next s (.begin kind)).events s.numsyncs = SyncEvent.new kind := update_self _ _ _
  refine ⟨?_, ?_, fun j hj => ?_, fun j hj => ?_, fun j hj => ?_⟩
  · show s.refcount + 1 = tok (Creator.adding s.numsyncs ≠ .done) + ∑ j ∈ Finset.range (s.numsyncs + 1),
      objTok ((Creator.adding s.numsyncs).stage j) ((next s (.begin kind)).events j) + 0
    have hsum := h.sum
    have hrest : ∑ j ∈ Finset.range s.numsyncs,
        objTok ((Creator.adding s.numsyncs).stage j) ((next s (.begin kind)).events j) =
        ∑ j ∈ Finset.range s.numsyncs, objTok (s.creator.stage j) (s.events j) := by
      refine Finset.sum_congr rfl fun j hj => ?_
      have hne := (Finset.mem_range.mp hj).ne
      rw [hstage j hne, hev j hne]
    rw [Finset.sum_range_succ, hrest, hself, hnew, (eventOk_new kind).2, tok_true (by simp)]
    rw [tok_true (by rw [hc]; decide)] at hsum
    omega
  · show s.frees = tok (s.refcount + 1 = 0)
    rw [h.once, tok_false halive, tok_false (Nat.succ_ne_zero _)]
  · have hfalse : decide (s.refcount + 1 = 0) = decide (s.refcount = 0) := by
      rw [decide_eq_false halive, decide_eq_false (Nat.succ_ne_zero _)]
    show EventOk ((Creator.adding s.numsyncs).stage j) (decide (s.refcount + 1 = 0)) _
    rw [hfalse]
    by_cases hjn : j = s.numsyncs
    · rw [hjn, hself, hnew, decide_eq_false halive]
      exact (eventOk_new kind).1
    · rw [hstage j hjn, hev j hjn]
      have hlt : j < s.numsyncs := lt_of_le_of_ne (Nat.le_of_lt_succ hj) hjn
      exact h.event j hlt
  · have hlt : s.numsyncs < j := hj
    rw [hev j hlt.ne']
    exact h.fresh j hlt.le
  · have hlt : s.numsyncs < j := hj
    show (Creator.adding s.numsyncs).stage j = .open ∨ (Creator.adding s.numsyncs).stage j = .passed
    rw [hstage j hlt.ne']
    exact h.bound j hlt.le

theorem Inv.goto {d d' : ℕ} (h : Inv d s) (hstage : ∀ j < s.numsyncs, c.stage j = s.creator.stage j)
    (hbound : ∀ j, s.numsyncs ≤ j → c.stage j = .open ∨ c.stage j = .passed)
    (htok : tok (s.creator ≠ .done) + d = tok (c ≠ .done) + d') : Inv d' (s.goto c) := by
  refine ⟨?_, h.once, fun j hj => ?_, h.fresh, hbound⟩
  · show s.refcount = tok (c ≠ .done) +
      ∑ j ∈ Finset.range s.numsyncs, objTok (c.stage j) (s.events j) + d'
    have hsame : ∑ j ∈ Finset.range s.numsyncs, objTok (c.stage j) (s.events j) =
        ∑ j ∈ Finset.range s.numsyncs, objTok (s.creator.stage j) (s.events j) := by
      refine Finset.sum_congr rfl fun j hj => ?_
      rw [hstage j (Finset.mem_range.mp hj)]
    have hsum := h.sum
    omega
  · show EventOk (c.stage j) _ _
    rw [hstage j hj]
    exact h.event j hj

theorem Inv.register (h : Inv 0 s) (hc : s.creator = .adding i) (ok retired : Bool) :
    Inv 0 (next s (.register ok retired)) := by
  have hself : s.creator.stage i = .adding := by rw [hc, Creator.stage, if_pos rfl]
  have hne : s.creator ≠ .done := by rw [hc]; simp
  have hopen : s.creator.stage i ≠ .open ∧ s.creator.stage i ≠ .passed := by rw [hself]; decide
  have hother : ∀ j, j ≠ i → Stage.open = s.creator.stage j := fun j hj => by
    rw [hc, Creator.stage, if_neg hj]
  cases ok with
  | true =>
    have hnext : next s (.register true retired) = (s.setEvent i ((s.events i).registered retired)).goto
        (if (s.events i).kind = .timeline then .added i else .building) := by
      rw [next, hc]
      rfl
    have hm := moves_registered (e := s.events i) retired
    rw [hnext]
    by_cases hk : (s.events i).kind = .timeline
    · rw [if_pos hk] at hm ⊢
      refine h.movesCreator (.inl hopen) hne (by simp) ?_ fun j hj => ?_
      · rw [hself, Creator.stage, if_pos rfl]
        exact hm
      · rw [Creator.stage, if_neg hj, ← hother j hj]
    · rw [if_neg hk] at hm ⊢
      refine h.movesCreator (.inl hopen) hne (by decide) ?_ fun j hj => ?_
      · rw [hself]
        exact hm
      · rw [← hother j hj, Creator.stage]
  | false =>
    have hnext : next s (.register false retired) =
        ((s.setEvent i (s.events i).failed).goto .building).put := by
      rw [next, hc]
      rfl
    rw [hnext]
    refine (h.movesCreator (δ := 1) (.inl hopen) hne (by decide) ?_ fun j hj => ?_).put
    · rw [hself]
      exact moves_failed
    · rw [← hother j hj, Creator.stage]

theorem Inv.endAdd (h : Inv 0 s) (hc : s.creator = .added i) : Inv 0 (next s .endAdd) := by
  have hself : s.creator.stage i = .added := by rw [hc, Creator.stage, if_pos rfl]
  have hnext : next s .endAdd =
      (s.setEvent i { s.events i with creation := false }).goto .building := by
    rw [next, hc]
  rw [hnext]
  refine h.movesCreator (.inl ?_) (by rw [hc]; simp) (by simp) ?_ fun j hj => ?_
  · rw [hself]
    decide
  · rw [hself]
    exact moves_endAdd
  · rw [hc, Creator.stage, Creator.stage, if_neg hj]

theorem Inv.destroy (h : Inv 0 s) (hc : s.creator = .building) : Inv 0 (next s .destroy) := by
  refine h.goto (fun j _ => ?_) (fun j _ => .inl ?_) ?_
  · rw [hc, Creator.stage, Creator.stage, if_neg (Nat.not_lt_zero j)]
  · rw [Creator.stage, if_neg (Nat.not_lt_zero j)]
  · rw [hc]
    rfl

theorem stage_succ (j : ℕ) (hj : j ≠ i) :
    (Creator.destroying (i + 1)).stage j = (Creator.destroying i).stage j := by
  rw [Creator.stage, Creator.stage]
  exact if_congr (by omega) rfl rfl

theorem stage_succ_self : (Creator.destroying (i + 1)).stage i = .passed := by
  rw [Creator.stage, if_pos (Nat.lt_succ_self i)]

theorem stage_self : (Creator.destroying i).stage i = .open := by
  rw [Creator.stage, if_neg (lt_irrefl i)]

theorem Inv.clear (h : Inv 0 s) (hc : s.creator = .destroying i) : Inv 0 (next s .clear) := by
  have hne : s.creator ≠ .done := by rw [hc]; simp
  have hopen : s.creator.stage i = .open := by rw [hc, stage_self]
  by_cases hend : i = s.numsyncs
  · have hnext : next s .clear = s.goto .putting := by
      rw [next, hc]
      exact if_pos hend
    rw [hnext]
    refine h.goto (fun j hj => ?_) (fun j _ => .inr rfl) ?_
    · rw [hc, Creator.stage, Creator.stage, if_pos (hend ▸ hj)]
    · rw [hc]
      rfl
  · by_cases hp : (s.events i).pending = true
    · have hnext : next s .clear =
          (s.setEvent i { s.events i with pending := false }).goto (.cancelling i) := by
        rw [next, hc]
        exact (if_neg hend).trans (if_pos hp)
      have hi : i < s.numsyncs := by
        by_contra hge
        rw [h.fresh i (Nat.le_of_not_lt hge)] at hp
        cases hp
      rw [hnext]
      refine h.movesCreator (.inr hi) hne (by simp) ?_ fun j hj => ?_
      · rw [hopen, Creator.stage, if_pos rfl]
        exact moves_clear hp
      · rw [hc, Creator.stage, Creator.stage, if_neg hj]
    · have hnext : next s .clear = s.goto (.destroying (i + 1)) := by
        rw [next, hc]
        exact (if_neg hend).trans (if_neg hp)
      have hp' : (s.events i).pending = false := Bool.eq_false_iff.mpr hp
      rw [hnext]
      by_cases hi : i < s.numsyncs
      · have hset : s.setEvent i (s.events i) = s := by
          rw [State.setEvent, update_eq_self]
        rw [← hset]
        refine h.movesCreator (.inr hi) hne (by simp) ?_ fun j hj => ?_
        · rw [hopen, stage_succ_self]
          exact moves_pass hp'
        · rw [hc, stage_succ j hj]
      · refine h.goto (fun j hj => ?_) (fun j _ => ?_) ?_
        · rw [hc, stage_succ j (by omega)]
        · rw [Creator.stage]
          by_cases hj : j < i + 1
          · exact .inr (if_pos hj)
          · exact .inl (if_neg hj)
        · rw [hc]
          rfl

theorem Inv.cancel (h : Inv 0 s) (hc : s.creator = .cancelling i) (hlock : (s.events i).kind = .timestamp ∨
    ((s.events i).callback ≠ .running ∧ (s.events i).callback ≠ .cleared)) : Inv 0 (next s .cancel) := by
  have hself : s.creator.stage i = .cancelling := by rw [hc, Creator.stage, if_pos rfl]
  have hnext : next s .cancel = (s.setEvent i (s.events i).cancelled).goto (.releasing i) := by
    rw [next, hc]
  rw [hnext]
  refine h.movesCreator (.inl ?_) (by rw [hc]; simp) (by simp) ?_ fun j hj => ?_
  · rw [hself]
    decide
  · rw [hself, Creator.stage, if_pos rfl]
    exact moves_cancel hlock
  · rw [hc, Creator.stage, Creator.stage, if_neg hj, if_neg hj]

theorem setEvent_self (s : State) (i : ℕ) : s.setEvent i (s.events i) = s := by
  rw [State.setEvent, update_eq_self]

theorem Inv.release (h : Inv 0 s) (hc : s.creator = .releasing i) : Inv 0 (next s .release) := by
  have hself : s.creator.stage i = .releasing := by rw [hc, Creator.stage, if_pos rfl]
  have hne : s.creator ≠ .done := by rw [hc]; simp
  have hopen : s.creator.stage i ≠ .open ∧ s.creator.stage i ≠ .passed := by rw [hself]; decide
  have hother : ∀ j, j ≠ i → (Creator.destroying (i + 1)).stage j = s.creator.stage j := fun j hj => by
    rw [stage_succ j hj, hc, Creator.stage, Creator.stage, if_neg hj]
  cases hk : (s.events i).kind with
  | timestamp =>
    have hnext : next s .release = (s.setEvent i { s.events i with puts := (s.events i).puts + 1 }).goto
        (.destroying (i + 1)) := by
      simp only [next, hc, hk]
    rw [hnext]
    refine h.movesCreator (.inl hopen) hne (by simp) ?_ hother
    rw [hself, stage_succ_self]
    exact moves_releaseTimestamp hk
  | fence =>
    have hnext : next s .release = (s.goto (.destroying (i + 1))).put := by
      simp only [next, hc, hk]
    rw [hnext, ← setEvent_self s i]
    refine (h.movesCreator (δ := 1) (.inl hopen) hne (by simp) ?_ hother).put
    rw [hself, stage_succ_self]
    exact moves_releaseFence hk
  | timeline =>
    have hnext : next s .release = (s.setEvent i { s.events i with puts := (s.events i).puts + 1 }).goto
        (.dropping i) := by
      simp only [next, hc, hk]
    rw [hnext]
    refine h.movesCreator (.inl hopen) hne (by simp) ?_ fun j hj => ?_
    · rw [hself, Creator.stage, if_pos rfl]
      exact moves_releaseTimeline hk
    · rw [hc, Creator.stage, Creator.stage, if_neg hj, if_neg hj]

theorem Inv.drop (h : Inv 0 s) (hc : s.creator = .dropping i) : Inv 0 (next s .drop) := by
  have hself : s.creator.stage i = .dropping := by rw [hc, Creator.stage, if_pos rfl]
  have hnext : next s .drop = (s.goto (.destroying (i + 1))).put := by
    rw [next, hc]
  rw [hnext, ← setEvent_self s i]
  refine (h.movesCreator (δ := 1) (.inl ?_) (by rw [hc]; simp) (by simp) ?_ fun j hj => ?_).put
  · rw [hself]
    decide
  · rw [hself, stage_succ_self]
    exact moves_drop
  · rw [stage_succ j hj, hc, Creator.stage, Creator.stage, if_neg hj]

theorem Inv.finalPut (h : Inv 0 s) (hc : s.creator = .putting) : Inv 0 (next s .finalPut) := by
  have hgoto : Inv 1 (s.goto .done) := by
    refine h.goto (fun j _ => ?_) (fun j _ => .inr rfl) ?_
    · rw [hc, Creator.stage, Creator.stage]
    · rw [hc]
      rfl
  exact hgoto.put

theorem Inv.expire (h : Inv 0 s) (hcb : (s.events i).callback = .running) :
    Inv 0 (next s (.expire i)) := by
  have hbusy : (s.events i).Busy := .inr (.inl hcb)
  rw [next]
  by_cases hp : (s.events i).pending = true
  · rw [if_pos hp]
    exact h.movesCallback (.inr hbusy) (moves_expire hcb hp)
  · rw [if_neg hp]
    exact h.movesCallback (.inr hbusy) (moves_late hcb (Bool.eq_false_iff.mpr hp))

theorem Inv.proceed (h : Inv 0 s) (hcb : (s.events i).callback = .cleared) :
    Inv 0 (next s (.proceed i)) := by
  have hbusy : (s.events i).Busy := .inr (.inr (.inl hcb))
  rw [next]
  cases hk : (s.events i).kind with
  | timestamp => exact h.movesCallback (.inr hbusy) (moves_proceedTimestamp hcb hk)
  | fence => exact (h.movesCallback (δ := 1) (.inr hbusy) (moves_proceedFence hcb hk)).put
  | timeline => exact h.movesCallback (.inr hbusy) (moves_proceedTimeline hcb hk)

theorem inv_next (h : Inv 0 s) (a : Action) (ha : Enabled s a) : Inv 0 (next s a) := by
  cases a with
  | begin kind => exact h.begin ha kind
  | register ok retired =>
    obtain ⟨i, hc⟩ := ha
    exact h.register hc ok retired
  | endAdd =>
    obtain ⟨i, hc⟩ := ha
    exact h.endAdd hc
  | destroy => exact h.destroy ha
  | clear =>
    obtain ⟨i, hc⟩ := ha
    exact h.clear hc
  | cancel =>
    obtain ⟨i, hc, hlock⟩ := ha
    exact h.cancel hc hlock
  | release =>
    obtain ⟨i, hc⟩ := ha
    exact h.release hc
  | drop =>
    obtain ⟨i, hc⟩ := ha
    exact h.drop hc
  | finalPut => exact h.finalPut ha
  | fire i => exact h.movesCallback (.inl ha) (moves_fire ha)
  | run i => exact h.movesCallback (.inr (.inl ha)) (moves_run ha)
  | expire i => exact h.expire ha
  | proceed i => exact h.proceed ha
  | putObj i =>
    exact (h.movesCallback (δ := 1) (.inr (.inr (.inr (.inr (.inl ha))))) (moves_putObj ha)).put
  | work i =>
    exact h.movesCallback (.inr (.inr (.inr (.inr (.inr (.inl ha)))))) (moves_work ha)
  | workPut i =>
    exact (h.movesCallback (δ := 1) (.inr (.inr (.inr (.inr (.inr (.inr ha)))))) (moves_workPut ha)).put

theorem inv_of_reachable (h : syncMachine.Reachable s) : Inv 0 s := by
  refine h.invariant (I := Inv 0) (fun s hs => ?_) fun s a hs ha => inv_next hs a ha
  rw [show s = initial from hs]
  exact inv_initial

end Objects

/-! ## The balance -/

section Balance

variable {s : State} {i : ℕ} {e : SyncEvent} {c : Creator} {freed : Bool}

theorem Creator.stage_adding : c.stage i = .adding ↔ c = .adding i := by
  cases c <;> grind [Creator.stage]

theorem Creator.stage_cancelling : c.stage i = .cancelling ↔ c = .cancelling i := by
  cases c <;> grind [Creator.stage]

theorem Creator.stage_releasing : c.stage i = .releasing ↔ c = .releasing i := by
  cases c <;> grind [Creator.stage]

theorem Creator.stage_dropping : c.stage i = .dropping ↔ c = .dropping i := by
  cases c <;> grind [Creator.stage]

theorem tok_pos_iff {p : Prop} [Decidable p] : 0 < tok p ↔ p := by
  rw [tok]
  split_ifs with h <;> simp [h]

theorem objTok_pos_iff : 0 < objTok (c.stage i) e ↔ e.Outstanding c i := by
  rw [objTok, SyncEvent.Outstanding]
  cases e.kind with
  | timestamp => simp only [Nat.add_pos_iff_pos_or_pos, tok_pos_iff, Creator.stage_adding]
  | fence =>
    simp only [Nat.add_pos_iff_pos_or_pos, tok_pos_iff, Creator.stage_cancelling,
      Creator.stage_releasing, or_assoc]
  | timeline =>
    simp only [Nat.add_pos_iff_pos_or_pos, tok_pos_iff, Creator.stage_cancelling,
      Creator.stage_releasing, Creator.stage_dropping, or_assoc]

theorem EventOk.objTok_eq (h : EventOk (c.stage i) freed e) :
    objTok (c.stage i) e = if e.Outstanding c i then 1 else 0 := by
  have hsingle := h.single
  by_cases ho : e.Outstanding c i
  · have hpos := objTok_pos_iff.mpr ho
    rw [if_pos ho]
    omega
  · have hnot := mt objTok_pos_iff.mp ho
    rw [if_neg ho]
    omega

theorem countP_range (p : ℕ → Prop) [DecidablePred p] (n : ℕ) :
    (List.range n).countP p = ∑ i ∈ Finset.range n, if p i then 1 else 0 := by
  induction n with
  | zero => rfl
  | succ n ih =>
    rw [List.range_succ, List.countP_append, ih, Finset.sum_range_succ, List.countP_singleton]
    simp only [decide_eq_true_eq]

theorem Inv.count (h : Inv 0 s) : s.refcount = (if s.creator = .done then 0 else 1) +
    (List.range s.numsyncs).countP fun i => (s.events i).Outstanding s.creator i := by
  have hsum := h.sum
  have htok : ∑ i ∈ Finset.range s.numsyncs, objTok (s.creator.stage i) (s.events i) =
      ∑ i ∈ Finset.range s.numsyncs, if (s.events i).Outstanding s.creator i then 1 else 0 :=
    Finset.sum_congr rfl fun i hi => (h.event i (Finset.mem_range.mp hi)).objTok_eq
  have hdone : tok (s.creator ≠ .done) = if s.creator = .done then 0 else 1 := by
    rw [tok]
    exact ite_not _ _ _
  rw [countP_range]
  omega

theorem Inv.untouched (h : Inv 0 s) (hfreed : s.refcount = 0) (i : ℕ) :
    (s.events i).callback ≠ .listed ∧ ¬ (s.events i).Busy := by
  rw [← not_or]
  intro hb
  by_cases hi : i < s.numsyncs
  · exact h.alive (.inr ⟨i, hi, (h.event i hi).tok_pos hb⟩) hfreed
  · rw [h.fresh i (Nat.le_of_not_lt hi), SyncEvent.Busy, SyncEvent.zero] at hb
    simp at hb

theorem Inv.refs (h : Inv 0 s) (i : ℕ) :
    (s.events i).puts ≤ (s.events i).gets ∧ (s.events i).gets ≤ 1 := by
  by_cases hi : i < s.numsyncs
  · have hrefs := (h.event i hi).refs
    have hgets := (h.event i hi).gets
    have hle : tok ((s.events i).kind ≠ .fence ∨ (s.events i).callback ≠ .absent) ≤ 1 := by
      rw [tok]
      split_ifs <;> omega
    omega
  · rw [h.fresh i (Nat.le_of_not_lt hi)]
    exact ⟨le_rfl, Nat.zero_le _⟩

theorem EventOk.settled (h : EventOk .passed freed e) (hb : ¬ e.Busy) :
    objTok .passed e = 0 ∧ refTok .passed true e = 0 ∧ e.creation = false := by
  obtain ⟨kind, pending, callback, work, gets, puts, creation⟩ := e
  obtain ⟨-, -, -, hlisted, -, -, -, hpassed, hcreation, -, hremoved⟩ := h
  rw [SyncEvent.Busy] at hb
  cases kind <;> cases callback <;> simp_all [objTok, refTok]

theorem Inv.ended (h : Inv 0 s) (hc : s.creator = .done) (hb : ∀ i, ¬ (s.events i).Busy) :
    s.refcount = 0 ∧ ∀ i, (s.events i).puts = (s.events i).gets ∧ (s.events i).creation = false := by
  have hstage : ∀ i, s.creator.stage i = .passed := fun i => by rw [hc, Creator.stage]
  have hsum := h.sum
  have hzero : ∑ i ∈ Finset.range s.numsyncs, objTok (s.creator.stage i) (s.events i) = 0 := by
    refine Finset.sum_eq_zero fun i hi => ?_
    have hev := h.event i (Finset.mem_range.mp hi)
    rw [hstage i] at hev ⊢
    exact (hev.settled (hb i)).1
  rw [hzero, tok_false (not_not.mpr hc)] at hsum
  have hfreed : s.refcount = 0 := hsum
  refine ⟨hfreed, fun i => ?_⟩
  by_cases hi : i < s.numsyncs
  · have hev := h.event i hi
    rw [hstage i, decide_eq_true hfreed] at hev
    obtain ⟨-, href, hcreation⟩ := hev.settled (hb i)
    have hrefs := hev.refs
    rw [href] at hrefs
    exact ⟨hrefs, hcreation⟩
  · rw [h.fresh i (Nat.le_of_not_lt hi)]
    exact ⟨rfl, rfl⟩

/-- **The references balance**, in every run of the creator, the callbacks and the works. -/
theorem balanced_of_reachable (h : syncMachine.Reachable s) : Balanced s := by
  have hinv := inv_of_reachable h
  refine ⟨hinv.count, ?_, hinv.untouched, hinv.refs, hinv.ended⟩
  rw [hinv.once, tok]

def cancelRun : List Action :=
  [.begin .fence, .register true false, .begin .timestamp, .register true false, .fire 0, .expire 0,
    .proceed 0, .destroy, .clear, .clear, .cancel, .run 1, .release, .expire 1, .putObj 1, .clear,
    .finalPut]

theorem allows_cancelRun : syncMachine.Allows initial cancelRun :=
  ⟨rfl, ⟨0, rfl⟩, rfl, ⟨1, rfl⟩, rfl, rfl, rfl, rfl, ⟨0, rfl⟩, ⟨1, rfl⟩, ⟨1, rfl, .inl rfl⟩, rfl,
    ⟨1, rfl⟩, rfl, rfl, ⟨2, rfl⟩, rfl, trivial⟩

theorem balanced_cancelRun : Balanced (syncMachine.exec initial cancelRun) :=
  balanced_of_reachable ((Machine.Reachable.init (M := syncMachine) rfl).exec cancelRun allows_cancelRun)

end Balance

end KgslSyncobj
