import Sm8750Modules.KgslEvents.Group

/-!
# Queries of GPU timelines

A timeline command names timelines and the numbers they are to be signalled with.
-/

namespace KgslTimeline

open Runs KgslEvents Function List

/-- `struct kgsl_timeline_event`: the entry `idx` of the command `obj`. -/
structure SignalEvent where
  obj : ℕ
  idx : ℕ
  seqno : ℕ
  context : ℕ
  timestamp : ℕ
deriving DecidableEq, Repr

/-- `struct kgsl_drawobj_timeline`: timelines and numbers, and the timestamp the command waits for.
`added` and `signalled` say how far the loops over the entries are; the command is `popped` off its
queue, and `called` when the timestamp retires. -/
structure TimelineObj where
  timelines : List (ℕ × ℕ)
  context : ℕ
  timestamp : ℕ
  added : ℕ
  popped : Bool
  called : Bool
  signalled : ℕ
  freed : Bool

def TimelineObj.sigRefcount (o : TimelineObj) : ℕ :=
  (if o.popped then 0 else 1) + if o.called then 0 else 1

/-- The timelines with their values and lists, the commands, the retired timestamps of the contexts
and the answers of the queries, the newest first. -/
structure State where
  value : ℕ → ℕ
  events : ℕ → List SignalEvent
  objs : ℕ → Option TimelineObj
  made : ℕ
  retired : ℕ → ℕ
  answers : ℕ → List ℕ

/-- The walk of `kgsl_timeline_add_signal` from the end of the list. -/
def insertRev (e : SignalEvent) : List SignalEvent → List SignalEvent
  | [] => [e]
  | x :: rest => if x.seqno ≤ e.seqno then e :: x :: rest else x :: insertRev e rest

namespace State

variable (s : State)

def addSignal (t : ℕ) (e : SignalEvent) : State :=
  if e.seqno ≤ s.value t then s
  else { s with events := Function.update s.events t (insertRev e (s.events t).reverse).reverse }

def signal (t seqno : ℕ) : State :=
  if seqno < s.value t then s
  else
    { s with
      value := Function.update s.value t seqno
      events := Function.update s.events t ((s.events t).dropWhile fun e => e.seqno ≤ seqno) }

def checkTimestamp (e : SignalEvent) : Bool :=
  0 ≤ timestampCmp (wrap (s.retired e.context)) (wrap e.timestamp)

def query (t : ℕ) : ℕ :=
  match (s.events t).reverse.find? s.checkTimestamp with
  | none => s.value t
  | some e => e.seqno

def setObj (i : ℕ) (o : TimelineObj) : State := { s with objs := Function.update s.objs i (some o) }

end State

inductive Action where
  /-- `kgsl_drawobj_add_timeline` -/
  | create (timelines : List (ℕ × ℕ)) (context timestamp : ℕ)
  /-- one turn of the loop of `timelineobj_destroy` -/
  | addSignal (i : ℕ)
  /-- its end -/
  | pop (i : ℕ)
  /-- `_timeline_signaled` -/
  | call (i : ℕ)
  /-- one turn of the loop of `_drawobj_timelineobj_retire` -/
  | retireEntry (i : ℕ)
  /-- its end -/
  | free (i : ℕ)
  | signal (t seqno : ℕ)
  | retire (context ts : ℕ)
  | query (t : ℕ)

def next (s : State) : Action → State
  | .create timelines context timestamp =>
    { s.setObj s.made ⟨timelines, context, timestamp, 0, false, false, 0, false⟩ with made := s.made + 1 }
  | .addSignal i =>
    match s.objs i with
    | none => s
    | some o =>
      match o.timelines[o.added]? with
      | none => s
      | some (t, seqno) =>
        (s.addSignal t ⟨i, o.added, seqno, o.context, o.timestamp⟩).setObj i { o with added := o.added + 1 }
  | .pop i =>
    match s.objs i with
    | none => s
    | some o => s.setObj i { o with popped := true }
  | .call i =>
    match s.objs i with
    | none => s
    | some o => s.setObj i { o with called := true }
  | .retireEntry i =>
    match s.objs i with
    | none => s
    | some o =>
      match o.timelines[o.signalled]? with
      | none => s
      | some (t, seqno) => (s.signal t seqno).setObj i { o with signalled := o.signalled + 1 }
  | .free i =>
    match s.objs i with
    | none => s
    | some o => s.setObj i { o with freed := true }
  | .signal t seqno => s.signal t seqno
  | .retire context ts => { s with retired := Function.update s.retired context ts }
  | .query t => { s with answers := Function.update s.answers t (s.query t :: s.answers t) }

/-- What a command may do next. -/
def TimelineObj.Allows (o : TimelineObj) : Action → Prop
  | .addSignal _ => o.added < o.timelines.length ∧ o.popped = false
  | .pop _ => o.added = o.timelines.length ∧ o.popped = false
  | .call _ => o.called = false
  | .retireEntry _ => o.sigRefcount = 0 ∧ o.signalled < o.timelines.length
  | .free _ => o.sigRefcount = 0 ∧ o.signalled = o.timelines.length ∧ o.freed = false
  | _ => True

def Enabled (s : State) : Action → Prop
  | .addSignal i => ∃ o ∈ s.objs i, o.Allows (.addSignal i)
  | .pop i => ∃ o ∈ s.objs i, o.Allows (.pop i)
  | .call i => ∃ o ∈ s.objs i, o.Allows (.call i)
  | .retireEntry i => ∃ o ∈ s.objs i, o.Allows (.retireEntry i)
  | .free i => ∃ o ∈ s.objs i, o.Allows (.free i)
  | .retire context ts => s.retired context ≤ ts
  | .create _ _ _ | .signal _ _ | .query _ => True

def InHalf (s : State) : Prop := ∀ t, ∀ e ∈ s.events t, Near e.timestamp (s.retired e.context)

def initial (value : ℕ → ℕ) : State :=
  ⟨value, fun _ => [], fun _ => none, 0, fun _ => 0, fun _ => []⟩

/-- Commands, signals, contexts and queries in any order. -/
def timelineMachine (allowed : State → Prop) : Machine State Action where
  init s := ∃ value, s = initial value
  guard s a := Enabled s a ∧ allowed (next s a)
  next := next

section Lists

variable {e x : SignalEvent} {l : List SignalEvent} {seqno : ℕ}

def Sorted (l : List SignalEvent) : Prop := l.Pairwise fun a b => a.seqno ≤ b.seqno

theorem mem_insertRev : x ∈ insertRev e l ↔ x = e ∨ x ∈ l := by
  induction l with
  | nil => exact mem_cons
  | cons y rest ih =>
    rw [insertRev]
    split
    · exact mem_cons
    · rw [mem_cons, ih, mem_cons]
      exact or_left_comm

theorem sorted_insertRev (h : l.Pairwise fun a b => b.seqno ≤ a.seqno) :
    (insertRev e l).Pairwise fun a b => b.seqno ≤ a.seqno := by
  induction l with
  | nil => exact pairwise_singleton _ _
  | cons y rest ih =>
    obtain ⟨hy, hrest⟩ := pairwise_cons.mp h
    rw [insertRev]
    split
    · rename_i hle
      refine pairwise_cons.mpr ⟨fun z hz => ?_, h⟩
      rcases mem_cons.mp hz with rfl | hz
      · exact hle
      · exact (hy z hz).trans hle
    · rename_i hgt
      refine pairwise_cons.mpr ⟨fun z hz => ?_, ih hrest⟩
      rcases mem_insertRev.mp hz with rfl | hz
      · exact (Nat.lt_of_not_le hgt).le
      · exact hy z hz

theorem Sorted.insert (h : Sorted l) : Sorted (insertRev e l.reverse).reverse := by
  refine pairwise_reverse.mpr (sorted_insertRev ?_)
  exact pairwise_reverse.mpr h

theorem Sorted.mem_dropWhile (h : Sorted l) :
    x ∈ l.dropWhile (fun e => e.seqno ≤ seqno) ↔ x ∈ l ∧ seqno < x.seqno := by
  induction l with
  | nil => exact ⟨fun hx => (nomatch hx), fun hx => (nomatch hx.1)⟩
  | cons y rest ih =>
    obtain ⟨hy, hrest⟩ := pairwise_cons.mp h
    rw [dropWhile_cons]
    split
    · rename_i hle
      have hle' : y.seqno ≤ seqno := of_decide_eq_true hle
      rw [ih hrest, mem_cons]
      refine ⟨fun hx => ⟨.inr hx.1, hx.2⟩, fun hx => ?_⟩
      rcases hx.1 with rfl | hmem
      · exact absurd hx.2 (Nat.not_lt.mpr hle')
      · exact ⟨hmem, hx.2⟩
    · rename_i hgt
      have hgt' : seqno < y.seqno := Nat.lt_of_not_le fun hle => hgt (decide_eq_true hle)
      refine ⟨fun hx => ⟨hx, ?_⟩, fun hx => hx.1⟩
      rcases mem_cons.mp hx with rfl | hmem
      · exact hgt'
      · exact hgt'.trans_le (hy x hmem)

end Lists

/-! ## The invariant -/

structure Sound (s : State) : Prop where
  sorted : ∀ t, Sorted (s.events t)
  above : ∀ t, ∀ e ∈ s.events t, s.value t < e.seqno
  owned : ∀ t, ∀ e ∈ s.events t, ∃ o, s.objs e.obj = some o ∧
    o.timelines[e.idx]? = some (t, e.seqno) ∧ o.signalled ≤ e.idx
  fresh : ∀ i, s.made ≤ i → s.objs i = none
  obj : ∀ i o, s.objs i = some o → (o.popped = false → o.signalled = 0) ∧
    (o.freed = true → o.signalled = o.timelines.length)

section Steps

variable {s : State} {t i : ℕ} {e : SignalEvent} {o o' : TimelineObj}

theorem sound_initial (value : ℕ → ℕ) : Sound (initial value) :=
  ⟨fun _ => List.Pairwise.nil, fun _ _ he => (nomatch he), fun _ _ he => (nomatch he), fun _ _ => rfl,
    fun _ _ ho => (nomatch ho)⟩

theorem Sound.setObj (h : Sound s) (ho : s.objs i = some o) (hentries : o'.timelines = o.timelines)
    (hsignalled : ∀ t, ∀ e ∈ s.events t, e.obj = i → o'.signalled ≤ e.idx)
    (hobj : (o'.popped = false → o'.signalled = 0) ∧
      (o'.freed = true → o'.signalled = o'.timelines.length)) : Sound (s.setObj i o') := by
  refine ⟨h.sorted, h.above, fun t e he => ?_, fun j hj => ?_, fun j x hx => ?_⟩
  · show ∃ x, update s.objs i (some o') e.obj = some x ∧ _
    by_cases hi : e.obj = i
    · obtain ⟨x, hx, hidx, -⟩ := h.owned t e he
      have hxo : x = o := Option.some.inj (hx.symm.trans (hi ▸ ho))
      refine ⟨o', ?_, ?_, hsignalled t e he hi⟩
      · rw [hi, update_self]
      · rw [hentries, ← hxo]
        exact hidx
    · rw [update_of_ne hi]
      exact h.owned t e he
  · show update s.objs i (some o') j = none
    have hne : j ≠ i := by
      intro hji
      rw [← hji, h.fresh j hj] at ho
      cases ho
    rw [update_of_ne hne]
    exact h.fresh j hj
  · have hx' : update s.objs i (some o') j = some x := hx
    by_cases hj : j = i
    · rw [hj, update_self] at hx'
      rw [← Option.some.inj hx']
      exact hobj
    · rw [update_of_ne hj] at hx'
      exact h.obj j x hx'

theorem mem_addSignal {t' : ℕ} {x : SignalEvent} (hx : x ∈ (s.addSignal t' e).events t) :
    x ∈ s.events t ∨ (t = t' ∧ x = e ∧ s.value t < e.seqno) := by
  rw [State.addSignal] at hx
  split at hx
  · exact .inl hx
  · rename_i hgt
    have hx' : x ∈ update s.events t' _ t := hx
    by_cases ht : t = t'
    · rw [ht, update_self, mem_reverse] at hx'
      rcases mem_insertRev.mp hx' with rfl | hold
      · rw [ht]
        exact .inr ⟨rfl, rfl, Nat.lt_of_not_le hgt⟩
      · rw [ht]
        exact .inl (mem_reverse.mp hold)
    · rw [update_of_ne ht] at hx'
      exact .inl hx'

theorem addSignal_keeps {t' : ℕ} {x : SignalEvent} (hx : x ∈ s.events t) :
    x ∈ (s.addSignal t' e).events t := by
  rw [State.addSignal]
  split
  · exact hx
  · show x ∈ update s.events t' _ t
    by_cases ht : t = t'
    · rw [ht, update_self, mem_reverse]
      rw [ht] at hx
      exact mem_insertRev.mpr (.inr (mem_reverse.mpr hx))
    · rw [update_of_ne ht]
      exact hx

theorem addSignal_same (s : State) (t : ℕ) (e : SignalEvent) :
    (s.addSignal t e).value = s.value ∧ (s.addSignal t e).objs = s.objs ∧
      (s.addSignal t e).made = s.made ∧ (s.addSignal t e).retired = s.retired ∧
      (s.addSignal t e).answers = s.answers := by
  rw [State.addSignal]
  split
  · exact ⟨rfl, rfl, rfl, rfl, rfl⟩
  · exact ⟨rfl, rfl, rfl, rfl, rfl⟩

theorem Sound.addSignal (h : Sound s) (ho : s.objs e.obj = some o)
    (hentry : o.timelines[e.idx]? = some (t, e.seqno)) (hle : o.signalled ≤ e.idx) :
    Sound (s.addSignal t e) := by
  obtain ⟨hvalue, hobjs, hmade, -, -⟩ := addSignal_same s t e
  refine ⟨fun u => ?_, fun u x hx => ?_, fun u x hx => ?_, ?_, ?_⟩
  · rw [State.addSignal]
    split
    · exact h.sorted u
    · show Sorted (update s.events t _ u)
      by_cases hu : u = t
      · rw [hu, update_self]
        exact (h.sorted t).insert
      · rw [update_of_ne hu]
        exact h.sorted u
  · rw [hvalue]
    rcases mem_addSignal hx with hold | ⟨-, rfl, hlt⟩
    · exact h.above u x hold
    · exact hlt
  · rw [hobjs]
    rcases mem_addSignal hx with hold | ⟨rfl, rfl, -⟩
    · exact h.owned u x hold
    · exact ⟨o, ho, hentry, hle⟩
  · rw [hmade, hobjs]
    exact h.fresh
  · rw [hobjs]
    exact h.obj

theorem Sound.mem_signal (h : Sound s) {t' seqno : ℕ} :
    e ∈ (s.signal t' seqno).events t ↔ e ∈ s.events t ∧ (t = t' → seqno < e.seqno) := by
  rw [State.signal]
  split
  · rename_i hlt
    refine ⟨fun he => ⟨he, fun ht => ?_⟩, fun he => he.1⟩
    rw [← ht] at hlt
    exact hlt.trans (h.above t e he)
  · show e ∈ update s.events t' _ t ↔ _
    by_cases ht : t = t'
    · rw [ht, update_self, (h.sorted t').mem_dropWhile]
      exact and_congr_right fun _ => ⟨fun hlt _ => hlt, fun hlt => hlt rfl⟩
    · rw [update_of_ne ht]
      exact ⟨fun he => ⟨he, fun htt => absurd htt ht⟩, fun he => he.1⟩

theorem signal_value (s : State) (t seqno u : ℕ) :
    (s.signal t seqno).value u = if u = t then max (s.value t) seqno else s.value u := by
  rw [State.signal]
  split
  · rename_i hlt
    split
    · rename_i hu
      rw [hu, max_eq_left hlt.le]
    · rfl
  · rename_i hge
    show update s.value t seqno u = _
    split
    · rename_i hu
      rw [hu, update_self, max_eq_right (Nat.le_of_not_lt hge)]
    · rename_i hu
      rw [update_of_ne hu]

theorem signal_same (s : State) (t seqno : ℕ) :
    (s.signal t seqno).objs = s.objs ∧ (s.signal t seqno).made = s.made ∧
      (s.signal t seqno).retired = s.retired ∧ (s.signal t seqno).answers = s.answers := by
  rw [State.signal]
  split
  · exact ⟨rfl, rfl, rfl, rfl⟩
  · exact ⟨rfl, rfl, rfl, rfl⟩

theorem Sound.signal (h : Sound s) (t seqno : ℕ) : Sound (s.signal t seqno) := by
  obtain ⟨hobjs, hmade, -, -⟩ := signal_same s t seqno
  refine ⟨fun u => ?_, fun u e he => ?_, fun u e he => ?_, ?_, ?_⟩
  · rw [State.signal]
    split
    · exact h.sorted u
    · show Sorted (update s.events t _ u)
      by_cases hu : u = t
      · rw [hu, update_self]
        exact (h.sorted t).sublist (dropWhile_sublist _)
      · rw [update_of_ne hu]
        exact h.sorted u
  · obtain ⟨hold, hlt⟩ := h.mem_signal.mp he
    have habove := h.above u e hold
    rw [signal_value]
    split
    · rename_i hu
      rw [← hu]
      exact max_lt habove (hlt hu)
    · exact habove
  · rw [hobjs]
    exact h.owned u e (h.mem_signal.mp he).1
  · rw [hmade, hobjs]
    exact h.fresh
  · rw [hobjs]
    exact h.obj

theorem Sound.next (h : Sound s) {a : Action} (ha : Enabled s a) : Sound (KgslTimeline.next s a) := by
  cases a with
  | create timelines context timestamp =>
    refine ⟨h.sorted, h.above, fun t e he => ?_, fun j hj => ?_, fun j x hx => ?_⟩
    · obtain ⟨o, ho, hrest⟩ := h.owned t e he
      refine ⟨o, ?_, hrest⟩
      show update s.objs s.made _ e.obj = some o
      rw [update_of_ne, ho]
      intro hi
      rw [hi, h.fresh _ le_rfl] at ho
      cases ho
    · have hj' : s.made + 1 ≤ j := hj
      show update s.objs s.made _ j = none
      rw [update_of_ne (by omega)]
      exact h.fresh j (by omega)
    · have hx' : update s.objs s.made _ j = some x := hx
      by_cases hj : j = s.made
      · rw [hj, update_self] at hx'
        rw [← Option.some.inj hx']
        exact ⟨fun _ => rfl, fun hf => (nomatch hf)⟩
      · rw [update_of_ne hj] at hx'
        exact h.obj j x hx'
  | addSignal i =>
    obtain ⟨o, ho, hlt, hpopped⟩ := ha
    have ho' : s.objs i = some o := ho
    have hentry := List.getElem?_eq_getElem hlt
    obtain ⟨hzero, hfreed⟩ := h.obj i o ho'
    rw [KgslTimeline.next, ho']
    dsimp only
    rw [hentry]
    dsimp only
    have hadd := @Sound.addSignal s _ ⟨i, o.added, o.timelines[o.added].2, o.context, o.timestamp⟩ o h ho'
      hentry ((hzero hpopped).le.trans (Nat.zero_le _))
    have hobjs := (addSignal_same s o.timelines[o.added].1
      ⟨i, o.added, o.timelines[o.added].2, o.context, o.timestamp⟩).2.1
    refine hadd.setObj (hobjs ▸ ho') ?_ (fun u x _ _ => ?_) ⟨hzero, hfreed⟩
    · rfl
    · exact (hzero hpopped).le.trans (Nat.zero_le _)
  | pop i =>
    obtain ⟨o, ho, -, hpopped⟩ := ha
    have ho' : s.objs i = some o := ho
    obtain ⟨hzero, hfreed⟩ := h.obj i o ho'
    rw [KgslTimeline.next, ho']
    refine h.setObj ho' ?_ (fun u x _ _ => ?_) ⟨fun hf => (nomatch hf), hfreed⟩
    · rfl
    · exact (hzero hpopped).le.trans (Nat.zero_le _)
  | call i =>
    obtain ⟨o, ho, -⟩ := ha
    have ho' : s.objs i = some o := ho
    rw [KgslTimeline.next, ho']
    refine h.setObj ho' ?_ (fun u x hx hi => ?_) (h.obj i o ho')
    · rfl
    · obtain ⟨o', hx', -, hle⟩ := h.owned u x hx
      rw [hi, ho'] at hx'
      rw [Option.some.inj hx']
      exact hle
  | retireEntry i =>
    obtain ⟨o, ho, hzero, hlt⟩ := ha
    have ho' : s.objs i = some o := ho
    have hentry := List.getElem?_eq_getElem hlt
    have hpopped : o.popped = true := by
      cases hp : o.popped with
      | true => rfl
      | false =>
        rw [TimelineObj.sigRefcount, hp, if_neg Bool.false_ne_true] at hzero
        omega
    obtain ⟨-, hfreed⟩ := h.obj i o ho'
    rw [KgslTimeline.next, ho']
    dsimp only
    rw [hentry]
    dsimp only
    have hsignal := h.signal o.timelines[o.signalled].1 o.timelines[o.signalled].2
    have hobjs := (signal_same s o.timelines[o.signalled].1 o.timelines[o.signalled].2).1
    refine hsignal.setObj (hobjs ▸ ho') ?_ (fun u x hx hi => ?_) ⟨fun hf => ?_, fun hf => ?_⟩
    · rfl
    · -- the entry that was signalled is not listed any more
      obtain ⟨hold, hlater⟩ := h.mem_signal.mp hx
      obtain ⟨o', hx', hidx, hle⟩ := h.owned u x hold
      rw [hi, ho'] at hx'
      rw [← Option.some.inj hx'] at hidx hle
      refine Nat.lt_of_le_of_ne hle fun heq => ?_
      rw [← heq, hentry] at hidx
      have hpair := Option.some.inj hidx
      have hlt' := hlater (congrArg Prod.fst hpair).symm
      rw [congrArg Prod.snd hpair] at hlt'
      exact Nat.lt_irrefl _ hlt'
    · have hf' : o.popped = false := hf
      rw [hpopped] at hf'
      cases hf'
    · exact absurd (hfreed hf) hlt.ne
  | free i =>
    obtain ⟨o, ho, hzero, hall, -⟩ := ha
    have ho' : s.objs i = some o := ho
    rw [KgslTimeline.next, ho']
    refine h.setObj ho' ?_ (fun u x hx hi => ?_) ⟨(h.obj i o ho').1, fun _ => hall⟩
    · rfl
    · obtain ⟨o', hx', -, hle⟩ := h.owned u x hx
      rw [hi, ho'] at hx'
      rw [Option.some.inj hx']
      exact hle
  | signal t seqno => exact h.signal t seqno
  | retire context ts => exact ⟨h.sorted, h.above, h.owned, h.fresh, h.obj⟩
  | query t => exact ⟨h.sorted, h.above, h.owned, h.fresh, h.obj⟩

theorem query_cases (s : State) (t : ℕ) : s.query t = s.value t ∨
    ∃ e ∈ s.events t, s.checkTimestamp e = true ∧ s.query t = e.seqno := by
  rw [State.query]
  cases hfind : (s.events t).reverse.find? s.checkTimestamp with
  | none => exact .inl rfl
  | some e =>
    refine .inr ⟨e, mem_reverse.mp (List.mem_of_find?_eq_some hfind), ?_, rfl⟩
    exact List.find?_some hfind

theorem Sound.value_le_query (h : Sound s) (t : ℕ) : s.value t ≤ s.query t := by
  rcases query_cases s t with hq | ⟨e, he, -, hq⟩
  · exact hq.ge
  · rw [hq]
    exact (h.above t e he).le

theorem Sound.le_query (h : Sound s) (he : e ∈ s.events t) (hretired : s.checkTimestamp e = true) :
    e.seqno ≤ s.query t := by
  rw [State.query]
  cases hfind : (s.events t).reverse.find? s.checkTimestamp with
  | none => exact absurd hretired (List.find?_eq_none.mp hfind e (mem_reverse.mpr he))
  | some x =>
    obtain ⟨-, pre, post, hlist, hpre⟩ := List.find?_eq_some_iff_append.mp hfind
    have hsorted := pairwise_reverse.mpr (h.sorted t)
    rw [hlist] at hsorted
    have hmem : e ∈ pre ++ x :: post := hlist ▸ mem_reverse.mpr he
    rcases mem_append.mp hmem with hbefore | hafter
    · have hnot := hpre e hbefore
      rw [hretired] at hnot
      cases hnot
    · rcases mem_cons.mp hafter with rfl | hpost
      · exact le_rfl
      · exact (pairwise_cons.mp (pairwise_append.mp hsorted).2.1).1 e hpost

theorem checkTimestamp_iff (h : Near e.timestamp (s.retired e.context)) :
    s.checkTimestamp e = true ↔ e.timestamp ≤ s.retired e.context := by
  rw [State.checkTimestamp, timestampCmp_wrap h.symm, decide_eq_true_eq]
  rcases Nat.lt_trichotomy (s.retired e.context) e.timestamp with hlt | heq | hgt
  · rw [if_neg hlt.ne, if_neg (Nat.lt_asymm hlt)]
    exact ⟨fun hf => absurd hf (by decide), fun hle => absurd hle (Nat.not_le.mpr hlt)⟩
  · rw [if_pos heq]
    exact ⟨fun _ => heq.ge, fun _ => le_rfl⟩
  · rw [if_neg hgt.ne', if_pos hgt]
    exact ⟨fun _ => hgt.le, fun _ => by decide⟩

theorem Sound.next_keeps (h : Sound s) {a : Action} (ha : Enabled s a) (t : ℕ) :
    s.value t ≤ (KgslTimeline.next s a).value t ∧
      (∀ e ∈ s.events t, e ∈ (KgslTimeline.next s a).events t ∨
        e.seqno ≤ (KgslTimeline.next s a).value t) ∧
      ∀ c, s.retired c ≤ (KgslTimeline.next s a).retired c := by
  have hsignal : ∀ t' seqno, s.value t ≤ (s.signal t' seqno).value t ∧
      ∀ e ∈ s.events t, e ∈ (s.signal t' seqno).events t ∨ e.seqno ≤ (s.signal t' seqno).value t := by
    intro t' seqno
    rw [signal_value]
    split
    · rename_i ht
      rw [ht]
      refine ⟨le_max_left _ _, fun e he => ?_⟩
      rw [h.mem_signal]
      rcases Nat.lt_or_ge seqno e.seqno with hlt | hge
      · exact .inl ⟨he, fun _ => hlt⟩
      · exact .inr (hge.trans (le_max_right _ _))
    · rename_i ht
      exact ⟨le_rfl, fun e he => .inl (h.mem_signal.mpr ⟨he, fun htt => absurd htt ht⟩)⟩
  cases a with
  | create timelines context timestamp => exact ⟨le_rfl, fun e he => .inl he, fun c => le_rfl⟩
  | addSignal i =>
    rw [KgslTimeline.next]
    cases ho : s.objs i with
    | none => exact ⟨le_rfl, fun e he => .inl he, fun c => le_rfl⟩
    | some o =>
      dsimp only
      cases hentry : o.timelines[o.added]? with
      | none => exact ⟨le_rfl, fun e he => .inl he, fun c => le_rfl⟩
      | some entry =>
        obtain ⟨t', seqno⟩ := entry
        have hsame := addSignal_same s t' ⟨i, o.added, seqno, o.context, o.timestamp⟩
        refine ⟨?_, fun e he => .inl (addSignal_keeps he), fun c => ?_⟩
        · exact (congrFun hsame.1 t).ge
        · exact (congrFun hsame.2.2.2.1 c).ge
  | pop i =>
    rw [KgslTimeline.next]
    cases s.objs i with
    | none => exact ⟨le_rfl, fun e he => .inl he, fun c => le_rfl⟩
    | some o => exact ⟨le_rfl, fun e he => .inl he, fun c => le_rfl⟩
  | call i =>
    rw [KgslTimeline.next]
    cases s.objs i with
    | none => exact ⟨le_rfl, fun e he => .inl he, fun c => le_rfl⟩
    | some o => exact ⟨le_rfl, fun e he => .inl he, fun c => le_rfl⟩
  | retireEntry i =>
    rw [KgslTimeline.next]
    cases ho : s.objs i with
    | none => exact ⟨le_rfl, fun e he => .inl he, fun c => le_rfl⟩
    | some o =>
      dsimp only
      cases hentry : o.timelines[o.signalled]? with
      | none => exact ⟨le_rfl, fun e he => .inl he, fun c => le_rfl⟩
      | some entry =>
        obtain ⟨t', seqno⟩ := entry
        obtain ⟨hvalue, hlisted⟩ := hsignal t' seqno
        exact ⟨hvalue, hlisted, fun c => (congrFun (signal_same s t' seqno).2.2.1 c).ge⟩
  | free i =>
    rw [KgslTimeline.next]
    cases s.objs i with
    | none => exact ⟨le_rfl, fun e he => .inl he, fun c => le_rfl⟩
    | some o => exact ⟨le_rfl, fun e he => .inl he, fun c => le_rfl⟩
  | signal t' seqno =>
    obtain ⟨hvalue, hlisted⟩ := hsignal t' seqno
    exact ⟨hvalue, hlisted, fun c => (congrFun (signal_same s t' seqno).2.2.1 c).ge⟩
  | retire context ts =>
    refine ⟨le_rfl, fun e he => .inl he, fun c => ?_⟩
    show s.retired c ≤ update s.retired context ts c
    by_cases hc : c = context
    · rw [hc, update_self]
      exact ha
    · rw [update_of_ne hc]
  | query t' => exact ⟨le_rfl, fun e he => .inl he, fun c => le_rfl⟩

theorem Sound.query_le_next (h : Sound s) (hhalf : InHalf s) {a : Action} (ha : Enabled s a)
    (hnext : InHalf (KgslTimeline.next s a)) (t : ℕ) :
    s.query t ≤ (KgslTimeline.next s a).query t := by
  have hs := h.next ha
  obtain ⟨hvalue, hlisted, hretired⟩ := h.next_keeps ha t
  rcases query_cases s t with hq | ⟨e, he, hcheck, hq⟩
  · rw [hq]
    exact hvalue.trans (hs.value_le_query t)
  · rw [hq]
    rcases hlisted e he with hstill | hle
    · refine hs.le_query hstill ((checkTimestamp_iff (hnext t e hstill)).mpr ?_)
      exact ((checkTimestamp_iff (hhalf t e he)).mp hcheck).trans (hretired e.context)
    · exact hle.trans (hs.value_le_query t)

end Steps

/-- **What should hold of the timelines.** The answers of queries, the newest first, do not go back, nor will
the next one. -/
structure QueryOk (s : State) : Prop where
  answers : ∀ t, (s.answers t).Pairwise fun later earlier => earlier ≤ later
  next : ∀ t, ∀ a ∈ s.answers t, a ≤ s.query t
  value : ∀ t, s.value t ≤ s.query t
  sorted : ∀ t, Sorted (s.events t) ∧ ∀ e ∈ s.events t, s.value t < e.seqno
  owned : ∀ t, ∀ e ∈ s.events t, ∃ o, s.objs e.obj = some o ∧ o.freed = false

theorem Sound.not_freed {s : State} (h : Sound s) {t : ℕ} {e : SignalEvent} (he : e ∈ s.events t) :
    ∃ o, s.objs e.obj = some o ∧ o.freed = false := by
  obtain ⟨o, ho, hidx, hle⟩ := h.owned t e he
  refine ⟨o, ho, ?_⟩
  cases hf : o.freed with
  | false => rfl
  | true =>
    have hall := (h.obj _ o ho).2 hf
    have hlt := (List.getElem?_eq_some_iff.mp hidx).1
    omega

theorem next_answers {s : State} {a : Action} (t : ℕ) : (KgslTimeline.next s a).answers t = s.answers t ∨
    (KgslTimeline.next s a).answers t = s.query t :: s.answers t := by
  cases a with
  | query t' =>
    by_cases ht : t = t'
    · rw [ht]
      exact .inr (update_self _ _ _)
    · exact .inl (update_of_ne ht _ _)
  | create timelines context timestamp => exact .inl rfl
  | signal t' seqno => exact .inl (congrFun (signal_same s t' seqno).2.2.2 t)
  | retire context ts => exact .inl rfl
  | addSignal i =>
    rw [KgslTimeline.next]
    cases s.objs i with
    | none => exact .inl rfl
    | some o =>
      dsimp only
      cases o.timelines[o.added]? with
      | none => exact .inl rfl
      | some entry => exact .inl (congrFun (addSignal_same s _ _).2.2.2.2 t)
  | retireEntry i =>
    rw [KgslTimeline.next]
    cases s.objs i with
    | none => exact .inl rfl
    | some o =>
      dsimp only
      cases o.timelines[o.signalled]? with
      | none => exact .inl rfl
      | some entry => exact .inl (congrFun (signal_same s _ _).2.2.2 t)
  | pop i =>
    rw [KgslTimeline.next]
    cases s.objs i with
    | none => exact .inl rfl
    | some o => exact .inl rfl
  | call i =>
    rw [KgslTimeline.next]
    cases s.objs i with
    | none => exact .inl rfl
    | some o => exact .inl rfl
  | free i =>
    rw [KgslTimeline.next]
    cases s.objs i with
    | none => exact .inl rfl
    | some o => exact .inl rfl

/-- **Queries do not go back**, in every run whose listed timestamps stay inside half of the range. -/
theorem queryOk_of_reachable {s : State} (h : (timelineMachine InHalf).Reachable s) : QueryOk s := by
  have hinv : (Sound s ∧ InHalf s) ∧ ∀ t, (s.answers t).Pairwise (fun later earlier => earlier ≤ later) ∧
      ∀ a ∈ s.answers t, a ≤ s.query t := by
    refine h.invariant (I := fun s => (Sound s ∧ InHalf s) ∧ ∀ t, (s.answers t).Pairwise
      (fun later earlier => earlier ≤ later) ∧ ∀ a ∈ s.answers t, a ≤ s.query t)
      (fun s hs => ?_) fun s a hi ha => ?_
    · obtain ⟨value, rfl⟩ := hs
      exact ⟨⟨sound_initial value, fun t e he => (nomatch he)⟩,
        fun t => ⟨List.Pairwise.nil, fun a ha => (nomatch ha)⟩⟩
    · obtain ⟨⟨hsound, hhalf⟩, hanswers⟩ := hi
      obtain ⟨henabled, hnext⟩ := ha
      refine ⟨⟨hsound.next henabled, hnext⟩, fun t => ?_⟩
      have hle := hsound.query_le_next hhalf henabled hnext t
      obtain ⟨hpairs, hall⟩ := hanswers t
      show ((KgslTimeline.next s a).answers t).Pairwise _ ∧
        ∀ x ∈ (KgslTimeline.next s a).answers t, x ≤ (KgslTimeline.next s a).query t
      rcases @next_answers s a t with hsame | hnew
      · rw [hsame]
        exact ⟨hpairs, fun x hx => (hall x hx).trans hle⟩
      · rw [hnew]
        refine ⟨pairwise_cons.mpr ⟨hall, hpairs⟩, fun x hx => ?_⟩
        rcases mem_cons.mp hx with rfl | hold
        · exact hle
        · exact (hall x hold).trans hle
  obtain ⟨⟨hsound, -⟩, hanswers⟩ := hinv
  exact ⟨fun t => (hanswers t).1, fun t => (hanswers t).2, hsound.value_le_query,
    fun t => ⟨hsound.sorted t, hsound.above t⟩, fun t e he => hsound.not_freed he⟩

instance (o : TimelineObj) : ∀ a, Decidable (o.Allows a) := by
  intro a
  cases a <;> dsimp only [TimelineObj.Allows] <;> infer_instance

instance (s : State) : ∀ a, Decidable (Enabled s a) := by
  intro a
  cases a <;> dsimp only [Enabled] <;> infer_instance

/-- The timelines that a command names are inside half of the range. -/
def NamedInHalf (s : State) : Prop :=
  ∀ i < s.made, ∀ o ∈ s.objs i, ∀ x ∈ o.timelines, ∀ e ∈ s.events x.1,
    Near e.timestamp (s.retired e.context)

instance (s : State) : Decidable (NamedInHalf s) := inferInstanceAs (Decidable (∀ i < s.made, _))

instance (allowed : State → Prop) [DecidablePred allowed] (s : State) (a : Action) :
    Decidable ((timelineMachine allowed).guard s a) :=
  inferInstanceAs (Decidable (Enabled s a ∧ allowed (next s a)))

theorem reachable_of_named {s : State} (h : (timelineMachine NamedInHalf).Reachable s) :
    Sound s ∧ (timelineMachine InHalf).Reachable s := by
  induction h with
  | init h =>
    obtain ⟨value, rfl⟩ := h
    exact ⟨sound_initial value, .init ⟨value, rfl⟩⟩
  | next _ ha ih =>
    obtain ⟨hsound, hreach⟩ := ih
    have hs := hsound.next ha.1
    refine ⟨hs, hreach.next ⟨ha.1, fun t e he => ?_⟩⟩
    obtain ⟨o, ho, hidx, -⟩ := hs.owned t e he
    refine ha.2 e.obj (Nat.lt_of_not_le fun hle => ?_) o ho _ (List.mem_of_getElem? hidx) e he
    rw [hs.fresh _ hle] at ho
    cases ho

/-- Two commands on one timeline, with a number named twice and one that is passed already. -/
def twoCommands : List Action :=
  [.create [(0, 10), (0, 2), (0, 10)] 0 5, .create [(0, 7), (1, 4)] 1 3, .addSignal 0, .addSignal 0,
    .query 0, .retire 0 6, .query 0, .addSignal 1, .addSignal 0, .signal 0 3, .addSignal 1, .query 0,
    .pop 0, .call 0, .retireEntry 0, .retireEntry 0, .query 0, .retireEntry 0, .free 0, .query 0]

theorem queryOk_twoCommands :
    QueryOk ((timelineMachine NamedInHalf).exec (initial fun _ => 0) twoCommands) :=
  queryOk_of_reachable (reachable_of_named ((Machine.Reachable.init
    (M := timelineMachine NamedInHalf) ⟨fun _ => 0, rfl⟩).exec twoCommands (by decide))).2

def farRetire : List Action :=
  [.create [(0, 10)] 0 5, .addSignal 0, .retire 0 5, .query 0, .retire 0 (5 + 2 ^ 31 + 1), .query 0]

/-- The second query goes back to the value. -/
theorem not_queryOk : ¬∀ s, (timelineMachine fun _ => True).Reachable s → QueryOk s := by
  intro hall
  have h := hall _ ((Machine.Reachable.init (M := timelineMachine fun _ => True)
    ⟨fun _ => 0, rfl⟩).exec farRetire (by decide))
  have hanswers := h.answers 0
  revert hanswers
  decide

end KgslTimeline
