import Sm8750Modules.Lib.RefCounts

/-!
# Submissions of timeline commands that fail

`kgsl_drawobj_add_timeline` fills an array with the timelines that a command will signal, takes references
for it, and registers an event. When it fails its caller destroys the object, which walks the same array.
-/

namespace KgslTimeline.Submit

open RefCounts

/-- What has a reference count: the timelines, the context of the object, and the object. -/
inductive Obj where
  | timeline (id : ℕ)
  | context
  | drawobj
deriving DecidableEq, Repr

structure TimelineEvent where
  timeline : Option ℕ
  context : Bool
  seqno : ℕ
  timestamp : ℕ
deriving DecidableEq, Repr

/-- An entry as `kvcalloc` leaves it. -/
def TimelineEvent.zero : TimelineEvent := ⟨none, false, 0, 0⟩

/-- `struct kgsl_drawobj_timeline`; `timelines` is `none` for a null pointer. -/
structure TimelineObj where
  timelines : Option (List TimelineEvent)
  count : ℕ
  sigRefcount : ℕ
deriving DecidableEq, Repr

def timelineCreate : TimelineObj := ⟨none, 0, 1⟩

/-- The references, and the calls of `kgsl_timeline_add_signal` and `kgsl_timeline_signal` so far. -/
structure World where
  refs : Store Obj
  added : List (ℕ × ℕ)
  signaled : List (ℕ × ℕ)

/-! ### The call -/

/-- What the call finds for one value of the user: whether it can be copied, its fields, whether the
timeline is in the table, and whether `_kgsl_context_get` succeeds. -/
structure Entry where
  copied : Bool
  padding : ℕ
  timeline : ℕ
  seqno : ℕ
  inTable : Bool
  contextGet : Bool
deriving DecidableEq, Repr

/-- What the call is given, and what the functions it calls return. -/
structure Submission where
  getAuxCommand : ℤ
  entries : List Entry
  kvcalloc : Bool
  readtimestamp : ℤ
  queued : ℕ
  addEvent : ℤ

def efault : ℤ := -14

def enomem : ℤ := -12

def einval : ℤ := -22

def enodev : ℤ := -19

variable (refs : Store Obj)

/-- `kgsl_timeline_by_id` finds the timeline. -/
def Entry.Found (e : Entry) : Prop :=
  e.inTable = true ∧ Obj.timeline e.timeline ∈ refs.live
deriving Decidable

/-- The loop of the call over the values, with the part of the array that is filled. -/
def fill (queued : ℕ) : List Entry → List TimelineEvent → Store Obj → ℤ × List TimelineEvent × Store Obj
  | [], arr, refs => (0, arr, refs)
  | e :: es, arr, refs =>
    if !e.copied then (efault, arr, refs)
    else if e.padding ≠ 0 then (einval, arr, refs)
    else if ¬e.Found refs then (enodev, arr, refs)
    else
      let refs := refs.get (.timeline e.timeline)
      if !e.contextGet then (enodev, arr ++ [⟨some e.timeline, false, 0, 0⟩], refs)
      else fill queued es (arr ++ [⟨some e.timeline, true, e.seqno, queued⟩]) (refs.get .context)

/-- `kgsl_timeline_put` and `kgsl_context_put`, which do nothing for null pointers. -/
def putEvent (e : TimelineEvent) : Store Obj :=
  let refs := match e.timeline with
    | none => refs
    | some id => refs.put (.timeline id)
  if e.context then refs.put .context else refs

def unwind (count : ℕ) (arr : List TimelineEvent) (refs : Store Obj) : Store Obj :=
  (arr ++ List.replicate (count - arr.length) TimelineEvent.zero).foldl putEvent refs

/-- `kgsl_drawobj_put`, with `kgsl_drawobj_destroy_object` for the last reference. -/
def drawobjPut : Store Obj :=
  if refs.refs .drawobj = 1 then (refs.put .context).put .drawobj else refs.put .drawobj

variable (o : TimelineObj)

def TimelineObj.read (i : ℕ) : Option TimelineEvent := o.timelines.bind (·[i]?)

/-- One entry in `_drawobj_timelineobj_retire`. -/
def retireEvent (w : World) (i : ℕ) : Option World := do
  let e ← o.read i
  let id ← e.timeline
  some { w with refs := putEvent w.refs e, signaled := w.signaled ++ [(id, e.seqno)] }

def retire (w : World) : Option (TimelineObj × World) :=
  ((List.range o.count).foldlM (retireEvent o) w).map fun w' => ({ o with timelines := none, count := 0 }, w')

def timelineobjSignal (w : World) : Option (TimelineObj × World) :=
  if o.sigRefcount = 1 then retire { o with sigRefcount := 0 } w
  else some ({ o with sigRefcount := o.sigRefcount - 1 }, w)

/-- `kgsl_drawobj_add_timeline`: what it returns, and what it leaves. -/
def addTimeline (s : Submission) (o : TimelineObj) (w : World) : Option (ℤ × TimelineObj × World) :=
  if s.getAuxCommand ≠ 0 then some (s.getAuxCommand, o, w)
  else if s.entries = [] then some (einval, o, w)
  else if !s.kvcalloc then some (enomem, { o with timelines := none }, w)
  else
    let count := s.entries.length
    let zeroed := { o with timelines := some (List.replicate count TimelineEvent.zero) }
    if s.readtimestamp ≠ 0 then some (s.readtimestamp, zeroed, w)
    else
      let (ret, arr, refs) := fill s.queued s.entries [] w.refs
      if ret ≠ 0 then
        some (ret, { o with timelines := none }, { w with refs := unwind count arr refs })
      else
        -- the event holds the object and its signals
        let o := { o with timelines := some arr, count := count, sigRefcount := o.sigRefcount + 1 }
        let refs := refs.get .drawobj
        if s.addEvent = 0 then some (0, o, { w with refs := refs })
        else do
          let (o, w) ← timelineobjSignal o { w with refs := refs }
          some (s.addEvent, { o with timelines := none },
            { w with refs := unwind count arr (drawobjPut w.refs) })

/-- One entry in `timelineobj_destroy`. -/
def addSignal (w : World) (i : ℕ) : Option World := do
  let e ← o.read i
  let id ← e.timeline
  some { w with added := w.added ++ [(id, e.seqno)] }

def timelineobjDestroy (w : World) : Option (TimelineObj × World) := do
  let w ← (List.range o.count).foldlM (addSignal o) w
  timelineobjSignal o w

def drawobjDestroy (w : World) : Option World := do
  let (_, w) ← timelineobjDestroy o w
  some { w with refs := drawobjPut w.refs }

/-- **A failed call is inert**: the destroy that follows reads no array that is not there, nothing is
registered or signalled, and of the references only those of others are left. -/
def Inert (w : World) (H : Multiset Obj) (o : TimelineObj) (w' : World) : Prop :=
  ∃ w'', drawobjDestroy o w' = some w'' ∧ w''.added = w.added ∧ w''.signaled = w.signaled ∧
    w''.refs.Balanced H

/-! ### What the call takes -/

def Entry.Ok (e : Entry) : Prop :=
  e.copied = true ∧ e.padding = 0 ∧ e.Found refs ∧ e.contextGet = true

/-- The call gets to `kgsl_add_event`. -/
structure Submission.Registers (s : Submission) (refs : Store Obj) : Prop where
  aux : s.getAuxCommand = 0
  nonempty : s.entries ≠ []
  array : s.kvcalloc = true
  timestamp : s.readtimestamp = 0
  entries : ∀ e ∈ s.entries, e.Ok refs

/-- The references of an entry, and of an array. -/
def refsOf (e : TimelineEvent) : Multiset Obj :=
  (match e.timeline with
    | none => 0
    | some id => {.timeline id}) + if e.context then {.context} else 0

def held (arr : List TimelineEvent) : Multiset Obj := (arr.map refsOf).sum

section Steps

variable {refs : Store Obj} {H : Multiset Obj} {arr : List TimelineEvent} {es : List Entry} {o : TimelineObj}
  {w : World}

@[simp] theorem held_nil : held [] = 0 := by
  simp [held]

@[simp] theorem held_cons (e : TimelineEvent) : held (e :: arr) = refsOf e + held arr := by
  simp [held]

@[simp] theorem held_append (arr' : List TimelineEvent) : held (arr ++ arr') = held arr + held arr' := by
  simp [held]

@[simp] theorem held_zeros (n : ℕ) : held (List.replicate n TimelineEvent.zero) = 0 := by
  simp [held, refsOf, TimelineEvent.zero]

theorem balanced_put {a : Obj} (h : refs.Balanced (a ::ₘ H)) : (refs.put a).Balanced H := by
  simpa using h.put (Multiset.mem_cons_self a H)

theorem putEvent_spec {e : TimelineEvent} (h : refs.Balanced (refsOf e + H)) :
    (putEvent refs e).Balanced H := by
  obtain ⟨timeline, context, seqno, timestamp⟩ := e
  cases timeline with
  | none =>
    cases context with
    | false => simpa [putEvent, refsOf] using h
    | true => exact balanced_put (by simpa [refsOf] using h)
  | some id =>
    cases context with
    | false => exact balanced_put (by simpa [refsOf] using h)
    | true =>
      have hput := balanced_put (a := .timeline id) (H := .context ::ₘ H) (by simpa [refsOf] using h)
      exact balanced_put hput

theorem foldl_putEvent (h : refs.Balanced (held arr + H)) : (arr.foldl putEvent refs).Balanced H := by
  induction arr generalizing refs with
  | nil => simpa using h
  | cons e arr ih =>
    rw [held_cons, add_assoc] at h
    exact ih (putEvent_spec h)

theorem unwind_spec (count : ℕ) (h : refs.Balanced (held arr + H)) : (unwind count arr refs).Balanced H :=
  foldl_putEvent (by simpa using h)

theorem held_snoc (e : TimelineEvent) : refsOf e + (held arr + H) = held (arr ++ [e]) + H := by
  simp only [held_append, held_cons, held_nil]
  abel

/-- **The loop** takes what the array holds, and fails iff a check of a value fails. -/
theorem fill_spec (queued : ℕ) (h : refs.Balanced (held arr + H)) (hcontext : .context ∈ H) :
    (fill queued es arr refs).2.2.Balanced (held (fill queued es arr refs).2.1 + H) ∧
      ((fill queued es arr refs).1 = 0 ↔ ∀ e ∈ es, e.Ok refs) := by
  induction es generalizing arr refs with
  | nil => simpa [fill] using h
  | cons e es ih =>
    by_cases hcopied : e.copied = true
    · by_cases hpadding : e.padding = 0
      · by_cases hfound : e.Found refs
        · have hget := h.get hfound.2
          by_cases hcontextGet : e.contextGet = true
          · have hlive : .context ∈ (refs.get (.timeline e.timeline)).live := by
              rw [hget.mem_live]
              simp [hcontext]
            have hnext := hget.get hlive
            have hentry : .context ::ₘ .timeline e.timeline ::ₘ (held arr + H) =
                refsOf ⟨some e.timeline, true, e.seqno, queued⟩ + (held arr + H) := by
              simp only [refsOf, if_true, ← Multiset.singleton_add]
              abel
            rw [hentry, held_snoc] at hnext
            obtain ⟨hbalanced, hiff⟩ := ih hnext
            have hok : (∀ x ∈ e :: es, x.Ok refs) ↔ ∀ x ∈ es, x.Ok refs := by
              simp [Entry.Ok, hcopied, hpadding, hfound, hcontextGet]
            rw [hok]
            simp only [fill, hcopied, hpadding, hfound, hcontextGet, Bool.not_true, Bool.false_eq_true,
              if_false, ne_eq, not_true_eq_false]
            exact ⟨hbalanced, hiff⟩
          · have hentry : .timeline e.timeline ::ₘ (held arr + H) =
                refsOf ⟨some e.timeline, false, 0, 0⟩ + (held arr + H) := by
              simp [refsOf]
            rw [hentry, held_snoc] at hget
            refine ⟨?_, by simp [fill, hcopied, hpadding, hfound, hcontextGet, enodev, Entry.Ok]⟩
            simpa only [fill, hcopied, hpadding, hfound, hcontextGet, Bool.not_true, Bool.false_eq_true,
              if_false, ne_eq, not_true_eq_false, Bool.not_false, if_true] using hget
        · simp [fill, hcopied, hpadding, hfound, enodev, Entry.Ok, h]
      · simp [fill, hcopied, hpadding, einval, Entry.Ok, h]
    · simp [fill, hcopied, efault, Entry.Ok, h]

theorem drawobjPut_last (h : refs.Balanced (.drawobj ::ₘ .context ::ₘ H)) (hobj : .drawobj ∉ H) :
    (drawobjPut refs).Balanced H := by
  have hone : refs.refs .drawobj = 1 := by
    rw [h.refs _ (Multiset.mem_cons_self _ _)]
    simp [hobj]
  rw [drawobjPut, if_pos hone]
  rw [Multiset.cons_swap] at h
  exact balanced_put (balanced_put h)

/-- **A destroy of an object without entries** drops its references and does nothing else. -/
theorem inert_of_count_zero {w' : World} (hcount : o.count = 0) (hsig : o.sigRefcount = 1)
    (hadded : w'.added = w.added) (hsignaled : w'.signaled = w.signaled)
    (h : w'.refs.Balanced (.drawobj ::ₘ .context ::ₘ H)) (hobj : .drawobj ∉ H) : Inert w H o w' := by
  refine ⟨{ w' with refs := drawobjPut w'.refs }, ?_, hadded, hsignaled, drawobjPut_last h hobj⟩
  simp [drawobjDestroy, timelineobjDestroy, timelineobjSignal, retire, hcount, hsig]

theorem not_inert_of_null {w' : World} (hcount : o.count ≠ 0) (hnull : o.timelines = none) :
    ¬Inert w H o w' := by
  intro ⟨w'', hdestroy, _⟩
  obtain ⟨n, hn⟩ := Nat.exists_eq_succ_of_ne_zero hcount
  have hfirst : addSignal o w' 0 = none := by
    simp [addSignal, TimelineObj.read, hnull]
  simp [drawobjDestroy, timelineobjDestroy, hn, List.range_succ_eq_map, hfirst] at hdestroy

variable {s : Submission}

/-- **A failed submission is inert iff** it fails before the event is registered. -/
theorem inert_iff (h : w.refs.Balanced (.drawobj ::ₘ .context ::ₘ H)) (hobj : .drawobj ∉ H) :
    ∃ ret o w', addTimeline s timelineCreate w = some (ret, o, w') ∧
      (ret ≠ 0 → (Inert w H o w' ↔ ¬s.Registers w.refs)) := by
  have hplain : ∀ timelines, Inert w H { timelineCreate with timelines := timelines } w := fun timelines =>
    inert_of_count_zero rfl rfl rfl rfl h hobj
  by_cases haux : s.getAuxCommand = 0
  · by_cases hentries : s.entries = []
    · refine ⟨einval, timelineCreate, w, by simp [addTimeline, haux, hentries], fun _ => ?_⟩
      exact iff_of_true (hplain none) fun hreg => hreg.nonempty hentries
    · by_cases harray : s.kvcalloc = true
      · by_cases htime : s.readtimestamp = 0
        · obtain ⟨hbalanced, hok⟩ := @fill_spec w.refs (.drawobj ::ₘ .context ::ₘ H) [] s.entries s.queued
            (by simpa using h) (by simp)
          obtain ⟨⟨ret, arr, refs⟩, hfill⟩ : ∃ r, fill s.queued s.entries [] w.refs = r := ⟨_, rfl⟩
          rw [hfill] at hbalanced hok
          have hunwind := unwind_spec s.entries.length hbalanced
          by_cases hret : ret = 0
          · by_cases hevent : s.addEvent = 0
            · refine ⟨0, ⟨some arr, s.entries.length, 2⟩, { w with refs := refs.get .drawobj }, ?_,
                fun hne => absurd rfl hne⟩
              simp [addTimeline, haux, hentries, harray, htime, hfill, hret, hevent, timelineCreate]
            · -- the count stays, and the array is gone
              refine ⟨s.addEvent, ⟨none, s.entries.length, 1⟩,
                { w with refs := unwind s.entries.length arr (drawobjPut (refs.get .drawobj)) }, ?_, fun _ => ?_⟩
              · simp [addTimeline, haux, hentries, harray, htime, hfill, hret, hevent, timelineCreate,
                  timelineobjSignal]
              · refine iff_of_false (not_inert_of_null (by simp [hentries]) rfl) (not_not_intro ?_)
                exact ⟨haux, hentries, harray, htime, hok.mp hret⟩
          · refine ⟨ret, ⟨none, 0, 1⟩, { w with refs := unwind s.entries.length arr refs }, ?_, fun _ => ?_⟩
            · simp [addTimeline, haux, hentries, harray, htime, hfill, hret, timelineCreate]
            · refine iff_of_true (inert_of_count_zero rfl rfl rfl rfl hunwind hobj) fun hreg => ?_
              exact hret (hok.mpr hreg.entries)
        · refine ⟨s.readtimestamp, ⟨some (List.replicate s.entries.length TimelineEvent.zero), 0, 1⟩, w,
            by simp [addTimeline, haux, hentries, harray, htime, timelineCreate], fun _ => ?_⟩
          exact iff_of_true (hplain _) fun hreg => htime hreg.timestamp
      · refine ⟨enomem, ⟨none, 0, 1⟩, w,
          by simp [addTimeline, haux, hentries, harray, timelineCreate], fun _ => ?_⟩
        exact iff_of_true (hplain none) fun hreg => harray hreg.array
  · refine ⟨s.getAuxCommand, timelineCreate, w, by simp [addTimeline, haux], fun _ => ?_⟩
    exact iff_of_true (hplain none) fun hreg => haux hreg.aux

def oneTimeline : World := ⟨((({} : Store Obj).add (.timeline 7)).add .context).add .drawobj, [], []⟩

theorem balanced_oneTimeline :
    oneTimeline.refs.Balanced (.drawobj ::ₘ .context ::ₘ .timeline 7 ::ₘ 0) :=
  ((Store.Balanced.empty.add (by simp) (by simp)).add (by decide) (by decide)).add (by decide) (by decide)

def twoValues (inTable : Bool) : Submission :=
  ⟨0, [⟨true, 0, 7, 3, true, true⟩, ⟨true, 0, 7, 4, inTable, true⟩], true, 0, 1, enomem⟩

theorem inert_iff_twoValues : ∃ ret o w', addTimeline (twoValues false) timelineCreate oneTimeline =
    some (ret, o, w') ∧ (ret ≠ 0 → (Inert oneTimeline {.timeline 7} o w' ↔
      ¬(twoValues false).Registers oneTimeline.refs)) :=
  inert_iff balanced_oneTimeline (by decide)

/-- The event is refused, and the destroy walks the array that was freed. -/
theorem not_inert : ¬∀ (s : Submission) (w w' : World) (H : Multiset Obj) (ret : ℤ) (o : TimelineObj),
    w.refs.Balanced (.drawobj ::ₘ .context ::ₘ H) → .drawobj ∉ H →
    addTimeline s timelineCreate w = some (ret, o, w') → ret ≠ 0 → Inert w H o w' := by
  intro hall
  obtain ⟨refs, hrefs⟩ : ∃ refs, addTimeline (twoValues true) timelineCreate oneTimeline =
      some (enomem, ⟨none, 2, 1⟩, { oneTimeline with refs := refs }) := ⟨_, rfl⟩
  exact not_inert_of_null (by decide) rfl
    (hall _ _ _ _ _ _ balanced_oneTimeline (by decide) hrefs (by decide))

end Steps

end KgslTimeline.Submit
