import Sm8750Modules.Lib.Runs

/-!
# References of GPU syncpoints

A sync object waits for timestamps of contexts, for fences of other drivers and for timelines. Each
syncpoint holds a reference to the object, and its callback is handed one to the context or to the fence.
Who clears the bit of the syncpoint drops them: the callback, a work that it queues, or the destroyer; but
the callback of a timestamp runs in any case, and always drops the object.

A callback of a timestamp that was registered is called once, when the timestamp retires or when it is
cancelled; a callback of a dma-fence is not registered on a fence that has signalled.
-/

namespace KgslSyncobj

open Runs

/-- `enum kgsl_cmd_syncpoint_type` -/
inductive Kind where
  | timestamp
  | fence
  | timeline
deriving DecidableEq

/-- Where the callback of a syncpoint is. It is `listed` until its timestamp retires or its fence signals;
that of a timestamp is `queued` then. A callback that is `running` has not looked at its bit yet, one
that has `cleared` it has its references to drop, and that of a timestamp is `putting` the object. -/
inductive Callback where
  | absent
  | listed
  | queued
  | running
  | cleared
  | putting
  | finished
  | removed
deriving DecidableEq

/-- `event->work` of a timeline, which puts the fence and then the object. -/
inductive Work where
  | idle
  | queued
  | putting
  | finished
deriving DecidableEq

/-- `struct kgsl_drawobj_sync_event`: its type, its bit in `pending`, its callback and its work. `gets`
and `puts` count the references to its context, or to its fence, that are handed to the callback;
`creation` is the reference from the creation of a fence array. -/
structure SyncEvent where
  kind : Kind
  pending : Bool
  callback : Callback
  work : Work
  gets : ℕ
  puts : ℕ
  creation : Bool

/-- The thread that adds the syncpoints and destroys the object. -/
inductive Creator where
  | building
  | adding (i : ℕ)
  | added (i : ℕ)
  | destroying (i : ℕ)
  | cancelling (i : ℕ)
  | releasing (i : ℕ)
  | dropping (i : ℕ)
  | putting
  | done
deriving DecidableEq

/-- The events of a sync object, its creator, its count, and how often it was freed. -/
structure State where
  events : ℕ → SyncEvent
  numsyncs : ℕ
  creator : Creator
  refcount : ℕ
  frees : ℕ

def SyncEvent.zero : SyncEvent := ⟨.timestamp, false, .absent, .idle, 0, 0, false⟩

variable (e : SyncEvent)

def SyncEvent.destroyObject : SyncEvent :=
  if e.kind = .fence ∧ e.callback ≠ .absent then { e with puts := e.puts + 1 } else e

namespace State

variable (s : State)

def setEvent (i : ℕ) (e : SyncEvent) : State := { s with events := Function.update s.events i e }

/-- `kgsl_drawobj_put` -/
def put : State :=
  if s.refcount = 1 then
    { s with refcount := 0, frees := s.frees + 1, events := fun i => (s.events i).destroyObject }
  else { s with refcount := s.refcount - 1 }

def goto (c : Creator) : State := { s with creator := c }

end State

/-! ## Steps -/

inductive Action where
  /-- an event is set up: a reference to the object, and for a timestamp to the context, and for a
  timeline to its new fence and one for the callback -/
  | begin (kind : Kind)
  /-- its callback is registered, or is not; a timestamp may have retired already -/
  | register (ok retired : Bool)
  /-- the reference from the creation of a fence array is put -/
  | endAdd
  | destroy
  /-- `test_and_clear_bit` in `syncobj_destroy` -/
  | clear
  /-- `kgsl_cancel_event`, `kgsl_sync_fence_async_cancel` and `dma_fence_remove_callback` -/
  | cancel
  /-- `kgsl_context_put`, `kgsl_drawobj_put` and `dma_fence_put` after it -/
  | release
  | drop
  /-- the put of `kgsl_drawobj_destroy` -/
  | finalPut
  /-- a timestamp retires or a fence signals -/
  | fire (i : ℕ)
  /-- the worker calls `drawobj_sync_func` -/
  | run (i : ℕ)
  /-- `test_and_clear_bit` in `drawobj_sync_expire` -/
  | expire (i : ℕ)
  /-- `kgsl_context_put`, `kgsl_drawobj_put` and `queue_work` of the callbacks -/
  | proceed (i : ℕ)
  | putObj (i : ℕ)
  /-- `dma_fence_put` in `drawobj_sync_timeline_fence_work` -/
  | work (i : ℕ)
  /-- `kgsl_drawobj_put` in it -/
  | workPut (i : ℕ)

/-- An event that `drawobj_add_sync_timestamp`, `drawobj_add_sync_fence` or `drawobj_add_sync_timeline`
has set up. -/
def SyncEvent.new (kind : Kind) : SyncEvent where
  kind := kind
  pending := true
  callback := .absent
  work := .idle
  gets := if kind = .fence then 0 else 1
  puts := 0
  creation := kind = .timeline

def SyncEvent.registered (retired : Bool) : SyncEvent :=
  match e.kind with
  | .timestamp => { e with callback := if retired then .queued else .listed }
  | .fence => { e with callback := .listed, gets := 1 }
  | .timeline => { e with callback := .listed }

/-- An event whose callback could not be registered. -/
def SyncEvent.failed : SyncEvent :=
  match e.kind with
  | .timestamp => { e with pending := false, puts := e.puts + 1 }
  | .fence => { e with pending := false }
  | .timeline => { e with pending := false, puts := e.puts + 1, creation := false }

def SyncEvent.cancelled : SyncEvent :=
  if e.callback = .listed then { e with callback := if e.kind = .timestamp then .queued else .removed }
  else e

def next (s : State) : Action → State
  | .begin kind =>
    { s.setEvent s.numsyncs (SyncEvent.new kind) with
      numsyncs := s.numsyncs + 1, creator := .adding s.numsyncs, refcount := s.refcount + 1 }
  | .register ok retired =>
    match s.creator with
    | .adding i =>
      if ok then
        (s.setEvent i ((s.events i).registered retired)).goto
          (if (s.events i).kind = .timeline then .added i else .building)
      else (((s.setEvent i (s.events i).failed).goto .building).put)
    | _ => s
  | .endAdd =>
    match s.creator with
    | .added i => (s.setEvent i { s.events i with creation := false }).goto .building
    | _ => s
  | .destroy => s.goto (.destroying 0)
  | .clear =>
    match s.creator with
    | .destroying i =>
      if i = s.numsyncs then s.goto .putting
      else if (s.events i).pending then
        (s.setEvent i { s.events i with pending := false }).goto (.cancelling i)
      else s.goto (.destroying (i + 1))
    | _ => s
  | .cancel =>
    match s.creator with
    | .cancelling i => (s.setEvent i (s.events i).cancelled).goto (.releasing i)
    | _ => s
  | .release =>
    match s.creator with
    | .releasing i =>
      match (s.events i).kind with
      | .timestamp =>
        (s.setEvent i { s.events i with puts := (s.events i).puts + 1 }).goto (.destroying (i + 1))
      | .fence => (s.goto (.destroying (i + 1))).put
      | .timeline => (s.setEvent i { s.events i with puts := (s.events i).puts + 1 }).goto (.dropping i)
    | _ => s
  | .drop =>
    match s.creator with
    | .dropping i => (s.goto (.destroying (i + 1))).put
    | _ => s
  | .finalPut => (s.goto .done).put
  | .fire i =>
    s.setEvent i { s.events i with
      callback := if (s.events i).kind = .timestamp then .queued else .running }
  | .run i => s.setEvent i { s.events i with callback := .running }
  | .expire i =>
    if (s.events i).pending then s.setEvent i { s.events i with pending := false, callback := .cleared }
    else
      s.setEvent i { s.events i with
        callback := if (s.events i).kind = .timestamp then .putting else .finished }
  | .proceed i =>
    match (s.events i).kind with
    | .timestamp => s.setEvent i { s.events i with puts := (s.events i).puts + 1, callback := .putting }
    | .fence => (s.setEvent i { s.events i with callback := .finished }).put
    | .timeline => s.setEvent i { s.events i with callback := .finished, work := .queued }
  | .putObj i => (s.setEvent i { s.events i with callback := .finished }).put
  | .work i => s.setEvent i { s.events i with puts := (s.events i).puts + 1, work := .putting }
  | .workPut i => (s.setEvent i { s.events i with work := .finished }).put

/-- Which steps may be taken. A callback of a fence runs under the lock of the fence, for which its
removal waits. -/
def Enabled (s : State) : Action → Prop
  | .begin _ => s.creator = .building
  | .register _ _ => ∃ i, s.creator = .adding i
  | .endAdd => ∃ i, s.creator = .added i
  | .destroy => s.creator = .building
  | .clear => ∃ i, s.creator = .destroying i
  | .cancel => ∃ i, s.creator = .cancelling i ∧ ((s.events i).kind = .timestamp ∨
      ((s.events i).callback ≠ .running ∧ (s.events i).callback ≠ .cleared))
  | .release => ∃ i, s.creator = .releasing i
  | .drop => ∃ i, s.creator = .dropping i
  | .finalPut => s.creator = .putting
  | .fire i => (s.events i).callback = .listed
  | .run i => (s.events i).callback = .queued
  | .expire i => (s.events i).callback = .running
  | .proceed i => (s.events i).callback = .cleared
  | .putObj i => (s.events i).callback = .putting
  | .work i => (s.events i).work = .queued
  | .workPut i => (s.events i).work = .putting

/-- `drawobj_init` -/
def initial : State := ⟨fun _ => .zero, 0, .building, 1, 0⟩

/-- The creator, the callbacks and the works in any order. -/
def syncMachine : Machine State Action where
  init s := s = initial
  guard := Enabled
  next := next

/-- The callback, the work or the cancellation of event `i` is outstanding, or it is being added. -/
def SyncEvent.Outstanding (c : Creator) (i : ℕ) (e : SyncEvent) : Prop :=
  match e.kind with
  | .timestamp => (e.callback ≠ .absent ∧ e.callback ≠ .finished) ∨ c = .adding i
  | .fence => e.pending = true ∨ e.callback = .cleared ∨ c = .cancelling i ∨ c = .releasing i
  | .timeline => e.pending = true ∨ e.callback = .cleared ∨ e.work = .queued ∨ e.work = .putting ∨
      c = .cancelling i ∨ c = .releasing i ∨ c = .dropping i

instance (c : Creator) (i : ℕ) : ∀ e : SyncEvent, Decidable (e.Outstanding c i)
  | ⟨.timestamp, _, _, _, _, _, _⟩ => inferInstanceAs (Decidable ((_ ∧ _) ∨ _))
  | ⟨.fence, _, _, _, _, _, _⟩ => inferInstanceAs (Decidable (_ ∨ _ ∨ _ ∨ _))
  | ⟨.timeline, _, _, _, _, _, _⟩ => inferInstanceAs (Decidable (_ ∨ _ ∨ _ ∨ _ ∨ _ ∨ _ ∨ _))

/-- A callback or a work has steps to take, all of which touch the object. -/
def SyncEvent.Busy : Prop :=
  e.callback = .queued ∨ e.callback = .running ∨ e.callback = .cleared ∨ e.callback = .putting ∨
    e.work = .queued ∨ e.work = .putting

/-- **The promise**: the count is that of the creator and of the events that are outstanding. -/
structure Balanced (s : State) : Prop where
  count : s.refcount = (if s.creator = .done then 0 else 1) +
    (List.range s.numsyncs).countP fun i => (s.events i).Outstanding s.creator i
  once : s.frees = if s.refcount = 0 then 1 else 0
  alive : s.refcount = 0 → ∀ i, (s.events i).callback ≠ .listed ∧ ¬ (s.events i).Busy
  refs : ∀ i, (s.events i).puts ≤ (s.events i).gets ∧ (s.events i).gets ≤ 1
  ended : s.creator = .done → (∀ i, ¬ (s.events i).Busy) →
    s.refcount = 0 ∧ ∀ i, (s.events i).puts = (s.events i).gets ∧ (s.events i).creation = false

end KgslSyncobj
