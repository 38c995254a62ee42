import Sm8750Modules.Lib.Runs

/-!
# Asynchronous waits on a synx object

A wait hangs in the object's list of callbacks, with an entry in the callback table of its session
and, if it has one, a timeout timer.
-/

namespace Synx

open Runs Function List

/-! ## Waits -/

def stateActive : ℕ := 1

def resultCanceled : ℕ := 4

def stateTimeout : ℕ := 7

def maxObjs : ℕ := 4096

/-- `synx_util_default_user_callback`, whose callbacks are read from a queue. -/
def defaultUserCallback : ℕ := 1

/-- What identifies a wait: the address of its `struct synx_cb_data`, the number of the registration,
its session, and its entry in the session's callback table. -/
structure Key where
  addr : ℕ
  id : ℕ
  session : ℕ
  idx : ℕ
deriving DecidableEq, Repr

/-- `struct synx_cb_data`: whether it has a timeout, and whether its timer is armed. -/
structure Wait where
  key : Key
  timeout : Bool
  armed : Bool
deriving DecidableEq, Repr

/-- A queued `cb_dispatch` with the status it reports. -/
structure Call where
  key : Key
  status : ℕ
deriving DecidableEq, Repr

/-- `struct synx_kernel_payload` of a callback entry. -/
structure Payload where
  cbFunc : ℕ
  data : ℕ
deriving DecidableEq, Repr

/-- A callback that was made: the registration, the function and the status. -/
structure Answer where
  id : ℕ
  cbFunc : ℕ
  status : ℕ
deriving DecidableEq, Repr

/-- A synx object, the callback tables of the sessions, and the work that is queued. -/
structure State where
  status : ℕ
  external : Bool
  waits : List Wait
  calls : List Call
  timerWorks : List Key
  dispatchWorks : List ℕ
  table : ℕ → ℕ → Option Payload
  eventQ : ℕ → List ℕ
  registered : ℕ
  answered : List Answer
  removed : List ℕ
  expired : List ℕ

structure Params where
  cbFunc : ℕ
  data : ℕ
  cancelCbFunc : Option ℕ
deriving DecidableEq, Repr

namespace State

variable (σ : State)

/-- `synx_util_alloc_cb_entry`: the first entry that is free. -/
def freeEntry (session : ℕ) : Option ℕ :=
  (List.range' 1 (maxObjs - 1)).find? fun i => (σ.table session i).isNone

def setEntry (session idx : ℕ) (p : Option Payload) : State :=
  { σ with table := Function.update σ.table session (Function.update (σ.table session) idx p) }

/-- `synx_internal_async_wait`; the new wait lies at `addr`. -/
def asyncWait (session addr : ℕ) (p : Payload) (timeout : Bool) : State :=
  match σ.freeEntry session with
  | none => σ
  | some idx =>
    let k : Key := ⟨addr, σ.registered, session, idx⟩
    let σ := { σ.setEntry session idx (some p) with registered := σ.registered + 1 }
    if σ.status = stateActive then { σ with waits := ⟨k, timeout, timeout⟩ :: σ.waits }
    else { σ with calls := σ.calls ++ [⟨k, σ.status⟩] }

def matchPayload (params : Params) (k : Key) : Bool :=
  match σ.table k.session k.idx with
  | none => false
  | some p => p.cbFunc == params.cbFunc && p.data == params.data

/-- `del_timer_sync` for the wait at an address. -/
def delTimer (addr : ℕ) : State :=
  { σ with
    waits := σ.waits.map fun w => if w.key.addr = addr then { w with armed := false } else w }

/-- `list_del_init` of the wait at an address. -/
def unlink (addr : ℕ) : State := { σ with waits := σ.waits.filter (·.key.addr ≠ addr) }

/-- The loop body of `synx_internal_cancel_async_wait`. -/
def cancelEntry (session : ℕ) (params : Params) (w : Wait) : State :=
  if w.key.session ≠ session then σ
  else if w.key.idx = 0 ∨ maxObjs ≤ w.key.idx then σ
  else
    let found := σ.matchPayload params w.key
    -- the timer goes whether or not the entry matches
    let σ := if w.timeout then σ.delTimer w.key.addr else σ
    if found then
      match params.cancelCbFunc with
      | some f =>
        let σ := (σ.setEntry session w.key.idx (some ⟨f, params.data⟩)).unlink w.key.addr
        { σ with calls := σ.calls ++ [Call.mk w.key resultCanceled] }
      | none =>
        let σ := (σ.setEntry session w.key.idx none).unlink w.key.addr
        { σ with removed := σ.removed ++ [w.key.id] }
    else σ

def cancelWalk (session : ℕ) (params : Params) : List Wait → State → State
  | [], σ => σ
  | w :: rest, σ => cancelWalk session params rest (σ.cancelEntry session params w)

def cancelAsyncWait (session : ℕ) (params : Params) : State :=
  if σ.external then σ
  else if σ.status ≠ stateActive then σ
  else cancelWalk session params σ.waits σ

/-- `synx_util_callback_dispatch`: every wait is answered. -/
def callbackDispatch (status : ℕ) : State :=
  { σ with waits := [], calls := σ.calls ++ σ.waits.map fun w => Call.mk w.key status }

def timerCb (w : Wait) : State :=
  { σ.delTimer w.key.addr with
    timerWorks := σ.timerWorks ++ [w.key]
    expired := w.key.id :: σ.expired }

/-- `synx_timer_handler`: the wait at the address, if there is one, is timed out. -/
def timerHandler (k : Key) : State :=
  let σ := { σ with timerWorks := σ.timerWorks.erase k }
  match σ.waits.find? (·.key.addr == k.addr) with
  | none => σ
  | some w =>
    { σ.unlink k.addr with calls := σ.calls ++ [⟨w.key, stateTimeout⟩] }

/-- `synx_util_cb_dispatch`: the callback is made, and its entry is freed now or after it is read. -/
def cbDispatch (c : Call) : State :=
  let σ := { σ with calls := σ.calls.erase c }
  if c.key.idx = 0 ∨ maxObjs ≤ c.key.idx then σ
  else
    match σ.table c.key.session c.key.idx with
    | none => σ
    | some p =>
      let σ := { σ with answered := σ.answered ++ [Answer.mk c.key.id p.cbFunc c.status] }
      if p.cbFunc = defaultUserCallback then
        { σ with
          eventQ := Function.update σ.eventQ c.key.session (σ.eventQ c.key.session ++ [c.key.idx]) }
      else σ.setEntry c.key.session c.key.idx none

def read (session : ℕ) : State :=
  match σ.eventQ session with
  | [] => σ
  | idx :: rest =>
    { σ with eventQ := Function.update σ.eventQ session rest }.setEntry session idx none

/-- The object is signalled: the fence's callback queues a dispatch, and a client's signal queues
one before it for the waits there are. -/
def signal (status fenceStatus : ℕ) (client : Bool) : State :=
  { σ with
    status := status
    dispatchWorks :=
      σ.dispatchWorks ++ (if client && !σ.waits.isEmpty then [status] else []) ++ [fenceStatus] }

end State

/-! ## The machine -/

inductive Event where
  | asyncWait (session addr : ℕ) (p : Payload) (timeout : Bool)
  | cancelAsyncWait (session : ℕ) (params : Params)
  | signal (status fenceStatus : ℕ) (client : Bool)
  | dispatch (status : ℕ)
  | expire (w : Wait)
  | timerWork (k : Key)
  | call (c : Call)
  | read (session : ℕ)
deriving DecidableEq, Repr

variable (σ : State)

def State.next : Event → State
  | .asyncWait session addr p timeout => σ.asyncWait session addr p timeout
  | .cancelAsyncWait session params => σ.cancelAsyncWait session params
  | .signal status fenceStatus client => σ.signal status fenceStatus client
  | .dispatch status =>
    { σ with dispatchWorks := σ.dispatchWorks.erase status }.callbackDispatch status
  | .expire w => σ.timerCb w
  | .timerWork k => σ.timerHandler k
  | .call c => σ.cbDispatch c
  | .read session => σ.read session

def State.live : List Key := σ.waits.map Wait.key ++ σ.calls.map Call.key

def IsSignal (status : ℕ) : Prop := status ≠ stateActive ∧ status ≠ stateTimeout
deriving Decidable

/-- Which steps can be taken: memory is allocated where nothing lives, an object is signalled once,
and what runs was queued or armed. -/
def Event.Enabled : Event → Prop
  | .asyncWait _ addr _ _ => addr ∉ σ.live.map Key.addr
  | .signal status fenceStatus _ =>
    σ.status = stateActive ∧ IsSignal status ∧ IsSignal fenceStatus
  | .dispatch status => status ∈ σ.dispatchWorks
  | .expire w => w ∈ σ.waits ∧ w.armed = true
  | .timerWork k => k ∈ σ.timerWorks
  | .call c => c ∈ σ.calls
  | .cancelAsyncWait _ _ | .read _ => True

instance (σ : State) : ∀ e : Event, Decidable (e.Enabled σ) := by
  intro e
  cases e <;> dsimp only [Event.Enabled] <;> infer_instance

/-- A new object without waits. -/
structure State.Init (σ : State) : Prop where
  status : σ.status = stateActive
  waits : σ.waits = []
  calls : σ.calls = []
  timerWorks : σ.timerWorks = []
  dispatchWorks : σ.dispatchWorks = []
  table : ∀ session idx, σ.table session idx = none
  eventQ : ∀ session, σ.eventQ session = []
  registered : σ.registered = 0
  answered : σ.answered = []
  removed : σ.removed = []

/-- Waits, cancels, signals and expiries in any order. -/
def waitMachine : Machine State Event where
  init := State.Init
  guard := fun σ e => e.Enabled σ
  next := State.next

instance (σ : State) (e : Event) : Decidable (waitMachine.guard σ e) :=
  inferInstanceAs (Decidable (e.Enabled σ))

def State.ids : List ℕ :=
  σ.live.map Key.id ++ σ.answered.map Answer.id ++ σ.removed

/-- **Waits are answered once**: each registration is in one place, a wait with a timeout has its
timer armed or its expiry on the way, the waits of a signalled object have a dispatch on the way,
and only a wait whose timer fired is answered with a timeout. -/
structure State.Independent (σ : State) : Prop where
  once : σ.ids.Perm (List.range σ.registered)
  timers : ∀ w ∈ σ.waits, w.timeout = true → w.armed = true ∨ w.key ∈ σ.timerWorks
  due : σ.waits ≠ [] → σ.status = stateActive ∨ σ.dispatchWorks ≠ []
  timeouts : ∀ a ∈ σ.answered, a.status = stateTimeout → a.id ∈ σ.expired

def State.Cancels (session : ℕ) (params : Params) (w : Wait) : Prop :=
  w.key.session = session ∧ σ.matchPayload params w.key = true
deriving Decidable

def State.LeavesOthers (session : ℕ) (params : Params) : Prop :=
  ∀ w ∈ σ.waits, ¬σ.Cancels session params w → w ∈ (σ.cancelAsyncWait session params).waits

/-- Where the registrations are: the keys that are alive have addresses and table entries of their
own, the entries that wait to be read belong to none of them, and each registration is alive or
done. -/
structure Places (keys : List Key) (table : ℕ → ℕ → Option Payload) (eventQ : ℕ → List ℕ)
    (done : List ℕ) (n : ℕ) : Prop where
  once : (keys.map Key.id ++ done).Perm (List.range n)
  addrs : (keys.map Key.addr).Nodup
  slots : (keys.map fun k => (k.session, k.idx)).Nodup
  entries : ∀ k ∈ keys, (table k.session k.idx).isSome ∧ k.idx ≠ 0 ∧ k.idx < maxObjs
  unread : ∀ s, ∀ i ∈ eventQ s, (table s i).isSome ∧ ∀ k ∈ keys, ¬(k.session = s ∧ k.idx = i)
  unreadOnce : ∀ s, (eventQ s).Nodup

namespace Places

variable {keys keys' : List Key} {table : ℕ → ℕ → Option Payload} {eventQ : ℕ → List ℕ}
  {done done' : List ℕ} {n : ℕ} {k : Key}

def update (table : ℕ → ℕ → Option Payload) (s i : ℕ) (p : Option Payload) : ℕ → ℕ → Option Payload :=
  Function.update table s (Function.update (table s) i p)

theorem update_same (table : ℕ → ℕ → Option Payload) (s i : ℕ) (p : Option Payload) :
    update table s i p s i = p := by
  simp [update]

theorem update_other (table : ℕ → ℕ → Option Payload) {s i s' i' : ℕ} (p : Option Payload)
    (h : ¬(s' = s ∧ i' = i)) : update table s i p s' i' = table s' i' := by
  by_cases hs : s' = s
  · have hi : i' ≠ i := fun hi => h ⟨hs, hi⟩
    simp [update, hs, hi]
  · simp [update, hs]

theorem perm (h : Places keys table eventQ done n) (hk : keys.Perm keys') (hd : done.Perm done') :
    Places keys' table eventQ done' n := by
  refine ⟨?_, ?_, ?_, fun k hmem => ?_, fun s i hi => ?_, h.unreadOnce⟩
  · exact ((hk.map Key.id).append hd).symm.trans h.once
  · exact (hk.map Key.addr).nodup_iff.mp h.addrs
  · exact (hk.map fun k => (k.session, k.idx)).nodup_iff.mp h.slots
  · exact h.entries k (hk.mem_iff.mpr hmem)
  · exact ⟨(h.unread s i hi).1, fun k hmem => (h.unread s i hi).2 k (hk.mem_iff.mpr hmem)⟩

theorem slot_inj (h : Places (k :: keys) table eventQ done n) {k' : Key} (hk' : k' ∈ keys) :
    ¬(k'.session = k.session ∧ k'.idx = k.idx) := by
  rintro ⟨hs, hi⟩
  have hnot := (nodup_cons.mp h.slots).1
  exact hnot (mem_map.mpr ⟨k', hk', by rw [hs, hi]⟩)

theorem add (h : Places keys table eventQ done n) (hid : k.id = n)
    (haddr : k.addr ∉ keys.map Key.addr) (hfree : table k.session k.idx = none) (hpos : k.idx ≠ 0)
    (hlt : k.idx < maxObjs) (p : Payload) :
    Places (k :: keys) (update table k.session k.idx (some p)) eventQ done (n + 1) := by
  have hother : ∀ k' ∈ keys, ¬(k'.session = k.session ∧ k'.idx = k.idx) := by
    rintro k' hk' ⟨hs, hi⟩
    have hsome := (h.entries k' hk').1
    rw [hs, hi, hfree] at hsome
    exact absurd hsome (by simp)
  refine ⟨?_, nodup_cons.mpr ⟨haddr, h.addrs⟩, nodup_cons.mpr ⟨?_, h.slots⟩, ?_, ?_, h.unreadOnce⟩
  · rw [map_cons, cons_append, hid, range_succ]
    exact (perm_append_comm.trans ((h.once.cons n).symm)).symm
  · intro hmem
    obtain ⟨k', hk', heq⟩ := mem_map.mp hmem
    exact hother k' hk' (Prod.mk.inj heq)
  · intro k' hk'
    rcases mem_cons.mp hk' with rfl | hk'
    · rw [update_same]
      exact ⟨rfl, hpos, hlt⟩
    · rw [update_other table _ (hother k' hk')]
      exact h.entries k' hk'
  · intro s i hi
    have hne : ¬(s = k.session ∧ i = k.idx) := by
      rintro ⟨rfl, rfl⟩
      have hsome := (h.unread _ _ hi).1
      rw [hfree] at hsome
      exact absurd hsome (by simp)
    rw [update_other table _ hne]
    refine ⟨(h.unread s i hi).1, fun k' hk' => ?_⟩
    rcases mem_cons.mp hk' with rfl | hk'
    · rintro ⟨rfl, rfl⟩
      exact hne ⟨rfl, rfl⟩
    · exact (h.unread s i hi).2 k' hk'

theorem finish (h : Places (k :: keys) table eventQ done n) :
    Places keys (update table k.session k.idx none) eventQ (k.id :: done) n := by
  refine ⟨?_, (nodup_cons.mp h.addrs).2, (nodup_cons.mp h.slots).2, ?_, ?_, h.unreadOnce⟩
  · exact perm_middle.trans h.once
  · intro k' hk'
    rw [update_other table _ (h.slot_inj hk')]
    exact h.entries k' (mem_cons_of_mem k hk')
  · intro s i hi
    have hunread := h.unread s i hi
    have hne : ¬(s = k.session ∧ i = k.idx) := by
      rintro ⟨rfl, rfl⟩
      exact hunread.2 k mem_cons_self ⟨rfl, rfl⟩
    rw [update_other table _ hne]
    exact ⟨hunread.1, fun k' hk' => hunread.2 k' (mem_cons_of_mem k hk')⟩

theorem finishUnread (h : Places (k :: keys) table eventQ done n) :
    Places keys table (Function.update eventQ k.session (eventQ k.session ++ [k.idx])) (k.id :: done)
      n := by
  have hnew : ∀ s i, i ∈ Function.update eventQ k.session (eventQ k.session ++ [k.idx]) s →
      i ∈ eventQ s ∨ (s = k.session ∧ i = k.idx) := by
    intro s i hi
    by_cases hs : s = k.session
    · rw [hs, update_self] at hi
      rcases mem_append.mp hi with hi | hi
      · exact .inl (hs ▸ hi)
      · exact .inr ⟨hs, mem_singleton.mp hi⟩
    · rw [update_of_ne hs] at hi
      exact .inl hi
  refine ⟨perm_middle.trans h.once, (nodup_cons.mp h.addrs).2,
    (nodup_cons.mp h.slots).2, fun k' hk' => h.entries k' (mem_cons_of_mem k hk'), ?_, ?_⟩
  · intro s i hi
    rcases hnew s i hi with hi | ⟨rfl, rfl⟩
    · exact ⟨(h.unread s i hi).1, fun k' hk' => (h.unread s i hi).2 k' (mem_cons_of_mem k hk')⟩
    · exact ⟨(h.entries k mem_cons_self).1, fun k' hk' => h.slot_inj hk'⟩
  · intro s
    by_cases hs : s = k.session
    · rw [hs, update_self]
      refine List.Nodup.append (h.unreadOnce _) (nodup_singleton _) ?_
      intro i hi hi'
      rw [mem_singleton.mp hi'] at hi
      exact (h.unread _ _ hi).2 k mem_cons_self ⟨rfl, rfl⟩
    · rw [update_of_ne hs]
      exact h.unreadOnce s

theorem replace (h : Places keys table eventQ done n) (s i : ℕ) (p : Payload) :
    Places keys (update table s i (some p)) eventQ done n := by
  have hsome : ∀ s' i', (table s' i').isSome → (update table s i (some p) s' i').isSome := by
    intro s' i' hold
    by_cases heq : s' = s ∧ i' = i
    · rw [heq.1, heq.2, update_same]
      rfl
    · rw [update_other table _ heq]
      exact hold
  refine ⟨h.once, h.addrs, h.slots, fun k hk => ?_, fun s' i' hi => ?_, h.unreadOnce⟩
  · exact ⟨hsome _ _ (h.entries k hk).1, (h.entries k hk).2⟩
  · exact ⟨hsome _ _ (h.unread s' i' hi).1, (h.unread s' i' hi).2⟩

theorem read (h : Places keys table eventQ done n) {s i : ℕ} {rest : List ℕ}
    (hq : eventQ s = i :: rest) :
    Places keys (update table s i none) (Function.update eventQ s rest) done n := by
  have hmem : i ∈ eventQ s := by
    rw [hq]
    exact mem_cons_self
  have hnodup := h.unreadOnce s
  rw [hq] at hnodup
  refine ⟨h.once, h.addrs, h.slots, fun k hk => ?_, fun s' i' hi => ?_, fun s' => ?_⟩
  · rw [update_other table _ ((h.unread s i hmem).2 k hk)]
    exact h.entries k hk
  · by_cases hs : s' = s
    · rw [hs, update_self] at hi
      have hne : i' ≠ i := fun heq => (nodup_cons.mp hnodup).1 (heq ▸ hi)
      have hold : i' ∈ eventQ s' := by
        rw [hs, hq]
        exact mem_cons_of_mem i hi
      rw [update_other table _ (fun h => hne h.2)]
      exact h.unread s' i' hold
    · rw [update_of_ne hs] at hi
      rw [update_other table _ (fun h => hs h.1)]
      exact h.unread s' i' hi
  · by_cases hs : s' = s
    · rw [hs, update_self]
      exact (nodup_cons.mp hnodup).2
    · rw [update_of_ne hs]
      exact h.unreadOnce s'

end Places

/-- Every registration has its place, and what is timed out had its timer fire. -/
structure Sound (σ : State) : Prop where
  places : Places σ.live σ.table σ.eventQ (σ.answered.map Answer.id ++ σ.removed) σ.registered
  timers : ∀ w ∈ σ.waits, w.timeout = true → w.armed = true ∨ w.key ∈ σ.timerWorks
  armed : ∀ w ∈ σ.waits, w.armed = true → w.timeout = true
  calls : ∀ c ∈ σ.calls, c.status = stateTimeout → c.key.id ∈ σ.expired
  answers : ∀ a ∈ σ.answered, a.status = stateTimeout → a.id ∈ σ.expired
  due : σ.waits ≠ [] → σ.status = stateActive ∨ σ.dispatchWorks ≠ []
  status : σ.status ≠ stateTimeout
  dispatches : ∀ st ∈ σ.dispatchWorks, st ≠ stateTimeout

namespace Sound

variable {σ σ' : State} {w x : Wait} {session : ℕ} {params : Params}

theorem independent (h : Sound σ) : σ.Independent :=
  ⟨by rw [State.ids, append_assoc]; exact h.places.once, h.timers, h.due, h.answers⟩

theorem waits_nodup (h : Sound σ) : (σ.waits.map fun w => w.key.addr).Nodup := by
  have haddrs := h.places.addrs
  rw [State.live, map_append, nodup_append] at haddrs
  have hwaits := haddrs.1
  rw [map_map] at hwaits
  exact hwaits

theorem addr_inj (h : Sound σ) (hw : w ∈ σ.waits) (hx : x ∈ σ.waits)
    (heq : x.key.addr = w.key.addr) : x = w :=
  inj_on_of_nodup_map h.waits_nodup hx hw heq

theorem slot_inj (h : Sound σ) (hw : w ∈ σ.waits) (hx : x ∈ σ.waits)
    (heq : x.key.session = w.key.session ∧ x.key.idx = w.key.idx) : x = w := by
  have hslots := h.places.slots
  rw [State.live, map_append, nodup_append] at hslots
  have hwaits := hslots.1
  rw [map_map] at hwaits
  exact inj_on_of_nodup_map hwaits hx hw (Prod.ext heq.1 heq.2)

theorem perm_unlink (h : Sound σ) (hw : w ∈ σ.waits) :
    σ.waits.Perm (w :: σ.waits.filter (·.key.addr ≠ w.key.addr)) := by
  have hnodup : σ.waits.Nodup := h.waits_nodup.of_map
  rw [perm_ext_iff_of_nodup hnodup]
  · intro x
    rw [mem_cons, mem_filter, decide_eq_true_iff]
    refine ⟨fun hx => ?_, ?_⟩
    · by_cases heq : x.key.addr = w.key.addr
      · exact .inl (h.addr_inj hw hx heq)
      · exact .inr ⟨hx, heq⟩
    · rintro (rfl | hx)
      · exact hw
      · exact hx.1
  · refine nodup_cons.mpr ⟨fun hmem => ?_, hnodup.filter _⟩
    rw [mem_filter, decide_eq_true_iff] at hmem
    exact hmem.2 rfl

theorem live_unlink (h : Sound σ) (hw : w ∈ σ.waits) :
    σ.live.Perm (w.key :: (σ.unlink w.key.addr).live) := by
  rw [State.live]
  exact ((h.perm_unlink hw).map Wait.key).append_right _

theorem delTimer_eq_self {a : ℕ} (ha : ∀ w ∈ σ.waits, w.key.addr = a → w.armed = false) :
    σ.delTimer a = σ := by
  have hwaits : (σ.waits.map fun w => if w.key.addr = a then { w with armed := false } else w) =
      σ.waits := by
    refine (map_congr_left (g := id) fun w hw => ?_).trans (map_id _)
    split
    · rename_i heq
      rw [← ha w hw heq]
      rfl
    · rfl
  rw [State.delTimer, hwaits]

theorem unlink_delTimer (σ : State) (a : ℕ) : (σ.delTimer a).unlink a = σ.unlink a := by
  have hwaits : ∀ l : List Wait,
      (l.map fun w => if w.key.addr = a then { w with armed := false } else w).filter
        (·.key.addr ≠ a) = l.filter (·.key.addr ≠ a) := by
    intro l
    induction l with
    | nil => rfl
    | cons w l ih =>
      rw [map_cons, filter_cons, filter_cons, ih]
      by_cases heq : w.key.addr = a
      · simp [heq]
      · simp [heq]
  rw [State.unlink, State.delTimer]
  dsimp only
  rw [hwaits]
  rfl

theorem leave (h : Sound σ) (hsub : ∀ x ∈ σ'.waits, x ∈ σ.waits)
    (hplaces : Places σ'.live σ'.table σ'.eventQ (σ'.answered.map Answer.id ++ σ'.removed)
      σ'.registered)
    (htimers : σ'.timerWorks = σ.timerWorks) (hexpired : σ'.expired = σ.expired)
    (hcalls : ∀ c ∈ σ'.calls, c.status = stateTimeout → c.key.id ∈ σ.expired)
    (hanswers : ∀ a ∈ σ'.answered, a.status = stateTimeout → a.id ∈ σ.expired)
    (hstatus : σ'.status = σ.status) (hdispatch : σ'.dispatchWorks = σ.dispatchWorks) : Sound σ' := by
  refine ⟨hplaces, fun x hx => ?_, fun x hx => h.armed x (hsub x hx), ?_, ?_,
    fun hne => ?_, ?_, ?_⟩
  · rw [htimers]
    exact h.timers x (hsub x hx)
  · rw [hexpired]
    exact hcalls
  · rw [hexpired]
    exact hanswers
  · rw [hstatus, hdispatch]
    apply h.due
    obtain ⟨x, hx⟩ := exists_mem_of_ne_nil _ hne
    exact ne_nil_of_mem (hsub x hx)
  · rw [hstatus]
    exact h.status
  · rw [hdispatch]
    exact h.dispatches

/-! ## Cancels -/

structure Entry (σ σ' : State) (session : ℕ) (params : Params) (w : Wait) : Prop where
  sound : Sound σ'
  keeps : ∀ x ∈ σ.waits, x ≠ w ∨ ¬σ.Cancels session params w → x ∈ σ'.waits
  table : ∀ s i, ¬(s = w.key.session ∧ i = w.key.idx) → σ'.table s i = σ.table s i

theorem Entry.refl (h : Sound σ) : Entry σ σ session params w :=
  ⟨h, fun _ hx _ => hx, fun _ _ _ => rfl⟩

theorem cancelEntry (h : Sound σ) (hw : w ∈ σ.waits)
    (hsafe : w.key.session = session → w.armed = true → σ.matchPayload params w.key = true) :
    Entry σ (σ.cancelEntry session params w) session params w := by
  rw [State.cancelEntry]
  split
  · exact .refl h
  rename_i hs
  have hs := not_not.mp hs
  have hkey : w.key ∈ σ.live := mem_append_left _ (mem_map_of_mem hw)
  have hentry := h.places.entries _ hkey
  split
  · rename_i hidx
    exact absurd hidx (by omega)
  cases hmatch : σ.matchPayload params w.key with
  | false =>
    have hunarmed : w.armed = false := by
      rw [Bool.eq_false_iff]
      intro harmed
      have := hsafe hs harmed
      rw [hmatch] at this
      cases this
    have hsame : (if w.timeout = true then σ.delTimer w.key.addr else σ) = σ := by
      split
      · apply delTimer_eq_self
        intro x hx heq
        rw [h.addr_inj hw hx heq]
        exact hunarmed
      · rfl
    simp only [hsame, Bool.false_eq_true, if_false]
    exact .refl h
  | true =>
    have hcancels : σ.Cancels session params w := ⟨hs, hmatch⟩
    have hlive := h.live_unlink hw
    have hplaces := h.places.perm hlive (.refl _)
    have hkept : ∀ x ∈ σ.waits, x ≠ w ∨ ¬σ.Cancels session params w →
        x ∈ σ.waits.filter (·.key.addr ≠ w.key.addr) := by
      intro x hx hor
      have hne := hor.resolve_right (not_not_intro hcancels)
      rw [mem_filter, decide_eq_true_iff]
      exact ⟨hx, fun heq => hne (h.addr_inj hw hx heq)⟩
    have hsub : ∀ x ∈ σ.waits.filter (·.key.addr ≠ w.key.addr), x ∈ σ.waits :=
      fun x hx => (mem_filter.mp hx).1
    have htimer : ∀ p, ((if w.timeout = true then σ.delTimer w.key.addr else σ).setEntry session
        w.key.idx p).unlink w.key.addr = (σ.setEntry session w.key.idx p).unlink w.key.addr := by
      intro p
      split
      · have hcomm : (σ.delTimer w.key.addr).setEntry session w.key.idx p =
            (σ.setEntry session w.key.idx p).delTimer w.key.addr := rfl
        rw [hcomm, unlink_delTimer]
      · rfl
    simp only [if_true]
    cases params.cancelCbFunc with
    | some f =>
      simp only [htimer]
      refine ⟨h.leave hsub ?_ rfl rfl ?_ h.answers rfl rfl, hkept, fun s i hne => ?_⟩
      · have hlast : (w.key :: (σ.unlink w.key.addr).live).Perm
            ((σ.unlink w.key.addr).live ++ [w.key]) := (perm_append_singleton _ _).symm
        have hmoved := (hplaces.perm hlast (.refl _)).replace session w.key.idx ⟨f, params.data⟩
        have hkeys : (σ.unlink w.key.addr).live ++ [w.key] =
            (σ.waits.filter (·.key.addr ≠ w.key.addr)).map Wait.key ++
              (σ.calls ++ [Call.mk w.key resultCanceled]).map Call.key := by
          rw [map_append, ← append_assoc]
          rfl
        rw [hkeys] at hmoved
        exact hmoved
      · intro c hc hstatus
        rcases mem_append.mp hc with hc | hc
        · exact h.calls c hc hstatus
        · rw [mem_singleton.mp hc] at hstatus
          exact absurd hstatus (show resultCanceled ≠ stateTimeout by decide)
      · exact Places.update_other σ.table _ (hs ▸ hne)
    | none =>
      simp only [htimer]
      refine ⟨h.leave hsub ?_ rfl rfl h.calls h.answers rfl rfl, hkept, fun s i hne => ?_⟩
      · have hdone : (w.key.id :: (σ.answered.map Answer.id ++ σ.removed)).Perm
            (σ.answered.map Answer.id ++ (σ.removed ++ [w.key.id])) := by
          rw [← append_assoc]
          exact (perm_append_singleton _ _).symm
        have hgone := hplaces.finish.perm (.refl _) hdone
        rw [hs] at hgone
        exact hgone
      · exact Places.update_other σ.table _ (hs ▸ hne)

theorem cancelWalk (h : Sound σ) {l : List Wait} (hl : ∀ x ∈ l, x ∈ σ.waits) (hnodup : l.Nodup)
    (hsafe : ∀ x ∈ l, x.key.session = session → x.armed = true → σ.matchPayload params x.key = true) :
    Sound (State.cancelWalk session params l σ) ∧
      ∀ x ∈ σ.waits, (x ∈ l → ¬σ.Cancels session params x) →
        x ∈ (State.cancelWalk session params l σ).waits := by
  induction l generalizing σ with
  | nil => exact ⟨h, fun x hx _ => hx⟩
  | cons w l ih =>
    have hw := hl w mem_cons_self
    obtain ⟨hwl, hl'⟩ := nodup_cons.mp hnodup
    have hentry := h.cancelEntry hw (hsafe w mem_cons_self)
    have hmatch : ∀ x ∈ l, (σ.cancelEntry session params w).matchPayload params x.key =
        σ.matchPayload params x.key := by
      intro x hx
      have hne : ¬(x.key.session = w.key.session ∧ x.key.idx = w.key.idx) := fun heq =>
        hwl (h.slot_inj hw (hl x (mem_cons_of_mem w hx)) heq ▸ hx)
      rw [State.matchPayload, hentry.table _ _ hne, State.matchPayload]
    have hkeep : ∀ x ∈ l, x ∈ (σ.cancelEntry session params w).waits := fun x hx =>
      hentry.keeps x (hl x (mem_cons_of_mem w hx)) (.inl fun heq => hwl (heq ▸ hx))
    obtain ⟨hsound, hrest⟩ := ih hentry.sound hkeep hl' fun x hx hs harmed => by
      rw [hmatch x hx]
      exact hsafe x (mem_cons_of_mem w hx) hs harmed
    refine ⟨hsound, fun x hx hnot => hrest x (hentry.keeps x hx ?_) fun hxl hc => ?_⟩
    · by_cases heq : x = w
      · exact .inr (heq ▸ hnot (heq ▸ mem_cons_self))
      · exact .inl heq
    · refine hnot (mem_cons_of_mem w hxl) ⟨hc.1, ?_⟩
      rw [← hmatch x hxl]
      exact hc.2

end Sound

/-- What the steps must respect: a cancel finds no armed timer of the session's other waits, and the
wait that an expiry finds at its address is one whose timer fired. -/
def Event.Safe : Event → Prop
  | .timerWork k => ∀ w ∈ σ.waits, w.key.addr = k.addr → w.key.id ∈ σ.expired
  | .cancelAsyncWait session params =>
    σ.external = false → σ.status = stateActive →
      ∀ w ∈ σ.waits, w.key.session = session → w.armed = true → σ.matchPayload params w.key = true
  | _ => True

instance (σ : State) : ∀ e : Event, Decidable (e.Safe σ) := by
  intro e
  cases e <;> dsimp only [Event.Safe] <;> infer_instance

namespace Sound

variable {σ σ' : State} {w x : Wait} {session : ℕ} {params : Params}

theorem cancelAsyncWait (h : Sound σ) (hsafe : (Event.cancelAsyncWait session params).Safe σ) :
    Sound (σ.cancelAsyncWait session params) ∧ σ.LeavesOthers session params := by
  rw [State.LeavesOthers, State.cancelAsyncWait]
  split
  · exact ⟨h, fun x hx _ => hx⟩
  rename_i hext
  split
  · exact ⟨h, fun x hx _ => hx⟩
  rename_i hstatus
  obtain ⟨hsound, hrest⟩ := h.cancelWalk (fun x hx => hx) h.waits_nodup.of_map
    (hsafe (Bool.eq_false_of_not_eq_true hext) (not_not.mp hstatus))
  exact ⟨hsound, fun x hx hnot => hrest x hx fun _ => hnot⟩

theorem live_delTimer (σ : State) (a : ℕ) : (σ.delTimer a).live = σ.live := by
  have hkeys : (σ.delTimer a).waits.map Wait.key = σ.waits.map Wait.key := by
    rw [State.delTimer, map_map]
    refine map_congr_left fun w _ => ?_
    rw [Function.comp_apply]
    split
    · rfl
    · rfl
  rw [State.live, hkeys]
  rfl

theorem mem_delTimer {a : ℕ} (hx : x ∈ (σ.delTimer a).waits) :
    ∃ w ∈ σ.waits, x.key = w.key ∧ x.timeout = w.timeout ∧
      (x.armed = true → w.armed = true) ∧ (w.key.addr ≠ a → x = w) := by
  obtain ⟨w, hw, rfl⟩ := mem_map.mp hx
  refine ⟨w, hw, ?_⟩
  split
  · rename_i heq
    exact ⟨rfl, rfl, fun hfalse => absurd hfalse (by simp), fun hne => absurd heq hne⟩
  · exact ⟨rfl, rfl, id, fun _ => rfl⟩

theorem mem_cancelEntry (hx : x ∈ (σ.cancelEntry session params w).waits) :
    ∃ y ∈ σ.waits, y.key = x.key ∧ (x.armed = true → y.armed = true) := by
  have hdel : ∀ x ∈ (if w.timeout = true then σ.delTimer w.key.addr else σ).waits,
      ∃ y ∈ σ.waits, y.key = x.key ∧ (x.armed = true → y.armed = true) := by
    intro x hx
    split at hx
    · obtain ⟨y, hy, hkey, -, harmed, -⟩ := mem_delTimer hx
      exact ⟨y, hy, hkey.symm, harmed⟩
    · exact ⟨x, hx, rfl, id⟩
  rw [State.cancelEntry] at hx
  split at hx
  · exact ⟨x, hx, rfl, id⟩
  split at hx
  · exact ⟨x, hx, rfl, id⟩
  dsimp only at hx
  split at hx
  · cases hf : params.cancelCbFunc with
    | some f =>
      rw [hf] at hx
      exact hdel x (mem_filter.mp hx).1
    | none =>
      rw [hf] at hx
      exact hdel x (mem_filter.mp hx).1
  · exact hdel x hx

theorem mem_cancelWalk {l : List Wait} (hx : x ∈ (State.cancelWalk session params l σ).waits) :
    ∃ y ∈ σ.waits, y.key = x.key ∧ (x.armed = true → y.armed = true) := by
  induction l generalizing σ with
  | nil => exact ⟨x, hx, rfl, id⟩
  | cons w l ih =>
    obtain ⟨y, hy, hkey, harmed⟩ := ih hx
    obtain ⟨z, hz, hkey', harmed'⟩ := mem_cancelEntry hy
    exact ⟨z, hz, hkey'.trans hkey, fun h => harmed' (harmed h)⟩

theorem cancelEntry_disarms (hs : w.key.session = session) (hpos : w.key.idx ≠ 0)
    (hlt : w.key.idx < maxObjs) (hto : w.timeout = true)
    (hx : x ∈ (σ.cancelEntry session params w).waits) (haddr : x.key.addr = w.key.addr) :
    x.armed = false := by
  have hdel : ∀ x ∈ (σ.delTimer w.key.addr).waits, x.key.addr = w.key.addr → x.armed = false := by
    intro x hx heq
    obtain ⟨y, -, rfl⟩ := mem_map.mp hx
    by_cases hy : y.key.addr = w.key.addr
    · rw [if_pos hy]
    · rw [if_neg hy] at heq
      exact absurd heq hy
  have hidx : ¬(w.key.idx = 0 ∨ maxObjs ≤ w.key.idx) := by omega
  rw [State.cancelEntry, if_neg (not_not_intro hs), if_neg hidx] at hx
  simp only [if_pos hto] at hx
  split at hx
  · cases hf : params.cancelCbFunc with
    | some f =>
      rw [hf] at hx
      exact hdel x (mem_filter.mp hx).1 haddr
    | none =>
      rw [hf] at hx
      exact hdel x (mem_filter.mp hx).1 haddr
  · exact hdel x hx haddr

theorem cancelWalk_disarms {l : List Wait} (hw : w ∈ l) (hs : w.key.session = session)
    (hpos : w.key.idx ≠ 0) (hlt : w.key.idx < maxObjs) (hto : w.timeout = true)
    (hx : x ∈ (State.cancelWalk session params l σ).waits) (haddr : x.key.addr = w.key.addr) :
    x.armed = false := by
  induction l generalizing σ with
  | nil => cases hw
  | cons v l ih =>
    rcases mem_cons.mp hw with rfl | hw
    · rw [State.cancelWalk] at hx
      obtain ⟨y, hy, hkey, harmed⟩ := mem_cancelWalk hx
      have hfalse := cancelEntry_disarms hs hpos hlt hto hy (hkey.symm ▸ haddr)
      rw [Bool.eq_false_iff]
      intro htrue
      rw [harmed htrue] at hfalse
      cases hfalse
    · exact ih hw hx

/-- **A cancel leaves the other waits as they were exactly when none of the session's has an armed
timer.** -/
theorem leavesOthers_iff (h : Sound σ) :
    σ.LeavesOthers session params ↔ (Event.cancelAsyncWait session params).Safe σ := by
  refine ⟨fun hleaves hext hstatus w hw hs harmed => ?_, fun hsafe => (h.cancelAsyncWait hsafe).2⟩
  by_contra hmatch
  have hkept := hleaves w hw fun hcancels => hmatch hcancels.2
  rw [State.cancelAsyncWait, hext, if_neg (by simp), if_neg (not_not_intro hstatus)] at hkept
  obtain ⟨-, hpos, hlt⟩ := h.places.entries w.key (mem_append_left _ (mem_map_of_mem hw))
  have hfalse := cancelWalk_disarms hw hs hpos hlt (h.armed w hw harmed) hkept rfl
  rw [harmed] at hfalse
  cases hfalse

theorem freeEntry_spec {σ : State} {session idx : ℕ} (h : σ.freeEntry session = some idx) :
    σ.table session idx = none ∧ idx ≠ 0 ∧ idx < maxObjs := by
  have hnone := List.find?_some h
  have hmem := List.mem_of_find?_eq_some h
  rw [List.mem_range'_1] at hmem
  have hmax : maxObjs = 4096 := rfl
  refine ⟨by simpa using hnone, ?_, ?_⟩
  · omega
  · omega

section

variable (h : Sound σ)
include h

theorem asyncWait {addr : ℕ} {p : Payload} {timeout : Bool}
    (haddr : addr ∉ σ.live.map Key.addr) : Sound (σ.asyncWait session addr p timeout) := by
  rw [State.asyncWait]
  split
  · exact h
  rename_i idx hidx
  obtain ⟨hfree, hpos, hlt⟩ := freeEntry_spec hidx
  have hadd := h.places.add (k := ⟨addr, σ.registered, session, idx⟩) rfl haddr hfree hpos hlt p
  dsimp only
  split
  · rename_i hactive
    refine ⟨hadd, fun w hw hto => ?_, fun w hw harmed => ?_, h.calls, h.answers,
      fun _ => .inl hactive, h.status, h.dispatches⟩
    · rcases mem_cons.mp hw with rfl | hw
      · exact .inl hto
      · exact h.timers w hw hto
    · rcases mem_cons.mp hw with rfl | hw
      · exact harmed
      · exact h.armed w hw harmed
  · refine h.leave (fun x hx => hx) ?_ rfl rfl ?_ h.answers rfl rfl
    · have hmoved := hadd.perm (perm_append_singleton _ _).symm (.refl _)
      have hkeys : σ.live ++ [(⟨addr, σ.registered, session, idx⟩ : Key)] =
          σ.waits.map Wait.key ++ (σ.calls ++ [Call.mk ⟨addr, σ.registered, session, idx⟩
            σ.status]).map Call.key := by
        rw [map_append, ← append_assoc]
        rfl
      rw [hkeys] at hmoved
      exact hmoved
    · intro c hc hstatus
      rcases mem_append.mp hc with hc | hc
      · exact h.calls c hc hstatus
      · rw [mem_singleton.mp hc] at hstatus
        exact absurd hstatus h.status

theorem signal {status fenceStatus : ℕ} {client : Bool} (hstatus : IsSignal status)
    (hfence : IsSignal fenceStatus) : Sound (σ.signal status fenceStatus client) := by
  refine ⟨h.places, h.timers, h.armed, h.calls, h.answers, fun _ => .inr ?_, hstatus.2,
    fun st hst => ?_⟩
  · exact append_ne_nil_of_right_ne_nil _ (cons_ne_nil _ _)
  · rcases mem_append.mp hst with hst | hst
    · rcases mem_append.mp hst with hst | hst
      · exact h.dispatches st hst
      · split at hst
        · rw [mem_singleton.mp hst]
          exact hstatus.2
        · cases hst
    · rw [mem_singleton.mp hst]
      exact hfence.2

theorem dispatch {status : ℕ} (hmem : status ∈ σ.dispatchWorks) :
    Sound ({ σ with dispatchWorks := σ.dispatchWorks.erase status }.callbackDispatch status) := by
  refine ⟨h.places.perm ?_ (.refl _), ?_, ?_, ?_, h.answers,
    fun hne => absurd rfl hne, h.status, fun st hst => h.dispatches st (mem_of_mem_erase hst)⟩
  · show (σ.waits.map Wait.key ++ σ.calls.map Call.key).Perm
      ((σ.calls ++ σ.waits.map fun w => Call.mk w.key status).map Call.key)
    rw [map_append, map_map]
    exact perm_append_comm
  · intro w hw
    cases hw
  · intro w hw
    cases hw
  · intro c hc hstatus
    rcases mem_append.mp hc with hc | hc
    · exact h.calls c hc hstatus
    · obtain ⟨w, -, rfl⟩ := mem_map.mp hc
      exact absurd hstatus (h.dispatches status hmem)

theorem expire (hw : w ∈ σ.waits) : Sound (σ.timerCb w) := by
  have hexpired : ∀ i ∈ σ.expired, i ∈ w.key.id :: σ.expired := fun i hi =>
    mem_cons_of_mem _ hi
  refine ⟨?_, fun x hx hto => ?_, fun x hx harmed => ?_, fun c hc hst => ?_,
    fun a ha hst => ?_, fun hne => h.due ?_, h.status, h.dispatches⟩
  · have hplaces := h.places
    rw [← live_delTimer σ w.key.addr] at hplaces
    exact hplaces
  · obtain ⟨y, hy, hkey, htimeout, -, hsame⟩ := mem_delTimer hx
    by_cases heq : y.key.addr = w.key.addr
    · right
      rw [hkey, h.addr_inj hw hy heq]
      exact mem_append_right _ (mem_singleton.mpr rfl)
    · rcases h.timers y hy (htimeout ▸ hto) with harmed | hwork
      · left
        rw [hsame heq]
        exact harmed
      · right
        rw [hkey]
        exact mem_append_left _ hwork
  · obtain ⟨y, hy, -, htimeout, harmed', -⟩ := mem_delTimer hx
    rw [htimeout]
    exact h.armed y hy (harmed' harmed)
  · exact hexpired _ (h.calls c hc hst)
  · exact hexpired _ (h.answers a ha hst)
  · exact ne_nil_of_mem hw

theorem timerWork {k : Key}
    (hsafe : ∀ w ∈ σ.waits, w.key.addr = k.addr → w.key.id ∈ σ.expired) :
    Sound (σ.timerHandler k) := by
  rw [State.timerHandler]
  dsimp only
  split
  · rename_i hnone
    have hother : ∀ x ∈ σ.waits, x.key ≠ k := by
      intro x hx heq
      have hnot := List.find?_eq_none.mp hnone x hx
      rw [heq] at hnot
      exact hnot (beq_self_eq_true _)
    refine ⟨h.places, fun x hx hto => ?_, h.armed, h.calls, h.answers, h.due, h.status, h.dispatches⟩
    refine (h.timers x hx hto).imp_right fun hwork => ?_
    exact (mem_erase_of_ne (hother x hx)).mpr hwork
  · rename_i w hsome
    have hw : w ∈ σ.waits := List.mem_of_find?_eq_some hsome
    have hbeq : (w.key.addr == k.addr) = true := by simpa using List.find?_some hsome
    have haddr : w.key.addr = k.addr := beq_iff_eq.mp hbeq
    have hsub : ∀ x ∈ σ.waits.filter (·.key.addr ≠ k.addr), x ∈ σ.waits :=
      fun x hx => (mem_filter.mp hx).1
    have hlive : σ.live.Perm (((σ.unlink w.key.addr).live) ++ [w.key]) :=
      (h.live_unlink hw).trans (perm_append_singleton _ _).symm
    rw [haddr] at hlive
    refine ⟨?_, fun x hx hto => ?_, fun x hx => h.armed x (hsub x hx),
      fun c hc hst => ?_, h.answers, fun _ => h.due (ne_nil_of_mem hw), h.status,
      h.dispatches⟩
    · have hmoved := h.places.perm hlive (.refl _)
      have hkeys : (σ.unlink k.addr).live ++ [w.key] =
          (σ.waits.filter (·.key.addr ≠ k.addr)).map Wait.key ++
            (σ.calls ++ [Call.mk w.key stateTimeout]).map Call.key := by
        rw [map_append, ← append_assoc]
        rfl
      rw [hkeys] at hmoved
      exact hmoved
    · refine (h.timers x (hsub x hx) hto).imp_right fun hwork => ?_
      have hne := (mem_filter.mp hx).2
      rw [decide_eq_true_iff] at hne
      exact (mem_erase_of_ne fun heq => hne (congrArg Key.addr heq)).mpr hwork
    · rcases mem_append.mp hc with hc | hc
      · exact h.calls c hc hst
      · rw [mem_singleton.mp hc]
        exact hsafe w hw haddr

theorem call {c : Call} (hc : c ∈ σ.calls) : Sound (σ.cbDispatch c) := by
  have hlive : σ.live.Perm (c.key :: (σ.waits.map Wait.key ++ (σ.calls.erase c).map Call.key)) := by
    have hcalls := (perm_cons_erase hc).map Call.key
    rw [map_cons] at hcalls
    exact (hcalls.append_left _).trans perm_middle
  have hplaces := h.places.perm hlive (.refl _)
  obtain ⟨hsome, hpos, hlt⟩ := hplaces.entries c.key mem_cons_self
  obtain ⟨p, hp⟩ := Option.isSome_iff_exists.mp hsome
  have hidx : ¬(c.key.idx = 0 ∨ maxObjs ≤ c.key.idx) := by omega
  have hdone : (c.key.id :: (σ.answered.map Answer.id ++ σ.removed)).Perm
      ((σ.answered ++ [Answer.mk c.key.id p.cbFunc c.status]).map Answer.id ++ σ.removed) := by
    rw [map_append, append_assoc]
    exact perm_middle.symm
  have hcalls : ∀ c' ∈ σ.calls.erase c, c'.status = stateTimeout → c'.key.id ∈ σ.expired :=
    fun c' hc' => h.calls c' (mem_of_mem_erase hc')
  have hanswers : ∀ a ∈ σ.answered ++ [Answer.mk c.key.id p.cbFunc c.status],
      a.status = stateTimeout → a.id ∈ σ.expired := by
    intro a ha hst
    rcases mem_append.mp ha with ha | ha
    · exact h.answers a ha hst
    · rw [mem_singleton.mp ha] at hst ⊢
      exact h.calls c hc hst
  rw [State.cbDispatch]
  simp only [if_neg hidx, hp]
  split
  · exact h.leave (fun x hx => hx) (hplaces.finishUnread.perm (.refl _) hdone) rfl rfl hcalls hanswers
      rfl rfl
  · exact h.leave (fun x hx => hx) (hplaces.finish.perm (.refl _) hdone) rfl rfl hcalls hanswers rfl
      rfl

theorem read : Sound (σ.read session) := by
  rw [State.read]
  split
  · exact h
  · rename_i idx rest hq
    exact h.leave (fun x hx => hx) (h.places.read hq) rfl rfl h.calls h.answers rfl rfl

end

theorem of_init (h : σ.Init) : Sound σ := by
  refine ⟨⟨?_, ?_, ?_, ?_, ?_, ?_⟩, ?_, ?_, ?_, ?_, ?_, ?_, ?_⟩ <;>
    simp [State.live, h.status, h.waits, h.calls, h.timerWorks, h.dispatchWorks, h.eventQ,
      h.registered, h.answered, h.removed, stateActive, stateTimeout]

theorem next (h : Sound σ) {e : Event} (he : e.Enabled σ) (hsafe : e.Safe σ) : Sound (σ.next e) := by
  cases e with
  | asyncWait session addr p timeout => exact h.asyncWait he
  | cancelAsyncWait session params => exact (h.cancelAsyncWait hsafe).1
  | signal status fenceStatus client => exact h.signal he.2.1 he.2.2
  | dispatch status => exact h.dispatch he
  | expire w => exact h.expire he.1
  | timerWork k => exact h.timerWork hsafe
  | call c => exact h.call he
  | read session => exact h.read

end Sound

/-- The runs whose steps respect the conditions. -/
def carefulMachine : Machine State Event where
  init := State.Init
  guard := fun σ e => e.Enabled σ ∧ e.Safe σ
  next := State.next

instance (σ : State) (e : Event) : Decidable (carefulMachine.guard σ e) :=
  inferInstanceAs (Decidable (e.Enabled σ ∧ e.Safe σ))

theorem sound_of_reachable {σ : State} (h : carefulMachine.Reachable σ) : Sound σ :=
  h.invariant (fun _ => Sound.of_init) fun _ _ hs he => hs.next he.1 he.2

def newObject : State where
  status := stateActive
  external := false
  waits := []
  calls := []
  timerWorks := []
  dispatchWorks := []
  table := fun _ _ => none
  eventQ := fun _ => []
  registered := 0
  answered := []
  removed := []
  expired := []

theorem init_newObject : newObject.Init :=
  ⟨rfl, rfl, rfl, rfl, rfl, fun _ _ => rfl, fun _ => rfl, rfl, rfl, rfl⟩

end Synx
