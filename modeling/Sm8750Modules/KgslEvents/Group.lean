import Sm8750Modules.Lib.Runs

/-!
# Event groups of the GPU driver

A context waits for timestamps: each event of its group has a callback that is queued when the
timestamp retires, or when the event is cancelled. Timestamps are 32 bits wide and wrap; here they
are counted without wrapping, and the code sees what is left of them.
-/

namespace KgslEvents

open Runs

def window : ℕ := 0x80000000

def wrap (n : ℕ) : ℕ := n % 2 ^ 32

def timestampCmp (a b : ℕ) : ℤ :=
  if a = b then 0
  else if b < a ∧ a - b < window then 1
  else if wrap (b + window) < wrap (a + window) ∧ wrap (a + window) - wrap (b + window) ≤ window then 1
  else -1

def Near (m n : ℕ) : Prop := m < n + window ∧ n < m + window
deriving Decidable

theorem timestampCmp_wrap {m n : ℕ} (h : Near m n) :
    timestampCmp (wrap m) (wrap n) = if m = n then 0 else if n < m then 1 else -1 := by
  obtain ⟨hmn, hnm⟩ := h
  rw [window] at hmn hnm
  rw [timestampCmp, window, wrap, wrap, wrap, wrap]
  by_cases heq : m = n
  · rw [heq, if_pos rfl, if_pos rfl]
  · rw [if_neg heq, if_neg (by omega)]
    by_cases hlt : n < m
    · rw [if_pos hlt]
      by_cases hplain : n % 2 ^ 32 < m % 2 ^ 32 ∧ m % 2 ^ 32 - n % 2 ^ 32 < 0x80000000
      · rw [if_pos hplain]
      · rw [if_neg hplain, if_pos (by omega)]
    · rw [if_neg hlt, if_neg (by omega), if_neg (by omega)]

def doProcessGroup (processed cur : ℕ) : Bool :=
  if processed = cur then false
  else if cur < processed ∧ processed - cur < window then false
  else true

/-- **The shortcut** is taken only if nothing has retired since the last processing. -/
theorem doProcessGroup_wrap {m n : ℕ} (h : Near m n) (hle : m ≤ n)
    (hshort : doProcessGroup (wrap m) (wrap n) = false) : m = n := by
  obtain ⟨hmn, hnm⟩ := h
  rw [window] at hmn hnm
  rw [doProcessGroup, window, wrap, wrap] at hshort
  by_cases heq : m % 2 ^ 32 = n % 2 ^ 32
  · omega
  · rw [if_neg heq, if_neg (by omega)] at hshort
    cases hshort

/-! ## The group -/

inductive Result where
  | retired
  | cancelled
deriving DecidableEq, Repr

/-- `struct kgsl_event`; `id` tells the objects apart. -/
structure Event where
  id : ℕ
  timestamp : ℕ
  func : ℕ
  priv : ℕ
deriving DecidableEq, Repr

/-- What does not change: whether the group belongs to a context, and whether that one makes its own
timestamps. -/
structure Config where
  context : Bool
  userGeneratedTs : Bool

/-- `struct kgsl_event_group`, the timestamps of its context and the references to it. `adding` are
the events of the calls of `kgsl_add_event` that wait for the lock, `fired` the works that were
queued, of which `ran` have run, `accepted` the events of the calls that returned 0. -/
structure Group where
  retired : ℕ
  queued : ℕ
  processed : ℕ
  events : List Event
  adding : List Event
  fired : List (Event × Result)
  ran : ℕ
  accepted : List Event
  made : ℕ
  ref : ℕ
  users : ℕ

/-- A loop over the list that calls `signal_event` where `f` gives a result. -/
def signalWhere (f : Event → Option Result) (s : Group) : Group :=
  { s with
    events := s.events.filter fun e => f e = none
    fired := s.fired ++ s.events.filterMap fun e => (f e).map fun r => (e, r) }

def processResult (flush : Bool) (timestamp : ℕ) (e : Event) : Option Result :=
  if timestampCmp (wrap e.timestamp) timestamp ≤ 0 then some .retired
  else if flush then some .cancelled
  else none

variable (c : Config)

def processGroup (flush : Bool) (s : Group) : Group :=
  if c.context && s.ref = 0 then s
  else if !flush && !doProcessGroup (wrap s.processed) (wrap s.retired) then s
  else { signalWhere (processResult flush (wrap s.retired)) s with processed := s.retired }

def cancelEventsTimestamp (timestamp : ℕ) (s : Group) : Group :=
  signalWhere (fun e => if timestampCmp timestamp (wrap e.timestamp) = 0 then some .cancelled else none) s

variable (s : Group)

def cancelEvents : Group := signalWhere (fun _ => some .cancelled) s

def cancelEvent (timestamp func priv : ℕ) (s : Group) : Group :=
  match s.events.find? fun e => timestamp = wrap e.timestamp ∧ func = e.func ∧ e.priv = priv with
  | none => s
  | some e => { s with events := s.events.erase e, fired := s.fired ++ [(e, .cancelled)] }

inductive AddError where
  | inval
  | noent
deriving DecidableEq, Repr

/-- The checks of `kgsl_add_event`; there is no function 0. -/
def addCheck (timestamp func : ℕ) (s : Group) : Option AddError :=
  if func = 0 then some .inval
  else if (!c.context || !c.userGeneratedTs) && 0 < timestampCmp (wrap timestamp) (wrap s.queued) then
    some .inval
  else if c.context && s.ref = 0 then some .noent
  else none

/-- `kgsl_add_event` up to its lock. -/
def beginAdd (timestamp func priv : ℕ) (s : Group) : Group :=
  match addCheck c timestamp func s with
  | some _ => s
  | none =>
    { s with
      adding := s.adding ++ [⟨s.made, timestamp, func, priv⟩]
      made := s.made + 1
      ref := s.ref + 1 }

/-- `kgsl_add_event` under its lock. -/
def finishAdd (e : Event) (s : Group) : Group :=
  let s := { s with adding := s.adding.erase e, accepted := s.accepted ++ [e] }
  if 0 ≤ timestampCmp (wrap s.retired) (wrap e.timestamp) then
    { s with fired := s.fired ++ [(e, .retired)] }
  else { s with events := s.events ++ [e] }

inductive Action where
  /-- the GPU retires timestamps -/
  | retire (ts : ℕ)
  /-- commands are queued -/
  | queue (ts : ℕ)
  | beginAdd (timestamp func priv : ℕ)
  | finishAdd (e : Event)
  | process (flush : Bool)
  | cancelTimestamp (timestamp : ℕ)
  | cancelAll
  | cancel (timestamp func priv : ℕ)
  /-- `_kgsl_event_worker` for the first work that waits -/
  | runWork
  /-- others take and put references to the context -/
  | getContext
  | putContext

def next (s : Group) : Action → Group
  | .retire ts => { s with retired := ts }
  | .queue ts => { s with queued := ts }
  | .beginAdd timestamp func priv => beginAdd c timestamp func priv s
  | .finishAdd e => finishAdd e s
  | .process flush => processGroup c flush s
  | .cancelTimestamp timestamp => cancelEventsTimestamp timestamp s
  | .cancelAll => cancelEvents s
  | .cancel timestamp func priv => cancelEvent timestamp func priv s
  | .runWork => { s with ran := s.ran + 1, ref := s.ref - 1 }
  | .getContext => { s with ref := s.ref + 1, users := s.users + 1 }
  | .putContext => { s with ref := s.ref - 1, users := s.users - 1 }

def Enabled : Action → Prop
  | .retire ts => s.retired ≤ ts
  | .queue ts => s.queued ≤ ts
  | .finishAdd e => e ∈ s.adding
  | .runWork => s.ran < s.fired.length
  | .getContext => 0 < s.ref
  | .putContext => 0 < s.users
  | .beginAdd _ _ _ | .process _ | .cancelTimestamp _ | .cancelAll | .cancel _ _ _ => True

instance decidableEnabled (s : Group) : ∀ a, Decidable (Enabled s a) := by
  intro a
  cases a <;> dsimp only [Enabled] <;> infer_instance

def live : List ℕ := s.processed :: (s.events ++ s.adding).map Event.timestamp

def InHalf : Prop := ∀ n ∈ live s, Near n s.retired
deriving Decidable

def initial : Group := ⟨0, 0, 0, [], [], [], 0, [], 0, 1, 1⟩

/-- The runs whose live timestamps stay inside half of the range. -/
def groupMachine : Machine Group Action where
  init := (· = initial)
  guard s a := Enabled s a ∧ InHalf (next c s a)
  next := next c

instance (c : Config) (s : Group) (a : Action) : Decidable ((groupMachine c).guard s a) :=
  inferInstanceAs (Decidable (Enabled s a ∧ InHalf (next c s a)))

end KgslEvents
