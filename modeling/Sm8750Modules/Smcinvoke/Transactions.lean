import Sm8750Modules.Lib.Runs
import Sm8750Modules.Smcinvoke.OutputRefs

/-!
# Callback requests — transactions

A callback request of the secure world is a transaction in the list of its server. The dispatcher that queued
it waits, a thread of the server picks it up, and the same thread or another one submits a response; the state
of the transaction decides whether the response counts or the dispatcher gave up before. A step is a section
under the mutex with what is put right after it, or a call that converts arguments.
-/

namespace Smcinvoke.Txns

open RefCounts Runs

/-! ## Transactions -/

/-- `enum state` -/
inductive Xst
  | new
  | pending
  | processing
  | processed
  | timedout
deriving DecidableEq

def contextIdAny : ℕ := 0

def erestartsys : ℤ := -512
def efault : ℤ := -14

/-- `struct cb_txn`, with the output objects of `args`. -/
structure CbTxn where
  contextId : ℕ := contextIdAny
  processing : Xst := .new
  errno : ℤ := 0
  args : List (Option ℕ) := []

/-- `struct smcinvoke_accept` with a response, whether its arguments can be copied, and what they hold. -/
structure Response where
  txnId : ℕ
  result : ℤ := 0
  copyOk : Bool := true
  outputs : Outputs := {}

/-- What a thread made of a response. -/
structure Answer where
  txn : ℕ
  response : Response
  errno : ℤ
  args : List (Option ℕ)

/-- What a dispatcher returned for a transaction. -/
structure Result where
  txn : ℕ
  errno : ℤ
  args : List (Option ℕ)

/-- A thread of the server: in userspace, with a response to a transaction that it took, converted, and put into
its state with this outcome, waiting for a request, with a request, and with one that nobody waits for after it
was given to userspace. -/
inductive Thread
  | user
  | took (t : ℕ) (r : Response)
  | marshalled (a : Answer)
  | settled (a : Answer) (ok : Bool)
  | waiting
  | picked (t : ℕ)
  | parsed (t : ℕ) (ok : Bool)

/-- The dispatcher of an invocation: not in a callback, waiting, woken with a result, and with the response while
the secure world is told. -/
inductive Dispatcher
  | free
  | waiting (t : ℕ)
  | woken (t : ℕ) (errno : ℤ)
  | answered (t : ℕ)

/-- The identifiers of the invocations in progress, which are unique and of type `unsigned int`. -/
structure Contexts (κ : Type*) where
  id : κ → ℕ
  id_injective : Function.Injective id
  id_ne_any : ∀ c, id c ≠ contextIdAny
  id_lt : ∀ c, id c < 2 ^ 32

/-- A server: its transactions and their list, the completions, its threads and the dispatchers, and the objects
of the driver with the server files that are open and the references that others have on objects. -/
structure State (ι κ : Type*) where
  txns : Store ℕ := {}
  txn : ℕ → CbTxn := fun _ => {}
  nextTxn : ℕ := 0
  cbTxList : List ℕ := []
  completed : ℕ → Bool := fun _ => false
  threads : ι → Thread := fun _ => .user
  dispatchers : κ → Dispatcher := fun _ => .free
  objs : Smcinvoke.State := {}
  openFiles : Multiset ℕ := 0
  others : Multiset ℕ := 0
  answers : List Answer := []
  results : List Result := []

def setTxnState (x : CbTxn) : Xst → Option CbTxn
  | .processing => if x.processing = .pending then some { x with processing := .processing } else none
  | .processed => if x.processing = .processing then some { x with processing := .processed } else none
  | .timedout =>
    if x.processing = .pending ∨ x.processing = .processing then some { x with processing := .timedout }
    else none
  | .new | .pending => none

section Steps

variable {ι κ : Type*} [DecidableEq ι] [DecidableEq κ] (si : ℕ) (ctx : Contexts κ) (s : State ι κ)

/-- The first transaction that can go to a state, with an identifier or any. -/
def State.findTxn (id : ℕ) (state : Xst) : Option ℕ :=
  s.cbTxList.find? fun t =>
    (id = contextIdAny ∨ (s.txn t).contextId = id) ∧
      (state = .processing ∧ (s.txn t).processing = .pending ∨
        state = .processed ∧ (s.txn t).processing = .processing)

def State.getTxnForStateTransition (id : ℕ) (state : Xst) : Option ℕ :=
  (s.findTxn id state).filter fun t => s.txns.refs t ≠ 0

def State.dequeueAndPutTxn (t : ℕ) : State ι κ :=
  { s with
    cbTxList := if (s.txn t).processing ≠ .new then s.cbTxList.erase t else s.cbTxList
    txns := s.txns.put t }

/-- `cbo_dispatch` up to the wait, and whether the transaction was queued. -/
def cboDispatch (contextId : ℕ) (args : List (Option ℕ)) : State ι κ × Bool :=
  let t := s.nextTxn
  if s.objs.dead si = true then
    ({ s with
      txns := (s.txns.add t).put t
      txn := Function.update s.txn t { contextId, args }
      nextTxn := t + 1 }, false)
  else
    ({ s with
      txns := s.txns.add t
      txn := Function.update s.txn t { contextId, args, processing := .pending }
      nextTxn := t + 1
      cbTxList := t :: s.cbTxList }, true)

/-- A callback to an object of the server. -/
def dispatch (c : κ) (args : List (Option ℕ)) : State ι κ :=
  match s.dispatchers c with
  | .free =>
    let (s', queued) := cboDispatch si s (ctx.id c) args
    if queued = true then { s' with dispatchers := Function.update s'.dispatchers c (.waiting s.nextTxn) } else s'
  | .waiting _ | .woken _ _ | .answered _ => s

def release : State ι κ := (cboDispatch si s contextIdAny []).1

/-- The dispatcher no longer waits. -/
def wake (c : κ) : State ι κ :=
  match s.dispatchers c with
  | .waiting t =>
    match setTxnState (s.txn t) .timedout with
    | some x =>
      { s with
        txn := Function.update s.txn t x
        dispatchers := Function.update s.dispatchers c (.woken t erestartsys) }
    | none => { s with dispatchers := Function.update s.dispatchers c (.woken t (s.txn t).errno) }
  | .free | .woken _ _ | .answered _ => s

/-- The rest of `cbo_dispatch`. -/
def exit (c : κ) : State ι κ :=
  match s.dispatchers c with
  | .woken t errno =>
    if errno = 0 then
      { s with
        dispatchers := Function.update s.dispatchers c (.answered t)
        results := s.results ++ [⟨t, errno, (s.txn t).args⟩] }
    else
      { s.dequeueAndPutTxn t with
        dispatchers := Function.update s.dispatchers c .free
        results := s.results ++ [⟨t, errno, []⟩] }
  | .free | .waiting _ | .answered _ => s

/-- `cbo_notify`, outside of `cbo_dispatch`: the secure world keeps its references unless `status` is an error. -/
def cboNotify (c : κ) (status : Bool) : State ι κ :=
  match s.dispatchers c with
  | .free | .answered _ =>
    match s.cbTxList.find? fun t => (s.txn t).contextId = ctx.id c with
    | some t =>
      { s with
        cbTxList := s.cbTxList.erase t
        objs := notifyOutputs s.objs (s.txn t).args status
        others := s.others + if status = true then 0 else s.objs.kept (s.txn t).args
        txns := s.txns.put t
        dispatchers := Function.update s.dispatchers c .free }
    | none => { s with dispatchers := Function.update s.dispatchers c .free }
  | .waiting _ | .woken _ _ => s

/-! ## `process_accept_req` -/

variable (i : ι)

/-- A response is submitted; its identifier is cut to 32 bits. -/
def submit (r : Response) : State ι κ :=
  match s.threads i with
  | .user =>
    if r.txnId = 0 then { s with threads := Function.update s.threads i .waiting }
    else
      match s.getTxnForStateTransition (r.txnId % 2 ^ 32) .processed with
      | some t => { s with txns := s.txns.get t, threads := Function.update s.threads i (.took t r) }
      | none => { s with threads := Function.update s.threads i .waiting }
  | _ => s

/-- A call without a response. -/
def accept : State ι κ :=
  match s.threads i with
  | .user => { s with threads := Function.update s.threads i .waiting }
  | _ => s

def parseResponse (files : Files) (t : ℕ) (r : Response) : Smcinvoke.State × List (Option ℕ) × ℤ :=
  if r.result ≠ 0 then (s.objs, (s.txn t).args, r.result)
  else if r.copyOk = false then (s.objs, (s.txn t).args, efault)
  else
    let (objs, args, err) := marshalOutCbReq files s.objs (s.txn t).args r.outputs
    (objs, args, if err = true then einval else 0)

/-- The arguments of the response are put into the transaction. -/
def marshal (files : Files) : State ι κ :=
  match s.threads i with
  | .took t r =>
    let (objs, args, errno) := parseResponse s files t r
    { s with
      objs := objs
      txn := Function.update s.txn t { s.txn t with args, errno }
      threads := Function.update s.threads i (.marshalled ⟨t, r, errno, args⟩) }
  | _ => s

/-- The state decides whether the response counts. -/
def settle : State ι κ :=
  match s.threads i with
  | .marshalled a =>
    match setTxnState (s.txn a.txn) .processed with
    | some x =>
      { s with
        txn := Function.update s.txn a.txn x
        answers := s.answers ++ [a]
        threads := Function.update s.threads i (.settled a true) }
    | none => { s with threads := Function.update s.threads i (.settled a false) }
  | _ => s

/-- The dispatcher is woken, or the conversion undone. -/
def finish : State ι κ :=
  match s.threads i with
  | .settled a true =>
    { s with
      completed := Function.update s.completed a.txn true
      txns := s.txns.put a.txn
      threads := Function.update s.threads i .waiting }
  | .settled a false =>
    { s with
      objs := if a.errno = 0 then undoOutputs s.objs (s.txn a.txn).args else s.objs
      txns := s.txns.put a.txn
      threads := Function.update s.threads i .waiting }
  | _ => s

/-- `wait_for_pending_txn` -/
def pick : State ι κ :=
  match s.threads i with
  | .waiting =>
    match s.getTxnForStateTransition contextIdAny .processing with
    | some t =>
      { s with
        txns := s.txns.get t
        txn := Function.update s.txn t ((setTxnState (s.txn t) .processing).getD (s.txn t))
        threads := Function.update s.threads i (.picked t) }
    | none => s
  | _ => s

/-- A signal ends the wait. -/
def signal : State ι κ :=
  match s.threads i with
  | .waiting => { s with threads := Function.update s.threads i .user }
  | _ => s

def after (ok : Bool) : Thread := if ok = true then .user else .waiting

/-- The request is given to userspace, which may fail; a request that nobody waits for is still to be
dequeued. -/
def parse (ok : Bool) : State ι κ :=
  match s.threads i with
  | .picked t =>
    if (s.txn t).contextId = contextIdAny then { s with threads := Function.update s.threads i (.parsed t ok) }
    else
      { s with
        completed := if ok = true then s.completed else Function.update s.completed t true
        txns := s.txns.put t
        threads := Function.update s.threads i (after ok) }
  | _ => s

/-- The end of a request that nobody waits for. -/
def dequeue : State ι κ :=
  match s.threads i with
  | .parsed t ok =>
    { s.dequeueAndPutTxn t with
      txns := (s.txns.put t).put t
      threads := Function.update s.threads i (after ok) }
  | _ => s

def State.unclaimed (t : ℕ) : Bool := (s.txn t).contextId = contextIdAny ∧ (s.txn t).processing = .pending

/-- `server_release`: those requests are freed, and the other dispatchers are woken. -/
def serverRelease : State ι κ :=
  { s with
    objs := { s.objs with dead := Function.update s.objs.dead si true, servers := s.objs.servers.put si }
    openFiles := s.openFiles.erase si
    txns := s.txns.frees (s.cbTxList.filter s.unclaimed)
    cbTxList := s.cbTxList.filter fun t => !s.unclaimed t
    completed := fun t =>
      if t ∈ s.cbTxList ∧ (s.txn t).contextId ≠ contextIdAny ∧
        ((s.txn t).processing = .pending ∨ (s.txn t).processing = .processing) then true
      else s.completed t }

end Steps

inductive Action (ι κ : Type*)
  | dispatch (c : κ) (args : List (Option ℕ))
  | release
  | wake (c : κ) (killed : Bool)
  | exit (c : κ)
  | notify (c : κ) (status : Bool)
  | submit (i : ι) (r : Response)
  | accept (i : ι)
  | marshal (i : ι) (files : Files)
  | settle (i : ι)
  | finish (i : ι)
  | pick (i : ι)
  | signal (i : ι)
  | parse (i : ι) (ok : Bool)
  | dequeue (i : ι)
  | serverRelease

/-- Descriptors stand for servers that are open and live, and for objects that others have references on. -/
structure Fits (files : Files) (openFiles others : Multiset ℕ) (s : Smcinvoke.State) : Prop where
  opened : ∀ fd si, files.server fd = some si → si ∈ openFiles ∧ s.dead si = false
  qtee : ∀ fd a, files.qtee fd = some a → a ∈ others ∧ s.object a = .user

section Runs

variable {ι κ : Type*} [DecidableEq ι] [DecidableEq κ]

def Enabled (si : ℕ) (s : State ι κ) : Action ι κ → Prop
  | .wake c killed => ∀ t, s.dispatchers c = .waiting t → killed = true ∨ s.completed t = true
  | .submit i _ => s.threads i = .user
  | .marshal _ files => Fits files s.openFiles s.others s.objs
  | .serverRelease => (∀ i, s.threads i = .user) ∧ s.objs.dead si = false
  | _ => True

def next (si : ℕ) (ctx : Contexts κ) (s : State ι κ) : Action ι κ → State ι κ
  | .dispatch c args => dispatch si ctx s c args
  | .release => release si s
  | .wake c _ => wake s c
  | .exit c => exit s c
  | .notify c status => cboNotify ctx s c status
  | .submit i r => submit s i r
  | .accept i => accept s i
  | .marshal i files => marshal s i files
  | .settle i => settle s i
  | .finish i => finish s i
  | .pick i => pick s i
  | .signal i => signal s i
  | .parse i ok => parse s i ok
  | .dequeue i => dequeue s i
  | .serverRelease => serverRelease si s

/-- A server that was just opened. -/
structure Init (si : ℕ) (s : State ι κ) : Prop where
  txns : s.txns = {} ∧ s.nextTxn = 0 ∧ s.cbTxList = []
  txn : s.txn = fun _ => {}
  threads : ∀ i, s.threads i = .user
  dispatchers : ∀ c, s.dispatchers c = .free
  history : s.answers = [] ∧ s.results = []
  objects : s.objs.objects.Balanced s.others
  fresh : ∀ a, a ∈ s.objs.objects.live ∨ a ∈ s.objs.objects.freed → a < s.objs.next
  servers : s.objs.servers.Balanced (s.openFiles + s.objs.owners)
  opened : si ∈ s.openFiles ∧ s.objs.dead si = false

/-- A server with its threads and the dispatchers of invocations. -/
def machine (si : ℕ) (ctx : Contexts κ) : Machine (State ι κ) (Action ι κ) where
  init := Init si
  guard := Enabled si
  next := next si ctx

/-- The transaction that a thread submits a response to, until its state decides. -/
def Thread.submitting : Thread → Option ℕ
  | .took t _ => some t
  | .marshalled a => some a.txn
  | .user | .settled _ _ | .waiting | .picked _ | .parsed _ _ => none

/-- No response is taken up for a transaction that another thread is submitting a response to, and no response has
an output object that makes the driver lose a callback object. -/
def Calm (s : State ι κ) : Action ι κ → Prop
  | .submit _ r => ∀ t, r.txnId ≠ 0 → s.getTxnForStateTransition (r.txnId % 2 ^ 32) .processed = some t →
      ∀ j, (s.threads j).submitting ≠ some t
  | .marshal i files => ∀ t r, s.threads i = .took t r → r.result = 0 → r.copyOk = true →
      files.Safe (s.txn t).args r.outputs
  | _ => True

def calm (si : ℕ) (ctx : Contexts κ) : Machine (State ι κ) (Action ι κ) :=
  { machine si ctx with guard := fun s a => Enabled si s a ∧ Calm s a }

end Runs

/-- The transaction that a thread works on, once for each reference on it. -/
def Thread.held : Thread → Multiset ℕ
  | .took t _ | .picked t | .parsed t _ => {t}
  | .marshalled a | .settled a _ => {a.txn}
  | .user | .waiting => 0

def Dispatcher.held : Dispatcher → Multiset ℕ
  | .waiting t | .woken t _ | .answered t => {t}
  | .free => 0

/-- The references on output objects of a response that did not count, or not yet. -/
def Thread.refs (objs : Smcinvoke.State) : Thread → Multiset ℕ
  | .marshalled a | .settled a false => if a.errno = 0 then objs.outputRefs a.args else 0
  | .user | .took _ _ | .settled _ true | .waiting | .picked _ | .parsed _ _ => 0

namespace State

variable {ι κ : Type*} [Fintype ι] [Fintype κ] (s : State ι κ)

def queued : Multiset ℕ := ↑(s.cbTxList.filter fun t => (s.txn t).contextId = contextIdAny)

def holders : Multiset ℕ := ∑ i, (s.threads i).held + ∑ c, (s.dispatchers c).held + s.queued

def handed : Multiset ℕ :=
  (s.answers.map fun a => if a.errno = 0 ∧ a.txn ∈ s.cbTxList then s.objs.outputRefs a.args else 0).sum

def owed : Multiset ℕ := ∑ i, (s.threads i).refs s.objs + s.handed

/-- A result is that the call is restarted, of a transaction without a response that counted, or the one of such
a response, with its output objects. -/
def Answered (o : Result) : Prop :=
  o.errno = erestartsys ∧ (∀ a ∈ s.answers, a.txn ≠ o.txn) ∨
    ∃ a ∈ s.answers, a.txn = o.txn ∧ o.errno = a.errno ∧ (a.errno = 0 → o.args = a.args)
deriving Decidable

/-- **Transactions are answered once**. -/
structure AnsweredOnce (si : ℕ) : Prop where
  txns : s.txns.Balanced s.holders
  known : ∀ t, t < s.nextTxn ↔ t ∈ s.txns.live ∨ t ∈ s.txns.freed
  listed : ∀ t ∈ s.cbTxList, t ∈ s.txns.live
  gone : s.objs.dead si = true → s.queued = 0
  once : (s.answers.map Answer.txn).Nodup
  results : ∀ o ∈ s.results, s.Answered o
  ids : ∀ a ∈ s.answers, a.response.txnId < 2 ^ 32 → a.response.txnId = (s.txn a.txn).contextId
  objects : s.objs.objects.Balanced (s.others + s.owed)
  servers : s.objs.servers.Balanced (s.openFiles + s.objs.owners)

end State

end Smcinvoke.Txns
