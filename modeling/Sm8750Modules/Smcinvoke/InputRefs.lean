import Sm8750Modules.Lib.RefCounts

/-!
# Invocations of the secure world — references on input objects

An invocation turns the handles of its input objects into objects: callback objects of a server
process, memory buffers, and objects of the secure world.
-/

namespace Smcinvoke

open RefCounts

/-! ## Data -/

/-- `struct cb_object`, with the address of its server. -/
structure CbObject where
  notifyOnRelease : Bool
  uHandle : ℤ
  si : ℕ

/-- An object: of the secure world, a callback object, or a memory buffer with the hidden callback object that
is the argument of `mem_object_release`. -/
inductive Object where
  | user
  | cb (o : CbObject)
  | mem (hidden : Option CbObject)

def Object.servers : Object → List ℕ
  | .cb o | .mem (some o) => [o.si]
  | .user | .mem none => []

/-- `typeof_si_object(object) == SI_OT_USER` -/
def Object.isUser : Object → Bool
  | .user => true
  | .cb _ | .mem _ => false

/-- The driver: objects and servers by their addresses, and the release requests in the lists of servers. -/
structure State where
  objects : Store ℕ := {}
  object : ℕ → Object := fun _ => .user
  next : ℕ := 0
  servers : Store ℕ := {}
  dead : ℕ → Bool := fun _ => false
  requests : List (ℕ × ℤ) := []

/-- What descriptors stand for: the file of a server, a dma-buf, an object of the secure world. -/
structure Files where
  server : ℤ → Option ℕ
  dmaBuf : ℤ → Bool
  qtee : ℤ → Option ℕ

/-- `struct smcinvoke_obj`, with the outcomes of the allocation of a callback object and of
`init_si_mem_object_user`. -/
structure Input where
  fd : ℤ
  cbServerFd : ℤ := -1
  allocOk : Bool := true
  initOk : Bool := true

def userspaceObjNull : ℤ := -1

def einval : ℤ := -22
def enomem : ℤ := -12
def enospc : ℤ := -28

section Conversions

variable (files : Files) (s : State)

def cbObjectAlloc (o : Input) : Option (State × CbObject) :=
  match files.server o.cbServerFd with
  | none => none
  | some si =>
    if o.allocOk = true then some ({ s with servers := s.servers.get si }, ⟨true, o.fd, si⟩) else none

/-- A new object, with the reference of its creator and another one. -/
def State.newObject (object : Object) : State :=
  { s with
    objects := (s.objects.add s.next).get s.next
    object := Function.update s.object s.next object
    next := s.next + 1 }

def getSiObjectFromUHandle (o : Input) : State × Option ℕ × Bool :=
  if o.fd = userspaceObjNull then (s, none, true)
  else if o.fd < userspaceObjNull then
    match cbObjectAlloc files s o with
    | some (s', cb) => (s'.newObject (.cb cb), some s'.next, true)
    | none => (s, none, false)
  else if files.dmaBuf o.fd = true then
    let (s', hidden) :=
      match cbObjectAlloc files s o with
      | some (s', cb) => (s', some cb)
      | none => (s, none)
    if o.initOk = true then (s'.newObject (.mem hidden), some s'.next, true) else (s', none, false)
  else
    match files.qtee o.fd with
    | some object => ({ s with objects := s.objects.get object }, some object, true)
    | none => (s, none, false)

/-- The loop of `marshal_in_req` over the input objects. -/
def marshalObjects : State → Bool → List Input → State × List (Option ℕ) × Bool
  | s, err, [] => (s, [], err)
  | s, true, _ :: rest =>
    let (s, u, err) := marshalObjects s true rest
    (s, none :: u, err)
  | s, false, o :: rest =>
    let (s, object, ok) := getSiObjectFromUHandle files s o
    let (s, u, err) := marshalObjects s (!ok) rest
    (s, object :: u, err)

end Conversions

section Releases

variable (s : State)

/-- `cbo_release`: a request to the server, unless it is gone, and the reference on it. -/
def cboRelease (o : CbObject) : State :=
  { s with
    requests := if o.notifyOnRelease = true ∧ s.dead o.si = false then s.requests ++ [(o.si, o.uHandle)]
      else s.requests
    servers := s.servers.put o.si }

/-- The release of an object whose last reference was dropped. -/
def release : Object → State
  | .cb o | .mem (some o) => cboRelease s o
  | .user | .mem none => s

def putSiObject : Option ℕ → State
  | none => s
  | some a =>
    if s.objects.refs a = 1 then release { s with objects := s.objects.put a } (s.object a)
    else { s with objects := s.objects.put a }

/-- Callback objects are told whether to notify their server. -/
def setNotify (a : ℕ) (notify : Bool) : State :=
  match s.object a with
  | .cb o => { s with object := Function.update s.object a (.cb { o with notifyOnRelease := notify }) }
  | .user | .mem _ => s

/-- `marshal_in_req_cleanup`: the objects of the secure world are replaced in the arguments. -/
def marshalInReqCleanup : State → List (Option ℕ) → Bool → State × List (Option ℕ)
  | s, [], _ => (s, [])
  | s, none :: rest, notify =>
    let (s, u) := marshalInReqCleanup s rest notify
    (s, none :: u)
  | s, some a :: rest, notify =>
    let s := setNotify s a notify
    let object := if (s.object a).isUser = true then none else some a
    let (s, u) := marshalInReqCleanup (putSiObject s (some a)) rest notify
    (s, object :: u)

/-- The loop that drops the references of the secure world where it did not get them. -/
def dropQtee : State → List (Option ℕ) → State
  | s, [] => s
  | s, none :: rest => dropQtee s rest
  | s, some a :: rest => dropQtee (if (s.object a).isUser = true then s else putSiObject s (some a)) rest

/-- The loop of `marshal_out_req` over the input objects. -/
def putInputs : State → List (Option ℕ) → State
  | s, [] => s
  | s, object :: rest => putInputs (putSiObject s object) rest

end Releases

/-- `marshal_in_req`, and whether it failed. -/
def marshalInReq (files : Files) (s : State) (inputs : List Input) : State × List (Option ℕ) × Bool :=
  let (s, u, err) := marshalObjects files s false inputs
  if err = false then (s, u, false)
  else
    let (s, u') := marshalInReqCleanup s u false
    (dropQtee s u', u, true)

/-- The results of `si_object_do_invoke` for an invocation that was not started. -/
def NotStarted (ret result : ℤ) : Prop :=
  ret ≠ 0 ∧ result ≠ 0 ∧ (ret = einval ∨ ret = enomem ∨ ret = enospc)
deriving Decidable

def processInvokeReq (files : Files) (s : State) (inputs : List Input) (ret result : ℤ) : State :=
  let (s, u, err) := marshalInReq files s inputs
  if err = true then s
  else if NotStarted ret result then
    let (s, u) := marshalInReqCleanup s u false
    dropQtee s u
  else if ret ≠ 0 then (marshalInReqCleanup s u false).1
  else if result = 0 then putInputs s u
  else (marshalInReqCleanup s u true).1

def converted (files : Files) (s : State) (inputs : List Input) : List ℕ :=
  (marshalObjects files s false inputs).2.1.filterMap id

def Started (files : Files) (s : State) (inputs : List Input) (ret result : ℤ) : Prop :=
  (marshalObjects files s false inputs).2.2 = false ∧ ¬ NotStarted ret result
deriving Decidable

def State.owners (s : State) : Multiset ℕ := (s.objects.live.flatMap fun a => (s.object a).servers : List ℕ)

/-- Between invocations: the objects have the references `refs`, the servers those of their open files and of
the live objects. -/
structure State.Ok (files : Files) (openFiles refs : Multiset ℕ) (s : State) : Prop where
  objects : s.objects.Balanced refs
  fresh : ∀ a, a ∈ s.objects.live ∨ a ∈ s.objects.freed → a < s.next
  servers : s.servers.Balanced (openFiles + s.owners)
  opened : ∀ fd si, files.server fd = some si → si ∈ openFiles ∧ s.dead si = false
  qtee : ∀ fd a, files.qtee fd = some a → a ∈ refs ∧ s.object a = .user

/-- **Input references balance** over an invocation from `s` to `s'`: of the references that it took one is left
for each input that is not of the secure world if it was started, and none otherwise; servers have the
references of their open files and of the live objects; and if it was not started, no release request was
queued. -/
structure Balances (openFiles refs : Multiset ℕ) (s s' : State) (inputs : List ℕ) (started : Prop)
    [Decidable started] : Prop where
  objects : s'.objects.Balanced
    (refs + if started then ↑(inputs.filter fun a => !(s'.object a).isUser) else 0)
  servers : s'.servers.Balanced (openFiles + s'.owners)
  requests : ¬ started → s'.requests = s.requests

end Smcinvoke
