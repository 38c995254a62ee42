import Mathlib.Algebra.Order.Ring.Nat
import Mathlib.Data.Finset.Basic

/-!
# Synx global memory — the table

The cores share a table of synx objects. A composite object counts its children that are not signalled
yet, and an object has the indexes of the composite objects that it is a child of.
-/

namespace Sm8750Modules.SynxGlobal

def maxObjs : ℕ := 4096

def maxParents : ℕ := 4

def active : ℕ := 1

def success : ℕ := 2

def signaledSsr : ℕ := 6

/-- `SYNX_STATE_SIGNALED_MAX`: a client may signal values above it as notifications of its own. -/
def signaledMax : ℕ := 64

def IsError (status : ℕ) : Prop := success < status ∧ status ≤ signaledMax
deriving Decidable

/-- `struct synx_global_coredata`, without the handle of a hw-fence. -/
structure Coredata where
  status : ℕ := 0
  handle : ℕ := 0
  refcount : ℕ := 0
  numChild : ℕ := 0
  subscribers : Finset ℕ := ∅
  waiters : Finset ℕ := ∅
  parents : List ℕ := List.replicate maxParents 0
deriving DecidableEq

/-- A message to a core: the object and its status. -/
structure Msg where
  core : ℕ
  handle : ℕ
  status : ℕ
deriving DecidableEq

/-- `struct synx_shared_mem` with the messages sent so far. -/
structure Gmem where
  bitmap : ℕ → Bool
  table : ℕ → Coredata
  sent : List Msg

def coreMax : ℕ := 6

def incRef (refcount : ℕ) : ℕ := (refcount + 1) % 2 ^ 16

def decRef (refcount : ℕ) : ℕ := (refcount + (2 ^ 16 - 1)) % 2 ^ 16

namespace Gmem

/-- The table after its initialisation: index zero is not allocated to clients. -/
def init : Gmem where
  bitmap i := i == 0
  table _ := {}
  sent := []

def setEntry (g : Gmem) (idx : ℕ) (e : Coredata) : Gmem :=
  { g with table := Function.update g.table idx e }

def setBit (g : Gmem) (idx : ℕ) (b : Bool) : Gmem :=
  { g with bitmap := Function.update g.bitmap idx b }

/-- `synx_global_alloc_index` and `synx_global_init_coredata` for an index that is free. -/
def allocEntry (g : Gmem) (idx handle : ℕ) : Gmem :=
  (g.setBit idx true).setEntry idx
    { status := active, refcount := 1, subscribers := {0}, handle := handle }

/-- The messages to the waiting cores; this core is told of a crash only. -/
def notify (g : Gmem) (waiters : Finset ℕ) (handle status signal : ℕ) : Gmem :=
  { g with
    sent := g.sent ++ ((List.range coreMax).filter fun i =>
      decide (i ∈ waiters) && (i != 0 || signal == signaledSsr)).map fun i => ⟨i, handle, status⟩ }

/-- A reference is dropped, and the object is cleared with the last one. -/
def dropRef (g : Gmem) (idx : ℕ) (e : Coredata) : Gmem :=
  if decRef e.refcount = 0 then (g.setEntry idx {}).setBit idx false
  else g.setEntry idx { e with refcount := decRef e.refcount }

/-- A child tells its parent: it is one less to wait for, and the status of the parent is the first one or
an error. -/
def childSignaled (e : Coredata) (status : ℕ) : Coredata :=
  { e with
    numChild := e.numChild - 1
    status := if e.status = active ∨ IsError status then status else e.status }

/-- The section of `synx_global_update_status_core` under the lock with the messages after it, and the
parents that are told next. -/
def updateStatusCore (g : Gmem) (idx status : ℕ) : Gmem × List ℕ :=
  let e := g.table idx
  if e.numChild ≠ 0 then
    let e := childSignaled e status
    if e.numChild = 0 then
      ((g.notify e.waiters e.handle e.status status).dropRef idx { e with waiters := ∅ },
        e.parents.filter (· ≠ 0))
    else (g.setEntry idx e, [])
  else
    ((g.notify e.waiters e.handle status status).setEntry idx
      { e with status := status, waiters := ∅ }, e.parents.filter (· ≠ 0))

/-- The check of `synx_global_update_status` under the lock. -/
def CanSignal (g : Gmem) (idx status : ℕ) : Prop :=
  idx < maxObjs ∧ active < status ∧ (g.table idx).numChild = 0 ∧ (g.table idx).status = active
deriving Decidable

def getRef (g : Gmem) (idx : ℕ) : Gmem :=
  let e := g.table idx
  if e.handle ≠ 0 ∧ e.refcount ≠ 0 then g.setEntry idx { e with refcount := incRef e.refcount } else g

def putRef (g : Gmem) (idx : ℕ) : Gmem := g.dropRef idx (g.table idx)

def setWaitingCore (g : Gmem) (idx core : ℕ) : Gmem :=
  g.setEntry idx { g.table idx with waiters := insert core (g.table idx).waiters }

structure MergeAcc where
  numChild : ℕ := 0
  parentStatus : ℕ := active
deriving DecidableEq

/-- A child is counted while it is pending, and its status is the one of the parent if it is the first one
or an error. -/
def MergeAcc.add (acc : MergeAcc) (e : Coredata) : MergeAcc where
  numChild := acc.numChild + (if e.status = active then 1 else 0) +
    (if e.status ≠ active ∧ e.numChild ≠ 0 then 1 else 0)
  parentStatus :=
    if e.status = active then acc.parentStatus
    else if IsError e.status then e.status
    else if acc.parentStatus = active then e.status
    else acc.parentStatus

/-- The section of `synx_global_merge` for a child; `false` where it has too many parents. -/
def mergeLink (g : Gmem) (idx parent : ℕ) (acc : MergeAcc) : Gmem × MergeAcc × Bool :=
  let e := g.table idx
  match e.parents.findIdx? (· == 0) with
  | some i => (g.setEntry idx { e with parents := e.parents.set i parent }, acc.add e, true)
  | none => (g, acc.add e, false)

/-- The section of `synx_global_merge` for the parent. -/
def mergePublish (g : Gmem) (parent : ℕ) (acc : MergeAcc) : Gmem :=
  let e := g.table parent
  let numChild := e.numChild + acc.numChild
  g.setEntry parent
    { e with
      numChild := numChild
      refcount := if numChild ≠ 0 then incRef e.refcount else e.refcount
      status := acc.parentStatus }

/-- The section of the clean-up of `synx_global_merge` for a child. -/
def mergeUnlink (g : Gmem) (idx parent : ℕ) : Gmem :=
  let e := g.table idx
  match e.parents.findIdx? (· == parent) with
  | some i => g.setEntry idx { e with parents := e.parents.set i 0 }
  | none => g

/-- The loop of `synx_global_merge` over its children. -/
def mergeLinks (parent : ℕ) : List ℕ → MergeAcc → Gmem → Gmem × MergeAcc × Bool
  | [], acc, g => (g, acc, true)
  | idx :: rest, acc, g =>
    if idx < maxObjs then
      match g.mergeLink idx parent acc with
      | (g, acc, true) => mergeLinks parent rest acc g
      | (g, acc, false) => (g, acc, false)
    else (g, acc, false)

/-- The clean-up of `synx_global_merge`, from a number of children down. -/
def mergeUnlinks (g : Gmem) (parent : ℕ) (idxs : List ℕ) : ℕ → Gmem
  | 0 => g
  | n + 1 => (g.mergeUnlink (idxs.getD n 0) parent).mergeUnlinks parent idxs n

/-- `synx_global_merge`; `false` is a failure. -/
def globalMerge (g : Gmem) (idxs : List ℕ) (parent : ℕ) : Gmem × Bool :=
  if idxs = [] then (g, true)
  else
    match mergeLinks parent idxs {} g with
    | (g, acc, true) => (g.mergePublish parent acc, true)
    | (g, acc, false) => (g.mergeUnlinks parent idxs acc.numChild, false)

end Gmem

end Sm8750Modules.SynxGlobal
