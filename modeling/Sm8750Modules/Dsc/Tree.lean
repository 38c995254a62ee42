import Sm8750Modules.Lib.Runs

/-!
# Transitions of the driver synchronization core

The core has a tree of three levels: one driver, its psocs, and their vdevs. A caller starts a transition
on a node, or queues one that is started later: the stop of another transition triggers it. Each call
takes the lock of the driver.
-/

namespace Dsc

open Runs

/-- The status codes of `QDF_STATUS` that the calls return. -/
inductive Status where
  | success
  | inval
  | again
  | busy
deriving DecidableEq

/-- `struct dsc_trans`: the description of the active transition, and of those that wait. -/
structure Trans where
  activeDesc : Option String
  queue : List String
deriving DecidableEq

namespace Trans

variable (t : Trans)

def active : Bool := t.activeDesc.isSome

def queued : Bool := !t.queue.isEmpty

def activeOrQueued : Bool := t.active || t.queued

def start (desc : String) : Trans := { t with activeDesc := some desc }

def stop : Trans := { t with activeDesc := none }

def enqueue (desc : String) : Trans := { t with queue := t.queue ++ [desc] }

/-- `__dsc_trans_trigger`; it returns `queued`. -/
def trigger : Trans :=
  match t.queue with
  | [] => t
  | desc :: rest => { t with queue := rest }.start desc

variable (desc : String)

@[simp] theorem active_start : (t.start desc).active = true := rfl

@[simp] theorem queued_start : (t.start desc).queued = t.queued := rfl

@[simp] theorem active_stop : t.stop.active = false := rfl

@[simp] theorem queued_stop : t.stop.queued = t.queued := rfl

@[simp] theorem active_enqueue : (t.enqueue desc).active = t.active := rfl

@[simp] theorem queued_enqueue : (t.enqueue desc).queued = true := by
  rw [queued, enqueue]
  simp

@[simp] theorem active_trigger : t.trigger.active = (t.active || t.queued) := by
  rw [trigger, queued]
  cases t.queue with
  | nil => simp
  | cons desc rest => simp

theorem queued_of_trigger (h : t.trigger.queued = true) : t.queued = true := by
  rw [trigger] at h
  rw [queued]
  cases hq : t.queue with
  | nil =>
    rw [hq] at h
    rw [← hq]
    exact h
  | cons desc rest => rfl

end Trans

/-- What `struct dsc_driver`, `struct dsc_psoc` and `struct dsc_vdev` have in common. -/
structure Node where
  trans : Trans
  ops : ℕ
deriving DecidableEq

inductive Place (P V : Type*) where
  | driver
  | psoc (p : P)
  | vdev (p : P) (v : V)
deriving DecidableEq

structure Tree (P V : Type*) where
  psocs : List P
  vdevs : P → List V
  nodup_psocs : psocs.Nodup
  nodup_vdevs : ∀ p, (vdevs p).Nodup

variable {P V : Type*}

def Tree.Has (T : Tree P V) : Place P V → Prop
  | .driver => True
  | .psoc p => p ∈ T.psocs
  | .vdev p v => p ∈ T.psocs ∧ v ∈ T.vdevs p

/-- A node is an ancestor of another. -/
def Place.Above : Place P V → Place P V → Prop
  | .driver, .psoc _ => True
  | .driver, .vdev _ _ => True
  | .psoc p, .vdev q _ => p = q
  | _, _ => False

structure State (P V : Type*) where
  node : Place P V → Node

namespace State

variable (s : State P V)

def trans (n : Place P V) : Trans := (s.node n).trans

def active (n : Place P V) : Bool := (s.trans n).active

def queued (n : Place P V) : Bool := (s.trans n).queued

variable [DecidableEq P] [DecidableEq V]

def setNode (n : Place P V) (x : Node) : State P V := ⟨Function.update s.node n x⟩

def setTrans (n : Place P V) (t : Trans) : State P V := s.setNode n { s.node n with trans := t }

/-- `__dsc_trans_start` on a node. -/
def start (n : Place P V) (desc : String) : State P V := s.setTrans n ((s.trans n).start desc)

/-- `__dsc_trans_stop` on a node. -/
def stop (n : Place P V) : State P V := s.setTrans n (s.trans n).stop

/-- `__dsc_trans_queue` on a node. -/
def enqueue (n : Place P V) (desc : String) : State P V := s.setTrans n ((s.trans n).enqueue desc)

/-- `__dsc_trans_trigger` on a node. -/
def trigger (n : Place P V) : State P V := s.setTrans n (s.trans n).trigger

def opsInsert (n : Place P V) : State P V := s.setNode n { s.node n with ops := (s.node n).ops + 1 }

def opsRemove (n : Place P V) : State P V := s.setNode n { s.node n with ops := (s.node n).ops - 1 }

end State

section Calls

variable [DecidableEq P] [DecidableEq V] (T : Tree P V) (s : State P V)

def psocActiveDownTree (p : P) : Bool := (T.vdevs p).any fun v => s.active (.vdev p v)

def driverActiveDownTree : Bool := T.psocs.any fun p => s.active (.psoc p) || psocActiveDownTree T s p

def driverCanTrans : Bool := !(s.trans .driver).activeOrQueued && !driverActiveDownTree T s

def driverCanTrigger : Bool := !s.active .driver && !driverActiveDownTree T s

def psocCanTrans (p : P) : Status :=
  if (s.trans .driver).activeOrQueued then .inval
  else if (s.trans (.psoc p)).activeOrQueued || psocActiveDownTree T s p then .again
  else .success

def psocCanTrigger (p : P) : Bool :=
  !(s.trans .driver).activeOrQueued && !s.active (.psoc p) && !psocActiveDownTree T s p

def vdevCanTrans (recovering unloading : Bool) (p : P) (v : V) : Status :=
  if (s.trans .driver).activeOrQueued then .inval
  else if recovering then .inval
  else if (s.trans (.psoc p)).activeOrQueued then if unloading then .inval else .busy
  else if (s.trans (.vdev p v)).activeOrQueued then .busy
  else .success

def driverTransStart (desc : String) : State P V × Status :=
  if !driverCanTrans T s then (s, .again) else (s.start .driver desc, .success)

def psocTransStart (p : P) (desc : String) : State P V × Status :=
  if psocCanTrans T s p ≠ .success then (s, psocCanTrans T s p)
  else (s.start (.psoc p) desc, .success)

def vdevTransStart (recovering unloading : Bool) (p : P) (v : V) (desc : String) : State P V × Status :=
  if vdevCanTrans s recovering unloading p v ≠ .success then
    (s, vdevCanTrans s recovering unloading p v)
  else (s.start (.vdev p v) desc, .success)

def driverTransStartWait (desc : String) : State P V × Option Status :=
  if (driverTransStart T s desc).2 = .success then ((driverTransStart T s desc).1, some .success)
  else (s.enqueue .driver desc, none)

def psocTransStartWait (p : P) (desc : String) : State P V × Option Status :=
  if (psocTransStart T s p desc).2 = .success ∨ (psocTransStart T s p desc).2 = .inval then
    ((psocTransStart T s p desc).1, some (psocTransStart T s p desc).2)
  else (s.enqueue (.psoc p) desc, none)

def vdevTransStartWait (recovering unloading : Bool) (p : P) (v : V) (desc : String) :
    State P V × Option Status :=
  if (vdevTransStart s recovering unloading p v desc).2 = .success ∨
      (vdevTransStart s recovering unloading p v desc).2 = .inval then
    ((vdevTransStart s recovering unloading p v desc).1,
      some (vdevTransStart s recovering unloading p v desc).2)
  else (s.enqueue (.vdev p v) desc, none)

/-! ## Triggers and stops -/

def driverTransTriggerChecked : State P V × Bool :=
  if !s.queued .driver then (s, false)
  else if !driverCanTrigger T s then (s, true)
  else (s.trigger .driver, true)

def psocTransTriggerChecked (p : P) : State P V × Bool :=
  if !s.queued (.psoc p) then (s, false)
  else if !psocCanTrigger T s p then (s, true)
  else (s.trigger (.psoc p), true)

/-- The loop over the vdevs of a psoc. -/
def triggerVdevs (p : P) : List V → State P V → State P V
  | [], s => s
  | v :: rest, s => triggerVdevs p rest (s.trigger (.vdev p v))

def triggerPsoc (p : P) : State P V :=
  if s.queued (.psoc p) then s.trigger (.psoc p) else triggerVdevs p (T.vdevs p) s

/-- The loop over the psocs. -/
def triggerPsocs : List P → State P V → State P V
  | [], s => s
  | p :: rest, s => triggerPsocs rest (triggerPsoc T s p)

def driverTriggerTrans : State P V :=
  if s.queued .driver then s.trigger .driver else triggerPsocs T T.psocs s

def psocTriggerTrans (p : P) : State P V :=
  if (driverTransTriggerChecked T s).2 then (driverTransTriggerChecked T s).1 else triggerPsoc T s p

def vdevTriggerTrans (p : P) (v : V) : State P V :=
  if (driverTransTriggerChecked T s).2 then (driverTransTriggerChecked T s).1
  else if (psocTransTriggerChecked T s p).2 then (psocTransTriggerChecked T s p).1
  else s.trigger (.vdev p v)

def driverTransStop : State P V := driverTriggerTrans T (s.stop .driver)

def psocTransStop (p : P) : State P V :=
  psocTriggerTrans T (if s.active (.psoc p) then s.stop (.psoc p) else s.stop .driver) p

def vdevTransStop (p : P) (v : V) : State P V := vdevTriggerTrans T (s.stop (.vdev p v)) p v

def driverOpStart : State P V × Status :=
  if !driverCanTrans T s then (s, .again) else (s.opsInsert .driver, .success)

def psocOpStart (p : P) : State P V × Status :=
  if psocCanTrans T s p ≠ .success then (s, psocCanTrans T s p)
  else (s.opsInsert (.psoc p), .success)

def vdevOpStart (recovering unloading : Bool) (p : P) (v : V) : State P V × Status :=
  if vdevCanTrans s recovering unloading p v ≠ .success then
    (s, vdevCanTrans s recovering unloading p v)
  else (s.opsInsert (.vdev p v), .success)

end Calls

/-- The calls; `opStop` is on any node. -/
inductive Action (P V : Type*) where
  | driverStart (wait : Bool) (desc : String)
  | psocStart (wait : Bool) (p : P) (desc : String)
  | vdevStart (wait recovering unloading : Bool) (p : P) (v : V) (desc : String)
  | driverStop
  | psocStop (p : P)
  | vdevStop (p : P) (v : V)
  | driverOp
  | psocOp (p : P)
  | vdevOp (recovering unloading : Bool) (p : P) (v : V)
  | opStop (n : Place P V)

section Machine

variable [DecidableEq P] [DecidableEq V] (T : Tree P V)

def next (s : State P V) : Action P V → State P V
  | .driverStart wait desc =>
    if wait then (driverTransStartWait T s desc).1 else (driverTransStart T s desc).1
  | .psocStart wait p desc =>
    if wait then (psocTransStartWait T s p desc).1 else (psocTransStart T s p desc).1
  | .vdevStart wait recovering unloading p v desc =>
    if wait then (vdevTransStartWait s recovering unloading p v desc).1
    else (vdevTransStart s recovering unloading p v desc).1
  | .driverStop => driverTransStop T s
  | .psocStop p => psocTransStop T s p
  | .vdevStop p v => vdevTransStop T s p v
  | .driverOp => (driverOpStart T s).1
  | .psocOp p => (psocOpStart T s p).1
  | .vdevOp recovering unloading p v => (vdevOpStart s recovering unloading p v).1
  | .opStop n => s.opsRemove n

/-- A stop is that of an active transition, as `__dsc_trans_stop` asserts. -/
def Enabled (s : State P V) : Action P V → Prop
  | .driverStart _ _ => True
  | .psocStart _ p _ => T.Has (.psoc p)
  | .vdevStart _ _ _ p v _ => T.Has (.vdev p v)
  | .driverStop => s.active .driver = true
  | .psocStop p => T.Has (.psoc p) ∧ (s.active (.psoc p) = true ∨ s.active .driver = true)
  | .vdevStop p v => T.Has (.vdev p v) ∧ s.active (.vdev p v) = true
  | .driverOp => True
  | .psocOp p => T.Has (.psoc p)
  | .vdevOp _ _ p v => T.Has (.vdev p v)
  | .opStop n => T.Has n ∧ 0 < (s.node n).ops

/-- Every `__dsc_trans_init` and `__dsc_ops_init`. -/
def initial : State P V := ⟨fun _ => ⟨⟨none, []⟩, 0⟩⟩

/-- The calls on a tree in any order. -/
def dscMachine : Machine (State P V) (Action P V) where
  init s := s = initial
  guard := Enabled T
  next := next T

end Machine

end Dsc
