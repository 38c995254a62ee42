import Mathlib.Data.Finset.Card
import Mathlib.Algebra.Order.Ring.Nat

/-!
# WLAN serialization — the command queues of a pdev

A pdev has one queue for scan commands and one for all others. The commands of a queue live in the
nodes of a fixed pool; a node is in the pool, in the active list or in the pending list. A non-scan
node is also in a list of its own vdev, and a bitmap says which vdevs have an active command.

Vdevs are named by numbers, and `0` is the null pointer. The size of a list is its length.
-/

namespace Sm8750Modules.Serialization

/-- `WLAN_SER_CMD_NONSCAN`. Smaller command types are scans. -/
def wlanSerCmdNonscan : ℕ := 1

/-- `struct wlan_serialization_command`, with the number of the accepted request it belongs to. -/
structure Command where
  cmdType : ℕ := 0
  cmdId : ℕ := 0
  vdev : ℕ := 0
  isHighPriority : Bool := false
  isBlocking : Bool := false
  queueDisable : Bool := false
  ticket : ℕ := 0
deriving DecidableEq, Repr

def Command.matchIdType (c k : Command) : Bool := c.cmdId == k.cmdId && c.cmdType == k.cmdType

/-- The match of `WLAN_SER_MATCH_CMD_ID_VDEV`. -/
def Command.matchIdVdev (c k : Command) : Bool := c.matchIdType k && c.vdev == k.vdev

/-- `struct wlan_serialization_command_list`, with the bits of `cmd_in_use`. -/
structure CommandList where
  cmd : Command := {}
  isActive : Bool := false
  markedForActivation : Bool := false
  activeMarkedForRemoval : Bool := false
  activeMarkedForCancel : Bool := false
  markedForMovement : Bool := false
deriving DecidableEq, Repr

/-- `SER_PDEV_QUEUE_COMP_SCAN` and `SER_PDEV_QUEUE_COMP_NON_SCAN`. -/
inductive QueueComp where
  | scan
  | nonScan
deriving DecidableEq, Repr

/-- The sizes a queue is created with. -/
structure Cfg where
  comp : QueueComp
  /-- the vdevs of the pdev -/
  vdevs : Finset ℕ
  maxActive : ℕ
  /-- `max_pending_cmds` of the pdev list -/
  maxPending : ℕ
  /-- `max_pending_cmds` of the list of a vdev -/
  maxVdevPending : ℕ → ℕ
  maxActiveScans : ℕ
  null_notMem : 0 ∉ vdevs
  vdevs_le : comp = .nonScan → vdevs.card ≤ maxActive
  /-- `WLAN_MAX_ACTIVE_SCANS_ALLOWED` is `WLAN_SER_MAX_ACTIVE_SCAN_CMDS` -/
  scans_le : comp = .scan → maxActiveScans ≤ maxActive
  /-- `cmd_pool_size` is a `uint16_t` -/
  pool_lt : maxActive + maxPending < 2 ^ 16

namespace Cfg

def poolSize (cfg : Cfg) : ℕ := cfg.maxActive + cfg.maxPending

end Cfg

/-- Whose list: the pdev's, linked by `pdev_node`, or a vdev's, linked by `vdev_node`. -/
inductive Owner where
  | pdev
  | vdev (v : ℕ)
deriving DecidableEq, Repr

namespace Cfg

def maxSize (cfg : Cfg) (active : Bool) : Owner → ℕ
  | .pdev => if active then cfg.maxActive else cfg.maxPending
  | .vdev v => if active then 1 else cfg.maxVdevPending v

end Cfg

/-- `struct wlan_serialization_pdev_queue`, the nodes it owns, the lists of the vdevs and the nodes
that a timer runs for. -/
structure Queue where
  activeList : List ℕ
  pendingList : List ℕ
  cmdPoolList : List ℕ
  node : ℕ → CommandList
  vdevActive : ℕ → List ℕ
  vdevPending : ℕ → List ℕ
  queueDisable : ℕ → Bool
  vdevActiveCmdBitmap : Finset ℕ
  blockingCmdActive : Bool
  blockingCmdWaiting : UInt16
  timers : List ℕ

/-- The outcome of a removal: the node taken out, `QDF_STATUS_E_PENDING`, or another error. -/
inductive Removal where
  | success (n : ℕ)
  | ePending
  | eFailure
deriving DecidableEq, Repr

/-- What `wlan_serialization_enqueue_cmd` decides. -/
inductive EnqueueStatus where
  | active (n : ℕ)
  | pending
  | deniedUnspecified
  | deniedListFull
  | queueDisabled
deriving DecidableEq, Repr

namespace Queue

/-- `wlan_serialization_pdev_obj_create_handler`: all nodes are in the pool. -/
def create (cfg : Cfg) : Queue where
  activeList := []
  pendingList := []
  cmdPoolList := List.range cfg.poolSize
  node _ := {}
  vdevActive _ := []
  vdevPending _ := []
  queueDisable _ := false
  vdevActiveCmdBitmap := ∅
  blockingCmdActive := false
  blockingCmdWaiting := 0
  timers := []

/-! ### Nodes and lists -/

def cmd (q : Queue) (n : ℕ) : Command := (q.node n).cmd

def setNode (q : Queue) (n : ℕ) (x : CommandList) : Queue :=
  { q with node := Function.update q.node n x }

/-- `wlan_serialization_get_list_from_pdev_queue`, `wlan_serialization_get_list_from_vdev_queue`. -/
def list (q : Queue) (active : Bool) : Owner → List ℕ
  | .pdev => if active then q.activeList else q.pendingList
  | .vdev v => if active then q.vdevActive v else q.vdevPending v

def setList (q : Queue) (active : Bool) (l : List ℕ) : Owner → Queue
  | .pdev => if active then { q with activeList := l } else { q with pendingList := l }
  | .vdev v =>
    if active then { q with vdevActive := Function.update q.vdevActive v l }
    else { q with vdevPending := Function.update q.vdevPending v l }

/-- `wlan_serialization_find_cmd`, with the match of `WLAN_SER_MATCH_CMD_ID_VDEV`. -/
def findCmd (q : Queue) (l : List ℕ) (k : Command) : Option ℕ :=
  l.find? fun n => (q.cmd n).matchIdVdev k

def freeNode (q : Queue) (n : ℕ) : Queue :=
  { q.setNode n {} with cmdPoolList := q.cmdPoolList ++ [n] }

/-- `wlan_serialization_add_cmd_to_queue`; `none` is `WLAN_SER_CMD_DENIED_LIST_FULL`. -/
def addCmdToQueue (q : Queue) (maxSize n : ℕ) (l : List ℕ) : Option (List ℕ) :=
  if l.length = maxSize then none
  else if (q.cmd n).isHighPriority then some (n :: l)
  else some (l ++ [n])

def removeCmdFromQueue (q : Queue) (active : Bool) (k : Command) (o : Owner) : Queue × Removal :=
  match q.findCmd (q.list active o) k with
  | none => (q, .eFailure)
  | some n =>
    if (q.node n).markedForActivation then
      (q.setNode n { q.node n with activeMarkedForRemoval := true }, .ePending)
    else (q.setList active ((q.list active o).erase n) o, .success n)

/-- `wlan_serialization_find_and_start_timer`, where a timer is free. -/
def startTimer (q : Queue) (n : ℕ) : Queue := { q with timers := q.timers ++ [n] }

/-- The node whose timer `wlan_serialization_find_and_stop_timer` finds. -/
def findTimer (q : Queue) (c : Command) : Option ℕ :=
  q.timers.find? fun n => (q.cmd n).matchIdVdev c

def stopTimer (q : Queue) (c : Command) : Queue :=
  match q.findTimer c with
  | none => q
  | some n => { q with timers := q.timers.erase n }

/-- `wlan_ser_add_non_scan_cmd`; `false` is `WLAN_SER_CMD_DENIED_LIST_FULL`. -/
def addNonScanCmd (cfg : Cfg) (q : Queue) (n : ℕ) (active : Bool) : Queue × Bool :=
  let c := q.cmd n
  let vdevList := q.addCmdToQueue (cfg.maxSize active (.vdev c.vdev)) n (q.list active (.vdev c.vdev))
  let q := if c.queueDisable then
      { q with queueDisable := Function.update q.queueDisable c.vdev true } else q
  match vdevList with
  | none => (q, false)
  | some l =>
    let q := q.setList active l (.vdev c.vdev)
    match q.addCmdToQueue (cfg.maxSize active .pdev) n (q.list active .pdev) with
    | none => ((q.removeCmdFromQueue active c (.vdev c.vdev)).1, false)
    | some l =>
      let q := q.setList active l .pdev
      if active then
        ({ q with
            vdevActiveCmdBitmap := insert c.vdev q.vdevActiveCmdBitmap
            blockingCmdActive := q.blockingCmdActive || c.isBlocking }, true)
      else (q, true)

/-- `wlan_ser_add_scan_cmd`; `false` is `WLAN_SER_CMD_DENIED_LIST_FULL`. -/
def addScanCmd (cfg : Cfg) (q : Queue) (n : ℕ) (active : Bool) : Queue × Bool :=
  match q.addCmdToQueue (cfg.maxSize active .pdev) n (q.list active .pdev) with
  | none => (q, false)
  | some l => (q.setList active l .pdev, true)

def addCmd (cfg : Cfg) (q : Queue) (n : ℕ) (active : Bool) : Queue × Bool :=
  match cfg.comp with
  | .scan => q.addScanCmd cfg n active
  | .nonScan => q.addNonScanCmd cfg n active

def removeNonScanCmd (q : Queue) (k : Command) (active : Bool) : Queue × Removal :=
  match q.removeCmdFromQueue active k (.vdev k.vdev) with
  | (q, .success _) =>
    match q.removeCmdFromQueue active k .pdev with
    | (q, .success n) =>
      if active then
        ({ q with
            blockingCmdActive := q.blockingCmdActive && !(q.cmd n).isBlocking
            vdevActiveCmdBitmap := q.vdevActiveCmdBitmap.erase k.vdev }, .success n)
      else (q, .success n)
    | (q, _) => (q, .eFailure)
  | (q, status) => (q, status)

def removeCmd (cfg : Cfg) (q : Queue) (k : Command) (active : Bool) : Queue × Removal :=
  match cfg.comp with
  | .scan => q.removeCmdFromQueue active k .pdev
  | .nonScan => q.removeNonScanCmd k active

def isActiveNonScanCmdAllowed (q : Queue) (c : Command) : Queue × Bool :=
  if c.isBlocking then
    if q.vdevActiveCmdBitmap.Nonempty then
      ({ q with blockingCmdWaiting := q.blockingCmdWaiting + 1 }, false)
    else (q, true)
  else if q.blockingCmdActive ∨ q.blockingCmdWaiting.toUInt8 ≠ 0 then (q, false)
  else (q, decide (c.vdev ∉ q.vdevActiveCmdBitmap))

def isActiveScanCmdAllowed (cfg : Cfg) (others : ℕ) (q : Queue) : Bool :=
  others + q.activeList.length < cfg.maxActiveScans

def isActiveCmdAllowed (cfg : Cfg) (others : ℕ) (q : Queue) (c : Command) : Queue × Bool :=
  match cfg.comp with
  | .scan => (q, q.isActiveScanCmdAllowed cfg others && q.pendingList.isEmpty)
  | .nonScan =>
    let (q, allowed) := q.isActiveNonScanCmdAllowed c
    (q, allowed && (q.vdevPending c.vdev).isEmpty)

def isCmdPresentQueue (cfg : Cfg) (q : Queue) (c : Command) (active : Bool) : Bool :=
  match cfg.comp with
  | .scan => (q.findCmd (q.list active .pdev) c).isSome
  | .nonScan => (q.findCmd (q.list active (.vdev c.vdev)) c).isSome

/-- The critical section of `wlan_serialization_enqueue_cmd`. -/
def enqueueCmd (cfg : Cfg) (others : ℕ) (q : Queue) (c : Command) : Queue × EnqueueStatus :=
  if cfg.comp = .nonScan ∧ q.queueDisable c.vdev then (q, .queueDisabled)
  else
    let (q, active) := q.isActiveCmdAllowed cfg others c
    if q.isCmdPresentQueue cfg c active then (q, .deniedUnspecified)
    else match q.cmdPoolList with
      | [] => (q, .deniedListFull)
      | n :: rest =>
        let q := { q with cmdPoolList := rest }
        let q := q.setNode n { q.node n with cmd := c }
        match q.addCmd cfg n active with
        | (q, false) => (q.freeNode n, .deniedListFull)
        | (q, true) =>
          if active then
            (q.setNode n { q.node n with markedForActivation := true }, .active n)
          else (q, .pending)

/-- The critical section of `wlan_serialization_activate_cmd`. -/
def settleNode (q : Queue) (n : ℕ) : Queue :=
  q.setNode n { q.node n with markedForActivation := false, isActive := true }

/-- The critical section of `wlan_serialization_dequeue_cmd` for an active command, and the backup
of the command it takes out. -/
def dequeueCmd (cfg : Cfg) (q : Queue) (k : Command) : Queue × Option Command :=
  match q.removeCmd cfg k true with
  | (q, .success n) => ((q.stopTimer (q.cmd n)).freeNode n, some (q.cmd n))
  | (q, _) => (q, none)

/-- Take a pending command over into the active list. -/
def movePendingCmd (cfg : Cfg) (q : Queue) (n : ℕ) : Queue × Option ℕ :=
  match q.removeCmd cfg (q.cmd n) false with
  | (q, .success n) =>
    match q.addCmd cfg n true with
    | (q, true) =>
      let q := q.setNode n { q.node n with markedForActivation := true }
      if cfg.comp = .nonScan ∧ (q.cmd n).isBlocking then
        ({ q with blockingCmdWaiting := q.blockingCmdWaiting - 1 }, some n)
      else (q, some n)
    | (q, false) => ({ q with cmdPoolList := q.cmdPoolList ++ [n] }, none)
  | (q, _) => (q, none)

/-- `wlan_ser_move_scan_pending_to_active` up to the activation. -/
def moveScan (cfg : Cfg) (others : ℕ) (q : Queue) : Queue × Option ℕ :=
  match q.pendingList with
  | [] => (q, none)
  | n :: _ => if q.isActiveScanCmdAllowed cfg others then q.movePendingCmd cfg n else (q, none)

def setMovement (q : Queue) (n : ℕ) (b : Bool) : Queue :=
  q.setNode n { q.node n with markedForMovement := b }

def markNext (q : Queue) : List ℕ → Queue
  | [] => q
  | next :: _ => q.setMovement next true

/-- The walk over the pending list of the pdev, up to the command to be moved. -/
def walkPending (q : Queue) : List ℕ → Queue × Option ℕ
  | [] => (q, none)
  | n :: rest =>
    if (q.cmd n).isBlocking ∧ q.vdevActiveCmdBitmap.Nonempty then (q, none)
    else
      let q := q.markNext rest
      if (q.cmd n).vdev ∈ q.vdevActiveCmdBitmap then walkPending (q.setMovement n false) rest
      else (q, some n)

/-- The front of the list of a vdev, if it may be moved. -/
def frontPending (q : Queue) (v : ℕ) : Option ℕ :=
  match q.vdevPending v with
  | [] => none
  | n :: _ =>
    if (q.cmd n).vdev ∈ q.vdevActiveCmdBitmap ∨ (q.node n).markedForMovement then none else some n

/-- The queue that `wlan_ser_move_non_scan_pending_to_active` looks at. -/
def movePendingQueue (q : Queue) (v : ℕ) (blockingCmdRemoved : Bool) : Owner :=
  if ¬blockingCmdRemoved ∧ q.blockingCmdWaiting = 0 ∧ v ≠ 0 then .vdev v else .pdev

def pickPending (q : Queue) : Owner → Queue × Option ℕ
  | .pdev => q.walkPending q.pendingList
  | .vdev v => (q, q.frontPending v)

/-- One critical section of `wlan_ser_move_non_scan_pending_to_active`, from a look at the front of
the pending queue to the next activation. -/
def moveNonScan (cfg : Cfg) (q : Queue) (o : Owner) : Queue × Option ℕ :=
  match q.pickPending o with
  | (q, none) => (q, none)
  | (q, some n) => q.movePendingCmd cfg n

end Queue

/-! ### Cancelling -/

/-- A command that is passed by pointer: a caller's own, or the one in a node. -/
inductive CmdRef where
  | value (k : Command)
  | node (n : ℕ)
deriving DecidableEq, Repr

/-- The arguments of `wlan_ser_cancel_scan_cmd` and `wlan_ser_cancel_non_scan_cmd`. A zero `vdev`
is the null pointer, and `psoc` says whether a psoc was found. -/
structure CancelArgs where
  cmd : Option CmdRef := none
  pdev : Bool := false
  vdev : ℕ := 0
  cmdType : ℕ := wlanSerCmdNonscan
  nonblock : Bool := false
  psoc : Bool := true
deriving DecidableEq, Repr

/-- Where a section of a cancel ends. -/
inductive CancelOutcome where
  | finished
  | removed (c : Command) (pnode : Option ℕ) (qsize : ℕ)
deriving DecidableEq, Repr

namespace Queue

/-- The command behind a pointer. -/
def deref (q : Queue) : CmdRef → Command
  | .value k => k
  | .node n => q.cmd n

/-- Whether the filters of a cancel let a node through. -/
def cancelMatches (cfg : Cfg) (q : Queue) (a : CancelArgs) (n : ℕ) : Bool :=
  let c := q.cmd n
  (match cfg.comp, a.cmd with
    | _, none => true
    | .scan, some r => c.matchIdType (q.deref r)
    | .nonScan, some r => c.matchIdVdev (q.deref r)) &&
  (a.vdev == 0 || c.vdev == a.vdev) &&
  (match cfg.comp with
    | .scan => true
    | .nonScan =>
      (!(decide (wlanSerCmdNonscan < a.cmdType) && a.vdev != 0) ||
        (c.cmdType == a.cmdType && c.vdev == a.vdev)) &&
      !(a.nonblock && c.isBlocking))

/-- The node behind a node in a list, if there is one. -/
def nextIn : List ℕ → ℕ → Option ℕ
  | [], _ => none
  | n :: rest, p => if n = p then rest.head? else nextIn rest p

def getCmdFromQueue (q : Queue) (active : Bool) (nnode : Option ℕ) : Option ℕ :=
  if q.list active .pdev = [] then none
  else match nnode with
    | none => (q.list active .pdev).head?
    | some p =>
      (nextIn q.activeList p).or ((nextIn q.pendingList p).or (nextIn q.cmdPoolList p))

/-- `wlan_serialization_remove_node` on a `pdev_node`. -/
def unlinkPdev (q : Queue) (n : ℕ) : Queue :=
  { q with
    activeList := q.activeList.erase n
    pendingList := q.pendingList.erase n
    cmdPoolList := q.cmdPoolList.erase n }

/-- `wlan_serialization_remove_node` on a `vdev_node`. -/
def unlinkVdev (q : Queue) (n : ℕ) : Queue :=
  { q with
    vdevActive := fun v => (q.vdevActive v).erase n
    vdevPending := fun v => (q.vdevPending v).erase n }

/-- The removal of a cancelled command; `false` where a list it should be in is empty. -/
def cancelNode (cfg : Cfg) (q : Queue) (active : Bool) (n : ℕ) : Queue × Bool :=
  match cfg.comp with
  | .scan => ((q.unlinkPdev n).freeNode n, true)
  | .nonScan =>
    if q.list active (.vdev (q.cmd n).vdev) = [] then (q.unlinkPdev n, false)
    else (((q.unlinkPdev n).unlinkVdev n).freeNode n, true)

/-- The loop of `wlan_ser_cancel_scan_cmd` and `wlan_ser_cancel_non_scan_cmd`, up to the next
release of the lock. -/
def cancelLoop (cfg : Cfg) (a : CancelArgs) (active : Bool) :
    ℕ → Option ℕ → Option ℕ → Queue → Queue × CancelOutcome
  | 0, _, _, q => (q, .finished)
  | qsize + 1, nnode, pnode, q =>
    match q.getCmdFromQueue active nnode with
    | none => (q, .finished)
    | some n =>
      if ¬q.cancelMatches cfg a n then cancelLoop cfg a active qsize (some n) (some n) q
      else if active ∧ ¬a.psoc then (q, .finished)
      else if active ∧ (q.node n).markedForActivation then
        cancelLoop cfg a active qsize (some n) pnode
          (q.setNode n { q.node n with activeMarkedForCancel := true })
      else if active ∧ (q.findTimer (q.cmd n)).isNone then (q, .finished)
      else
        let c := q.cmd n
        let q := if active then q.stopTimer c else q
        match q.cancelNode cfg active n with
        | (q, false) => (q, .finished)
        | (q, true) => (q, .removed c pnode qsize)

/-- What a cancel sets straight after the callbacks of a command. -/
def cancelSettle (cfg : Cfg) (q : Queue) (active : Bool) (c : Command) : Queue :=
  match cfg.comp with
  | .scan => q
  | .nonScan =>
    if active then
      { q with
        blockingCmdActive := q.blockingCmdActive && !c.isBlocking
        vdevActiveCmdBitmap := q.vdevActiveCmdBitmap.erase c.vdev }
    else if c.isBlocking then { q with blockingCmdWaiting := q.blockingCmdWaiting - 1 }
    else q

def cancelResume (cfg : Cfg) (q : Queue) (a : CancelArgs) (active : Bool) (c : Command)
    (pnode : Option ℕ) (qsize : ℕ) : Queue × CancelOutcome :=
  let q := q.cancelSettle cfg active c
  if cfg.comp = .nonScan ∧ a.vdev = 0 ∧ ¬a.pdev then (q, .finished)
  else q.cancelLoop cfg a active qsize pnode pnode

end Queue

end Sm8750Modules.Serialization
