import Sm8750Modules.Serialization.Queue
import Sm8750Modules.Lib.Runs

/-!
# WLAN serialization — calls, callbacks and their interleaving

A call takes the lock of the queue several times and runs callbacks in between. A thread is the
stack of what a call has still to do, one `Frame` for each critical section, callback or test. The
machine lets any thread take its next step, so what holds in all its runs holds for every
interleaving; a callback that issues a request of its own is a thread that starts while the caller
waits.
-/

namespace Sm8750Modules.Serialization

/-- The callbacks that have been run, by the number of the accepted request. -/
structure History where
  /-- how many requests were accepted, as active or pending -/
  accepted : ℕ := 0
  activated : List ℕ := []
  /-- `WLAN_SER_CB_CANCEL_CMD` -/
  cancelled : List ℕ := []
  /-- `WLAN_SER_CB_RELEASE_MEM_CMD` -/
  released : List ℕ := []
deriving DecidableEq, Repr

/-- What is left of a call. -/
inductive Frame where
  /-- `wlan_serialization_enqueue_cmd` -/
  | enqueue (c : Command)
  /-- `wlan_serialization_activate_cmd` -/
  | activate (n : ℕ)
  /-- its critical section, where the timer was or was not `started` and the callback has run -/
  | settle (n : ℕ) (started : Bool)
  | checkRemoval (n : ℕ)
  /-- the test of `CMD_ACTIVE_MARKED_FOR_CANCEL` -/
  | checkCancel (n : ℕ)
  /-- `wlan_serialization_generic_timer_cb` -/
  | timeout (k : Command)
  /-- `wlan_serialization_dequeue_cmd` -/
  | dequeue (r : CmdRef)
  | move (vdev : ℕ) (blockingCmdRemoved : Bool)
  /-- the loop of `wlan_ser_move_non_scan_pending_to_active` after an activation -/
  | moveResume (o : Owner)
  /-- the callback `WLAN_SER_CB_RELEASE_MEM_CMD` -/
  | release (c : Command)
  /-- `wlan_ser_cancel_scan_cmd`, `wlan_ser_cancel_non_scan_cmd` -/
  | cancel (a : CancelArgs) (active : Bool)
  /-- the callback `WLAN_SER_CB_CANCEL_CMD` -/
  | cancelCallback (c : Command)
  /-- the loop of a cancel after the callbacks of a command -/
  | cancelResume (a : CancelArgs) (active : Bool) (c : Command) (pnode : Option ℕ) (qsize : ℕ)
  | tailList
  /-- the test for an empty bitmap at the end of a cancel -/
  | tailBitmap
deriving DecidableEq, Repr

/-- What the surroundings decide in a step. -/
structure Outcome where
  timer : Bool := true
  callback : Bool := true
  others : ℕ := 0
deriving DecidableEq, Repr

variable (cfg : Cfg)

def afterCancel (a : CancelArgs) (active : Bool) : CancelOutcome → List Frame
  | .finished => if cfg.comp = .nonScan ∧ active then [.tailList] else []
  | .removed c pnode qsize =>
    [.cancelCallback c, .release c, .cancelResume a active c pnode qsize]

def afterMove (o : Owner) : Option ℕ → List Frame
  | none => []
  | some n => match cfg.comp with
    | .scan => [.activate n]
    | .nonScan => [.activate n, .moveResume o]

/-- The next step of a call: the queue and the history it leaves, and what is still to be done. -/
def advance (o : Outcome) (q : Queue) (h : History) :
    Frame → Queue × History × List Frame
  | .enqueue c =>
    match q.enqueueCmd cfg o.others { c with ticket := h.accepted } with
    | (q, .active n) => (q, { h with accepted := h.accepted + 1 }, [.activate n])
    | (q, .pending) => (q, { h with accepted := h.accepted + 1 }, [])
    | (q, _) => (q, h, [])
  | .activate n =>
    if o.timer then
      (q.startTimer n, { h with activated := h.activated ++ [(q.cmd n).ticket] }, [.settle n true])
    else (q, h, [.settle n false])
  | .settle n started =>
    (q.settleNode n, h, if started ∧ o.callback then [.checkRemoval n] else [.dequeue (.node n)])
  | .checkRemoval n =>
    (q, h, if (q.node n).activeMarkedForRemoval then [.dequeue (.node n)] else [.checkCancel n])
  | .checkCancel n =>
    (q, h, if (q.node n).activeMarkedForCancel then
      [.cancel { cmd := some (.node n), cmdType := (q.cmd n).cmdType,
                 psoc := (q.cmd n).vdev != 0 } true] else [])
  | .timeout k => (q, h, if q.isCmdPresentQueue cfg k true then [.dequeue (.value k)] else [])
  | .dequeue r =>
    match q.dequeueCmd cfg (q.deref r) with
    | (q, none) => (q, h, [])
    | (q, some c) => (q, h, [.move c.vdev c.isBlocking, .release c])
  | .move v blockingCmdRemoved =>
    match cfg.comp with
    | .scan =>
      let (q, picked) := q.moveScan cfg o.others
      (q, h, afterMove cfg .pdev picked)
    | .nonScan =>
      let from_ := q.movePendingQueue v blockingCmdRemoved
      let (q, picked) := q.moveNonScan cfg from_
      (q, h, afterMove cfg from_ picked)
  | .moveResume from_ =>
    if from_ ≠ .pdev ∨ q.blockingCmdActive then (q, h, [])
    else
      let (q, picked) := q.moveNonScan cfg from_
      (q, h, afterMove cfg from_ picked)
  | .release c => (q, { h with released := h.released ++ [c.ticket] }, [])
  | .cancel a active =>
    let (q, out) := q.cancelLoop cfg a active (q.list active .pdev).length none none
    (q, h, afterCancel cfg a active out)
  | .cancelCallback c => (q, { h with cancelled := h.cancelled ++ [c.ticket] }, [])
  | .cancelResume a active c pnode qsize =>
    let (q, out) := q.cancelResume cfg a active c pnode qsize
    (q, h, afterCancel cfg a active out)
  | .tailList => (q, h, if q.activeList = [] then [.tailBitmap] else [])
  | .tailBitmap => (q, h, if q.vdevActiveCmdBitmap = ∅ then [.move 0 false] else [])

/-- `enum wlan_serialization_cancel_type`, with the fields of the request each of them reads. -/
inductive CancelType where
  | singleScan (k : Command)
  | pdevScans
  | vdevScans (v : ℕ)
  | nonScanCmd (k : Command)
  | pdevNonScanCmd
  | vdevNonScanCmd (v : ℕ)
  | vdevNonScanCmdType (v : ℕ) (cmdType : ℕ)
  | vdevNonScanNbCmd (v : ℕ)
deriving DecidableEq, Repr

/-- The arguments that `wlan_serialization_find_and_cancel_cmd` passes on. -/
def CancelType.args : CancelType → CancelArgs
  | .singleScan k => { cmd := some (.value k), cmdType := 0 }
  | .pdevScans => { pdev := true, cmdType := 0 }
  | .vdevScans v => { vdev := v, cmdType := 0 }
  | .nonScanCmd k => { cmd := some (.value k) }
  | .pdevNonScanCmd => { pdev := true }
  | .vdevNonScanCmd v => { vdev := v }
  | .vdevNonScanCmdType v cmdType => { vdev := v, cmdType := cmdType }
  | .vdevNonScanNbCmd v => { vdev := v, nonblock := true }

/-- The vdev of a cancel request, which must not be null. -/
def CancelType.OnVdev : CancelType → Prop
  | .vdevScans v | .vdevNonScanCmd v | .vdevNonScanCmdType v _ | .vdevNonScanNbCmd v =>
    v ∈ cfg.vdevs
  | .singleScan k | .nonScanCmd k => k.vdev ∈ cfg.vdevs
  | .pdevScans | .pdevNonScanCmd => True

instance (cfg : Cfg) (t : CancelType) : Decidable (t.OnVdev cfg) := by
  cases t <;> unfold CancelType.OnVdev <;> infer_instance

def compOf (cmdType : ℕ) : QueueComp := if cmdType < wlanSerCmdNonscan then .scan else .nonScan

/-- `wlan_serialization_request`, `wlan_serialization_remove_cmd`, the timer and
`wlan_serialization_cancel_request`. -/
inductive Call where
  | request (c : Command)
  | remove (k : Command)
  | timeout (k : Command)
  | cancel (t : CancelType) (active pending : Bool)
deriving DecidableEq, Repr

def Call.ForQueue : Call → Prop
  | .request c => compOf c.cmdType = cfg.comp ∧ c.vdev ∈ cfg.vdevs
  | .remove k | .timeout k => compOf k.cmdType = cfg.comp ∧ k.vdev ∈ cfg.vdevs
  | .cancel t _ _ => compOf t.args.cmdType = cfg.comp ∧ t.OnVdev cfg

instance (cfg : Cfg) (c : Call) : Decidable (c.ForQueue cfg) := by
  cases c <;> unfold Call.ForQueue <;> infer_instance

/-- What a call has to do. `wlan_serialization_cmd_cancel_handler` goes over the active list
first. -/
def Call.frames : Call → List Frame
  | .request c => [.enqueue c]
  | .remove k => [.dequeue (.value k)]
  | .timeout k => [.timeout k]
  | .cancel t active pending =>
    (if active then [.cancel t.args true] else []) ++ if pending then [.cancel t.args false] else []

/-- A queue and the calls in progress. -/
structure Serializer where
  queue : Queue
  hist : History
  threads : List (List Frame)

inductive Event where
  | call (c : Call)
  | advance (i : ℕ) (o : Outcome)
deriving DecidableEq, Repr

def Event.ForQueue : Event → Prop
  | .call c => c.ForQueue cfg
  | .advance _ _ => True

instance (cfg : Cfg) (e : Event) : Decidable (e.ForQueue cfg) := by
  cases e <;> unfold Event.ForQueue <;> infer_instance

namespace Serializer

def create : Serializer := ⟨.create cfg, {}, []⟩

def frames (s : Serializer) : List Frame := s.threads.flatten

def top (s : Serializer) (i : ℕ) : Option Frame := (s.threads.getD i []).head?

/-- A call starts, or a thread takes a step. -/
def next (s : Serializer) : Event → Serializer
  | .call c => { s with threads := s.threads ++ [c.frames] }
  | .advance i o =>
    match s.threads[i]? with
    | some (f :: rest) =>
      let (q, h, new) := Serialization.advance cfg o s.queue s.hist f
      ⟨q, h, s.threads.set i (new ++ rest)⟩
    | _ => s

end Serializer

def machine (allowed : Serializer → Event → Prop) : Runs.Machine Serializer Event where
  init s := s = .create cfg
  guard s e := e.ForQueue cfg ∧ allowed s e
  next s e := s.next cfg e

instance (cfg : Cfg) (allowed : Serializer → Event → Prop) [∀ s e, Decidable (allowed s e)]
    (s : Serializer) (e : Event) : Decidable ((machine cfg allowed).guard s e) :=
  inferInstanceAs (Decidable (e.ForQueue cfg ∧ allowed s e))

end Sm8750Modules.Serialization
