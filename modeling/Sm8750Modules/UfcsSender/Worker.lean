import Sm8750Modules.Lib.Runs

/-!
# UFCS sender — the works and the senders

A message is written by a work of the port's kthread worker. The thread that sends it holds the
lock of the sender and waits for a completion, which the work, an acknowledgement or a timer
brings about.
-/

namespace Sm8750Modules.UfcsSender

/-- `enum msg_send_status`; `MSG_SEND_PENDIGN` is `pending`. -/
inductive MsgSendStatus where
  | ackTimeout
  | retryOver
  | nck
  | sendOk
  | pending
  | sendFail
  | start
  | waitAck
deriving DecidableEq, Repr

/-- The messages, as far as the sender tells them apart. -/
inductive MsgKind where
  | ack
  | nck
  | softReset
  | ping
  | exitUfcsMode
  | other
deriving DecidableEq, Repr

def MsgKind.isAckNck : MsgKind → Bool
  | .ack | .nck => true
  | _ => false

structure Frame where
  kind : MsgKind
  crcGood : Bool
deriving DecidableEq, Repr

structure UfcsConfig where
  checkCrc : Bool
  replyAck : Bool
  msgResend : Bool
deriving DecidableEq, Repr

inductive Work where
  | recvWork
  | eventWork
  | msgSendWork
deriving DecidableEq, Repr

/-- The work that runs, at one of its waits. -/
inductive Running where
  | idle
  /-- at `recv` of `ufcs_recv_work` -/
  | recv
  | recvLock (frame : Frame) (again : Bool)
  /-- within the sending of an acknowledgement by `ufcs_event_work` -/
  | reply
deriving DecidableEq, Repr

inductive Thread where
  | worker
  | task (n : ℕ)
deriving DecidableEq, Repr

/-- Where a thread is in `ufcs_send_msg`: before the step with this name. -/
inductive Stage where
  | lock
  | setMsg
  | reinit
  | queue
  | wait
  | cancel
  | finish
deriving DecidableEq, Repr

/-- A call of `ufcs_send_msg`. While it sends a soft reset, `outer` is the message that it was called
with. -/
structure Send where
  msg : MsgKind
  retry : Bool
  softReset : Bool
  outer : Option MsgKind
  stage : Stage
deriving DecidableEq, Repr

/-- The part of `struct ufcs_class` that the works and the senders share. -/
structure UfcsClass where
  config : UfcsConfig
  queue : List Work
  running : Running
  recvMsg : Option Frame
  exitUfcsAckReceived : Bool
  /-- `sender.msg` -/
  msg : Option MsgKind
  status : MsgSendStatus
  msgRetryCount : ℕ
  /-- `sender.ack`, and whether it was completed for all -/
  ack : ℕ
  ackAll : Bool
  /-- the holder of `sender.lock` -/
  lock : Option Thread
  ackReceiveTimer : Bool
  msgTransDelayTimer : Bool
  pc : Thread → Option Send

variable (c : UfcsClass)

namespace UfcsClass

/-- `kthread_queue_work`: a work that is queued already is not queued again. -/
def queueWork (w : Work) (c : UfcsClass) : UfcsClass :=
  if w ∈ c.queue then c else { c with queue := c.queue ++ [w] }

/-- The message has reached an end: `complete(&sender->ack)`. -/
def complete (status : MsgSendStatus) (c : UfcsClass) : UfcsClass :=
  { c with status := status, ack := c.ack + 1 }

def stopAckReceiveTimer : UfcsClass := { c with ackReceiveTimer := false }

/-- The number of times that a message is sent: `MSG_RETRY_COUNT_MAX` is three. -/
def retryMax : ℕ := if c.config.msgResend then 3 else 1

/-- The message is written, unless it has been too often. -/
def writeMsg (m : MsgKind) (written : Bool) (c : UfcsClass) : UfcsClass :=
  if c.retryMax ≤ c.msgRetryCount then complete .retryOver (stopAckReceiveTimer c)
  else if written = false then complete .sendFail c
  else if m.isAckNck then complete .sendOk c
  else { c with status := .waitAck, ackReceiveTimer := true }

/-- `ufcs_msg_send_work`; `written` is whether the port has taken the message. -/
def msgSendWork (written : Bool) (c : UfcsClass) : UfcsClass :=
  match c.msg with
  | none => c
  | some m =>
    if m.isAckNck then writeMsg m written c
    else
      match c.status with
      | .ackTimeout | .nck => writeMsg m written { c with msgRetryCount := c.msgRetryCount + 1 }
      | .retryOver => complete .retryOver c
      | .sendOk => complete .sendOk c
      | .sendFail => complete .sendFail c
      | .pending | .waitAck => c
      | .start => writeMsg m written c

/-! ### `ufcs_recv_work` -/

end UfcsClass

structure ErrFlags where
  hardReset : Bool
  busConflict : Bool
  sentCmp : Bool
  transFail : Bool
  ackTimeout : Bool
  dataReady : Bool
deriving DecidableEq, Repr

/-- What the port gives to one round of `ufcs_recv_work`. -/
inductive RecvInput where
  /-- the flags cannot be read -/
  | failed
  | handshake
  /-- the flags, and the message behind them, if it can be read and unpacked -/
  | flags (f : ErrFlags) (frame : Option Frame)
deriving DecidableEq, Repr

variable (t : Thread)

namespace UfcsClass

/-- `ufcs_check_error_info`: the flags, and whether a message is to be read. -/
def checkErrorInfo (f : ErrFlags) (c : UfcsClass) : UfcsClass × Bool :=
  if c.exitUfcsAckReceived then (c, false)
  else if f.hardReset then (complete .retryOver c, false)
  else if f.busConflict then (complete .retryOver (stopAckReceiveTimer c), false)
  else if f.sentCmp then
    if f.transFail then
      if c.status = .waitAck then (complete .retryOver (stopAckReceiveTimer c), f.dataReady) else (c, false)
    else if f.ackTimeout then (c, true)
    else if c.status = .waitAck then
      (complete .sendOk
        { stopAckReceiveTimer c with
          exitUfcsAckReceived :=
            if c.msg = some .exitUfcsMode then true else c.exitUfcsAckReceived },
        f.dataReady)
    else (c, f.dataReady)
  else (c, f.dataReady)

/-- `ufcs_recv_ack_nck_msg`, and whether the message was for the sender. -/
def recvAckNckMsg (kind : MsgKind) (c : UfcsClass) : UfcsClass × Bool :=
  let c := stopAckReceiveTimer c
  if c.status = .waitAck then
    if kind = .ack then (complete .sendOk c, true)
    else (queueWork .msgSendWork { c with status := .nck }, true)
  else (c, false)

def recvDone (again : Bool) (c : UfcsClass) : UfcsClass :=
  { c with running := if again then .recv else .idle }

/-- The message is handed over to `ufcs_event_work`. -/
def recvEvent (frame : Frame) (again : Bool) (c : UfcsClass) : UfcsClass :=
  recvDone again (queueWork .eventWork { c with recvMsg := some frame })

/-- A round of `ufcs_recv_work`; `again` is whether there are more flags. -/
def recvWork (input : RecvInput) (again : Bool) (c : UfcsClass) : UfcsClass :=
  match input with
  | .failed => { c with running := .idle }
  | .handshake => recvDone again c
  | .flags f frame =>
    let checked := checkErrorInfo f c
    if checked.2 = false then recvDone again checked.1
    else
      match frame with
      | none => recvDone again checked.1
      | some frame =>
        if frame.kind.isAckNck then
          let taken := recvAckNckMsg frame.kind checked.1
          if taken.2 then recvDone again taken.1 else recvEvent frame again taken.1
        else if checked.1.config.replyAck = false ∧ checked.1.lock = none then
          { checked.1 with running := .recvLock frame again }
        else recvEvent frame again checked.1

def recvLocked (frame : Frame) (again : Bool) (c : UfcsClass) : UfcsClass :=
  recvEvent frame again { c with status := .pending, msgTransDelayTimer := true }

/-- A call of `ufcs_send_msg` begins. -/
def sendMsg (msg : MsgKind) (retry : Bool) (c : UfcsClass) : UfcsClass :=
  { c with pc := Function.update c.pc t (some ⟨msg, retry, false, none, .lock⟩) }

/-- The message that `ufcs_event_work` sends itself, if any. -/
def eventReply : Option MsgKind :=
  match c.recvMsg with
  | none => none
  | some frame =>
    if frame.kind.isAckNck = false ∧ c.config.checkCrc = true ∧ frame.crcGood = false then some .nck
    else if c.config.replyAck then some .ack
    else none

/-- `ufcs_event_work`, up to the end or to its own message. -/
def eventWork : UfcsClass :=
  match c.eventReply with
  | none => { c with running := .idle }
  | some msg => sendMsg .worker msg false { c with running := .reply }

def atSend (s : Send) (c : UfcsClass) : UfcsClass :=
  { c with pc := Function.update c.pc t (some s) }

/-- The call returns, or the call for the soft reset within it. -/
def returns (s : Send) (rc : ℤ) (c : UfcsClass) : UfcsClass :=
  match s.outer with
  | none => { c with pc := Function.update c.pc t none }
  | some m =>
    if 0 ≤ rc ∧ s.retry = true then atSend t ⟨m, s.retry, true, none, .lock⟩ c
    else { c with pc := Function.update c.pc t none }

/-- The result of `__ufcs_send_msg`: zero, `-EAGAIN` or `-EINVAL`. -/
def sendResult : ℤ :=
  if c.status = .sendOk then 0 else if c.status = .retryOver then -11 else -22

/-- After `__ufcs_send_msg`: without an answer of the port a soft reset is sent, once. -/
def finish (s : Send) (c : UfcsClass) : UfcsClass :=
  let rc := c.sendResult
  let c := { c with status := .pending, msgTransDelayTimer := true, lock := none }
  if rc = -11 ∧ s.softReset = false ∧ s.msg.isAckNck = false ∧ s.msg ≠ .softReset ∧ s.msg ≠ .ping then
    atSend t ⟨.softReset, s.retry, false, some s.msg, .lock⟩ c
  else returns t s rc c

/-- A step of a call. -/
def thread (c : UfcsClass) : UfcsClass :=
  match c.pc t with
  | none => c
  | some s =>
    match s.stage with
    | .lock => atSend t { s with stage := .setMsg } { c with lock := some t }
    | .setMsg => atSend t { s with stage := .reinit } { c with msg := some s.msg, msgRetryCount := 0 }
    | .reinit => atSend t { s with stage := .queue } { c with ack := 0, ackAll := false }
    | .queue => atSend t { s with stage := .wait } (queueWork .msgSendWork c)
    | .wait => atSend t { s with stage := .cancel } { c with ack := if c.ackAll then c.ack else c.ack - 1 }
    | .cancel =>
      atSend t { s with stage := .finish }
        { c with queue := c.queue.filter (· ≠ .msgSendWork), msg := none }
    | .finish => finish t s c

end UfcsClass

/-! ### Runs -/

inductive Timer where
  | ackReceive
  | msgTransDelay
deriving DecidableEq, Repr

/-- One step of a party. -/
inductive Action where
  /-- `ufcs_msg_handler` -/
  | irq
  /-- the worker takes up the first work of its queue -/
  | work (written : Bool)
  | recv (input : RecvInput) (again : Bool)
  | recvLock
  /-- `ufcs_event_work` goes on after its own message -/
  | replied
  /-- another thread calls `ufcs_send_msg` -/
  | send (n : ℕ) (msg : MsgKind) (retry : Bool)
  | thread (t : Thread)
  | fire (t : Timer)
  /-- `ufcs_exit_sm_work` -/
  | exit
  /-- `ufcs_handshake`, with `ufcs_event_reset` -/
  | reset
deriving DecidableEq, Repr

namespace UfcsClass

/-- The first work is taken up. -/
def work (written : Bool) (c : UfcsClass) : UfcsClass :=
  match c.queue with
  | [] => c
  | .recvWork :: rest => { c with queue := rest, running := .recv }
  | .eventWork :: rest => eventWork { c with queue := rest }
  | .msgSendWork :: rest => msgSendWork written { c with queue := rest }

def fire (t : Timer) (c : UfcsClass) : UfcsClass :=
  match t with
  | .ackReceive => queueWork .msgSendWork { c with ackReceiveTimer := false, status := .ackTimeout }
  | .msgTransDelay =>
    let c := { c with msgTransDelayTimer := false }
    if c.status ≠ .pending then c
    else if c.msg.isSome then queueWork .msgSendWork { c with status := .start }
    else { c with status := .start }

def armed (t : Timer) (c : UfcsClass) : Bool :=
  match t with
  | .ackReceive => c.ackReceiveTimer
  | .msgTransDelay => c.msgTransDelayTimer

/-- Whether a thread can take its next step: two of them may have to wait. -/
def canStep (c : UfcsClass) : Bool :=
  match c.pc t with
  | none => false
  | some s =>
    match s.stage with
    | .lock => c.lock = none
    | .wait => 0 < c.ack || c.ackAll
    | _ => true

/-- Whether `ufcs_recv_work` is at its lock, and the lock free. -/
def canRecvLock : Bool :=
  match c.running with
  | .recvLock _ _ => c.lock = none
  | _ => false

/-- Whether an action can be taken. -/
def Enabled : Action → Prop
  | .irq => True
  | .work _ => c.running = .idle ∧ c.queue ≠ []
  | .recv _ _ => c.running = .recv
  | .recvLock => c.canRecvLock = true
  | .replied => c.running = .reply ∧ c.pc .worker = none
  | .send n _ _ => c.pc (.task n) = none
  | .thread t => c.canStep t = true
  | .fire t => c.armed t = true
  | .exit => True
  | .reset => True

instance (c : UfcsClass) : ∀ a, Decidable (c.Enabled a) := by
  intro a
  cases a <;> dsimp only [Enabled] <;> infer_instance

def next : Action → UfcsClass
  | .irq => queueWork .recvWork c
  | .work written => work written c
  | .recv input again => recvWork input again c
  | .recvLock =>
    match c.running with
    | .recvLock frame again => recvLocked frame again c
    | _ => c
  | .replied => { c with running := .idle }
  | .send n msg retry => sendMsg (.task n) msg retry c
  | .thread t => thread t c
  | .fire t => fire t c
  | .exit => { c with status := .retryOver, ackAll := true }
  | .reset => { c with exitUfcsAckReceived := false, recvMsg := none, status := .start, msgRetryCount := 0 }

def init (config : UfcsConfig) : UfcsClass where
  config := config
  queue := []
  running := .idle
  recvMsg := none
  exitUfcsAckReceived := false
  msg := none
  status := .start
  msgRetryCount := 0
  ack := 0
  ackAll := false
  lock := none
  ackReceiveTimer := false
  msgTransDelayTimer := false
  pc := fun _ => none

end UfcsClass

def machine (allowed : UfcsClass → Action → Prop) : Runs.Machine UfcsClass Action where
  init c := ∃ config, c = .init config
  guard c a := c.Enabled a ∧ allowed c a
  next c a := c.next a

instance (allowed : UfcsClass → Action → Prop) [∀ c a, Decidable (allowed c a)] (c : UfcsClass)
    (a : Action) : Decidable ((machine allowed).guard c a) :=
  inferInstanceAs (Decidable (c.Enabled a ∧ allowed c a))

theorem reachable_exec {allowed : UfcsClass → Action → Prop} (config : UfcsConfig) (as : List Action)
    (h : (machine allowed).Allows (.init config) as) :
    (machine allowed).Reachable ((machine allowed).exec (.init config) as) := by
  have hinit : (machine allowed).init (.init config) := ⟨config, rfl⟩
  exact Runs.Machine.Reachable.exec (.init hinit) as h

end Sm8750Modules.UfcsSender
