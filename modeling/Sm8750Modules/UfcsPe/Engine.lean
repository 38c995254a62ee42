import Sm8750Modules.Lib.Runs

/-!
# UFCS policy engine — the states and what moves them

A request for the adapter is an event in a list. The task of the policy engine takes the events from the
list, sends the message of the request, waits for the answer under a timer and completes the request; the
requester reads the error that the handler has left.

A handler runs from one wait to the next in one step: it waits for an event, for the end of a message that
it sends, or for the lock of the idle state.
-/

namespace Sm8750Modules.UfcsPe

def eio : ℤ := 5
def eagain : ℤ := 11
def enomem : ℤ := 12
def ebusy : ℤ := 16
def einval : ℤ := 22
def eproto : ℤ := 71
def enotsupp : ℤ := 524

/-- `enum ufcs_timer`, without the two timers of the sender and the one that nothing starts. -/
inductive Timer where
  | senderResponse
  | powerSupply
  | cableInfo
  | restartTrans
  | handshake
  | waitMsg
  | emarkMsg
deriving DecidableEq, Repr

/-- `enum ufcs_event_type`, without the types that no one pushes. -/
inductive EventType where
  | sendGetOutputCap
  | sendGetSourceInfo
  | sendGetDeviceInfo
  | sendGetErrorInfo
  | sendStartCableDetect
  | sendExitUfcsMode
  | sendVerifyRequest
  | sendRequest
  | sendConfigWd
  | sendRefuse
  | oplusSendGetEmarkInfo
  | oplusSendGetPowerInfo
  | recvHwReset
  | recvPing
  | recvAck
  | recvNck
  | recvAccept
  | recvSoftReset
  | recvPowerReady
  | recvGetSinkInfo
  | recvGetDeviceInfo
  | recvGetErrorInfo
  | recvDetectCableInfo
  | recvStartCableDetect
  | recvEndCableDetect
  | recvExitUfcsMode
  | recvVerifyRequest
  | recvVerifyResponse
  | recvOutputCap
  | recvRequest
  | recvSourceInfo
  | recvSinkInfo
  | recvDeviceInfo
  | recvCableInfo
  | recvErrorInfo
  | recvConfigWd
  | recvRefuse
  | recvPowerChange
  | recvTestRequest
  | oplusRecvEmarkInfo
  | oplusRecvPowerInfo
  | handshake
  | timeout
deriving DecidableEq, Repr

inductive MsgType where
  | ctrl
  | data
  | vendor
deriving DecidableEq, Repr

/-- What the handlers read of a message: the fields of a refusal. -/
structure Msg where
  refuseType : ℕ
  refuseCmd : ℕ
  refuseReason : ℕ
deriving DecidableEq, Repr

/-- `struct ufcs_event`, with the timer that pushed it or the request that it stands for. -/
structure Event where
  type : EventType
  msg : Option Msg
  /-- whether `data` is there -/
  data : Bool
  timer : Option Timer
  request : Option ℕ
deriving DecidableEq, Repr

/-- `enum ufcs_pe_state`, without the two states that nothing enters. -/
inductive PeState where
  | idle
  | softReset
  | hwReset
  | sendExit
  | recvExit
  | handshake
  | outputCap
  | request
  | sendSinkInfo
  | getSourceInfo
  | getCableInfo
  | getDeviceInfo
  | getErrorInfo
  | sendDeviceInfo
  | sendErrorInfo
  | configWd
  | verifyRequest
  | powerChange
  | getEmarkInfo
  | getPowerInfo
  | testRequest
deriving DecidableEq, Repr

/-- The messages that are sent for a request and answered. -/
inductive Exchange where
  | outputCap
  | request
  | srcInfo
  | devInfo
  | errorInfo
  | configWd
  | verify
  | startCable
  | getCable
  | detectCable
  | emark
  | power
deriving DecidableEq, Repr

/-- The local variables of a handler in an exchange, and the request that it serves. -/
structure Local where
  exchange : Exchange
  softReset : Bool
  waitStart : Bool
  waitEnd : Bool
  waitCableInfo : Bool
  served : Option ℕ
deriving DecidableEq, Repr

def Local.start (x : Exchange) (served : Option ℕ) : Local := ⟨x, false, false, false, false, served⟩

inductive Pc where
  /-- for the next event of `ufcs_sm_task` -/
  | next
  | idleRefuse
  | sendExit (served : Option ℕ)
  /-- for the end of the answer to a request of the adapter -/
  | reply
  | handshake (retryCount : ℕ) (served : Option ℕ)
  | ping (baudRate : ℕ) (served : Option ℕ)
  /-- for the end of the message of an exchange -/
  | send (l : Local)
  /-- for the answer of an exchange -/
  | recv (l : Local)
  /-- for the end of the device info that the verification is asked for -/
  | devInfo (l : Local)
  | endCable (last : Bool) (served : Option ℕ)
deriving DecidableEq, Repr

/-- The request that a handler serves. -/
def Pc.served : Pc → Option ℕ
  | .sendExit served | .handshake _ served | .ping _ served | .endCable _ served => served
  | .send l | .recv l | .devInfo l => l.served
  | _ => none

/-- How the handler of a request ended. -/
inductive Outcome where
  | success
  | failure (rc : ℤ)
deriving DecidableEq, Repr

/-- A call under way: it waits for `request_ack`, or has woken and not yet read the result. -/
structure Request where
  id : ℕ
  type : EventType
  woken : Bool
deriving DecidableEq, Repr

/-- The part of `struct ufcs_class` that the engine and the requesters share. -/
structure UfcsClass where
  handshakeHardRetry : Bool
  events : List Event
  armed : Finset Timer
  curr : PeState
  err : ℤ
  /-- `request_ack`, and whether it was completed for all -/
  done : ℕ
  doneAll : Bool
  handshakeSuccess : Bool
  peLock : Bool
  /-- whether the task is in its inner loop -/
  awake : Bool
  pc : Pc
  request : Option Request
  nextId : ℕ
  /-- how the requests ended -/
  outcome : ℕ → Option Outcome

namespace UfcsClass

def start (t : Timer) (c : UfcsClass) : UfcsClass := { c with armed := insert t c.armed }

def stop (t : Timer) (c : UfcsClass) : UfcsClass := { c with armed := c.armed.erase t }

def stopAll (ts : Finset Timer) (c : UfcsClass) : UfcsClass := { c with armed := c.armed \ ts }

def pushEvent (e : Event) (c : UfcsClass) : UfcsClass := { c with events := c.events ++ [e] }

variable (c : UfcsClass)

def freeEvent : UfcsClass := { c with events := c.events.tail }

def goto (pc : Pc) (c : UfcsClass) : UfcsClass := { c with pc := pc }

def setCurr (s : PeState) (c : UfcsClass) : UfcsClass := { c with curr := s }

def ret : UfcsClass :=
  { c with pc := .next, peLock := if c.curr = .idle then false else c.peLock }

variable (served : Option ℕ)

/-- How a request ended, where there is one. -/
def record (o : Outcome) (c : UfcsClass) : UfcsClass :=
  { c with
    outcome := match served with
      | none => c.outcome
      | some n => Function.update c.outcome n (some o) }

/-- `complete(&request_ack)` on the way of success. -/
def succeed (c : UfcsClass) : UfcsClass :=
  record served .success { c with done := c.done + 1 }

def fail (rc : ℤ) (c : UfcsClass) : UfcsClass :=
  record served (.failure rc) { c with err := rc, done := c.done + 1 }

/-- The request under way, unless it has ended before. -/
def pending : Option ℕ :=
  match c.request with
  | none => none
  | some r => if (c.outcome r.id).isSome then none else some r.id

def failPending (rc : ℤ) (c : UfcsClass) : UfcsClass := record c.pending (.failure rc) c

def exitSmWork : UfcsClass :=
  failPending (-eio)
    { c with
      events := []
      handshakeSuccess := false
      curr := .idle
      err := -eio
      doneAll := true }

def resetSmWork : UfcsClass :=
  failPending (-eagain) { c with events := [], curr := .idle, err := -eagain, doneAll := true }

def sourceHardReset : UfcsClass := { exitSmWork c with handshakeSuccess := false }

end UfcsClass

end Sm8750Modules.UfcsPe
