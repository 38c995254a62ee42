import Sm8750Modules.UfcsPe.Engine

/-!
# UFCS policy engine — the handlers

Each handler of `g_pe_handler` from one wait to the next. Five requests only differ in the message and in
its answer; the power request, the verification, the detection of the cable and the vendor requests have
steps of their own.
-/

namespace Sm8750Modules.UfcsPe

def checkRefuseMsg (msg : Msg) (type : MsgType) (cmd : ℕ) : ℤ :=
  let typeNr := match type with
    | .ctrl => 0
    | .data => 1
    | .vendor => 2
  if msg.refuseType ≠ typeNr ∨ (type ≠ .vendor ∧ msg.refuseCmd ≠ cmd) then -eio
  else if msg.refuseReason = 3 then -eagain
  else -eio

def Exchange.message : Exchange → MsgType × ℕ
  | .outputCap => (.ctrl, 6)
  | .request => (.data, 2)
  | .srcInfo => (.ctrl, 7)
  | .devInfo => (.ctrl, 10)
  | .errorInfo => (.ctrl, 11)
  | .configWd => (.data, 8)
  | .verify => (.data, 10)
  | .startCable => (.ctrl, 13)
  | .getCable => (.ctrl, 9)
  | .detectCable => (.ctrl, 12)
  | .emark => (.vendor, 0)
  | .power => (.vendor, 0)

/-- The timers that the `err` path of a handler stops, and the `exit` path of those that have one. -/
def Exchange.errTimers : Exchange → Finset Timer
  | .request => {.senderResponse, .powerSupply}
  | .verify => {.senderResponse, .waitMsg}
  | .detectCable => {.senderResponse, .cableInfo, .restartTrans}
  | .emark => {.emarkMsg}
  | _ => {.senderResponse}

/-- The timer that runs while the answer is awaited. -/
def Exchange.timer : Exchange → Timer
  | .emark => .emarkMsg
  | _ => .senderResponse

variable (c : UfcsClass)

namespace UfcsClass

/-! ### Shared paths -/

variable (l : Local)

def ignore (c : UfcsClass) : UfcsClass := goto (.recv l) (freeEvent c)

def errPath (c : UfcsClass) : UfcsClass :=
  ret (sourceHardReset (freeEvent (stopAll l.exchange.errTimers c)))

def exitPath (c : UfcsClass) : UfcsClass :=
  ret (fail l.served (-eagain) (setCurr .idle (freeEvent (stopAll l.exchange.errTimers c))))

def answered (c : UfcsClass) : UfcsClass :=
  ret (freeEvent (setCurr .idle (succeed l.served c)))

/-- A refusal. From a busy adapter the message is sent once more after a soft reset. -/
def refusedRecv (e : Event) (c : UfcsClass) : UfcsClass :=
  match e.msg with
  | none => ignore l c
  | some msg =>
    let rc := checkRefuseMsg msg l.exchange.message.1 l.exchange.message.2
    if 0 ≤ rc then ignore l c
    else if rc ≠ -eagain then exitPath l c
    else if l.softReset then errPath l c
    else goto (.send { l with softReset := true }) (freeEvent (stop .senderResponse c))

variable (ts : Finset Timer)

def softResetRecv (c : UfcsClass) : UfcsClass :=
  ret (setCurr .softReset (stopAll ts c))

def unsupportedRecv (e : Event) (c : UfcsClass) : UfcsClass :=
  if e.msg.isSome then errPath l c else ignore l c

def answerRecv (answer : EventType) (needsMsg : Bool) (l : Local) (e : Event) (c : UfcsClass) :
    UfcsClass :=
  if e.type = .recvRefuse then refusedRecv l e c
  else if e.type = .timeout then exitPath l c
  else if e.type = answer then
    if needsMsg && e.msg.isNone then ignore l c else answered l (stop .senderResponse c)
  else if e.type = .recvSoftReset then softResetRecv {.senderResponse} c
  else unsupportedRecv l e c

/-- `ufcs_state_output_cap_handle`, from `re_recv` on. -/
def outputCapRecv : Local → Event → UfcsClass → UfcsClass := answerRecv .recvOutputCap true

/-- `ufcs_state_get_src_info_handle` -/
def srcInfoRecv : Local → Event → UfcsClass → UfcsClass := answerRecv .recvSourceInfo true

/-- `ufcs_state_get_dev_info_handle` -/
def devInfoRecv : Local → Event → UfcsClass → UfcsClass := answerRecv .recvDeviceInfo true

/-- `ufcs_state_get_error_info_handle` -/
def errorInfoRecv : Local → Event → UfcsClass → UfcsClass := answerRecv .recvErrorInfo true

/-- `ufcs_state_config_wd_handle` -/
def configWdRecv : Local → Event → UfcsClass → UfcsClass := answerRecv .recvAccept false

/-- `ufcs_state_request_handle`: the power is ready under a timer of its own. -/
def requestRecv (e : Event) (c : UfcsClass) : UfcsClass :=
  match e.type with
  | .recvRefuse => refusedRecv l e c
  | .timeout => exitPath l c
  | .recvAccept => goto (.recv l) (freeEvent (start .powerSupply (stop .senderResponse c)))
  | .recvPowerReady => answered l (stop .powerSupply c)
  | .recvSoftReset => softResetRecv {.senderResponse, .powerSupply} c
  | _ => unsupportedRecv l e c

/-- `ufcs_state_verify_request_handle`. -/
def verifyRecv (e : Event) (c : UfcsClass) : UfcsClass :=
  match e.type with
  | .recvRefuse => refusedRecv l e c
  | .timeout => exitPath l c
  | .recvAccept => goto (.recv l) (freeEvent (start .waitMsg (stop .senderResponse c)))
  | .recvGetDeviceInfo => goto (.devInfo l) (stop .waitMsg c)
  | .recvVerifyResponse =>
    if e.msg.isNone then ignore l c
    else answered l { stop .waitMsg c with err := 0 }
  | .recvSoftReset => softResetRecv {.senderResponse} c
  | _ => unsupportedRecv l e c

/-! ### The cable and the vendor requests -/

/-- What the handler of the cable info, or of a vendor request, does with an error of an exchange. -/
def peFailed (rc : ℤ) (c : UfcsClass) : UfcsClass :=
  if rc = -eproto then ret (fail l.served rc c)
  else if l.exchange = .getCable then goto (.endCable false l.served) c
  else ret (sourceHardReset c)

/-- `out` of an exchange with an error: its timers are stopped. -/
def peOut (rc : ℤ) (c : UfcsClass) : UfcsClass :=
  peFailed l rc (freeEvent (stopAll l.exchange.errTimers c))

/-- A refusal in these exchanges; `timedOut` is where a refusal that is not repeated falls through to. -/
def peRefusedRecv (timedOut : UfcsClass → UfcsClass) (l : Local) (e : Event) (c : UfcsClass) : UfcsClass :=
  match e.msg with
  | none => ignore l c
  | some msg =>
    let rc := checkRefuseMsg msg l.exchange.message.1 l.exchange.message.2
    if 0 ≤ rc then ignore l c
    else if rc = -eagain then
      if l.softReset then peOut l rc (stop l.exchange.timer c)
      else goto (.send { l with softReset := true }) (freeEvent (stop l.exchange.timer c))
    else timedOut (stop l.exchange.timer c)

def peTimeout (l : Local) (c : UfcsClass) : UfcsClass :=
  peFailed l (-eproto) (setCurr .idle (freeEvent (stopAll ts c)))

def peSoftReset (l : Local) (c : UfcsClass) : UfcsClass :=
  peFailed l (-eproto) (setCurr .softReset (stopAll ts c))

def peUnsupported (e : Event) (c : UfcsClass) : UfcsClass :=
  if e.msg.isSome then peOut l (-enotsupp) c else ignore l c

def startCableRecv (e : Event) (c : UfcsClass) : UfcsClass :=
  match e.type with
  | .recvRefuse => peRefusedRecv (peTimeout {.senderResponse} l) l e c
  | .timeout => peTimeout {.senderResponse} l c
  | .recvAccept =>
    goto (.send (.start .getCable l.served)) (freeEvent (stop .senderResponse c))
  | .recvSoftReset => peSoftReset {.senderResponse} l c
  | _ => peUnsupported l e c

def getCableRecv (e : Event) (c : UfcsClass) : UfcsClass :=
  match e.type with
  | .recvRefuse => peRefusedRecv (peTimeout {.senderResponse} l) l e c
  | .timeout => peTimeout {.senderResponse} l c
  | .recvCableInfo =>
    if e.msg.isNone then ignore l c
    else goto (.endCable true none) (succeed l.served (freeEvent (stop .senderResponse c)))
  | .recvSoftReset => peSoftReset {.senderResponse} l c
  | _ => peUnsupported l e c

/-- The timers that a timeout of the detection stops, by what was awaited. -/
def detectTimers : Finset Timer :=
  (if l.waitStart then {.cableInfo} else ∅) ∪
    if l.waitEnd || l.waitCableInfo then {.cableInfo, .restartTrans} else ∅

def detectCableRecv (e : Event) (c : UfcsClass) : UfcsClass :=
  match e.type with
  | .recvRefuse => peRefusedRecv (peTimeout (detectTimers l) l) l e c
  | .timeout => peTimeout (detectTimers l) l c
  | .recvAccept =>
    ignore { l with waitStart := true } (start .cableInfo (stop .senderResponse c))
  | .recvStartCableDetect => ignore { l with waitStart := false, waitEnd := true } (start .restartTrans c)
  | .recvEndCableDetect => ignore { l with waitEnd := false, waitCableInfo := true } (stop .restartTrans c)
  | .recvCableInfo =>
    if e.msg.isNone then ignore l c
    else ret (succeed l.served (setCurr .idle (freeEvent (stopAll l.exchange.errTimers c))))
  | .recvSoftReset => peSoftReset l.exchange.errTimers l c
  | _ => peUnsupported l e c

/-- The vendor requests: a timeout stops no timer. -/
def vendorRecv (answer : EventType) (l : Local) (e : Event) (c : UfcsClass) : UfcsClass :=
  if e.type = .recvRefuse then peRefusedRecv (peTimeout ∅ l) l e c
  else if e.type = .timeout then peTimeout ∅ l c
  else if e.type = answer then
    if e.msg.isNone then ignore l c
    else ret (succeed l.served (setCurr .idle (freeEvent (stop l.exchange.timer c))))
  else if e.type = .recvSoftReset then peSoftReset {l.exchange.timer} l c
  else peUnsupported l e c

def emarkRecv : Local → Event → UfcsClass → UfcsClass := vendorRecv .oplusRecvEmarkInfo

def powerRecv : Local → Event → UfcsClass → UfcsClass := vendorRecv .oplusRecvPowerInfo

def recvEvent (e : Event) (c : UfcsClass) : UfcsClass :=
  match l.exchange with
  | .outputCap => outputCapRecv l e c
  | .request => requestRecv l e c
  | .srcInfo => srcInfoRecv l e c
  | .devInfo => devInfoRecv l e c
  | .errorInfo => errorInfoRecv l e c
  | .configWd => configWdRecv l e c
  | .verify => verifyRecv l e c
  | .startCable => startCableRecv l e c
  | .getCable => getCableRecv l e c
  | .detectCable => detectCableRecv l e c
  | .emark => emarkRecv l e c
  | .power => powerRecv l e c

variable (retryCount : ℕ)

/-- `ufcs_state_handshake_handle`, at `retry`. -/
def handshakeRetry (served : Option ℕ) (c : UfcsClass) : UfcsClass :=
  goto (.handshake retryCount served) (start .handshake c)

/-- `err` of the handshake: its timer goes on. -/
def handshakeErr : UfcsClass := ret (sourceHardReset (freeEvent c))

/-- The handshake is repeated, or given up: `HANDSHAKE_RETRY_MAX` is three. -/
def handshakeAgain (served : Option ℕ) (c : UfcsClass) : UfcsClass :=
  if retryCount < 3 ∧ c.handshakeHardRetry = false then
    handshakeRetry (retryCount + 1) served (freeEvent c)
  else handshakeErr c

/-- `ufcs_state_handshake_handle`, from `re_recv` on. -/
def handshakeRecv (served : Option ℕ) (e : Event) (c : UfcsClass) : UfcsClass :=
  match e.type with
  | .recvAck => goto (.ping 0 served) (stop .handshake c)
  | .recvNck => handshakeAgain retryCount served (stop .handshake c)
  | .timeout => handshakeAgain retryCount served c
  | .recvSoftReset => ret (setCurr .softReset (stop .handshake c))
  | _ => if e.msg.isSome then handshakeErr c else goto (.handshake retryCount served) (freeEvent c)

def pingSent (baudRate : ℕ) (served : Option ℕ) (rc : ℤ) (c : UfcsClass) : UfcsClass :=
  if rc < 0 ∧ rc ≠ -ebusy then handshakeErr c
  else if 0 ≤ rc then
    ret (freeEvent (setCurr .idle (succeed served { c with handshakeSuccess := true })))
  else if baudRate + 1 < 4 then goto (.ping (baudRate + 1) served) c
  else handshakeErr c

def idleState : EventType → Option PeState
  | .recvHwReset => some .hwReset
  | .recvSoftReset => some .softReset
  | .recvGetSinkInfo => some .sendSinkInfo
  | .recvGetDeviceInfo => some .sendDeviceInfo
  | .recvGetErrorInfo => some .sendErrorInfo
  | .sendGetDeviceInfo => some .getDeviceInfo
  | .sendGetErrorInfo => some .getErrorInfo
  | .sendGetSourceInfo => some .getSourceInfo
  | .sendRequest => some .request
  | .sendGetOutputCap => some .outputCap
  | .recvExitUfcsMode => some .recvExit
  | .sendExitUfcsMode => some .sendExit
  | .handshake => some .handshake
  | .sendVerifyRequest => some .verifyRequest
  | .recvPowerChange => some .powerChange
  | .sendConfigWd => some .configWd
  | .sendStartCableDetect => some .getCableInfo
  | .oplusSendGetEmarkInfo => some .getEmarkInfo
  | .oplusSendGetPowerInfo => some .getPowerInfo
  | .recvTestRequest => some .testRequest
  | _ => none

/-- `ufcs_state_idel_handle`: the error is cleared, and the event kept for the handler of its state. -/
def idleHandle (e : Event) (c : UfcsClass) : UfcsClass :=
  let c := { c with peLock := true, err := 0 }
  match idleState e.type with
  | some s => ret (setCurr s c)
  | none =>
    if e.type ≠ .recvPing ∧ e.msg.isSome then goto .idleRefuse c else ret (freeEvent c)

def exchangeHandle (x : Exchange) (e : Event) (c : UfcsClass) : UfcsClass :=
  goto (.send (.start x e.request)) (freeEvent c)

def dataHandle (x : Exchange) (e : Event) (c : UfcsClass) : UfcsClass :=
  if e.data then exchangeHandle x e c
  else ret (setCurr .idle (freeEvent (fail e.request (-einval) c)))

/-- `ufcs_state_power_change_handle` and `ufcs_state_test_request_handle`. -/
def doneHandle : UfcsClass := ret (freeEvent (setCurr .idle c))

def handle (e : Event) (c : UfcsClass) : UfcsClass :=
  match c.curr with
  | .idle => idleHandle e c
  | .softReset => ret (resetSmWork (freeEvent c))
  | .hwReset => ret (exitSmWork (freeEvent c))
  | .sendExit => goto (.sendExit e.request) (freeEvent c)
  | .recvExit => ret { freeEvent c with handshakeSuccess := false }
  | .handshake => handshakeRetry 1 e.request (freeEvent c)
  | .outputCap => exchangeHandle .outputCap e c
  | .request => dataHandle .request e c
  | .getSourceInfo => exchangeHandle .srcInfo e c
  | .sendSinkInfo | .sendDeviceInfo | .sendErrorInfo => goto .reply c
  | .getCableInfo => exchangeHandle .startCable e c
  | .getDeviceInfo => exchangeHandle .devInfo e c
  | .getErrorInfo => exchangeHandle .errorInfo e c
  | .configWd => dataHandle .configWd e c
  | .verifyRequest => dataHandle .verify e c
  | .powerChange | .testRequest => doneHandle c
  | .getEmarkInfo => exchangeHandle .emark e c
  | .getPowerInfo => exchangeHandle .power e c

/-- The message of an exchange has been sent. -/
def exchangeSent (rc : ℤ) (c : UfcsClass) : UfcsClass :=
  if 0 ≤ rc then goto (.recv l) (start l.exchange.timer c)
  else
    match l.exchange with
    | .startCable | .getCable | .detectCable | .emark | .power =>
      peFailed l rc (stopAll l.exchange.errTimers c)
    | _ => ret (sourceHardReset (stopAll l.exchange.errTimers c))

/-- What was being sent has been sent, with a result. -/
def sent (rc : ℤ) (c : UfcsClass) : UfcsClass :=
  match c.pc with
  | .idleRefuse =>
    if rc < 0 ∧ rc ≠ -eagain then ret (sourceHardReset (freeEvent c)) else ret (freeEvent c)
  | .sendExit served => if rc < 0 then ret (sourceHardReset c) else ret (succeed served c)
  | .reply => ret (freeEvent (setCurr .idle c))
  | .ping baudRate served => pingSent baudRate served rc c
  | .send l => exchangeSent l rc c
  | .devInfo l =>
    if rc < 0 then errPath l c else goto (.recv l) (freeEvent (start .waitMsg c))
  | .endCable last served =>
    if last then ret (setCurr .idle c) else goto (.send (.start .detectCable served)) c
  | _ => c

/-- The first event is taken up, by the handler of the state or by the one that waits for it. -/
def take : UfcsClass :=
  match c.events with
  | [] => c
  | e :: _ =>
    match c.pc with
    | .next => handle e c
    | .recv l => recvEvent l e c
    | .handshake retryCount served => handshakeRecv retryCount served e c
    | _ => c

/-- Whether the task is in `ufcs_get_next_event`. -/
def gets : Bool :=
  match c.pc with
  | .next => c.awake
  | .recv _ | .handshake _ _ => true
  | _ => false

/-! ### Requests -/

def withData : EventType → Bool
  | .sendRequest | .sendConfigWd | .sendVerifyRequest => true
  | _ => false

/-- A call such as `__ufcs_pdo_set`, up to its wait. -/
def call (type : EventType) (c : UfcsClass) : UfcsClass :=
  let c := { c with done := 0, doneAll := false }
  let push (c : UfcsClass) : UfcsClass :=
    { pushEvent ⟨type, none, withData type, none, some c.nextId⟩ c with
      request := some ⟨c.nextId, type, false⟩
      nextId := c.nextId + 1 }
  if type = .handshake then { push c with awake := true, handshakeSuccess := false }
  else if c.handshakeSuccess then push c
  else c

/-- The requester has been completed and takes the result next. -/
def wake : UfcsClass :=
  match c.request with
  | none => c
  | some r =>
    { c with
      request := some { r with woken := true }
      done := if c.doneAll then c.done else c.done - 1
      handshakeSuccess := if r.type = .sendExitUfcsMode then false else c.handshakeSuccess }

def result (r : Request) (c : UfcsClass) : ℤ :=
  if r.type = .handshake then if c.handshakeSuccess then 0 else -eio else c.err

/-- `ufcs_force_exit`, while the task sleeps or waits for an event. -/
def forceExit : UfcsClass :=
  { exitSmWork c with pc := .next, peLock := false, awake := false }

end UfcsClass

/-- The requests that a call makes. -/
def requestTypes : List EventType :=
  [.sendGetOutputCap, .sendGetSourceInfo, .sendGetDeviceInfo, .sendGetErrorInfo, .sendStartCableDetect,
    .sendExitUfcsMode, .sendVerifyRequest, .sendRequest, .sendConfigWd, .oplusSendGetEmarkInfo,
    .oplusSendGetPowerInfo, .handshake]

/-- What `ufcs_send_msg` and the functions that build a message return. -/
def sendResults : List ℤ := [0, -eagain, -einval, -eio, -enotsupp, -enomem]

/-- One step of a party. -/
inductive Action where
  /-- a message of the adapter, or the end of a handshake in the port -/
  | push (e : Event)
  | fire (t : Timer)
  | call (type : EventType)
  | wake
  | read
  | take
  /-- the task refuses the message of the first event, as `ufcs_get_next_event` does -/
  | refuse
  | sent (rc : ℤ)
  | exit
deriving DecidableEq, Repr

namespace UfcsClass

/-- Whether the first event is one that `ufcs_get_next_event` refuses by itself. -/
def refuses : Bool :=
  match c.events with
  | [] => false
  | e :: _ => e.type = .sendRefuse

/-- Whether an action can be taken. -/
def Enabled : Action → Prop
  | .push e =>
    e.request = none ∧ e.timer = none ∧ e.type ∉ requestTypes ∧ (e.type = .timeout → e.msg = none) ∧
      (e.msg = none → c.curr = .handshake)
  | .fire t => t ∈ c.armed
  | .call type => c.request = none ∧ c.peLock = false ∧ type ∈ requestTypes
  | .wake => (∃ r, c.request = some r ∧ r.woken = false) ∧ (0 < c.done ∨ c.doneAll = true)
  | .read => ∃ r, c.request = some r ∧ r.woken = true
  | .take => c.gets = true ∧ c.events ≠ [] ∧ c.refuses = false
  | .refuse => c.gets = true ∧ c.refuses = true
  | .sent rc => c.gets = false ∧ c.pc ≠ .next ∧ rc ∈ sendResults
  | .exit => c.gets = true ∨ c.pc = .next

instance (c : UfcsClass) : ∀ a, Decidable (c.Enabled a) := by
  intro a
  cases a <;> dsimp only [Enabled] <;> infer_instance

def next : Action → UfcsClass
  | .push e => pushEvent e c
  | .fire t => pushEvent ⟨.timeout, none, false, some t, none⟩ { c with armed := c.armed.erase t }
  | .call type => call type c
  | .wake => wake c
  | .read => { c with request := none }
  | .take => take c
  | .refuse => freeEvent c
  | .sent rc => sent rc c
  | .exit => forceExit c

/-- The engine after its start. -/
def init (handshakeHardRetry : Bool) : UfcsClass where
  handshakeHardRetry := handshakeHardRetry
  events := []
  armed := ∅
  curr := .idle
  err := 0
  done := 0
  doneAll := false
  handshakeSuccess := false
  peLock := false
  awake := false
  pc := .next
  request := none
  nextId := 0
  outcome := fun _ => none

end UfcsClass

def machine (allowed : UfcsClass → Action → Prop) : Runs.Machine UfcsClass Action where
  init c := ∃ handshakeHardRetry, c = .init handshakeHardRetry
  guard c a := c.Enabled a ∧ allowed c a
  next c a := c.next a

instance (allowed : UfcsClass → Action → Prop) [∀ c a, Decidable (allowed c a)] (c : UfcsClass)
    (a : Action) : Decidable ((machine allowed).guard c a) :=
  inferInstanceAs (Decidable (c.Enabled a ∧ allowed c a))

theorem reachable_exec {allowed : UfcsClass → Action → Prop} (handshakeHardRetry : Bool)
    (as : List Action) (h : (machine allowed).Allows (.init handshakeHardRetry) as) :
    (machine allowed).Reachable ((machine allowed).exec (.init handshakeHardRetry) as) := by
  have hinit : (machine allowed).init (.init handshakeHardRetry) := ⟨handshakeHardRetry, rfl⟩
  exact Runs.Machine.Reachable.exec (.init hinit) as h

def Event.received (type : EventType) : Event := ⟨type, some ⟨0, 0, 0⟩, false, none, none⟩

def handshakeRun : List Action :=
  [.call .handshake, .take, .take, .push ⟨.recvAck, none, false, none, none⟩, .take, .sent 0, .wake, .read]

def requestRun : List Action := [.call .sendRequest, .take, .take, .sent 0]

end Sm8750Modules.UfcsPe
