import Sm8750Modules.Lib.Runs

/-!
# Uplink aggregation and its flush timer

Senders hand packets to `rmnet_map_tx_aggregate`, which collects them in one buffer and starts
a timer with the first; the timer queues a work item that ships the buffer. A buffer also goes
out when a packet does not fit, for a priority packet, for a QMAP command and for a TSO packet.
Each of these empties the buffer under `agg_lock` and cancels the timer **after the lock is
released**. The machine below takes one section of the lock, one cancellation or one unlocked
send at a time.
-/

namespace Rmnet

open Runs Function List

/-! ## Packets, buffers and callers -/

/-- An uplink packet, with the thread that hands it over. -/
structure Skb where
  sender : ℕ
  id : ℕ
  len : ℕ
  priority : ℕ
deriving DecidableEq, Repr

/-- `RMNET_LLM`. -/
def Skb.llm (p : Skb) : Bool :=
  p.priority == 0xDA001A

def Skb.apsLlb (p : Skb) : Bool :=
  p.priority >>> 16 == 0x9B6D && p.priority &&& 0x0200 != 0

/-- What `send_agg_skb` is given. -/
inductive Frame where
  | packet (p : Skb)
  | other (n : ℕ)
deriving DecidableEq, Repr

def Frame.packetOf (s : ℕ) : Frame → Option Skb
  | .packet p => if p.sender = s then some p else none
  | .other _ => none

/-- The aggregation buffer: the packets copied into it, and how many bytes it takes. -/
structure AggSkb where
  packets : List Skb
  capacity : ℕ
deriving DecidableEq, Repr

def AggSkb.tailroom (b : AggSkb) : ℕ :=
  b.capacity - (b.packets.map Skb.len).sum

/-- Where a thread stands outside the lock. -/
inductive Caller where
  | idle
  /-- at `new_packet` of `rmnet_map_tx_aggregate` -/
  | newPacket (p : Skb)
  /-- about to flush the buffer, and then to send a frame -/
  | flush (f : Frame)
  /-- at the `hrtimer_cancel` that follows a flush -/
  | cancel (rest : Caller)
  /-- about to send a frame without the lock -/
  | sending (f : Frame)
deriving DecidableEq, Repr

/-- What stays fixed: the page size and the room `build_skb` keeps at a buffer's end, the
module's two times and the port's format. -/
structure Setting where
  pageSize : ℕ
  sharedInfo : ℕ
  aggTimeLimit : ℤ
  aggBypassTime : ℤ
  egressPriority : Bool
  egressAggregation : Bool

/-- An aggregation state with its timer, its work item, the threads that use it, and what they
have handed over so far. -/
structure State where
  aggSize : ℕ
  aggCountMax : ℕ
  aggSizeOrder : ℕ
  aggTime : ℤ
  aggLast : ℤ
  aggSkb : Option AggSkb
  aggCount : ℕ
  inProgress : Bool
  hrtimer : Bool
  queued : Bool
  running : Bool
  panicked : Bool
  callers : ℕ → Caller
  sent : List Frame
  given : ℕ → List Skb

namespace State

variable (g : Setting) (σ : State)

/-- The packets in the buffer. -/
def held : List Skb :=
  match σ.aggSkb with
  | none => []
  | some b => b.packets

def setCaller (s : ℕ) (c : Caller) : State :=
  { σ with callers := Function.update σ.callers s c }

@[simp]
theorem callers_setCaller_self (s : ℕ) (c : Caller) : (σ.setCaller s c).callers s = c := by
  simp [setCaller]

theorem callers_setCaller_of_ne {s t : ℕ} (c : Caller) (h : t ≠ s) :
    (σ.setCaller s c).callers t = σ.callers t := by
  simp [setCaller, h]

/-- `send_agg_skb`. -/
def send (f : Frame) : State :=
  { σ with sent := σ.sent ++ [f] }

/-- The packets of the buffer go out and the aggregation state is reset. -/
def ship : State :=
  { σ with
    sent := σ.sent ++ σ.held.map .packet
    aggSkb := none
    aggCount := 0
    aggTime := 0
    inProgress := false }

/-- The locked part of `rmnet_map_send_agg_skb`, and what its caller does next. -/
def sendAggSkb (s : ℕ) (rest : Caller) : State :=
  match σ.aggSkb with
  | none => σ.setCaller s rest
  | some _ => σ.ship.setCaller s (.cancel rest)

/-- `rmnet_map_build_skb`: how many bytes a new buffer takes. -/
def capacity : ℕ :=
  g.pageSize <<< σ.aggSizeOrder - g.sharedInfo

/-- `rmnet_map_linearize_copy` into a buffer, where `skb_put` panics past its end. -/
def linearizeCopy (b : AggSkb) (p : Skb) : State :=
  if b.tailroom < p.len then { σ with panicked := true }
  else { σ with aggSkb := some { b with packets := b.packets ++ [p] } }

/-- The end of `rmnet_map_tx_aggregate`: the first packet starts the timer. -/
def schedule : State :=
  if σ.inProgress then σ else { σ with inProgress := true, hrtimer := true }

/-- More than `limit` nanoseconds in the difference of two times, or a second. -/
def exceeds (limit diff : ℤ) : Bool :=
  0 < diff / 1000000000 || limit < diff % 1000000000

def priority (p : Skb) : Bool :=
  g.egressPriority && (p.llm || p.apsLlb)

def bypasses (now : ℤ) (p : Skb) : Bool :=
  exceeds g.aggBypassTime (now - σ.aggLast) || σ.aggSize ≤ p.len

/-- One section of `rmnet_map_tx_aggregate` at the time `now`, where `page` says whether a buffer
can be built. -/
def newPacket (s : ℕ) (now : ℤ) (page : Bool) (p : Skb) : State :=
  let σ' := { σ with aggLast := now }
  if priority g p then
    σ'.sendAggSkb s (.sending (.packet p))
  else
    match σ.aggSkb with
    | none =>
      if σ.bypasses g now p then (σ'.send (.packet p)).setCaller s .idle
      else if !page then
        ({ σ' with aggCount := 0, aggTime := 0 }.send (.packet p)).setCaller s .idle
      else
        ({ σ' with aggCount := 1, aggTime := now }.linearizeCopy
          ⟨[], σ.capacity g⟩ p).schedule.setCaller s .idle
    | some b =>
      if b.tailroom < p.len || σ.aggCountMax ≤ σ.aggCount ||
          exceeds g.aggTimeLimit (now - σ.aggTime) then
        σ'.sendAggSkb s (.newPacket p)
      else
        ({ σ' with aggCount := σ.aggCount + 1 }.linearizeCopy b p).schedule.setCaller s .idle

def flushTxPacketWork : State :=
  if σ.inProgress then σ.ship else σ

def updateUlAggConfig (size count : ℕ) : State :=
  if size < g.pageSize then { σ with aggSize := size, aggCountMax := count }
  else
    let order := Nat.clog 2 ((size + g.pageSize - 1) / g.pageSize)
    { σ with
      aggSize := (g.pageSize <<< order - g.sharedInfo) % 65536
      aggCountMax := count
      aggSizeOrder := order }

end State

/-! ## The machine -/

/-- One step: a call arrives, a thread passes the lock, the cancellation or the send it stands at,
the timer expires, the work item is taken up or passes the lock, the configuration changes. -/
inductive Event where
  | transmit (p : Skb)
  | command (s n : ℕ) (flush : Bool)
  | tso (s n : ℕ)
  | locked (s : ℕ) (now : ℤ) (page : Bool)
  | cancel (s : ℕ)
  | send (s : ℕ)
  | expire
  | workStart
  | workRun
  | config (size count : ℕ)
deriving DecidableEq, Repr

namespace State

variable (g : Setting) (σ : State)

/-- The section that a thread waits for. -/
def locked (s : ℕ) (now : ℤ) (page : Bool) : State :=
  match σ.callers s with
  | .newPacket p => σ.newPacket g s now page p
  | .flush f => σ.sendAggSkb s (.sending f)
  | _ => σ

def cancelTimer (s : ℕ) : State :=
  match σ.callers s with
  | .cancel rest => { σ with hrtimer := false }.setCaller s rest
  | _ => σ

/-- A send without the lock, which ends the call. -/
def sendUnlocked (s : ℕ) : State :=
  match σ.callers s with
  | .sending f => (σ.send f).setCaller s .idle
  | _ => σ

def next : Event → State
  | .transmit p =>
    { σ with given := Function.update σ.given p.sender (σ.given p.sender ++ [p]) }.setCaller
      p.sender (.newPacket p)
  -- `rmnet_map_tx_qmap_cmd`
  | .command s n flush =>
    σ.setCaller s (if flush && g.egressAggregation then .flush (.other n) else .sending (.other n))
  -- the TSO branch of `rmnet_map_egress_handler`
  | .tso s n => σ.setCaller s (.flush (.other n))
  | .locked s now page => σ.locked g s now page
  | .cancel s => σ.cancelTimer s
  | .send s => σ.sendUnlocked s
  -- `rmnet_map_flush_tx_packet_queue`
  | .expire => { σ with hrtimer := false, queued := true }
  | .workStart => { σ with queued := false, running := true }
  | .workRun => { σ.flushTxPacketWork with running := false }
  | .config size count => σ.updateUlAggConfig g size count

end State

/-- The thread waits for the lock. -/
def Caller.atLock : Caller → Bool
  | .newPacket _ | .flush _ => true
  | _ => false

/-- The thread stands at a cancellation. -/
def Caller.atCancel : Caller → Bool
  | .cancel _ => true
  | _ => false

/-- The thread stands at an unlocked send. -/
def Caller.atSend : Caller → Bool
  | .sending _ => true
  | _ => false

/-- Which steps can be taken: none after a panic, a thread makes one call at a time, and a work
item does not run twice at once. -/
def Event.Enabled (σ : State) : Event → Prop
  | .transmit p => σ.panicked = false ∧ σ.callers p.sender = .idle
  | .command s _ _ | .tso s _ => σ.panicked = false ∧ σ.callers s = .idle
  | .locked s _ _ => σ.panicked = false ∧ (σ.callers s).atLock = true
  | .cancel s => σ.panicked = false ∧ (σ.callers s).atCancel = true
  | .send s => σ.panicked = false ∧ (σ.callers s).atSend = true
  | .expire => σ.panicked = false ∧ σ.hrtimer = true
  | .workStart => σ.panicked = false ∧ σ.queued = true ∧ σ.running = false
  | .workRun => σ.panicked = false ∧ σ.running = true
  | .config _ _ => σ.panicked = false

instance (σ : State) : ∀ e : Event, Decidable (e.Enabled σ) := by
  intro e
  cases e <;> dsimp only [Event.Enabled] <;> infer_instance

/-- An empty aggregation state. -/
structure State.Init (σ : State) : Prop where
  aggSkb : σ.aggSkb = none
  inProgress : σ.inProgress = false
  panicked : σ.panicked = false
  callers : ∀ s, σ.callers s = .idle
  sent : σ.sent = []
  given : ∀ s, σ.given s = []

/-- Senders, commands, the timer and its work in any order. -/
def aggregation (g : Setting) : Machine State Event where
  init := State.Init
  guard := fun σ e => e.Enabled σ
  next := State.next g

instance (g : Setting) (σ : State) (e : Event) : Decidable ((aggregation g).guard σ e) :=
  inferInstanceAs (Decidable (e.Enabled σ))

namespace State

def sentBy (σ : State) (s : ℕ) : List Skb :=
  σ.sent.filterMap (Frame.packetOf s)

def heldBy (σ : State) (s : ℕ) : List Skb :=
  σ.held.filter (·.sender = s)

end State

def Frame.packets : Frame → List Skb
  | .packet p => [p]
  | .other _ => []

/-- The packet that a call still has to pass on. -/
def Caller.inHand : Caller → List Skb
  | .idle => []
  | .newPacket p => [p]
  | .flush f | .sending f => f.packets
  | .cancel rest => rest.inHand

def State.flushSteps (σ : State) : List Event :=
  if σ.running then [.workRun]
  else if σ.queued then [.workStart, .workRun]
  else if σ.hrtimer then [.expire, .workStart, .workRun]
  else []

/-- **Nothing is stranded, lost, repeated or reordered**. -/
structure NeverStrands (g : Setting) (σ : State) : Prop where
  covered : σ.aggSkb.isSome → σ.hrtimer ∨ σ.queued ∨ σ.running
  inOrder : ∀ s, σ.sentBy s ++ σ.heldBy s ++ (σ.callers s).inHand = σ.given s
  sends : ∀ s, σ.callers s = .idle →
    ((aggregation g).exec σ σ.flushSteps).sentBy s = σ.given s

/-! ## The invariant -/

/-- A thread that has flushed the buffer and is left with its send. -/
def Caller.Flushed : Caller → Prop
  | .sending _ => True
  | .cancel rest => rest.Flushed
  | _ => False

/-- The buffer and its flags belong together. -/
structure BufferOk (σ : State) : Prop where
  state : σ.inProgress = σ.aggSkb.isSome
  covered : σ.aggSkb.isSome → σ.hrtimer ∨ σ.queued ∨ σ.running
  alive : σ.panicked = false

/-- The packets of a sender that stands at `c` are all accounted for. -/
structure SenderOk (σ : State) (s : ℕ) (c : Caller) : Prop where
  inOrder : σ.sentBy s ++ σ.heldBy s ++ c.inHand = σ.given s
  owns : ∀ p ∈ c.inHand, p.sender = s
  flushed : c.Flushed → c.inHand ≠ [] → σ.heldBy s = []

structure Sound (σ : State) : Prop where
  buffer : BufferOk σ
  senders : ∀ s, SenderOk σ s (σ.callers s)

section Effects

variable {g : Setting} {σ σ' : State} {s t : ℕ} {c c' : Caller} {p : Skb}

theorem SenderOk.congr (h : SenderOk σ t c) (hsent : σ'.sent = σ.sent) (hheld : σ'.held = σ.held)
    (hgiven : σ'.given t = σ.given t) : SenderOk σ' t c := by
  have hsentBy : σ'.sentBy t = σ.sentBy t := by rw [State.sentBy, hsent, State.sentBy]
  have hheldBy : σ'.heldBy t = σ.heldBy t := by rw [State.heldBy, hheld, State.heldBy]
  exact ⟨by rw [hsentBy, hheldBy, hgiven]; exact h.inOrder, h.owns,
    fun hf hne => hheldBy.trans (h.flushed hf hne)⟩

theorem filterMap_packetOf (l : List Skb) (s : ℕ) :
    (l.map Frame.packet).filterMap (Frame.packetOf s) = l.filter (·.sender = s) := by
  rw [filterMap_map, ← filterMap_eq_filter]
  congr 1
  funext p
  by_cases h : p.sender = s <;> simp [Frame.packetOf, Option.guard, h]

theorem SenderOk.ship (h : SenderOk σ t c) (hhand : c'.inHand = c.inHand) : SenderOk σ.ship t c' := by
  have hsent : σ.ship.sentBy t = σ.sentBy t ++ σ.heldBy t := by
    show (σ.sent ++ σ.held.map Frame.packet).filterMap (Frame.packetOf t) = _
    rw [filterMap_append, filterMap_packetOf]
    rfl
  have hheld : σ.ship.heldBy t = [] := rfl
  refine ⟨?_, ?_, fun _ _ => hheld⟩
  · rw [hsent, hheld, append_nil, hhand]
    exact h.inOrder
  · rw [hhand]
    exact h.owns

theorem BufferOk.ship (h : BufferOk σ) : BufferOk σ.ship :=
  ⟨rfl, fun hsome => absurd hsome (by simp [State.ship]), h.alive⟩

theorem packetOf_eq (f : Frame) (s : ℕ) (h : ∀ p ∈ f.packets, p.sender = s) :
    [f].filterMap (Frame.packetOf s) = f.packets := by
  cases f with
  | packet p => simp [Frame.packetOf, h p (mem_singleton_self p), Frame.packets]
  | other n => rfl

theorem packetOf_ne (f : Frame) (h : ∀ p ∈ f.packets, p.sender = s) (hne : t ≠ s) :
    [f].filterMap (Frame.packetOf t) = [] := by
  cases f with
  | packet p =>
    have hs := h p (mem_singleton_self p)
    simp [Frame.packetOf, hs, hne.symm]
  | other n => rfl

theorem SenderOk.send_other (h : SenderOk σ t c) {f : Frame} (hf : ∀ p ∈ f.packets, p.sender = s)
    (hne : t ≠ s) : SenderOk (σ.send f) t c := by
  have hsent : (σ.send f).sentBy t = σ.sentBy t := by
    show (σ.sent ++ [f]).filterMap (Frame.packetOf t) = _
    rw [filterMap_append, packetOf_ne f hf hne, append_nil]
    rfl
  exact ⟨by rw [hsent]; exact h.inOrder, h.owns, h.flushed⟩

theorem SenderOk.send_self (h : SenderOk σ s c) {f : Frame} (hf : f.packets = c.inHand)
    (hheld : f.packets ≠ [] → σ.heldBy s = []) : SenderOk (σ.send f) s .idle := by
  have hsent : (σ.send f).sentBy s = σ.sentBy s ++ f.packets := by
    show (σ.sent ++ [f]).filterMap (Frame.packetOf s) = _
    rw [filterMap_append, packetOf_eq f s (hf ▸ h.owns)]
    rfl
  have hsame : (σ.send f).heldBy s = σ.heldBy s := rfl
  refine ⟨?_, fun p hp => absurd hp (by simp [Caller.inHand]), fun hfl => hfl.elim⟩
  show (σ.send f).sentBy s ++ (σ.send f).heldBy s ++ [] = σ.given s
  rw [hsent, hsame, append_nil, ← h.inOrder, ← hf]
  by_cases hnil : f.packets = []
  · simp [hnil]
  · simp [hheld hnil]

theorem SenderOk.append_other (h : SenderOk σ t c) (hsent : σ'.sent = σ.sent)
    (hheld : σ'.held = σ.held ++ [p]) (hgiven : σ'.given t = σ.given t) (hne : t ≠ p.sender) :
    SenderOk σ' t c := by
  have hsentBy : σ'.sentBy t = σ.sentBy t := by rw [State.sentBy, hsent, State.sentBy]
  have hheldBy : σ'.heldBy t = σ.heldBy t := by
    rw [State.heldBy, hheld, filter_append, filter_singleton]
    simp [Ne.symm hne, State.heldBy]
  exact ⟨by rw [hsentBy, hheldBy, hgiven]; exact h.inOrder, h.owns,
    fun hf hn => hheldBy.trans (h.flushed hf hn)⟩

theorem SenderOk.append_self (h : SenderOk σ s c) (hsent : σ'.sent = σ.sent)
    (hheld : σ'.held = σ.held ++ [p]) (hgiven : σ'.given s = σ.given s) (hhand : c.inHand = [p]) :
    SenderOk σ' s .idle := by
  have hsentBy : σ'.sentBy s = σ.sentBy s := by rw [State.sentBy, hsent, State.sentBy]
  have howns : p.sender = s := h.owns p (by rw [hhand]; exact mem_singleton_self p)
  have hheldBy : σ'.heldBy s = σ.heldBy s ++ [p] := by
    rw [State.heldBy, hheld, filter_append, filter_singleton]
    simp [howns, State.heldBy]
  refine ⟨?_, fun p hp => absurd hp (by simp [Caller.inHand]), fun hf => hf.elim⟩
  show σ'.sentBy s ++ σ'.heldBy s ++ [] = σ'.given s
  rw [hsentBy, hheldBy, hgiven, ← h.inOrder, hhand, append_nil, append_assoc]

theorem senders_setCaller (hself : SenderOk σ s c)
    (hothers : ∀ t, t ≠ s → SenderOk σ t (σ.callers t)) (t : ℕ) :
    SenderOk (σ.setCaller s c) t ((σ.setCaller s c).callers t) := by
  by_cases h : t = s
  · rw [h, State.callers_setCaller_self]
    exact hself.congr rfl rfl rfl
  · rw [State.callers_setCaller_of_ne σ c h]
    exact (hothers t h).congr rfl rfl rfl

theorem Sound.sendAggSkb (h : Sound σ) {rest : Caller} (hhand : rest.inHand = (σ.callers s).inHand) :
    Sound (σ.sendAggSkb s rest) := by
  rw [State.sendAggSkb]
  split
  · rename_i hnone
    have hheld : σ.heldBy s = [] := by rw [State.heldBy, State.held, hnone]; rfl
    refine ⟨⟨h.buffer.state, h.buffer.covered, h.buffer.alive⟩,
      senders_setCaller ⟨?_, ?_, fun _ _ => hheld⟩ fun t _ => h.senders t⟩
    · rw [hhand]
      exact (h.senders s).inOrder
    · rw [hhand]
      exact (h.senders s).owns
  · exact ⟨⟨h.buffer.ship.state, h.buffer.ship.covered, h.buffer.ship.alive⟩,
      senders_setCaller ((h.senders s).ship hhand) fun t _ => (h.senders t).ship rfl⟩

theorem Sound.send (h : Sound σ) {f : Frame} (hf : f.packets = (σ.callers s).inHand)
    (hheld : f.packets ≠ [] → σ.heldBy s = []) : Sound ((σ.send f).setCaller s .idle) :=
  ⟨⟨h.buffer.state, h.buffer.covered, h.buffer.alive⟩,
    senders_setCaller ((h.senders s).send_self hf hheld) fun t hne =>
      (h.senders t).send_other (s := s) (hf ▸ (h.senders s).owns) hne⟩

theorem Sound.linearizeCopy (h : Sound σ) {b : AggSkb} (hb : b.packets = σ.held)
    (hfit : ¬b.tailroom < p.len) (hhand : (σ.callers s).inHand = [p]) :
    Sound ((σ.linearizeCopy b p).schedule.setCaller s .idle) := by
  have howns : p.sender = s := (h.senders s).owns p (by rw [hhand]; exact mem_singleton_self p)
  rw [State.linearizeCopy, if_neg hfit, State.schedule]
  have hheld : b.packets ++ [p] = σ.held ++ [p] := by rw [hb]
  split
  · rename_i hin
    have hsome : σ.aggSkb.isSome := h.buffer.state ▸ hin
    exact ⟨⟨hin, fun _ => h.buffer.covered hsome, h.buffer.alive⟩,
      senders_setCaller ((h.senders s).append_self rfl hheld rfl hhand) fun t hne =>
        (h.senders t).append_other rfl hheld rfl (howns ▸ hne)⟩
  · exact ⟨⟨rfl, fun _ => .inl rfl, h.buffer.alive⟩,
      senders_setCaller ((h.senders s).append_self rfl hheld rfl hhand) fun t hne =>
        (h.senders t).append_other rfl hheld rfl (howns ▸ hne)⟩

theorem Sound.congr (h : Sound σ) (hsent : σ'.sent = σ.sent) (hskb : σ'.aggSkb = σ.aggSkb)
    (hgiven : σ'.given = σ.given) (hcallers : σ'.callers = σ.callers)
    (hflags : (σ'.inProgress, σ'.hrtimer, σ'.queued, σ'.running, σ'.panicked) =
      (σ.inProgress, σ.hrtimer, σ.queued, σ.running, σ.panicked)) : Sound σ' := by
  have hheld : σ'.held = σ.held := by rw [State.held, hskb, State.held]
  simp only [Prod.mk.injEq] at hflags
  obtain ⟨hin, htimer, hqueued, hrunning, hpanicked⟩ := hflags
  refine ⟨⟨?_, ?_, ?_⟩, fun s => ?_⟩
  · rw [hin, hskb]
    exact h.buffer.state
  · rw [hskb, htimer, hqueued, hrunning]
    exact h.buffer.covered
  · rw [hpanicked]
    exact h.buffer.alive
  · rw [hcallers]
    exact (h.senders s).congr hsent hheld (by rw [hgiven])

end Effects

namespace State

variable (g : Setting) (σ : State)

/-- The packet starts a buffer. -/
def Starts (now : ℤ) (page : Bool) (p : Skb) : Prop :=
  priority g p = false ∧ σ.aggSkb = none ∧ σ.bypasses g now p = false ∧ page = true
deriving Decidable

end State

def Caller.Fits (g : Setting) (σ : State) (now : ℤ) (page : Bool) : Caller → Prop
  | .newPacket p => σ.Starts g now page p → p.len ≤ σ.capacity g
  | _ => True

instance (g : Setting) (σ : State) (now : ℤ) (page : Bool) :
    ∀ c : Caller, Decidable (c.Fits g σ now page)
  | .newPacket p => inferInstanceAs (Decidable (σ.Starts g now page p → _ ≤ _))
  | .idle | .flush _ | .cancel _ | .sending _ => isTrue trivial

/-- What the steps must respect: a cancellation finds no buffer, or finds its work already on the
way, and a packet that starts a buffer fits into it. -/
def Event.Safe (g : Setting) (σ : State) : Event → Prop
  | .cancel _ => σ.aggSkb = none ∨ σ.queued = true ∨ σ.running = true
  | .locked s now page => (σ.callers s).Fits g σ now page
  | _ => True

instance (g : Setting) (σ : State) : ∀ e : Event, Decidable (e.Safe g σ) := by
  intro e
  cases e <;> dsimp only [Event.Safe] <;> infer_instance

section Steps

variable {g : Setting} {σ : State} {s : ℕ} {p : Skb}

theorem Sound.newPacket (h : Sound σ) (hp : σ.callers s = .newPacket p) (now : ℤ) (page : Bool)
    (hfits : σ.Starts g now page p → p.len ≤ σ.capacity g) : Sound (σ.newPacket g s now page p) := by
  have hhand : (σ.callers s).inHand = [p] := by rw [hp]; rfl
  simp only [State.newPacket]
  by_cases hprio : State.priority g p = true
  · rw [if_pos hprio]
    apply Sound.sendAggSkb
    · exact h.congr rfl rfl rfl rfl rfl
    · exact hhand.symm
  rw [if_neg hprio]
  cases hskb : σ.aggSkb with
  | none =>
    have hheld : σ.held = [] := by rw [State.held, hskb]
    have hheldBy : σ.heldBy s = [] := by rw [State.heldBy, hheld]; rfl
    by_cases hbypass : σ.bypasses g now p = true
    · simp only [if_pos hbypass]
      apply Sound.send
      · exact h.congr rfl hskb.symm rfl rfl rfl
      · exact hhand.symm
      · exact fun _ => rfl
    by_cases hpage : (!page) = true
    · simp only [if_neg hbypass, if_pos hpage]
      apply Sound.send
      · exact h.congr rfl hskb.symm rfl rfl rfl
      · exact hhand.symm
      · exact fun _ => rfl
    · simp only [if_neg hbypass, if_neg hpage]
      have hstarts : σ.Starts g now page p :=
        ⟨by simpa using hprio, hskb, by simpa using hbypass, by simpa using hpage⟩
      apply Sound.linearizeCopy
      · exact h.congr rfl hskb.symm rfl rfl rfl
      · rfl
      · exact Nat.not_lt.mpr (hfits hstarts)
      · exact hhand
  | some b =>
    dsimp only
    split
    · apply Sound.sendAggSkb
      · exact h.congr rfl hskb.symm rfl rfl rfl
      · exact hhand.symm
    · rename_i hroom
      apply Sound.linearizeCopy
      · exact h.congr rfl hskb.symm rfl rfl rfl
      · rfl
      · intro hlt
        simp [hlt] at hroom
      · exact hhand

theorem Sound.transmit (h : Sound σ) (hidle : σ.callers p.sender = .idle) :
    Sound (σ.next g (.transmit p)) := by
  refine ⟨⟨h.buffer.state, h.buffer.covered, h.buffer.alive⟩, senders_setCaller ?_ fun t hne => ?_⟩
  · have hs := h.senders p.sender
    rw [hidle] at hs
    refine ⟨?_, ?_, fun hf => hf.elim⟩
    · show σ.sentBy p.sender ++ σ.heldBy p.sender ++ [p] =
        update σ.given p.sender (σ.given p.sender ++ [p]) p.sender
      rw [update_self, ← hs.inOrder, show Caller.inHand .idle = [] from rfl, append_nil]
    · intro q hq
      rw [mem_singleton.mp hq]
  · refine (h.senders t).congr rfl rfl ?_
    exact update_of_ne hne _ σ.given

theorem Sound.setCaller_other (h : Sound σ) {c : Caller} (hidle : (σ.callers s).inHand = [])
    (hc : c.inHand = []) : Sound (σ.setCaller s c) := by
  refine ⟨⟨h.buffer.state, h.buffer.covered, h.buffer.alive⟩,
    senders_setCaller ⟨?_, ?_, fun _ hne => absurd hc hne⟩ fun t _ => h.senders t⟩
  · rw [hc, ← hidle]
    exact (h.senders s).inOrder
  · rw [hc, ← hidle]
    exact (h.senders s).owns

theorem Sound.cancelTimer (h : Sound σ)
    (hsafe : σ.aggSkb = none ∨ σ.queued = true ∨ σ.running = true) : Sound (σ.cancelTimer s) := by
  rw [State.cancelTimer]
  split
  · rename_i rest hc
    have hs := h.senders s
    rw [hc] at hs
    refine ⟨⟨h.buffer.state, fun hsome => ?_, h.buffer.alive⟩,
      senders_setCaller ⟨hs.inOrder, hs.owns, hs.flushed⟩ fun t _ => ⟨(h.senders t).inOrder,
        (h.senders t).owns, (h.senders t).flushed⟩⟩
    rcases hsafe with hnone | hwork
    · exact absurd hsome (by simp [State.setCaller, hnone])
    · exact .inr hwork
  · exact h

theorem Sound.sendUnlocked (h : Sound σ) : Sound (σ.sendUnlocked s) := by
  rw [State.sendUnlocked]
  split
  · rename_i f hf
    have hs := h.senders s
    rw [hf] at hs
    exact h.send (by rw [hf]; rfl) (hs.flushed trivial)
  · exact h

/-- **Every step of a sound state that respects the conditions leads to a sound state.** -/
theorem Sound.next (h : Sound σ) {e : Event} (he : e.Enabled σ) (hsafe : e.Safe g σ) :
    Sound (σ.next g e) := by
  cases e with
  | transmit p => exact h.transmit he.2
  | command s n flush =>
    refine h.setCaller_other (by rw [he.2]; rfl) ?_
    split <;> rfl
  | tso s n => exact h.setCaller_other (by rw [he.2]; rfl) rfl
  | locked s now page =>
    show Sound (σ.locked g s now page)
    rw [State.locked]
    split
    · rename_i p hp
      rw [Event.Safe, hp] at hsafe
      exact h.newPacket hp now page hsafe
    · rename_i f hf
      exact h.sendAggSkb (by rw [hf]; rfl)
    · exact h
  | cancel s => exact h.cancelTimer hsafe
  | send s => exact h.sendUnlocked
  | expire =>
    exact ⟨⟨h.buffer.state, fun _ => .inr (.inl rfl), h.buffer.alive⟩,
      fun s => (h.senders s).congr rfl rfl rfl⟩
  | workStart =>
    exact ⟨⟨h.buffer.state, fun _ => .inr (.inr rfl), h.buffer.alive⟩,
      fun s => (h.senders s).congr rfl rfl rfl⟩
  | workRun =>
    show Sound { σ.flushTxPacketWork with running := false }
    rw [State.flushTxPacketWork]
    split
    · exact ⟨⟨rfl, fun hs => absurd hs (by simp [State.ship]), h.buffer.alive⟩,
        fun s => ((h.senders s).ship rfl).congr rfl rfl rfl⟩
    · rename_i hin
      have hnone : ¬σ.aggSkb.isSome := by rwa [← h.buffer.state]
      exact ⟨⟨h.buffer.state, fun hs => absurd hs hnone, h.buffer.alive⟩,
        fun s => (h.senders s).congr rfl rfl rfl⟩
  | config size count =>
    show Sound (σ.updateUlAggConfig g size count)
    rw [State.updateUlAggConfig]
    split
    · exact h.congr rfl rfl rfl rfl rfl
    · exact h.congr rfl rfl rfl rfl rfl

/-! ## Runs -/

theorem Sound.of_init (h : σ.Init) : Sound σ := by
  refine ⟨⟨?_, ?_, h.panicked⟩, fun s => ?_⟩
  · rw [h.inProgress, h.aggSkb]
    rfl
  · intro hsome
    rw [h.aggSkb] at hsome
    exact absurd hsome (by simp)
  · rw [h.callers s]
    refine ⟨?_, fun p hp => absurd hp (by simp [Caller.inHand]), fun hf => hf.elim⟩
    rw [State.sentBy, State.heldBy, State.held, h.sent, h.aggSkb, h.given s]
    rfl

theorem sent_flushTxPacketWork (h : σ.inProgress = σ.aggSkb.isSome) :
    σ.flushTxPacketWork.sent = σ.sent ++ σ.held.map Frame.packet := by
  rw [State.flushTxPacketWork]
  split
  · rfl
  · rename_i hin
    have hnone : σ.aggSkb = none := by
      rw [h] at hin
      simpa using hin
    rw [State.held, hnone, map_nil, append_nil]

theorem Sound.sent_flushSteps (h : Sound σ) :
    ((aggregation g).exec σ σ.flushSteps).sent = σ.sent ++ σ.held.map Frame.packet := by
  have hwork : ∀ σ' : State, σ'.inProgress = σ.inProgress → σ'.aggSkb = σ.aggSkb →
      σ'.sent = σ.sent → (σ'.next g .workRun).sent = σ.sent ++ σ.held.map Frame.packet := by
    intro σ' hin hskb hsent
    show σ'.flushTxPacketWork.sent = _
    rw [sent_flushTxPacketWork (by rw [hin, hskb]; exact h.buffer.state), hsent, State.held, hskb,
      State.held]
  rw [State.flushSteps]
  split
  · exact hwork σ rfl rfl rfl
  · rename_i hrunning
    split
    · exact hwork (σ.next g .workStart) rfl rfl rfl
    · rename_i hqueued
      split
      · exact hwork ((σ.next g .expire).next g .workStart) rfl rfl rfl
      · rename_i htimer
        have hnone : σ.aggSkb = none := by
          rw [← Option.not_isSome_iff_eq_none]
          intro hsome
          rcases h.buffer.covered hsome with ht | hq | hr
          · exact htimer ht
          · exact hqueued hq
          · exact hrunning hr
        show σ.sent = _
        rw [State.held, hnone, map_nil, append_nil]

theorem Sound.neverStrands (h : Sound σ) : NeverStrands g σ := by
  refine ⟨h.buffer.covered, fun s => (h.senders s).inOrder, fun s hidle => ?_⟩
  have hs := (h.senders s).inOrder
  rw [hidle, show Caller.inHand .idle = [] from rfl, append_nil] at hs
  rw [State.sentBy, h.sent_flushSteps, filterMap_append, filterMap_packetOf]
  exact hs

def careful (g : Setting) : Machine State Event :=
  { aggregation g with guard := fun σ e => e.Enabled σ ∧ e.Safe g σ }

instance (g : Setting) (σ : State) (e : Event) : Decidable ((careful g).guard σ e) :=
  inferInstanceAs (Decidable (e.Enabled σ ∧ e.Safe g σ))

theorem sound_of_reachable (h : (careful g).Reachable σ) : Sound σ :=
  h.invariant (fun _ hinit => .of_init hinit) fun _ _ hσ he => hσ.next he.1 he.2

/-- **In every run whose cancellations find no buffer or find its work on the way, and whose first
packets fit their buffers, nothing is stranded, lost, repeated or reordered.** -/
theorem neverStrands_of_reachable (g : Setting) (σ : State) (h : (careful g).Reachable σ) :
    NeverStrands g σ :=
  (sound_of_reachable h).neverStrands

end Steps

def setting : Setting where
  pageSize := 4096
  sharedInfo := 320
  aggTimeLimit := 1000000
  aggBypassTime := 10000000
  egressPriority := true
  egressAggregation := true

/-- After `rmnet_map_tx_aggregate_init`, with an aggregation size of two pages. -/
def initial : State where
  aggSize := 7872
  aggCountMax := 20
  aggSizeOrder := 1
  aggTime := 0
  aggLast := 0
  aggSkb := none
  aggCount := 0
  inProgress := false
  hrtimer := false
  queued := false
  running := false
  panicked := false
  callers _ := .idle
  sent := []
  given _ := []

theorem initial_init : initial.Init :=
  ⟨rfl, rfl, rfl, fun _ => rfl, rfl, fun _ => rfl⟩

def skb (sender id : ℕ) : Skb := ⟨sender, id, 1400, 0⟩

/-- Sender 1 starts a buffer, the command of thread 3 ships it, and sender 2 starts the next buffer
before that thread comes to its cancellation. -/
def strandingRun : List Event :=
  [.transmit (skb 1 10), .locked 1 100 true, .command 3 0 true, .locked 3 200 true,
    .transmit (skb 2 20), .locked 2 300 true, .cancel 3]

/-- The cancellation stops the timer of the second buffer. -/
theorem not_neverStrands :
    ¬∀ (g : Setting) (σ : State), (aggregation g).Reachable σ → NeverStrands g σ := by
  intro h
  have hreach : (aggregation setting).Reachable ((aggregation setting).exec initial strandingRun) :=
    (Machine.Reachable.init initial_init).exec strandingRun (by decide)
  have hcovered := (h setting _ hreach).covered (by decide)
  exact absurd hcovered (by decide)

/-- With the cancellation before the second buffer nothing is stranded. -/
theorem neverStrands_example :
    NeverStrands setting ((aggregation setting).exec initial
      [.transmit (skb 1 10), .locked 1 100 true, .command 3 0 true, .locked 3 200 true, .cancel 3,
        .transmit (skb 2 20), .locked 2 300 true]) :=
  neverStrands_of_reachable setting _
    ((Machine.Reachable.init (M := careful setting) initial_init).exec
      [.transmit (skb 1 10), .locked 1 100 true, .command 3 0 true, .locked 3 200 true, .cancel 3,
        .transmit (skb 2 20), .locked 2 300 true] (by decide))

end Rmnet
