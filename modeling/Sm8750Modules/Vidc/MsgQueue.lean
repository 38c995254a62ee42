import Sm8750Modules.Lib.Ring
import Sm8750Modules.Lib.Runs

/-!
# The message queue of the video firmware

The firmware writes its responses into a ring of words that it shares with the driver, and the driver
reads them out one after another when it is interrupted. A message that does not fit sets `qhdr_tx_req`
until the next one fits.
-/

namespace VidcQueue

open Runs Ring List

/-- `VIDC_IFACEQ_QUEUE_SIZE / 4` -/
def queueWords : ℕ := 204800

def hugePktSize : ℕ := 4096

/-- What the driver knows: which headers `validate_hdr_packet` takes, and the open sessions. -/
structure Core where
  validHdr : List ℕ → Bool
  instances : List ℕ

def sessionId (words : List ℕ) : ℕ := words.getD 1 0

/-- A valid message: its first word is its size in bytes, the driver takes its header and knows its
session. -/
structure Message (core : Core) where
  words : List ℕ
  size : words.headD 0 / 4 = words.length
  pos : 0 < words.length
  huge : words.length * 4 ≤ hugePktSize
  valid : core.validHdr words = true
  known : sessionId words = 0 ∨ sessionId words ∈ core.instances

/-- What `__process_msg_q` makes of a message. -/
inductive Response where
  | systemError
  /-- `handle_system_response` -/
  | system (words : List ℕ)
  /-- `handle_session_response` -/
  | session (id : ℕ) (words : List ℕ)
deriving DecidableEq

/-- A turn of `__process_msg_q` for the packet that was read. -/
def processMsg (core : Core) (packet : List ℕ) : List Response :=
  if core.validHdr packet then
    if sessionId packet = 0 then [.system packet]
    else if sessionId packet ∈ core.instances then [.session (sessionId packet) packet]
    else []
  else [.systemError]

def Message.response {core : Core} (m : Message core) : Response :=
  if sessionId m.words = 0 then .system m.words else .session (sessionId m.words) m.words

/-- Where the firmware is in `__write_queue`. -/
inductive Firmware (core : Core) where
  | idle
  | loaded (m : Message core) (readIdx : ℕ)
  | copying (m : Message core) (done : ℕ)

/-- Where the driver is, in a pass of `__process_msg_q` that has handed out `n` packets. -/
inductive Driver where
  | idle
  | poll (n : ℕ)
  | loaded (n writeIdx : ℕ)
  | copying (n size : ℕ) (packet : List ℕ)
  | advanced (n : ℕ) (packet : List ℕ)
  | flush (n : ℕ)

/-- The ring and its header, both sides, the messages written, those of them that came after the driver
saw the queue empty, and the calls that were made. -/
structure State (core : Core) where
  mem : ℕ → ℕ
  readIdx : ℕ
  writeIdx : ℕ
  txReq : Bool
  fw : Firmware core
  driver : Driver
  written : List (Message core)
  late : List (Message core)
  handed : List Response

def emptySpace (readIdx writeIdx : ℕ) : ℕ :=
  if readIdx ≤ writeIdx then queueWords - (writeIdx - readIdx) else readIdx - writeIdx

/-- The word of the ring for word `i` of a packet, in the one or two `memcpy`s from index `idx` on. -/
def copyAddr (idx size i : ℕ) : ℕ :=
  if idx + size < queueWords then idx + i
  else if i < size - (idx + size - queueWords) then idx + i
  else i - (size - (idx + size - queueWords))

inductive Action (core : Core) where
  /-- the firmware begins to write a message -/
  | load (m : Message core)
  /-- it compares the empty space, and sets or clears `qhdr_tx_req` -/
  | check
  /-- it copies a word -/
  | store
  /-- it sets `qhdr_write_idx` -/
  | publish
  /-- `__response_handler` -/
  | start
  /-- the driver loads the indexes -/
  | look
  /-- it looks at the size of the packet -/
  | examine
  /-- it copies a word -/
  | fetch
  /-- it sets `qhdr_read_idx` -/
  | advance
  /-- it looks at `qhdr_tx_req`, and handles the packet -/
  | finish
  /-- `__flush_debug_queue` finds `debug` packets -/
  | flush (debug : ℕ)

variable {core : Core}

def next (s : State core) : Action core → State core
  | .load m => { s with fw := .loaded m s.readIdx }
  | .check =>
    match s.fw with
    | .loaded m readIdx =>
      if emptySpace readIdx s.writeIdx ≤ m.words.length then { s with txReq := true, fw := .idle }
      else { s with txReq := false, fw := .copying m 0 }
    | _ => s
  | .store =>
    match s.fw with
    | .copying m i =>
      { s with
        mem := Function.update s.mem (copyAddr s.writeIdx m.words.length i) (m.words.getD i 0)
        fw := .copying m (i + 1) }
    | _ => s
  | .publish =>
    match s.fw with
    | .copying m _ =>
      { s with
        writeIdx := slot queueWords s.writeIdx m.words.length
        fw := .idle
        written := s.written ++ [m]
        late := s.late ++ [m] }
    | _ => s
  | .start => { s with driver := .poll 0 }
  | .look =>
    match s.driver with
    | .poll n =>
      if s.readIdx = s.writeIdx then { s with late := [], driver := .flush n }
      else { s with driver := .loaded n s.writeIdx }
    | _ => s
  | .examine =>
    match s.driver with
    | .loaded n writeIdx =>
      -- "Invalid read index", "Zero packet size" and "BAD packet received"
      if queueWords ≤ s.readIdx then { s with driver := .flush n }
      else if s.mem s.readIdx / 4 = 0 then { s with driver := .flush n }
      else if s.mem s.readIdx / 4 * 4 ≤ hugePktSize ∧ s.readIdx ≤ queueWords then
        { s with driver := .copying n (s.mem s.readIdx / 4) [] }
      else { s with readIdx := writeIdx, driver := .flush n }
    | _ => s
  | .fetch =>
    match s.driver with
    | .copying n size packet =>
      { s with driver := .copying n size (packet ++ [s.mem (copyAddr s.readIdx size packet.length)]) }
    | _ => s
  | .advance =>
    match s.driver with
    | .copying n size packet =>
      { s with readIdx := slot queueWords s.readIdx size, driver := .advanced n packet }
    | _ => s
  | .finish =>
    match s.driver with
    | .advanced n packet =>
      -- "queue is full"
      if s.txReq then { s with driver := .flush n }
      else { s with handed := s.handed ++ processMsg core packet, driver := .poll (n + 1) }
    | _ => s
  | .flush debug =>
    match s.driver with
    | .flush n => { s with driver := if n = 0 ∧ debug = 0 then .idle else .poll 0 }
    | _ => s

/-- Which steps the two sides may take. -/
def Enabled (s : State core) : Action core → Prop
  | .load _ => s.fw = .idle
  | .check => ∃ m readIdx, s.fw = .loaded m readIdx
  | .store => ∃ m i, s.fw = .copying m i ∧ i < m.words.length
  | .publish => ∃ m, s.fw = .copying m m.words.length
  | .start => s.driver = .idle
  | .look => ∃ n, s.driver = .poll n
  | .examine => ∃ n writeIdx, s.driver = .loaded n writeIdx
  | .fetch => ∃ n size packet, s.driver = .copying n size packet ∧ packet.length < size
  | .advance => ∃ n packet, s.driver = .copying n packet.length packet
  | .finish => ∃ n packet, s.driver = .advanced n packet
  | .flush _ => ∃ n, s.driver = .flush n

/-- `__set_queue_hdr_defaults` -/
def initial (core : Core) (mem : ℕ → ℕ) : State core :=
  ⟨mem, 0, 0, false, .idle, .idle, [], [], []⟩

/-- The firmware and the driver in any order. -/
def queueMachine (core : Core) (allowed : State core → Action core → Prop) :
    Machine (State core) (Action core) where
  init s := ∃ mem, s = initial core mem
  guard s a := Enabled s a ∧ allowed s a
  next := next

/-- No packet is handled while `qhdr_tx_req` is set. -/
def NotFull (s : State core) : Action core → Prop
  | .finish => s.txReq = false
  | _ => True

/-! ## What the ring holds -/

namespace State

variable (s : State core)

def used : ℕ := Ring.used queueWords s.readIdx s.writeIdx

/-- The packet that was taken out of the ring and is not handled yet. -/
def inHand : List Response :=
  match s.driver with
  | .advanced _ packet => processMsg core packet
  | _ => []

/-- **The promise**: every message was handed out, is in hand or waits in the ring, in this order; and
when the handler has returned, what waits was written after the driver saw the queue empty. -/
def Conserved : Prop :=
  ∃ queue : List (Message core),
    contents queueWords s.mem s.readIdx s.used = queue.flatMap (·.words) ∧
    s.written.map (·.response) = s.handed ++ s.inHand ++ queue.map (·.response) ∧
    (s.driver = .idle → queue = s.late)

/-- The part of the ring that the firmware writes is free. -/
def FwOk : Prop :=
  match s.fw with
  | .idle => True
  | .loaded _ readIdx => readIdx < queueWords ∧ s.used ≤ Ring.used queueWords readIdx s.writeIdx
  | .copying m i =>
    s.used + m.words.length < queueWords ∧ i ≤ m.words.length ∧
      contents queueWords s.mem s.writeIdx i = m.words.take i

end State

def DriverOk (queue late : List (Message core)) : Driver → Prop
  | .idle => queue = late
  | .poll _ => True
  | .loaded _ _ => queue ≠ []
  | .copying _ size packet => ∃ m rest, queue = m :: rest ∧ size = m.words.length ∧
      packet.length ≤ size ∧ packet = m.words.take packet.length
  | .advanced _ packet => ∃ m : Message core, packet = m.words
  | .flush n => n = 0 → queue = late

/-- The ring holds the messages of a queue, after those that were handed out. -/
structure Inv (s : State core) (queue : List (Message core)) : Prop where
  read : s.readIdx < queueWords
  write : s.writeIdx < queueWords
  ring : contents queueWords s.mem s.readIdx s.used = queue.flatMap (·.words)
  order : s.written.map (·.response) = s.handed ++ s.inHand ++ queue.map (·.response)
  fw : s.FwOk
  driver : DriverOk queue s.late s.driver

section Lemmas

variable {m : Message core} {idx size i : ℕ} {queue : List (Message core)}

theorem processMsg_words (m : Message core) : processMsg core m.words = [m.response] := by
  rw [processMsg, if_pos m.valid, Message.response]
  split
  · rfl
  · rename_i hne
    rw [if_pos (m.known.resolve_left hne)]

theorem copyAddr_eq (hidx : idx < queueWords) (hi : i < size) :
    copyAddr idx size i = slot queueWords idx i := by
  rw [copyAddr, slot]
  split_ifs <;> omega

theorem emptySpace_eq {readIdx writeIdx : ℕ} (hr : readIdx < queueWords) (hw : writeIdx < queueWords) :
    emptySpace readIdx writeIdx + Ring.used queueWords readIdx writeIdx = queueWords := by
  rw [emptySpace, Ring.used]
  split_ifs <;> omega

theorem Message.small (m : Message core) : m.words.length < queueWords := by
  have hhuge := m.huge
  simp only [hugePktSize] at hhuge
  simp only [queueWords]
  omega

theorem size_of_ring {s : State core} (h : contents queueWords s.mem s.readIdx s.used =
    (m :: queue).flatMap (·.words)) : s.mem s.readIdx / 4 = m.words.length := by
  rw [flatMap_cons] at h
  have hsize := m.size
  cases hw : m.words with
  | nil => exact absurd m.pos (by rw [hw]; exact Nat.lt_irrefl 0)
  | cons x rest =>
    rw [hw] at h hsize
    cases hused : s.used with
    | zero =>
      rw [hused] at h
      cases h
    | succ k =>
      rw [hused, contents] at h
      rw [(List.cons.inj h).1]
      exact hsize

end Lemmas

section Firmware

variable {s : State core} {m : Message core} {queue : List (Message core)} {readIdx i : ℕ}

theorem Inv.load (h : Inv s queue) (m : Message core) : Inv (VidcQueue.next s (.load m)) queue :=
  ⟨h.read, h.write, h.ring, h.order, ⟨h.read, le_rfl⟩, h.driver⟩

theorem Inv.check (h : Inv s queue) (hfw : s.fw = .loaded m readIdx) :
    Inv (VidcQueue.next s .check) queue := by
  have hok := h.fw
  rw [State.FwOk, hfw] at hok
  obtain ⟨hr, hle⟩ := hok
  simp only [VidcQueue.next, hfw]
  split
  · exact ⟨h.read, h.write, h.ring, h.order, trivial, h.driver⟩
  · rename_i hfits
    have hspace := emptySpace_eq hr h.write
    refine ⟨h.read, h.write, h.ring, h.order, ⟨?_, Nat.zero_le _, rfl⟩, h.driver⟩
    show s.used + m.words.length < queueWords
    omega

theorem Inv.store (h : Inv s queue) (hfw : s.fw = .copying m i) (hi : i < m.words.length) :
    Inv (VidcQueue.next s .store) queue := by
  have hok := h.fw
  rw [State.FwOk, hfw] at hok
  obtain ⟨hfree, -, hdone⟩ := hok
  have hslot : slot queueWords s.readIdx (s.used + i) = slot queueWords s.writeIdx i := by
    rw [← slot_slot h.read (by omega), State.used, slot_used h.read h.write]
  simp only [VidcQueue.next, hfw, copyAddr_eq h.write hi]
  refine ⟨h.read, h.write, ?_, h.order, ⟨hfree, hi, ?_⟩, h.driver⟩
  · show contents queueWords (Function.update s.mem _ _) s.readIdx s.used = _
    rw [← hslot, contents_update h.read (Nat.le_add_right _ _) (by omega)]
    exact h.ring
  · show contents queueWords (Function.update s.mem _ _) s.writeIdx (i + 1) = _
    rw [contents_update_self h.write (by omega), hdone, take_succ_eq_append_getElem hi,
      getD_eq_getElem _ _ hi]

theorem DriverOk.append {late : List (Message core)} {driver : Driver} (h : DriverOk queue late driver)
    (m : Message core) : DriverOk (queue ++ [m]) (late ++ [m]) driver := by
  cases driver with
  | idle => exact congrArg (· ++ [m]) h
  | poll n => trivial
  | loaded n w => exact append_ne_nil_of_left_ne_nil h [m]
  | copying n size packet =>
    obtain ⟨m', rest, rfl, hcopy⟩ := h
    exact ⟨m', rest ++ [m], rfl, hcopy⟩
  | advanced n packet => exact h
  | flush n => exact fun hn => congrArg (· ++ [m]) (h hn)

theorem Inv.publish (h : Inv s queue) (hfw : s.fw = .copying m m.words.length) :
    Inv (VidcQueue.next s .publish) (queue ++ [m]) := by
  have hok := h.fw
  rw [State.FwOk, hfw] at hok
  obtain ⟨hfree, -, hdone⟩ := hok
  have hused : Ring.used queueWords s.readIdx (slot queueWords s.writeIdx m.words.length) =
      s.used + m.words.length := used_slot_right h.read h.write hfree
  simp only [VidcQueue.next, hfw]
  refine ⟨h.read, slot_lt h.write m.small, ?_, ?_, trivial, ?_⟩
  · show contents queueWords s.mem s.readIdx (Ring.used queueWords s.readIdx _) = _
    rw [hused, contents_add _ h.read hfree, State.used, slot_used h.read h.write, hdone,
      take_length, flatMap_append, flatMap_singleton]
    congr 1
    exact h.ring
  · show (s.written ++ [m]).map (·.response) = s.handed ++ s.inHand ++ (queue ++ [m]).map (·.response)
    rw [map_append, map_append, h.order, append_assoc]
  · exact h.driver.append m

end Firmware

section Driver

variable {s : State core} {queue : List (Message core)} {n size writeIdx : ℕ} {packet : List ℕ}

theorem Inv.start (h : Inv s queue) (hd : s.driver = .idle) : Inv (VidcQueue.next s .start) queue := by
  have horder := h.order
  rw [State.inHand, hd] at horder
  exact ⟨h.read, h.write, h.ring, horder, h.fw, trivial⟩

theorem Inv.look (h : Inv s queue) (hd : s.driver = .poll n) : Inv (VidcQueue.next s .look) queue := by
  have horder := h.order
  rw [State.inHand, hd] at horder
  have hring := h.ring
  simp only [VidcQueue.next, hd]
  split
  · rename_i heq
    have hused : s.used = 0 := by rw [State.used, heq, used_self]
    rw [hused] at hring
    have hnil : queue = [] := by
      cases queue with
      | nil => rfl
      | cons m rest =>
        have hpos := m.pos
        have hlen := congrArg List.length hring
        rw [flatMap_cons, length_append] at hlen
        simp only [contents, length_nil] at hlen
        omega
    exact ⟨h.read, h.write, h.ring, horder, h.fw, fun _ => hnil⟩
  · rename_i hne
    refine ⟨h.read, h.write, h.ring, horder, h.fw, ?_⟩
    show queue ≠ []
    intro hnil
    have hlen := congrArg List.length hring
    rw [length_contents, hnil] at hlen
    exact hne (eq_of_used h.read hlen)

theorem Inv.examine (h : Inv s queue) (hd : s.driver = .loaded n writeIdx) :
    Inv (VidcQueue.next s .examine) queue := by
  have horder := h.order
  rw [State.inHand, hd] at horder
  have hok := h.driver
  rw [hd] at hok
  obtain ⟨m, rest, rfl⟩ := exists_cons_of_ne_nil hok
  have hsize := size_of_ring h.ring
  have hpos := m.pos
  simp only [VidcQueue.next, hd]
  -- neither of the error branches is taken
  rw [if_neg (Nat.not_le.mpr h.read), if_neg (by omega),
    if_pos ⟨by rw [hsize]; exact m.huge, h.read.le⟩]
  exact ⟨h.read, h.write, h.ring, horder, h.fw, ⟨m, rest, rfl, hsize, Nat.zero_le _, rfl⟩⟩

theorem Inv.fetch (h : Inv s queue) (hd : s.driver = .copying n size packet)
    (hlt : packet.length < size) : Inv (VidcQueue.next s .fetch) queue := by
  have horder := h.order
  rw [State.inHand, hd] at horder
  have hok := h.driver
  rw [hd] at hok
  obtain ⟨m, rest, rfl, rfl, -, hpacket⟩ := hok
  have hring := h.ring
  rw [flatMap_cons] at hring
  have hused : m.words.length ≤ s.used := by
    have hlen := congrArg List.length hring
    rw [length_contents, length_append] at hlen
    omega
  have hword : s.mem (slot queueWords s.readIdx packet.length) = m.words[packet.length] := by
    have hget := getElem?_contents s.mem h.read (hlt.trans_le hused) (used_lt h.read h.write).le
    rw [hring, List.getElem?_append_left hlt, List.getElem?_eq_getElem hlt] at hget
    exact (Option.some.inj hget).symm
  simp only [VidcQueue.next, hd]
  refine ⟨h.read, h.write, h.ring, horder, h.fw, ⟨m, rest, rfl, rfl, ?_, ?_⟩⟩
  · rw [length_append, length_singleton]
    exact hlt
  · rw [copyAddr_eq h.read hlt, hword, length_append, length_singleton,
      take_succ_eq_append_getElem hlt, ← hpacket]

theorem fwOk_of_used_le {s' : State core} (h : s.FwOk) (hfw : s'.fw = s.fw) (hmem : s'.mem = s.mem)
    (hw : s'.writeIdx = s.writeIdx) (hused : s'.used ≤ s.used) : s'.FwOk := by
  rw [State.FwOk] at h ⊢
  rw [hfw, hmem, hw]
  cases hpc : s.fw with
  | idle => trivial
  | loaded m readIdx =>
    rw [hpc] at h
    exact ⟨h.1, hused.trans h.2⟩
  | copying m i =>
    rw [hpc] at h
    exact ⟨(Nat.add_le_add_right hused _).trans_lt h.1, h.2⟩

theorem Inv.advance (h : Inv s queue) (hd : s.driver = .copying n packet.length packet) :
    ∃ rest, Inv (VidcQueue.next s .advance) rest := by
  have horder := h.order
  rw [State.inHand, hd] at horder
  have hok := h.driver
  rw [hd] at hok
  obtain ⟨m, rest, rfl, hlen, -, hpacket⟩ := hok
  rw [hlen, take_length] at hpacket
  subst hpacket
  have hring := h.ring
  rw [flatMap_cons] at hring
  have hle : m.words.length ≤ s.used := by
    have hlen := congrArg List.length hring
    rw [length_contents, length_append] at hlen
    omega
  have hused : Ring.used queueWords (slot queueWords s.readIdx m.words.length) s.writeIdx =
      s.used - m.words.length := used_slot_left h.read h.write hle
  simp only [VidcQueue.next, hd]
  refine ⟨rest, slot_lt h.read m.small, h.write, ?_, ?_, ?_, ⟨m, rfl⟩⟩
  · show contents queueWords s.mem (slot queueWords s.readIdx m.words.length) (Ring.used _ _ _) = _
    rw [hused]
    rw [← Nat.add_sub_of_le hle, contents_add _ h.read
      (by rw [Nat.add_sub_of_le hle]; exact used_lt h.read h.write)] at hring
    exact (append_inj hring (length_contents _ _ _ _)).2
  · show s.written.map (·.response) = s.handed ++ processMsg core m.words ++ rest.map (·.response)
    rw [processMsg_words, horder]
    simp
  · refine fwOk_of_used_le h.fw rfl rfl rfl ?_
    show Ring.used queueWords (slot queueWords s.readIdx m.words.length) s.writeIdx ≤ s.used
    omega

theorem Inv.finish (h : Inv s queue) (hd : s.driver = .advanced n packet) (htx : s.txReq = false) :
    Inv (VidcQueue.next s .finish) queue := by
  have horder := h.order
  rw [State.inHand, hd] at horder
  simp only [VidcQueue.next, hd, htx]
  refine ⟨h.read, h.write, h.ring, ?_, h.fw, trivial⟩
  show s.written.map (·.response) = s.handed ++ processMsg core packet ++ [] ++ queue.map (·.response)
  rw [append_nil]
  exact horder

theorem Inv.flush (h : Inv s queue) (hd : s.driver = .flush n) (debug : ℕ) :
    Inv (VidcQueue.next s (.flush debug)) queue := by
  have horder := h.order
  rw [State.inHand, hd] at horder
  have hok := h.driver
  rw [hd] at hok
  simp only [VidcQueue.next, hd]
  split
  · rename_i hzero
    exact ⟨h.read, h.write, h.ring, horder, h.fw, hok hzero.1⟩
  · exact ⟨h.read, h.write, h.ring, horder, h.fw, trivial⟩

end Driver

/-! ## Runs -/

section Runs

variable {s : State core} {queue : List (Message core)}

theorem inv_initial (mem : ℕ → ℕ) : Inv (initial core mem) [] := by
  have hpos : 0 < queueWords := by decide
  refine ⟨hpos, hpos, ?_, rfl, trivial, rfl⟩
  rw [State.used, show (initial core mem).readIdx = (initial core mem).writeIdx from rfl, used_self]
  rfl

/-- **A step of either side keeps the queue**, if no packet is handled while `qhdr_tx_req` is set. -/
theorem inv_next {a : Action core} (h : Inv s queue) (he : Enabled s a) (hfull : NotFull s a) :
    ∃ queue', Inv (next s a) queue' := by
  cases a with
  | load m => exact ⟨queue, h.load m⟩
  | check =>
    obtain ⟨m, r, hfw⟩ := he
    exact ⟨queue, h.check hfw⟩
  | store =>
    obtain ⟨m, i, hfw, hi⟩ := he
    exact ⟨queue, h.store hfw hi⟩
  | publish =>
    obtain ⟨m, hfw⟩ := he
    exact ⟨queue ++ [m], h.publish hfw⟩
  | start => exact ⟨queue, h.start he⟩
  | look =>
    obtain ⟨n, hd⟩ := he
    exact ⟨queue, h.look hd⟩
  | examine =>
    obtain ⟨n, w, hd⟩ := he
    exact ⟨queue, h.examine hd⟩
  | fetch =>
    obtain ⟨n, size, packet, hd, hlt⟩ := he
    exact ⟨queue, h.fetch hd hlt⟩
  | advance =>
    obtain ⟨n, packet, hd⟩ := he
    exact h.advance hd
  | finish =>
    obtain ⟨n, packet, hd⟩ := he
    exact ⟨queue, h.finish hd hfull⟩
  | flush debug =>
    obtain ⟨n, hd⟩ := he
    exact ⟨queue, h.flush hd debug⟩

theorem inv_of_reachable (h : (queueMachine core NotFull).Reachable s) : ∃ queue, Inv s queue := by
  refine h.invariant (I := fun s => ∃ queue, Inv s queue) ?_ ?_
  · rintro _ ⟨mem, rfl⟩
    exact ⟨[], inv_initial mem⟩
  · intro s a ⟨queue, hinv⟩ ha
    exact inv_next hinv ha.1 ha.2

theorem Inv.conserved (h : Inv s queue) : s.Conserved := by
  refine ⟨queue, h.ring, h.order, fun hd => ?_⟩
  have hok := h.driver
  rw [hd] at hok
  exact hok

def Response.words : Response → List ℕ
  | .systemError => []
  | .system words => words
  | .session _ words => words

theorem Message.response_words (m : Message core) : m.response.words = m.words := by
  rw [Message.response]
  split <;> rfl

theorem words_of_conserved (h : s.Conserved) :
    s.written.flatMap (·.words) =
      s.handed.flatMap (·.words) ++ s.inHand.flatMap (·.words) ++
        contents queueWords s.mem s.readIdx s.used := by
  obtain ⟨queue, hring, horder, -⟩ := h
  have hwords : ∀ l : List (Message core),
      l.flatMap (·.words) = (l.map (·.response)).flatMap (·.words) := by
    intro l
    rw [flatMap_map]
    simp only [Message.response_words]
  rw [hwords, horder, hring, hwords queue, flatMap_append, flatMap_append]

theorem Inv.lost {n : ℕ} {packet : List ℕ} (h : Inv s queue) (hd : s.driver = .advanced n packet)
    (htx : s.txReq = true) : ¬ (next s .finish).Conserved := by
  intro hc
  have hok := h.driver
  rw [hd] at hok
  obtain ⟨m, rfl⟩ := hok
  have hbefore := words_of_conserved h.conserved
  have hafter := words_of_conserved hc
  simp only [next, hd, htx, if_pos] at hafter
  have hafter' : s.written.flatMap (·.words) = s.handed.flatMap (·.words) ++ [] ++
      contents queueWords s.mem s.readIdx s.used := hafter
  have hin : s.inHand = processMsg core m.words := by rw [State.inHand, hd]
  rw [hbefore, hin, processMsg_words] at hafter'
  have hlen := congrArg List.length hafter'
  simp only [flatMap_singleton, Message.response_words, length_append, length_nil] at hlen
  have hpos := m.pos
  omega

/-- **No response is lost** as long as none is read while `qhdr_tx_req` is set; the next one that is
read is lost exactly if it is set. -/
theorem packets_conserved_of_reachable (h : (queueMachine core NotFull).Reachable s) :
    s.Conserved ∧ ∀ n packet, s.driver = .advanced n packet →
      ((next s .finish).Conserved ↔ s.txReq = false) := by
  obtain ⟨queue, hinv⟩ := inv_of_reachable h
  refine ⟨hinv.conserved, fun n packet hd => ⟨fun hc => ?_, fun htx => (hinv.finish hd htx).conserved⟩⟩
  cases htx : s.txReq with
  | false => rfl
  | true => exact absurd hc (hinv.lost hd htx)

end Runs

section Progress

variable {s : State core} {m : Message core} {n size i : ℕ} {packet : List ℕ}

theorem reachable_next (h : (queueMachine core NotFull).Reachable s) (a : Action core)
    (he : Enabled s a) (hfull : NotFull s a) : (queueMachine core NotFull).Reachable (next s a) :=
  h.next ⟨he, hfull⟩

theorem next_check_full {readIdx : ℕ} (hfw : s.fw = .loaded m readIdx)
    (h : emptySpace readIdx s.writeIdx ≤ m.words.length) :
    next s .check = { s with txReq := true, fw := .idle } := by
  simp only [next, hfw]
  rw [if_pos h]

theorem next_check_fits {readIdx : ℕ} (hfw : s.fw = .loaded m readIdx)
    (h : m.words.length < emptySpace readIdx s.writeIdx) :
    next s .check = { s with txReq := false, fw := .copying m 0 } := by
  simp only [next, hfw]
  rw [if_neg (Nat.not_le.mpr h)]

theorem reachable_stores (k : ℕ) (h : (queueMachine core NotFull).Reachable s)
    (hfw : s.fw = .copying m i) (hk : i + k ≤ m.words.length) :
    ∃ mem, (queueMachine core NotFull).Reachable { s with mem := mem, fw := .copying m (i + k) } := by
  induction k with
  | zero =>
    refine ⟨s.mem, ?_⟩
    rw [Nat.add_zero, ← hfw]
    exact h
  | succ k ih =>
    obtain ⟨mem, hmem⟩ := ih (by omega)
    exact ⟨_, reachable_next hmem .store ⟨m, i + k, rfl, by omega⟩ trivial⟩

theorem reachable_write (h : (queueMachine core NotFull).Reachable s) (hfw : s.fw = .idle)
    (m : Message core) (hfits : m.words.length < emptySpace s.readIdx s.writeIdx) :
    ∃ mem, (queueMachine core NotFull).Reachable
      { s with
        mem := mem, fw := .idle, txReq := false
        writeIdx := slot queueWords s.writeIdx m.words.length
        written := s.written ++ [m], late := s.late ++ [m] } := by
  have hload := reachable_next h (.load m) hfw trivial
  have hcheck := reachable_next hload .check ⟨m, s.readIdx, rfl⟩ trivial
  rw [next_check_fits (s := next s (.load m)) rfl hfits] at hcheck
  obtain ⟨mem, hstored⟩ := reachable_stores m.words.length hcheck rfl (Nat.zero_add _).le
  rw [Nat.zero_add] at hstored
  exact ⟨mem, reachable_next hstored .publish ⟨m, rfl⟩ trivial⟩

theorem reachable_fetches (k : ℕ) (h : (queueMachine core NotFull).Reachable s)
    (hd : s.driver = .copying n size packet) (hk : packet.length + k ≤ size) :
    ∃ packet', packet'.length = packet.length + k ∧
      (queueMachine core NotFull).Reachable { s with driver := .copying n size packet' } := by
  induction k with
  | zero =>
    refine ⟨packet, rfl, ?_⟩
    rw [← hd]
    exact h
  | succ k ih =>
    obtain ⟨packet', hlen, hfetched⟩ := ih (by omega)
    refine ⟨_, ?_, reachable_next hfetched .fetch ⟨n, size, packet', rfl, by omega⟩ trivial⟩
    rw [length_append, length_singleton, hlen, Nat.add_assoc]

theorem reachable_read (h : (queueMachine core NotFull).Reachable s) (hd : s.driver = .poll n)
    (hne : s.readIdx ≠ s.writeIdx) :
    ∃ readIdx packet, (queueMachine core NotFull).Reachable
      { s with readIdx := readIdx, driver := .advanced n packet } := by
  have hlook := reachable_next h .look ⟨n, hd⟩ trivial
  simp only [next, hd, if_neg hne] at hlook
  obtain ⟨queue, hinv⟩ := inv_of_reachable hlook
  obtain ⟨m, rest, rfl⟩ := exists_cons_of_ne_nil hinv.driver
  have hsize : s.mem s.readIdx / 4 = m.words.length := size_of_ring hinv.ring
  have hpos := m.pos
  have hexamine := reachable_next hlook .examine ⟨n, s.writeIdx, rfl⟩ trivial
  simp only [next] at hexamine
  rw [if_neg (Nat.not_le.mpr hinv.read), if_neg (by omega),
    if_pos ⟨by rw [hsize]; exact m.huge, hinv.read.le⟩, hsize] at hexamine
  obtain ⟨packet, hlen, hfetched⟩ := reachable_fetches m.words.length hexamine rfl (Nat.zero_add _).le
  rw [length_nil, Nat.zero_add] at hlen
  rw [← hlen] at hfetched
  exact ⟨_, packet, reachable_next hfetched .advance ⟨n, packet, rfl⟩ trivial⟩

end Progress

/-- Headers without packets, and no session. -/
def bareCore : Core where
  validHdr words := 64 ≤ words.headD 0 && words.getD 7 0 == 0
  instances := []

/-- A message to the system of 4096 bytes. -/
def hugeMessage : Message bareCore where
  words := 4096 :: List.replicate 1023 0
  size := by
    rw [List.length_cons, List.length_replicate]
    rfl
  pos := by
    rw [List.length_cons, List.length_replicate]
    decide
  huge := by
    rw [List.length_cons, List.length_replicate]
    exact Nat.le_refl 4096
  valid := rfl
  known := .inl rfl

theorem hugeMessage_length : hugeMessage.words.length = 1024 := by
  rw [hugeMessage, length_cons, length_replicate]

theorem reachable_fill (k : ℕ) (hk : k ≤ 199) :
    ∃ mem, (queueMachine bareCore NotFull).Reachable
      ⟨mem, 0, 1024 * k, false, .idle, .idle, List.replicate k hugeMessage,
        List.replicate k hugeMessage, []⟩ := by
  induction k with
  | zero => exact ⟨fun _ => 0, .init ⟨_, rfl⟩⟩
  | succ k ih =>
    obtain ⟨mem, h⟩ := ih (by omega)
    have hfits : hugeMessage.words.length < emptySpace 0 (1024 * k) := by
      rw [hugeMessage_length, emptySpace, if_pos (Nat.zero_le _), queueWords]
      omega
    have hslot : slot queueWords (1024 * k) hugeMessage.words.length = 1024 * (k + 1) := by
      rw [hugeMessage_length, slot, if_pos (by rw [queueWords]; omega)]
      rfl
    obtain ⟨mem', hwrite⟩ := reachable_write h rfl hugeMessage hfits
    refine ⟨mem', ?_⟩
    rw [replicate_succ', ← hslot]
    exact hwrite

theorem conserved_read : ∃ s : State bareCore, s.Conserved ∧ (next s .finish).Conserved ∧
    s.written = [hugeMessage] ∧ ∃ packet, s.driver = .advanced 0 packet := by
  obtain ⟨mem, h⟩ := reachable_fill 1 (by decide)
  have hstart := reachable_next h .start rfl trivial
  obtain ⟨r, packet, hread⟩ := reachable_read hstart rfl (by show (0 : ℕ) ≠ 1024 * 1; decide)
  have hc := packets_conserved_of_reachable hread
  exact ⟨_, hc.1, (hc.2 0 packet rfl).mpr rfl, rfl, packet, rfl⟩

/-- The 200th message does not fit, and the first one is lost when it is read. -/
theorem packets_not_conserved : ∃ s : State bareCore,
    (queueMachine bareCore fun _ _ => True).Reachable s ∧ ¬ s.Conserved := by
  obtain ⟨mem, h⟩ := reachable_fill 199 le_rfl
  have hload := reachable_next h (.load hugeMessage) rfl trivial
  have hcheck := reachable_next hload .check ⟨hugeMessage, 0, rfl⟩ trivial
  have hspace : emptySpace 0 (1024 * 199) ≤ hugeMessage.words.length := by
    rw [hugeMessage_length]
    decide
  rw [next_check_full rfl hspace] at hcheck
  have hstart := reachable_next hcheck .start rfl trivial
  obtain ⟨r, packet, hread⟩ := reachable_read hstart rfl (by show (0 : ℕ) ≠ 1024 * 199; decide)
  obtain ⟨queue, hinv⟩ := inv_of_reachable hread
  have hany := hread.mono (M := queueMachine bareCore fun _ _ => True)
    fun s a ha => ⟨ha.1, trivial⟩
  exact ⟨_, hany.next (a := Action.finish) ⟨⟨0, packet, rfl⟩, trivial⟩, hinv.lost rfl rfl⟩

end VidcQueue
