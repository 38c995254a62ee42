import Mathlib.Algebra.Order.Ring.Nat
import Mathlib.Data.List.GetD
import Sm8750Modules.Lib.Ring

/-!
# Hardware fences — the queues

A client has a Tx queue and maybe an Rx queue, and the fence controller has two as well. A queue is a ring
of payloads with a read and a write index in its header. The indexes of a Tx queue may start at a number
and may count payloads instead of dwords, and its writes may keep their index in `tx_wm`.

The addresses of the queues, and with them their paddings and the size of the memory, are left out, and so
are the numbers of clients.
-/

namespace Sm8750Modules.HwFence

open List

/-- `HW_FENCE_CLIENT_QUEUE_PAYLOAD`: the bytes of a payload. -/
def payloadSize : UInt32 := 64

def payloadSizeU32 : UInt32 := payloadSize / 4

/-- What is written into a queue, with the time of the write. -/
structure Message where
  type : UInt16
  ctxtId : UInt64
  seqno : UInt64
  hash : UInt64
  flags : UInt64
  clientData : UInt64
  error : UInt32
  timestamp : UInt64

def synxHwFenceHandleFlag : UInt64 := 0x80000000

/-- `HW_FENCE_PAYLOAD_REV(1, 0)` -/
def payloadRev : UInt16 := 0x100

def qword (x : UInt64) : List UInt32 := [x.toUInt32, (x >>> 32).toUInt32]

/-- The dwords of `struct msm_hw_fence_queue_payload` that a write sets: all but `reserve`. -/
def Message.dwords (m : Message) : List UInt32 :=
  [payloadSize, m.type.toUInt32 ||| (payloadRev.toUInt32 <<< 16)] ++ qword m.ctxtId ++ qword m.seqno ++
    qword (m.hash ||| synxHwFenceHandleFlag) ++ qword m.flags ++ qword m.clientData ++ [m.error] ++
    qword m.timestamp

def Message.payload (m : Message) : List UInt32 := m.dwords ++ [0]

/-- `struct msm_hw_fence_queue` with the indexes of its header and the dwords of its payloads. -/
structure Queue where
  qSizeBytes : UInt32
  rdWrIdxStart : UInt32 := 0
  rdWrIdxFactor : UInt32 := 1
  skipWrIdx : Bool := false
  readIndex : UInt32 := 0
  writeIndex : UInt32 := 0
  txWm : UInt32 := 0
  vaQueue : ℕ → UInt32 := fun _ => 0

structure ClientTypeDesc where
  queuesNum : UInt32 := 2
  queueEntries : UInt32 := 0
  txqIdxStart : UInt32 := 0
  txqIdxFactor : UInt32 := 0
  skipTxqWrIdx : Bool := false
  skipFctlRef : Bool := false
deriving DecidableEq

/-- `_parse_client_queue_dt_props_extra` for the values of the property, if the device tree has it. -/
def parseClientQueueDtPropsExtra (desc : ClientTypeDesc) : Option (List UInt32) → Option ClientTypeDesc
  | none => some desc
  | some tmp =>
    if tmp.length = 0 ∨ 5 < tmp.length then none
    else
      let desc := { desc with txqIdxStart := tmp.getD 2 desc.txqIdxStart }
      let idxByPayload := tmp.getD 3 0
      if 1 < idxByPayload ∨ 1 < tmp.getD 4 0 then none
      else
        let desc := if 4 ≤ tmp.length then
          { desc with txqIdxFactor := if idxByPayload = 1 then payloadSizeU32 else 1 } else desc
        let desc := if 5 ≤ tmp.length then { desc with skipFctlRef := true } else desc
        let maxIdxFromZero :=
          if idxByPayload = 1 then desc.queueEntries else desc.queueEntries * payloadSizeU32
        if 0xffffffff - maxIdxFromZero ≤ desc.txqIdxStart then none else some desc

def parseClientQueueDtPropsIndv (queueEntries : UInt32) (desc : ClientTypeDesc)
    (props : Option (UInt32 × UInt32 × UInt32)) (extra : Option (List UInt32)) :
    Option ClientTypeDesc :=
  match props with
  | none => accept { desc with queueEntries := queueEntries }
  | some (queuesNum, entries, skip) =>
    if 1 < skip then none
    else
      accept { desc with queuesNum := queuesNum, queueEntries := entries, skipTxqWrIdx := skip == 1 }
where
  accept (desc : ClientTypeDesc) : Option ClientTypeDesc :=
    if desc.queuesNum = 0 ∨ 2 < desc.queuesNum ∨ desc.queueEntries = 0 then none
    else
      match parseClientQueueDtPropsExtra desc extra with
      | none => none
      | some desc => if 0xffffffff / payloadSize ≤ desc.queueEntries then none else some desc

/-- `init_hw_fences_queues` for a queue of a client, in memory that is zeroed. -/
def initQueue (desc : ClientTypeDesc) (tx : Bool) : Queue :=
  let q : Queue := { qSizeBytes := payloadSize * desc.queueEntries }
  if tx then
    { q with
      rdWrIdxStart := desc.txqIdxStart
      rdWrIdxFactor := if desc.txqIdxFactor = 0 then 1 else desc.txqIdxFactor
      skipWrIdx := desc.skipTxqWrIdx
      readIndex := desc.txqIdxStart
      writeIndex := desc.txqIdxStart
      txWm := if desc.skipTxqWrIdx then desc.txqIdxStart else 0 }
  else q

def ctrlQueueEntries : UInt32 := 64

inductive Initialised : Queue → Prop where
  | ctrl : Initialised { qSizeBytes := payloadSize * ctrlQueueEntries }
  | client {desc : ClientTypeDesc} (entries queuesNum : UInt32) (skip : Bool)
      (props : Option (UInt32 × UInt32 × UInt32)) (extra : Option (List UInt32))
      (h : parseClientQueueDtPropsIndv entries { queuesNum := queuesNum, skipTxqWrIdx := skip } props
        extra = some desc) (tx : Bool) (htx : tx = true ∨ desc.queuesNum = 2) :
      Initialised (initQueue desc tx)

/-! ### Writes and reads -/

namespace Queue

def RequiresIdxTranslation (q : Queue) : Prop :=
  q.rdWrIdxFactor ≠ 0 ∧ (q.rdWrIdxStart ≠ 0 ∨ 1 < q.rdWrIdxFactor)
deriving Decidable

def customToDefault (q : Queue) (idx : UInt32) : UInt32 :=
  if q.RequiresIdxTranslation then (idx - q.rdWrIdxStart) * q.rdWrIdxFactor else idx

def defaultToCustom (q : Queue) (idx : UInt32) : UInt32 :=
  if q.RequiresIdxTranslation then idx / q.rdWrIdxFactor + q.rdWrIdxStart else idx

def payloadAt (q : Queue) (idx : ℕ) : List UInt32 := (List.range 16).map fun j => q.vaQueue (idx + j)

/-- How a read ends: without a payload, or with one and whether the queue still has contents. -/
inductive ReadRet where
  | einval
  | payload (p : List UInt32) (more : Bool)
deriving DecidableEq

def readQueueHelper (q : Queue) : Queue × ReadRet :=
  let qSizeU32 := q.qSizeBytes / 4
  let readIdx := q.customToDefault q.readIndex
  let writeIdx := q.customToDefault q.writeIndex
  if readIdx = writeIdx then (q, .einval)
  else
    let toReadIdx := if qSizeU32 ≤ readIdx + payloadSizeU32 then 0 else readIdx + payloadSizeU32
    let toReadIdx := q.defaultToCustom toReadIdx
    ({ q with readIndex := toReadIdx }, .payload (q.payloadAt readIdx.toNat) (toReadIdx != writeIdx))

/-- The write index of `_get_update_queue_params`. -/
def wrPtr (q : Queue) : UInt32 := if q.skipWrIdx then q.txWm else q.writeIndex

def setWrPtr (q : Queue) (idx : UInt32) : Queue :=
  if q.skipWrIdx then { q with txWm := idx } else { q with writeIndex := idx }

def writeMessage (q : Queue) (idx : ℕ) (m : Message) : Queue :=
  { q with vaQueue := fun a => if idx ≤ a then m.dwords.getD (a - idx) (q.vaQueue a) else q.vaQueue a }

/-- `hw_fence_update_queue_helper`; `false` is no room. -/
def updateQueueHelper (q : Queue) (m : Message) : Queue × Bool :=
  let qSizeU32 := q.qSizeBytes / 4
  let readIdx := q.customToDefault q.readIndex
  let writeIdx := q.customToDefault q.wrPtr
  let qFreeU32 :=
    if readIdx ≤ writeIdx then qSizeU32 - (writeIdx - readIdx) else readIdx - writeIdx
  if qFreeU32 ≤ payloadSizeU32 then (q, false)
  else
    let toWriteIdx := if qSizeU32 ≤ writeIdx + payloadSizeU32 then 0 else writeIdx + payloadSizeU32
    ((q.writeMessage writeIdx.toNat m).setWrPtr (q.defaultToCustom toWriteIdx), true)

def unread (q : Queue) (k : ℕ) : List (List UInt32) :=
  Ring.contents (q.qSizeBytes.toNat / 64) (fun i => q.payloadAt (16 * i))
    ((q.customToDefault q.readIndex).toNat / 16) k

def entries (q : Queue) : ℕ := q.qSizeBytes.toNat / 64

end Queue

inductive QueueOp where
  | update (m : Message)
  | read

/-- What a write or a read returns. -/
inductive QueueOut where
  | updated (room : Bool)
  | read (ret : Queue.ReadRet)
deriving DecidableEq

def Queue.step (q : Queue) : QueueOp → Queue × QueueOut
  | .update m => ((q.updateQueueHelper m).1, .updated (q.updateQueueHelper m).2)
  | .read => (q.readQueueHelper.1, .read q.readQueueHelper.2)

/-- The writes and reads of a list, and what they return. -/
def Queue.run (q : Queue) : List QueueOp → Queue × List QueueOut
  | [] => (q, [])
  | op :: ops => (((q.step op).1.run ops).1, (q.step op).2 :: ((q.step op).1.run ops).2)

namespace Fifo

/-- What a bounded queue does, with a slot that stays free. -/
def step (entries : ℕ) (l : List (List UInt32)) : QueueOp → List (List UInt32) × QueueOut
  | .update m =>
    if entries - l.length < 2 then (l, .updated false) else (l ++ [m.payload], .updated true)
  | .read =>
    match l with
    | [] => (l, .read .einval)
    | p :: rest => (rest, .read (.payload p !rest.isEmpty))

def run (entries : ℕ) (l : List (List UInt32)) :
    List QueueOp → List (List UInt32) × List QueueOut
  | [] => (l, [])
  | op :: ops =>
    ((run entries (step entries l op).1 ops).1,
      (step entries l op).2 :: (run entries (step entries l op).1 ops).2)

end Fifo

/-- A queue behaves like a bounded one. -/
structure IsBoundedFifo (q : Queue) : Prop where
  outputs : ∀ ops, (q.run ops).2 = (Fifo.run q.entries [] ops).2
  stored : ∀ ops, (q.run ops).1.unread (Fifo.run q.entries [] ops).1.length =
    (Fifo.run q.entries [] ops).1
  failed : ∀ ops m, ((q.run ops).1.updateQueueHelper m).2 = false →
    ((q.run ops).1.updateQueueHelper m).1 = (q.run ops).1

/-! ### Indexes -/

namespace Queue

variable {q : Queue} {n r w i : ℕ} {m : Message}

def index (q : Queue) (i : ℕ) : UInt32 := q.defaultToCustom (UInt32.ofNat (16 * i))

/-- The number of payloads, and a factor that counts dwords or payloads. -/
structure Sized (q : Queue) (n : ℕ) : Prop where
  pos : 0 < n
  size : q.qSizeBytes.toNat = 64 * n
  factor : q.rdWrIdxFactor = 1 ∨ q.rdWrIdxFactor = 16

section

variable (h : q.Sized n)
include h

theorem Sized.lt : 64 * n < 2 ^ 32 := by
  rw [← h.size]
  exact q.qSizeBytes.toNat_lt

theorem Sized.entries_eq : q.entries = n := by
  rw [entries, h.size, Nat.mul_div_cancel_left n (by decide)]

theorem Sized.toNat_slot (hi : i ≤ n) : (UInt32.ofNat (16 * i)).toNat = 16 * i := by
  have hlt := h.lt
  rw [UInt32.toNat_ofNat']
  exact Nat.mod_eq_of_lt (by omega)

theorem Sized.qSizeU32 : q.qSizeBytes / 4 = UInt32.ofNat (16 * n) := by
  apply UInt32.toNat_inj.mp
  rw [UInt32.toNat_div, h.size, h.toNat_slot le_rfl]
  show 64 * n / 4 = 16 * n
  omega

theorem Sized.customToDefault_index (hi : i ≤ n) :
    q.customToDefault (q.index i) = UInt32.ofNat (16 * i) := by
  rw [index, customToDefault, defaultToCustom]
  split
  · rw [UInt32.add_sub_cancel]
    rcases h.factor with hf | hf
    · rw [hf, UInt32.div_one, UInt32.mul_one]
    · apply UInt32.toNat_inj.mp
      rw [hf, UInt32.toNat_mul, UInt32.toNat_div, h.toNat_slot hi]
      have hlt := h.lt
      show 16 * i / 16 * 16 % 2 ^ 32 = 16 * i
      rw [Nat.mul_div_cancel_left i (by decide), Nat.mul_comm]
      exact Nat.mod_eq_of_lt (by omega)
  · rfl

theorem Sized.slot_le (hr : r ≤ n) (hw : w ≤ n) :
    UInt32.ofNat (16 * r) ≤ UInt32.ofNat (16 * w) ↔ r ≤ w := by
  rw [UInt32.le_iff_toNat_le, h.toNat_slot hr, h.toNat_slot hw]
  omega

theorem Sized.next_slot (hi : i < n) :
    (if q.qSizeBytes / 4 ≤ UInt32.ofNat (16 * i) + payloadSizeU32 then 0
      else UInt32.ofNat (16 * i) + payloadSizeU32) = UInt32.ofNat (16 * Ring.next n i) := by
  have hstep : UInt32.ofNat (16 * i) + payloadSizeU32 = UInt32.ofNat (16 * (i + 1)) := by
    rw [Nat.mul_add, UInt32.ofNat_add]
    rfl
  rw [hstep, h.qSizeU32, Ring.next]
  by_cases hlast : i + 1 < n
  · rw [if_pos hlast, if_neg (by rw [h.slot_le le_rfl hi]; omega)]
  · rw [if_neg hlast, if_pos (by rw [h.slot_le le_rfl hi]; omega)]
    rfl

theorem Sized.qFreeU32 (hr : r < n) (hw : w < n) :
    (if UInt32.ofNat (16 * r) ≤ UInt32.ofNat (16 * w) then
        q.qSizeBytes / 4 - (UInt32.ofNat (16 * w) - UInt32.ofNat (16 * r))
      else UInt32.ofNat (16 * r) - UInt32.ofNat (16 * w)) ≤ payloadSizeU32 ↔
      n - Ring.used n r w < 2 := by
  have hr' := h.toNat_slot (Nat.le_of_lt hr)
  have hw' := h.toNat_slot (Nat.le_of_lt hw)
  have hn' := h.toNat_slot le_rfl
  have hslot := h.slot_le (Nat.le_of_lt hr) (Nat.le_of_lt hw)
  have hsize : payloadSizeU32.toNat = 16 := rfl
  rw [UInt32.le_iff_toNat_le, hsize, h.qSizeU32, Ring.used]
  by_cases hle : r ≤ w
  · have hdiff : (UInt32.ofNat (16 * w) - UInt32.ofNat (16 * r)).toNat = 16 * w - 16 * r := by
      rw [UInt32.toNat_sub_of_le _ _ (hslot.mpr hle), hr', hw']
    rw [if_pos (hslot.mpr hle), if_pos hle, UInt32.toNat_sub_of_le _ _
      (by rw [UInt32.le_iff_toNat_le, hdiff, hn']; omega), hn', hdiff]
    omega
  · rw [if_neg (fun h => hle (hslot.mp h)), if_neg hle, UInt32.toNat_sub_of_le _ _
      (by rw [UInt32.le_iff_toNat_le, hr', hw']; omega), hr', hw']
    omega

theorem Sized.slot_inj (hr : r < n) (hw : w < n) :
    UInt32.ofNat (16 * r) = UInt32.ofNat (16 * w) ↔ r = w := by
  rw [← UInt32.toNat_inj, h.toNat_slot (Nat.le_of_lt hr), h.toNat_slot (Nat.le_of_lt hw)]
  omega

end

theorem writeMessage_of_ge {a : ℕ} (h : a < i ∨ i + 15 ≤ a) :
    (q.writeMessage i m).vaQueue a = q.vaQueue a := by
  show (if i ≤ a then m.dwords.getD (a - i) (q.vaQueue a) else q.vaQueue a) = q.vaQueue a
  split
  · have hlen : m.dwords.length ≤ a - i := by
      show 15 ≤ a - i
      omega
    rw [List.getD_eq_getElem?_getD, List.getElem?_eq_none hlen, Option.getD_none]
  · rfl

theorem payloadAt_writeMessage (h : q.vaQueue (i + 15) = 0) :
    (q.writeMessage i m).payloadAt i = m.payload := by
  rw [payloadAt, map_congr_left (g := fun j => m.payload.getD j 0)]
  · rfl
  · intro j hj
    rw [mem_range] at hj
    rcases Nat.lt_succ_iff_lt_or_eq.mp hj with hlt | rfl
    · show (if i ≤ i + j then m.dwords.getD (i + j - i) (q.vaQueue (i + j)) else _) = _
      have hlen : j < m.dwords.length := hlt
      rw [if_pos (Nat.le_add_right i j), Nat.add_sub_cancel_left, Message.payload,
        getD_append _ _ _ _ hlen, getD_eq_getElem _ _ hlen, getD_eq_getElem _ _ hlen]
    · rw [writeMessage_of_ge (.inr le_rfl), h]
      rfl

theorem payloadAt_writeMessage_of_ne (h : i ≠ w) :
    (q.writeMessage (16 * w) m).payloadAt (16 * i) = q.payloadAt (16 * i) := by
  apply map_congr_left
  intro j hj
  rw [mem_range] at hj
  apply writeMessage_of_ge
  omega

/-- The indexes are those of two slots, and the slots between them hold the payloads. -/
structure Represents (q : Queue) (n r w : ℕ) (l : List (List UInt32)) : Prop extends Sized q n where
  read_lt : r < n
  write_lt : w < n
  read : q.readIndex = q.index r
  write : q.wrPtr = q.index w
  reserve : ∀ i, q.vaQueue (16 * i + 15) = 0
  unread : Ring.contents n (fun i => q.payloadAt (16 * i)) r (Ring.used n r w) = l

variable {l : List (List UInt32)}

theorem Represents.length (h : q.Represents n r w l) : l.length = Ring.used n r w := by
  rw [← h.unread, Ring.length_contents]

theorem Represents.update (h : q.Represents n r w l) (m : Message) :
    if n - l.length < 2 then q.updateQueueHelper m = (q, false)
    else (q.updateQueueHelper m).2 = true ∧
      (q.updateQueueHelper m).1.Represents n r (Ring.next n w) (l ++ [m.payload]) := by
  have hfree := h.qFreeU32 h.read_lt h.write_lt
  rw [h.length]
  simp only [updateQueueHelper]
  rw [h.read, h.write, h.customToDefault_index (Nat.le_of_lt h.read_lt),
    h.customToDefault_index (Nat.le_of_lt h.write_lt), h.next_slot h.write_lt]
  by_cases hfull : n - Ring.used n r w < 2
  · rw [if_pos hfull, if_pos (hfree.mpr hfull)]
  · rw [if_neg hfull, if_neg (fun hle => hfull (hfree.mp hle))]
    refine ⟨rfl, ?_⟩
    rw [h.toNat_slot (Nat.le_of_lt h.write_lt), setWrPtr]
    have hcell : ∀ i < n, i ≠ w →
        (q.writeMessage (16 * w) m).payloadAt (16 * i) = q.payloadAt (16 * i) :=
      fun i _ hne => payloadAt_writeMessage_of_ne hne
    have hpush := Ring.contents_push hcell h.read_lt h.write_lt (by omega)
    rw [h.unread, payloadAt_writeMessage (h.reserve w)] at hpush
    have hreserve : ∀ i, (q.writeMessage (16 * w) m).vaQueue (16 * i + 15) = 0 := by
      intro i
      rw [writeMessage_of_ge (by omega), h.reserve i]
    have hnext := Ring.next_lt h.pos w
    split
    · rename_i hskip
      refine ⟨⟨h.pos, h.size, h.factor⟩, h.read_lt, hnext, h.read, ?_, hreserve, hpush⟩
      rw [wrPtr, if_pos hskip]
      rfl
    · rename_i hskip
      refine ⟨⟨h.pos, h.size, h.factor⟩, h.read_lt, hnext, h.read, ?_, hreserve, hpush⟩
      rw [wrPtr, if_neg hskip]
      rfl

theorem Represents.readQueue (h : q.Represents n r w l) (hskip : q.skipWrIdx = false) :
    match l with
    | [] => q.readQueueHelper = (q, .einval)
    | p :: rest =>
      q.readQueueHelper.2 = .payload p (q.index (Ring.next n r) != UInt32.ofNat (16 * w)) ∧
        q.readQueueHelper.1.Represents n (Ring.next n r) w rest := by
  have hwrite : q.writeIndex = q.index w := by
    have hw := h.write
    rwa [wrPtr, hskip, if_neg Bool.false_ne_true] at hw
  simp only [readQueueHelper]
  rw [h.read, hwrite, h.customToDefault_index (Nat.le_of_lt h.read_lt),
    h.customToDefault_index (Nat.le_of_lt h.write_lt), h.next_slot h.read_lt,
    h.toNat_slot (Nat.le_of_lt h.read_lt)]
  have hinj := h.slot_inj h.read_lt h.write_lt
  have hunread := h.unread
  by_cases heq : r = w
  · rw [heq, Ring.used_self] at hunread
    subst hunread
    exact if_pos (hinj.mpr heq)
  · rw [Ring.contents_pop _ h.read_lt h.write_lt heq] at hunread
    subst hunread
    simp only [if_neg (fun hslot => heq (hinj.mp hslot))]
    refine ⟨rfl, ⟨h.pos, h.size, h.factor⟩, Ring.next_lt h.pos r, h.write_lt, rfl, ?_, h.reserve, rfl⟩
    rw [wrPtr, hskip]
    rfl

theorem parseClientQueueDtPropsExtra_some {desc desc' : ClientTypeDesc} {extra : Option (List UInt32)}
    (h : parseClientQueueDtPropsExtra desc extra = some desc') :
    desc'.queueEntries = desc.queueEntries ∧
      (desc'.txqIdxFactor = desc.txqIdxFactor ∨ desc'.txqIdxFactor = 1 ∨ desc'.txqIdxFactor = 16) := by
  rw [parseClientQueueDtPropsExtra.eq_def] at h
  split at h
  · cases h
    exact ⟨rfl, .inl rfl⟩
  · simp only [Option.ite_none_left_eq_some, Option.some.injEq] at h
    obtain ⟨-, -, -, rfl⟩ := h
    refine ⟨?_, ?_⟩
    · split_ifs <;> rfl
    · split_ifs <;> simp [payloadSizeU32, payloadSize]

theorem parseClientQueueDtPropsIndv_some {entries : UInt32} {desc desc' : ClientTypeDesc}
    {props : Option (UInt32 × UInt32 × UInt32)} {extra : Option (List UInt32)}
    (hfactor : desc.txqIdxFactor = 0)
    (h : parseClientQueueDtPropsIndv entries desc props extra = some desc') :
    0 < desc'.queueEntries.toNat ∧ 64 * desc'.queueEntries.toNat < 2 ^ 32 ∧
      (desc'.txqIdxFactor = 0 ∨ desc'.txqIdxFactor = 1 ∨ desc'.txqIdxFactor = 16) := by
  have haccept : ∀ desc : ClientTypeDesc, desc.txqIdxFactor = 0 →
      parseClientQueueDtPropsIndv.accept extra desc = some desc' →
      0 < desc'.queueEntries.toNat ∧ 64 * desc'.queueEntries.toNat < 2 ^ 32 ∧
        (desc'.txqIdxFactor = 0 ∨ desc'.txqIdxFactor = 1 ∨ desc'.txqIdxFactor = 16) := by
    intro desc hfactor h
    rw [parseClientQueueDtPropsIndv.accept] at h
    split at h
    · cases h
    · rename_i hnum
      split at h
      · cases h
      · rename_i desc₁ hextra
        obtain ⟨hentries, hf⟩ := parseClientQueueDtPropsExtra_some hextra
        split at h
        · cases h
        · rename_i hlt
          cases h
          rw [hfactor] at hf
          refine ⟨?_, ?_, hf⟩
          · rw [hentries]
            apply Nat.pos_of_ne_zero
            intro hzero
            exact hnum (.inr (.inr (UInt32.toNat_inj.mp hzero)))
          · rw [UInt32.not_le, UInt32.lt_iff_toNat_lt] at hlt
            have hmax : (0xffffffff / payloadSize : UInt32).toNat = 0xffffffff / 64 := rfl
            rw [hmax] at hlt
            omega
  rw [parseClientQueueDtPropsIndv.eq_def] at h
  split at h
  · refine haccept _ ?_ h
    exact hfactor
  · split at h
    · cases h
    · refine haccept _ ?_ h
      exact hfactor

theorem represents_of_initialised (h : Initialised q) :
    q.Represents q.entries 0 0 [] ∧ q.readIndex = q.writeIndex := by
  have hrep : ∀ q : Queue, 0 < q.entries → q.qSizeBytes.toNat = 64 * q.entries →
      (q.rdWrIdxFactor = 1 ∨ q.rdWrIdxFactor = 16) → q.readIndex = q.rdWrIdxStart →
      q.wrPtr = q.rdWrIdxStart → q.vaQueue = (fun _ => 0) → q.Represents q.entries 0 0 [] := by
    intro q hpos hsize hfactor hread hwrite hzero
    have hindex : q.index 0 = q.rdWrIdxStart := by
      rw [index, defaultToCustom]
      split
      · rcases hfactor with hf | hf
        · rw [hf, Nat.mul_zero]
          show 0 / 1 + q.rdWrIdxStart = q.rdWrIdxStart
          rw [UInt32.div_one, UInt32.zero_add]
        · rw [hf, Nat.mul_zero]
          show 0 + q.rdWrIdxStart = q.rdWrIdxStart
          rw [UInt32.zero_add]
      · rename_i hreq
        by_contra hne
        refine hreq ⟨?_, .inl fun hstart => hne hstart.symm⟩
        rcases hfactor with hf | hf
        · rw [hf]
          decide
        · rw [hf]
          decide
    refine ⟨⟨hpos, hsize, hfactor⟩, hpos, hpos, hread.trans hindex.symm, hwrite.trans hindex.symm, ?_, ?_⟩
    · intro i
      rw [hzero]
    · rw [Ring.used_self]
      rfl
  cases h with
  | ctrl => exact ⟨hrep _ (by decide) (by decide) (.inl rfl) rfl rfl rfl, rfl⟩
  | client entries queuesNum skip props extra hparse tx =>
    rename_i desc _
    obtain ⟨hpos, hlt, hfactor⟩ := parseClientQueueDtPropsIndv_some rfl hparse
    have hsize : (payloadSize * desc.queueEntries).toNat = 64 * desc.queueEntries.toNat := by
      rw [UInt32.toNat_mul]
      exact Nat.mod_eq_of_lt hlt
    have hentries : (payloadSize * desc.queueEntries).toNat / 64 = desc.queueEntries.toNat := by
      rw [hsize, Nat.mul_div_cancel_left _ (by decide)]
    cases tx with
    | false =>
      refine ⟨hrep _ ?_ ?_ (.inl rfl) rfl rfl rfl, rfl⟩
      · show 0 < (payloadSize * desc.queueEntries).toNat / 64
        rw [hentries]
        exact hpos
      · show (payloadSize * desc.queueEntries).toNat = 64 * ((payloadSize * desc.queueEntries).toNat / 64)
        rw [hentries, hsize]
    | true =>
      refine ⟨hrep _ ?_ ?_ ?_ rfl ?_ rfl, rfl⟩
      · show 0 < (payloadSize * desc.queueEntries).toNat / 64
        rw [hentries]
        exact hpos
      · show (payloadSize * desc.queueEntries).toNat = 64 * ((payloadSize * desc.queueEntries).toNat / 64)
        rw [hentries, hsize]
      · show (if desc.txqIdxFactor = 0 then 1 else desc.txqIdxFactor) = 1 ∨
          (if desc.txqIdxFactor = 0 then 1 else desc.txqIdxFactor) = 16
        split
        · exact .inl rfl
        · rename_i hne
          exact hfactor.resolve_left hne
      · show (if desc.skipTxqWrIdx then (if desc.skipTxqWrIdx then desc.txqIdxStart else 0)
          else desc.txqIdxStart) = desc.txqIdxStart
        cases desc.skipTxqWrIdx with
        | true => rfl
        | false => rfl

/-! ### Runs -/

theorem Represents.unread_length (h : q.Represents n r w l) : q.unread l.length = l := by
  have hread : (q.customToDefault q.readIndex).toNat / 16 = r := by
    rw [h.read, h.customToDefault_index (Nat.le_of_lt h.read_lt), h.toNat_slot (Nat.le_of_lt h.read_lt),
      Nat.mul_div_cancel_left r (by decide)]
  have hentries := h.entries_eq
  rw [entries] at hentries
  rw [Queue.unread, hentries, hread, h.length, h.unread]

def Plain (q : Queue) : Prop := q.skipWrIdx = false ∧ ¬q.RequiresIdxTranslation
deriving Decidable

theorem Plain.index (h : q.Plain) (i : ℕ) : q.index i = UInt32.ofNat (16 * i) := by
  rw [Queue.index, defaultToCustom, if_neg h.2]

theorem updateQueueHelper_cases (q : Queue) (m : Message) :
    q.updateQueueHelper m = (q, false) ∨
      ∃ i idx, q.updateQueueHelper m = ((q.writeMessage i m).setWrPtr idx, true) := by
  simp only [updateQueueHelper]
  generalize (if q.customToDefault q.readIndex ≤ q.customToDefault q.wrPtr then _ else _ : UInt32) = free
  split
  · exact .inl rfl
  · exact .inr ⟨_, _, rfl⟩

/-- The properties that the driver stores with a queue are the same. -/
structure SameGeometry (q q' : Queue) : Prop where
  start : q'.rdWrIdxStart = q.rdWrIdxStart
  factor : q'.rdWrIdxFactor = q.rdWrIdxFactor
  skip : q'.skipWrIdx = q.skipWrIdx

theorem step_read (q : Queue) : q.step .read = (q.readQueueHelper.1, .read q.readQueueHelper.2) := rfl

theorem sameGeometry_step (q : Queue) (op : QueueOp) : q.SameGeometry (q.step op).1 := by
  cases op with
  | update m =>
    rw [Queue.step]
    rcases q.updateQueueHelper_cases m with heq | ⟨i, idx, heq⟩
    · rw [heq]
      exact ⟨rfl, rfl, rfl⟩
    · rw [heq, setWrPtr]
      split
      · exact ⟨rfl, rfl, rfl⟩
      · exact ⟨rfl, rfl, rfl⟩
  | read =>
    simp only [Queue.step, readQueueHelper]
    split
    · exact ⟨rfl, rfl, rfl⟩
    · exact ⟨rfl, rfl, rfl⟩

theorem SameGeometry.index {q' : Queue} (h : q.SameGeometry q') (i : ℕ) : q'.index i = q.index i := by
  have hreq : q'.RequiresIdxTranslation ↔ q.RequiresIdxTranslation := by
    rw [RequiresIdxTranslation, RequiresIdxTranslation, h.start, h.factor]
  rw [Queue.index, Queue.index, defaultToCustom, defaultToCustom, h.start, h.factor]
  simp only [hreq]

theorem Plain.step (h : q.Plain) (op : QueueOp) : (q.step op).1.Plain := by
  have hsame := q.sameGeometry_step op
  refine ⟨hsame.skip.trans h.1, ?_⟩
  rw [RequiresIdxTranslation, hsame.start, hsame.factor]
  exact h.2

theorem Represents.step (h : q.Represents n r w l) (hp : q.Plain) (op : QueueOp) :
    (q.step op).2 = (Fifo.step n l op).2 ∧
      ∃ r' w', (q.step op).1.Represents n r' w' (Fifo.step n l op).1 := by
  cases op with
  | update m =>
    have hupdate := h.update m
    rw [Queue.step, Fifo.step]
    by_cases hfull : n - l.length < 2
    · rw [if_pos hfull] at hupdate ⊢
      rw [hupdate]
      exact ⟨rfl, r, w, h⟩
    · rw [if_neg hfull] at hupdate ⊢
      obtain ⟨hok, hrep⟩ := hupdate
      rw [hok]
      exact ⟨rfl, r, Ring.next n w, hrep⟩
  | read =>
    have hread := h.readQueue hp.1
    rw [Queue.step]
    cases l with
    | nil =>
      have hnone : q.readQueueHelper = (q, .einval) := hread
      rw [hnone]
      exact ⟨rfl, r, w, h⟩
    | cons p rest =>
      obtain ⟨hout, hrep⟩ := hread
      refine ⟨?_, Ring.next n r, w, hrep⟩
      rw [hout, Fifo.step, hp.index]
      have hlen := hrep.length
      have hslot := h.slot_inj hrep.read_lt h.write_lt
      cases rest with
      | nil =>
        have heq := Ring.eq_of_used hrep.read_lt hlen.symm
        rw [heq, bne_self_eq_false]
        rfl
      | cons p' rest =>
        have hne : UInt32.ofNat (16 * Ring.next n r) ≠ UInt32.ofNat (16 * w) := by
          intro heq
          rw [hslot.mp heq, Ring.used_self] at hlen
          exact absurd hlen (Nat.succ_ne_zero _)
        rw [bne_iff_ne.mpr hne]
        rfl

theorem Represents.run (h : q.Represents n r w l) (hp : q.Plain) (ops : List QueueOp) :
    (q.run ops).2 = (Fifo.run n l ops).2 ∧
      ∃ r' w', (q.run ops).1.Represents n r' w' (Fifo.run n l ops).1 := by
  induction ops generalizing q r w l with
  | nil => exact ⟨rfl, r, w, h⟩
  | cons op ops ih =>
    obtain ⟨hout, r', w', hrep⟩ := h.step hp op
    obtain ⟨houts, hrun⟩ := ih hrep (hp.step op)
    refine ⟨?_, hrun⟩
    show (q.step op).2 :: _ = (Fifo.step n l op).2 :: _
    rw [hout, houts]

theorem updateQueueHelper_false (h : (q.updateQueueHelper m).2 = false) :
    (q.updateQueueHelper m).1 = q := by
  rcases q.updateQueueHelper_cases m with heq | ⟨i, idx, heq⟩
  · rw [heq]
  · rw [heq] at h
    cases h

theorem Represents.run_one (h : q.Represents 1 0 0 []) (hread : q.readIndex = q.writeIndex)
    (ops : List QueueOp) : (q.run ops).1 = q ∧ (q.run ops).2 = (Fifo.run 1 [] ops).2 ∧
      (Fifo.run 1 [] ops).1 = [] := by
  have hstep : ∀ op, (q.step op).1 = q ∧ (q.step op).2 = (Fifo.step 1 [] op).2 ∧
      (Fifo.step 1 [] op).1 = [] := by
    intro op
    cases op with
    | update m =>
      have hupdate := h.update m
      rw [if_pos (by decide)] at hupdate
      rw [Queue.step, hupdate]
      exact ⟨rfl, rfl, rfl⟩
    | read =>
      have hnone : q.readQueueHelper = (q, .einval) := by
        simp only [readQueueHelper, hread, if_true]
      rw [Queue.step, hnone]
      exact ⟨rfl, rfl, rfl⟩
  induction ops with
  | nil => exact ⟨rfl, rfl, rfl⟩
  | cons op ops ih =>
    obtain ⟨hq, hout, hl⟩ := hstep op
    rw [Queue.run, Fifo.run, hq, hl, hout, ih.2.1]
    exact ⟨ih.1, rfl, ih.2.2⟩

theorem Represents.write_read (h : q.Represents n r r []) (hskip : q.skipWrIdx = false) (hn : 2 ≤ n)
    (m : Message) (ops : List QueueOp)
    (hout : (q.run (.update m :: .read :: ops)).2 = (Fifo.run n [] (.update m :: .read :: ops)).2) :
    q.index (Ring.next n r) = UInt32.ofNat (16 * Ring.next n r) ∧
      ((q.step (.update m)).1.step .read).1.Represents n (Ring.next n r) (Ring.next n r) [] ∧
      (((q.step (.update m)).1.step .read).1.run ops).2 = (Fifo.run n [] ops).2 := by
  have hroom : ¬n - ([] : List (List UInt32)).length < 2 := by
    show ¬n - 0 < 2
    omega
  have hupdate := h.update m
  rw [if_neg hroom] at hupdate
  have hrep : (q.step (.update m)).1.Represents n r (Ring.next n r) [m.payload] := hupdate.2
  have hsame := q.sameGeometry_step (.update m)
  rw [step_read]
  obtain ⟨hread, hrep'⟩ := hrep.readQueue (hsame.skip.trans hskip)
  have hfifo : (Fifo.run n [] (.update m :: .read :: ops)).2 =
      .updated true :: .read (.payload m.payload false) :: (Fifo.run n [] ops).2 := by
    rw [Fifo.run, Fifo.step, if_neg hroom]
    rfl
  rw [hfifo, Queue.run, Queue.run, step_read] at hout
  obtain ⟨-, hout⟩ := List.cons.inj hout
  obtain ⟨hout, hrest⟩ := List.cons.inj hout
  refine ⟨?_, hrep', hrest⟩
  have hmore := hread.symm.trans (QueueOut.read.inj hout)
  rw [hsame.index] at hmore
  exact (bne_eq_false_iff_eq).mp (ReadRet.payload.inj hmore).2

theorem Sized.plain_of_index (h : q.Sized n) (hskip : q.skipWrIdx = false)
    (h₁ : q.index 1 = UInt32.ofNat (16 * 1))
    (h₂ : q.index (Ring.next n 1) = UInt32.ofNat (16 * Ring.next n 1)) : q.Plain := by
  refine ⟨hskip, fun hreq => ?_⟩
  rw [index, defaultToCustom, if_pos hreq] at h₁ h₂
  rcases h.factor with hf | hf
  · -- only an offset
    rw [hf, UInt32.div_one] at h₁
    have hstart : q.rdWrIdxStart = 0 := by
      have hcancel := congrArg (fun x => x - UInt32.ofNat (16 * 1)) h₁
      simpa [UInt32.add_comm _ q.rdWrIdxStart, UInt32.add_sub_cancel] using hcancel
    rcases hreq.2 with hne | hlt
    · exact hne hstart
    · rw [hf] at hlt
      exact absurd hlt (by decide)
  · have hstart : q.rdWrIdxStart = 15 := by
      have hcancel := congrArg (fun x => x - (1 : UInt32)) h₁
      rw [hf] at hcancel
      have hone : (UInt32.ofNat (16 * 1) / 16 : UInt32) = 1 := rfl
      rw [hone, UInt32.add_comm, UInt32.add_sub_cancel] at hcancel
      exact hcancel
    rw [hf, hstart, Ring.next] at h₂
    split at h₂
    · exact absurd h₂ (by decide)
    · exact absurd h₂ (by decide)

def probe : Message := ⟨1, 0, 0, 0, 0, 0, 0, 0⟩

end Queue

/-- **When a queue is a bounded queue**: exactly if its writes keep their index in the header and no index
is translated, or it has one entry and never room for a payload. -/
theorem isBoundedFifo_iff {q : Queue} (h : Initialised q) :
    IsBoundedFifo q ↔ q.skipWrIdx = false ∧ ¬q.RequiresIdxTranslation ∨ q.entries = 1 := by
  obtain ⟨hrep, hread⟩ := Queue.represents_of_initialised h
  constructor
  · intro hfifo
    by_contra hcond
    rw [not_or] at hcond
    have hn : 2 ≤ q.entries := by
      have hpos := hrep.pos
      omega
    have hnext : Ring.next q.entries 0 = 1 := by
      rw [Ring.next, if_pos (by omega)]
    cases hskip : q.skipWrIdx with
    | true =>
      have hout := hfifo.outputs [.update Queue.probe, .read]
      have hroom : ¬q.entries - ([] : List (List UInt32)).length < 2 := by
        show ¬q.entries - 0 < 2
        omega
      rw [Fifo.run, Fifo.step, if_neg hroom] at hout
      injection hout with _ hout
      injection hout with hout _
      -- the read looks at an index that no write changes
      have hnone : ((q.step (.update Queue.probe)).1.step .read).2 = .read .einval := by
        have hsame : (q.updateQueueHelper Queue.probe).1.readIndex =
            (q.updateQueueHelper Queue.probe).1.writeIndex := by
          rcases q.updateQueueHelper_cases Queue.probe with heq | ⟨i, idx, heq⟩
          · rw [heq]
            exact hread
          · rw [heq, Queue.setWrPtr]
            show (if q.skipWrIdx = true then _ else _ : Queue).readIndex =
              (if q.skipWrIdx = true then _ else _ : Queue).writeIndex
            rw [if_pos hskip]
            exact hread
        show QueueOut.read (q.updateQueueHelper Queue.probe).1.readQueueHelper.2 = _
        simp only [Queue.readQueueHelper, hsame, if_true]
      rw [hnone] at hout
      cases hout
    | false =>
      obtain ⟨h₁, hrep₁, hrest⟩ := hrep.write_read hskip hn Queue.probe [.update Queue.probe, .read]
        (hfifo.outputs _)
      have hupdate := q.sameGeometry_step (.update Queue.probe)
      have hsame := (q.step (.update Queue.probe)).1.sameGeometry_step .read
      have hskip₁ := hsame.skip.trans (hupdate.skip.trans hskip)
      obtain ⟨h₂, -, -⟩ := hrep₁.write_read hskip₁ hn Queue.probe [] hrest
      rw [hsame.index, hupdate.index, hnext] at h₂
      rw [hnext] at h₁
      exact hcond.1 (hrep.plain_of_index hskip h₁ h₂)
  · rintro (hp | hone)
    · refine ⟨fun ops => (hrep.run hp ops).1, fun ops => ?_, fun ops m => Queue.updateQueueHelper_false⟩
      obtain ⟨-, r, w, hrun⟩ := hrep.run hp ops
      exact hrun.unread_length
    · rw [hone] at hrep
      refine ⟨fun ops => ?_, fun ops => ?_, fun ops m => Queue.updateQueueHelper_false⟩
      · rw [hone]
        exact (hrep.run_one hread ops).2.1
      · rw [hone, (hrep.run_one hread ops).2.2]
        rfl

theorem isBoundedFifo_ctrl : IsBoundedFifo { qSizeBytes := payloadSize * ctrlQueueEntries } :=
  (isBoundedFifo_iff .ctrl).mpr (.inl (by decide))

def startAtOne : ClientTypeDesc := { queueEntries := 4, txqIdxStart := 1 }

theorem initialised_startAtOne : Initialised (initQueue startAtOne true) :=
  .client 4 2 false none (some [0, 0, 1]) (by decide) true (.inl rfl)

/-- **A queue can say that it has more**: after the read of its only payload, the index that counts from one
is compared with one that counts from zero. -/
theorem not_isBoundedFifo : ¬∀ q, Initialised q → IsBoundedFifo q := by
  intro h
  have hout := (h _ initialised_startAtOne).outputs [.update Queue.probe, .read]
  revert hout
  decide

end Sm8750Modules.HwFence
