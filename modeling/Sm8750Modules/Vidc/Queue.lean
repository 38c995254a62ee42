import Mathlib

/-!
# The queues shared with the video firmware

A queue is an array of words with a header: a read index, a write index and the requests for interrupts.
The header is in shared memory, so nothing is known of the indexes. All of the index arithmetic is on
32-bit words.
-/

namespace VidcHfiQueue

open List

/-- The fields of `struct hfi_queue_header` that the driver uses. -/
structure Header where
  type : UInt32
  rxReq : UInt32 := 1
  txReq : UInt32 := 0
  readIdx : UInt32 := 0
  writeIdx : UInt32 := 0
deriving DecidableEq, Repr

def hugePktSize : UInt32 := 1024 * 4

def ctrlToHostMsgQ : UInt32 := 1

def enodata : ℤ := -61

def enotempty : ℤ := -39

/-- A `memcpy` between the array of the queue and a packet, all in bytes. -/
structure Memcpy where
  queue : UInt32
  packet : UInt32
  len : UInt32
deriving DecidableEq, Repr

/-- What a call returns and does: the header after it, the copies, and the index if it stores one. -/
structure Transfer where
  ret : ℤ
  hdr : Header
  copies : List Memcpy := []
  stored : Option UInt32 := none
deriving DecidableEq, Repr

/-- The copies for a packet that starts at an index, in two parts where it reaches the end of the array,
and the index after the packet. -/
def ringCopies (memSize idx packetSizeInWords : UInt32) : List Memcpy × UInt32 :=
  let newIdx := idx + packetSizeInWords
  if newIdx < memSize >>> 2 then ([⟨idx <<< 2, 0, packetSizeInWords <<< 2⟩], newIdx)
  else
    let newIdx := newIdx - memSize >>> 2
    ([⟨idx <<< 2, 0, (packetSizeInWords - newIdx) <<< 2⟩,
      ⟨0, (packetSizeInWords - newIdx) <<< 2, newIdx <<< 2⟩], newIdx)

def emptySpace (memSize readIdx writeIdx : UInt32) : UInt32 :=
  if readIdx ≤ writeIdx then memSize >>> 2 - (writeIdx - readIdx) else readIdx - writeIdx

def writeQueue (memSize : UInt32) (q : Header) (packet : UInt32) : Transfer :=
  let packetSizeInWords := packet >>> 2
  if packetSizeInWords = 0 ∨ memSize >>> 2 < packetSizeInWords then { ret := enodata, hdr := q }
  else if emptySpace memSize q.readIdx q.writeIdx ≤ packetSizeInWords then
    { ret := enotempty, hdr := { q with txReq := 1 } }
  else if memSize < q.writeIdx <<< 2 then { ret := enodata, hdr := { q with txReq := 0 } }
  else
    let (copies, newWriteIdx) := ringCopies memSize q.writeIdx packetSizeInWords
    { ret := 0
      hdr := { q with txReq := 0, writeIdx := newWriteIdx }
      copies := copies
      stored := some newWriteIdx }

def Header.receiveRequest (q : Header) : UInt32 := if q.type &&& ctrlToHostMsgQ ≠ 0 then 1 else 0

def readQueue (memSize : UInt32) (q : Header) (mem : ℕ → UInt32) : Transfer :=
  if q.readIdx = q.writeIdx then { ret := enodata, hdr := { q with rxReq := q.receiveRequest } }
  -- the last word of the array is as far as the pointer may go
  else if memSize.toNat < (q.readIdx <<< 2).toNat + 4 then { ret := enodata, hdr := q }
  else
    let packetSizeInWords := mem ((q.readIdx <<< 2).toNat / 4) >>> 2
    if packetSizeInWords = 0 then { ret := enodata, hdr := q }
    else if packetSizeInWords <<< 2 ≤ hugePktSize ∧ q.readIdx ≤ memSize >>> 2 then
      let (copies, newReadIdx) := ringCopies memSize q.readIdx packetSizeInWords
      { ret := 0
        hdr := { q with rxReq := q.receiveRequest, readIdx := newReadIdx }
        copies := copies
        stored := some newReadIdx }
    else
      { ret := enodata
        hdr := { q with rxReq := q.receiveRequest, readIdx := q.writeIdx }
        stored := some q.writeIdx }

def Memcpy.InBounds (memSize packetSize : ℕ) (c : Memcpy) : Prop :=
  c.queue.toNat + c.len.toNat ≤ memSize ∧ c.packet.toNat + c.len.toNat ≤ packetSize

structure Transfer.InBounds (memSize : UInt32) (packetSize : ℕ) (t : Transfer) : Prop where
  copies : ∀ c ∈ t.copies, c.InBounds memSize.toNat packetSize
  stored : ∀ idx ∈ t.stored, idx < memSize >>> 2

section Copies

variable {memSize idx size : UInt32} {packetSize : ℕ}

theorem toNat_words (memSize : UInt32) : (memSize >>> 2).toNat = memSize.toNat / 4 := by
  simp [Nat.shiftRight_eq_div_pow]

theorem toNat_bytes (words : UInt32) : (words <<< 2).toNat = words.toNat * 4 % 2 ^ 32 := by
  simp [Nat.shiftLeft_eq]

theorem toNat_size_lt (word : UInt32) : (word >>> 2).toNat < 2 ^ 30 := by
  have hword := word.toNat_lt
  rw [toNat_words]
  omega

def Memcpy.bytes (c : Memcpy) : ℕ × ℕ × ℕ := (c.queue.toNat, c.packet.toNat, c.len.toNat)

theorem ringCopies_spec (hidx : idx.toNat ≤ memSize.toNat / 4) (hsize : size.toNat < 2 ^ 30) :
    if idx.toNat + size.toNat < memSize.toNat / 4 then
      (ringCopies memSize idx size).1.map Memcpy.bytes = [(4 * idx.toNat, 0, 4 * size.toNat)] ∧
      (ringCopies memSize idx size).2.toNat = idx.toNat + size.toNat
    else
      (ringCopies memSize idx size).1.map Memcpy.bytes =
        [(4 * idx.toNat, 0, 4 * (memSize.toNat / 4 - idx.toNat)),
          (0, 4 * (memSize.toNat / 4 - idx.toNat), 4 * (idx.toNat + size.toNat - memSize.toNat / 4))] ∧
      (ringCopies memSize idx size).2.toNat = idx.toNat + size.toNat - memSize.toNat / 4 := by
  have hmem := memSize.toNat_lt
  have hnew : (idx + size).toNat = idx.toNat + size.toNat := by
    rw [UInt32.toNat_add]
    omega
  split
  · have hlt : idx + size < memSize >>> 2 := by
      rw [UInt32.lt_iff_toNat_lt, hnew, toNat_words]
      assumption
    simp only [ringCopies, if_pos hlt, map_cons, map_nil, Memcpy.bytes, toNat_bytes, hnew,
      UInt32.toNat_zero]
    simp
    omega
  · have hlt : ¬idx + size < memSize >>> 2 := by
      rw [UInt32.lt_iff_toNat_lt, hnew, toNat_words]
      assumption
    have hle : memSize >>> 2 ≤ idx + size := by
      rw [UInt32.le_iff_toNat_le, hnew, toNat_words]
      omega
    have hwrapped : (idx + size - memSize >>> 2).toNat = idx.toNat + size.toNat - memSize.toNat / 4 := by
      rw [UInt32.toNat_sub_of_le _ _ hle, hnew, toNat_words]
    have hfirst : (size - (idx + size - memSize >>> 2)).toNat = memSize.toNat / 4 - idx.toNat := by
      rw [UInt32.toNat_sub_of_le, hwrapped]
      · omega
      · rw [UInt32.le_iff_toNat_le, hwrapped]
        omega
    simp only [ringCopies, if_neg hlt, map_cons, map_nil, Memcpy.bytes, toNat_bytes, hwrapped,
      hfirst, UInt32.toNat_zero]
    simp
    omega

theorem inBounds_iff_bytes (c : Memcpy) :
    c.InBounds memSize.toNat packetSize ↔
      c.bytes.1 + c.bytes.2.2 ≤ memSize.toNat ∧ c.bytes.2.1 + c.bytes.2.2 ≤ packetSize := Iff.rfl

theorem ringCopies_inBounds_iff {ret : ℤ} {q : Header} (hidx : idx.toNat ≤ memSize.toNat / 4)
    (hsize : size.toNat < 2 ^ 30) (hpacket : 4 * size.toNat ≤ packetSize) :
    (⟨ret, q, (ringCopies memSize idx size).1, some (ringCopies memSize idx size).2⟩ :
      Transfer).InBounds memSize packetSize ↔
      idx.toNat + size.toNat < 2 * (memSize.toNat / 4) := by
  have hspec := ringCopies_spec hidx hsize
  constructor
  · intro ⟨_, hstored⟩
    have hlt := hstored _ rfl
    rw [UInt32.lt_iff_toNat_lt, toNat_words] at hlt
    split at hspec
    · omega
    · rw [hspec.2] at hlt
      omega
  · intro hlt
    have hbytes : ∀ c ∈ (ringCopies memSize idx size).1,
        c.bytes ∈ (ringCopies memSize idx size).1.map Memcpy.bytes := fun c hc => mem_map_of_mem hc
    refine ⟨fun c hc => ?_, fun i hi => ?_⟩
    · rw [inBounds_iff_bytes]
      have hmem := hbytes c hc
      split at hspec
      · rw [hspec.1, mem_singleton] at hmem
        rw [hmem]
        constructor <;> dsimp only <;> omega
      · rw [hspec.1, mem_pair] at hmem
        rcases hmem with hmem | hmem <;> rw [hmem] <;> constructor <;> dsimp only <;> omega
    · cases hi
      rw [UInt32.lt_iff_toNat_lt, toNat_words]
      split at hspec <;> rw [hspec.2] <;> omega

theorem not_inBounds_ringCopies {ret : ℤ} {q : Header} (hidx : memSize.toNat / 4 < idx.toNat)
    (hcheck : (idx <<< 2).toNat ≤ memSize.toNat) (hpos : 0 < size.toNat)
    (hsize : size.toNat ≤ memSize.toNat / 4) (hpacket : packetSize < 4 * size.toNat + 4) :
    ¬(⟨ret, q, (ringCopies memSize idx size).1, some (ringCopies memSize idx size).2⟩ :
      Transfer).InBounds memSize packetSize := by
  intro ⟨hcopies, hstored⟩
  have hmem := memSize.toNat_lt
  have hi := idx.toNat_lt
  rw [toNat_bytes] at hcheck
  have hlt := hstored _ rfl
  by_cases hnew : idx + size < memSize >>> 2
  · -- the sum has wrapped around, and the copy runs over the end of the array
    simp only [ringCopies, if_pos hnew, mem_singleton, forall_eq] at hcopies
    have hcopy := hcopies.1
    dsimp only at hcopy
    rw [toNat_bytes, toNat_bytes] at hcopy
    rw [UInt32.lt_iff_toNat_lt, toNat_words, UInt32.toNat_add] at hnew
    omega
  · simp only [ringCopies, if_neg hnew] at hcopies hlt
    rw [UInt32.lt_iff_toNat_lt, toNat_words, UInt32.toNat_add] at hnew
    have hle : memSize >>> 2 ≤ idx + size := by
      rw [UInt32.le_iff_toNat_le, toNat_words, UInt32.toNat_add]
      omega
    rw [UInt32.lt_iff_toNat_lt, UInt32.toNat_sub_of_le _ _ hle, toNat_words, UInt32.toNat_add] at hlt
    have hfirst := (hcopies _ (mem_cons_self ..)).2
    have hsecond := (hcopies _ (mem_cons_of_mem _ (mem_cons_self ..))).2
    dsimp only at hfirst hsecond
    rw [toNat_bytes, UInt32.toNat_sub, UInt32.toNat_sub_of_le _ _ hle, toNat_words, UInt32.toNat_add]
      at hfirst hsecond
    rw [toNat_bytes, UInt32.toNat_sub_of_le _ _ hle, toNat_words, UInt32.toNat_add] at hsecond
    omega

end Copies

/-! ### Both sides -/

variable {memSize : UInt32} {q : Header} {packet : UInt32} {mem : ℕ → UInt32}

structure WriteChecks (memSize : UInt32) (q : Header) (packet : UInt32) : Prop where
  size_ne_zero : packet >>> 2 ≠ 0
  size_le : packet >>> 2 ≤ memSize >>> 2
  space : packet >>> 2 < emptySpace memSize q.readIdx q.writeIdx
  pointer : q.writeIdx <<< 2 ≤ memSize

def readSize (q : Header) (mem : ℕ → UInt32) : UInt32 := mem ((q.readIdx <<< 2).toNat / 4) >>> 2

/-- The checks of `__read_queue` that come before the packet is taken or dropped. -/
structure ReadChecks (memSize : UInt32) (q : Header) (mem : ℕ → UInt32) : Prop where
  nonempty : q.readIdx ≠ q.writeIdx
  pointer : (q.readIdx <<< 2).toNat + 4 ≤ memSize.toNat
  size_ne_zero : readSize q mem ≠ 0

/-- Whether `__read_queue` takes the packet. -/
def TakesPacket (memSize : UInt32) (q : Header) (mem : ℕ → UInt32) : Prop :=
  readSize q mem <<< 2 ≤ hugePktSize ∧ q.readIdx ≤ memSize >>> 2

theorem inBounds_nothing (memSize : UInt32) (packetSize : ℕ) (ret : ℤ) (q : Header) :
    (⟨ret, q, [], none⟩ : Transfer).InBounds memSize packetSize :=
  ⟨fun _ hc => absurd hc (by simp), fun _ hi => absurd hi (by simp)⟩

theorem writeQueue_of_checks (h : WriteChecks memSize q packet) :
    writeQueue memSize q packet =
      ⟨0, { q with txReq := 0, writeIdx := (ringCopies memSize q.writeIdx (packet >>> 2)).2 },
        (ringCopies memSize q.writeIdx (packet >>> 2)).1,
        some (ringCopies memSize q.writeIdx (packet >>> 2)).2⟩ := by
  have hsize : ¬(packet >>> 2 = 0 ∨ memSize >>> 2 < packet >>> 2) := by
    intro hor
    rcases hor with hzero | hlt
    · exact h.size_ne_zero hzero
    · exact UInt32.not_lt.mpr h.size_le hlt
  rw [writeQueue, if_neg hsize, if_neg (UInt32.not_le.mpr h.space), if_neg (UInt32.not_lt.mpr h.pointer)]

theorem writeQueue_of_not_checks (h : ¬WriteChecks memSize q packet) :
    ∃ ret txReq, ret ≠ 0 ∧
      writeQueue memSize q packet = ⟨ret, { q with txReq := txReq }, [], none⟩ := by
  by_cases hsize : packet >>> 2 = 0 ∨ memSize >>> 2 < packet >>> 2
  · exact ⟨enodata, q.txReq, by decide, by rw [writeQueue, if_pos hsize]⟩
  · by_cases hspace : emptySpace memSize q.readIdx q.writeIdx ≤ packet >>> 2
    · exact ⟨enotempty, 1, by decide, by rw [writeQueue, if_neg hsize, if_pos hspace]⟩
    · by_cases hpointer : memSize < q.writeIdx <<< 2
      · exact ⟨enodata, 0, by decide, by
          rw [writeQueue, if_neg hsize, if_neg hspace, if_pos hpointer]⟩
      · rw [not_or] at hsize
        exact absurd ⟨hsize.1, UInt32.not_lt.mp hsize.2, UInt32.not_le.mp hspace,
          UInt32.not_lt.mp hpointer⟩ h

theorem readQueue_of_checks (h : ReadChecks memSize q mem) (htakes : TakesPacket memSize q mem) :
    readQueue memSize q mem =
      ⟨0, { q with
          rxReq := q.receiveRequest
          readIdx := (ringCopies memSize q.readIdx (readSize q mem)).2 },
        (ringCopies memSize q.readIdx (readSize q mem)).1,
        some (ringCopies memSize q.readIdx (readSize q mem)).2⟩ := by
  have hsize := h.size_ne_zero
  unfold TakesPacket readSize at htakes
  unfold readSize at hsize ⊢
  rw [readQueue, if_neg h.nonempty, if_neg (Nat.not_lt.mpr h.pointer)]
  simp only [if_neg hsize, if_pos htakes]

theorem readQueue_of_drop (h : ReadChecks memSize q mem) (htakes : ¬TakesPacket memSize q mem) :
    readQueue memSize q mem =
      ⟨enodata, { q with rxReq := q.receiveRequest, readIdx := q.writeIdx }, [], some q.writeIdx⟩ := by
  have hsize := h.size_ne_zero
  unfold TakesPacket readSize at htakes
  unfold readSize at hsize
  rw [readQueue, if_neg h.nonempty, if_neg (Nat.not_lt.mpr h.pointer)]
  simp only [if_neg hsize, if_neg htakes]

theorem readQueue_of_not_checks (h : ¬ReadChecks memSize q mem) :
    ∃ rxReq, readQueue memSize q mem = ⟨enodata, { q with rxReq := rxReq }, [], none⟩ := by
  by_cases hempty : q.readIdx = q.writeIdx
  · exact ⟨q.receiveRequest, by rw [readQueue, if_pos hempty]⟩
  · by_cases hpointer : memSize.toNat < (q.readIdx <<< 2).toNat + 4
    · exact ⟨q.rxReq, by rw [readQueue, if_neg hempty, if_pos hpointer]⟩
    · by_cases hsize : readSize q mem = 0
      · refine ⟨q.rxReq, ?_⟩
        unfold readSize at hsize
        rw [readQueue, if_neg hempty, if_neg hpointer]
        simp only [if_pos hsize]
      · exact absurd ⟨hempty, Nat.not_lt.mp hpointer, hsize⟩ h

theorem write_inBounds_iff :
    (writeQueue memSize q packet).InBounds memSize packet.toNat ↔
      (WriteChecks memSize q packet → q.writeIdx < memSize >>> 2 ∨
        q.writeIdx = memSize >>> 2 ∧ packet >>> 2 < memSize >>> 2) := by
  by_cases hchecks : WriteChecks memSize q packet
  · rw [writeQueue_of_checks hchecks]
    have hsize := hchecks.size_le
    have hpointer := hchecks.pointer
    have hpos : (packet >>> 2).toNat ≠ 0 := fun hzero => hchecks.size_ne_zero (UInt32.toNat_inj.mp hzero)
    rw [UInt32.le_iff_toNat_le, toNat_words memSize] at hsize
    rw [UInt32.le_iff_toNat_le] at hpointer
    simp only [hchecks, true_implies, UInt32.lt_iff_toNat_lt, ← UInt32.toNat_inj, toNat_words memSize]
    by_cases hidx : q.writeIdx.toNat ≤ memSize.toNat / 4
    · rw [ringCopies_inBounds_iff hidx (toNat_size_lt packet) (by rw [toNat_words]; omega)]
      omega
    · refine iff_of_false (not_inBounds_ringCopies (by omega) hpointer (by omega) hsize ?_) (by omega)
      rw [toNat_words]
      omega
  · obtain ⟨ret, txReq, _, hwrite⟩ := writeQueue_of_not_checks hchecks
    rw [hwrite]
    exact iff_of_true (inBounds_nothing ..) fun h => absurd h hchecks

theorem read_inBounds_iff :
    (readQueue memSize q mem).InBounds memSize hugePktSize.toNat ↔
      (ReadChecks memSize q mem →
        (TakesPacket memSize q mem →
          q.readIdx.toNat + (readSize q mem).toNat < 2 * (memSize >>> 2).toNat) ∧
        (¬TakesPacket memSize q mem → q.writeIdx < memSize >>> 2)) := by
  by_cases hchecks : ReadChecks memSize q mem
  · by_cases htakes : TakesPacket memSize q mem
    · rw [readQueue_of_checks hchecks htakes]
      have hidx := htakes.2
      have hhuge := htakes.1
      have hsize : (readSize q mem).toNat < 2 ^ 30 := toNat_size_lt _
      rw [UInt32.le_iff_toNat_le, toNat_words] at hidx
      rw [UInt32.le_iff_toNat_le, toNat_bytes] at hhuge
      rw [ringCopies_inBounds_iff hidx hsize (by omega), toNat_words]
      simp [hchecks, htakes]
    · rw [readQueue_of_drop hchecks htakes]
      simp only [hchecks, htakes, true_implies, false_implies, true_and, not_false_eq_true]
      exact ⟨fun h => h.stored _ rfl, fun h => ⟨fun _ hc => absurd hc (by simp), fun _ hi => by
        cases hi
        exact h⟩⟩
  · obtain ⟨rxReq, hread⟩ := readQueue_of_not_checks hchecks
    rw [hread]
    exact iff_of_true (inBounds_nothing ..) fun h => absurd h hchecks

/-- **The accesses are in bounds iff** a write that passes the checks has its index in the array, or at
its end and a packet that is smaller than the array, and a read that takes its packet does not go round
the array, and one that drops its packet finds a write index in the array. -/
theorem inBounds_iff (memSize : UInt32) (q : Header) (mem : ℕ → UInt32) (packet : UInt32) :
    (writeQueue memSize q packet).InBounds memSize packet.toNat ∧
      (readQueue memSize q mem).InBounds memSize hugePktSize.toNat ↔
    (WriteChecks memSize q packet → q.writeIdx < memSize >>> 2 ∨
      q.writeIdx = memSize >>> 2 ∧ packet >>> 2 < memSize >>> 2) ∧
    (ReadChecks memSize q mem →
      (TakesPacket memSize q mem →
        q.readIdx.toNat + (readSize q mem).toNat < 2 * (memSize >>> 2).toNat) ∧
      (¬TakesPacket memSize q mem → q.writeIdx < memSize >>> 2)) :=
  and_congr write_inBounds_iff read_inBounds_iff

def queueSize : UInt32 := 1024 * 50 * 16

/-- A write index that is shifted to the start of the array. -/
theorem not_inBounds : ¬∀ (q : Header) (mem : ℕ → UInt32) (packet : UInt32),
    (writeQueue queueSize q packet).InBounds queueSize packet.toNat ∧
      (readQueue queueSize q mem).InBounds queueSize hugePktSize.toNat := by
  intro hall
  have hstored := (hall ⟨0, 1, 0, 0x40000010, 0x40000000⟩ (fun _ => 0) 8).1.stored 0x3ffce002 (by decide)
  revert hstored
  decide

end VidcHfiQueue
