import Sm8750Modules.Lib.Ring
import Sm8750Modules.Vidc.Queue

/-!
# A queue of the video firmware is a FIFO

With both sides honest the array holds the packets that have been written and not yet read, one after the
other, and one word of it stays free.
-/

namespace VidcHfiQueue

open Ring List

/-- A packet of the host: its first word is its size in bytes. -/
structure Packet where
  words : List UInt32
  pos : 0 < words.length
  size : (words.headD 0).toNat = 4 * words.length
  huge : 4 * words.length ≤ hugePktSize.toNat

def Packet.mem (p : Packet) (i : ℕ) : UInt32 := p.words.getD i 0

/-- A `memcpy` of whole words. -/
def copyWords (dst src : ℕ → UInt32) (dstOff srcOff len : ℕ) : ℕ → UInt32 := fun i =>
  if dstOff ≤ i ∧ i < dstOff + len then src (srcOff + (i - dstOff)) else dst i

def store (packet mem : ℕ → UInt32) (b : ℕ × ℕ × ℕ) : ℕ → UInt32 :=
  copyWords mem packet (b.1 / 4) (b.2.1 / 4) (b.2.2 / 4)

def load (mem packet : ℕ → UInt32) (b : ℕ × ℕ × ℕ) : ℕ → UInt32 :=
  copyWords packet mem (b.2.1 / 4) (b.1 / 4) (b.2.2 / 4)

structure Queue where
  hdr : Header
  mem : ℕ → UInt32

/-- `__set_queue_hdr_defaults` -/
def reset (type : UInt32) (mem : ℕ → UInt32) : Queue := ⟨{ type := type }, mem⟩

def Queue.write (memSize : UInt32) (s : Queue) (packet : ℕ → UInt32) : ℤ × Queue :=
  let t := writeQueue memSize s.hdr (packet 0)
  (t.ret, ⟨t.hdr, (t.copies.map Memcpy.bytes).foldl (store packet) s.mem⟩)

def Queue.read (memSize : UInt32) (s : Queue) (packet : ℕ → UInt32) : ℤ × Queue × (ℕ → UInt32) :=
  let t := readQueue memSize s.hdr s.mem
  (t.ret, ⟨t.hdr, s.mem⟩, (t.copies.map Memcpy.bytes).foldl (load s.mem) packet)

/-- A call; a read comes with what its buffer held before. -/
inductive Op where
  | write (p : Packet)
  | read (packet : ℕ → UInt32)

/-- What the caller sees: whether the write succeeded, and the packet that was read if there was one. -/
inductive Output where
  | wrote (ok : Bool)
  | read (packet : Option (List UInt32))
deriving DecidableEq, Repr

def Queue.step (memSize : UInt32) (s : Queue) : Op → Queue × Output
  | .write p =>
    let (ret, s) := s.write memSize p.mem
    (s, .wrote (ret == 0))
  | .read packet =>
    let (ret, s, packet) := s.read memSize packet
    (s, .read (if ret = 0 then some ((List.range (packet 0 >>> 2).toNat).map packet) else none))

def unread (q : List Packet) : List UInt32 := q.flatMap (·.words)

def Fifo.step (words : ℕ) (q : List Packet) : Op → List Packet × Output
  | .write p =>
    if (unread q).length + p.words.length + 1 ≤ words then (q ++ [p], .wrote true) else (q, .wrote false)
  | .read _ =>
    match q with
    | [] => ([], .read none)
    | p :: rest => (rest, .read (some p.words))

/-- The calls one after the other, with what they return. -/
def runOps {σ : Type*} (step : σ → Op → σ × Output) (s : σ) : List Op → σ × List Output
  | [] => (s, [])
  | op :: rest => ((runOps step (step s op).1 rest).1, (step s op).2 :: (runOps step (step s op).1 rest).2)

section Copies

variable {memSize idx size : UInt32} {mem packet : ℕ → UInt32} {w p : ℕ}

/-- The copies of `ringCopies` in plain numbers, for an index in the array. -/
def blockBytes (n w p : ℕ) : List (ℕ × ℕ × ℕ) :=
  if w + p < n then [(4 * w, 0, 4 * p)] else [(4 * w, 0, 4 * (n - w)), (0, 4 * (n - w), 4 * (w + p - n))]

theorem ringCopies_block (hidx : idx.toNat < memSize.toNat / 4) (hsize : size.toNat < 2 ^ 30) :
    (ringCopies memSize idx size).1.map Memcpy.bytes =
        blockBytes (memSize.toNat / 4) idx.toNat size.toNat ∧
      (ringCopies memSize idx size).2.toNat = slot (memSize.toNat / 4) idx.toNat size.toNat := by
  have hspec := ringCopies_spec hidx.le hsize
  rw [blockBytes, slot]
  split at hspec
  · rw [if_pos (by assumption), if_pos (by assumption)]
    exact hspec
  · rw [if_neg (by assumption), if_neg (by assumption)]
    exact hspec

variable {n : ℕ}

theorem store_block (hw : w < n) (hp : p < n) {i : ℕ} (hi : i < p) :
    (blockBytes n w p).foldl (store packet) mem (slot n w i) = packet i := by
  by_cases hfit : w + p < n
  · rw [blockBytes, if_pos hfit, slot, if_pos (by omega)]
    simp only [foldl_cons, foldl_nil, store, copyWords]
    rw [if_pos (by omega)]
    congr 1
    omega
  · rw [blockBytes, if_neg hfit, slot]
    simp only [foldl_cons, foldl_nil, store, copyWords]
    by_cases hend : w + i < n
    · rw [if_pos hend, if_neg (by omega), if_pos (by omega)]
      congr 1
      omega
    · rw [if_neg hend, if_pos (by omega)]
      congr 1
      omega

theorem store_block_of_ne (hw : w < n) (hp : p < n) {j : ℕ} (hj : ∀ i < p, j ≠ slot n w i) :
    (blockBytes n w p).foldl (store packet) mem j = mem j := by
  have hin : ¬(w ≤ j ∧ j < w + p ∧ j < n) := by
    rintro ⟨hle, hlt, hn⟩
    exact hj (j - w) (by omega) (by rw [slot, if_pos (by omega)]; omega)
  have hround : ¬(j + n < w + p ∧ j < n) := by
    rintro ⟨hlt, hn⟩
    exact hj (j + n - w) (by omega) (by rw [slot, if_neg (by omega)]; omega)
  rw [blockBytes]
  split
  · simp only [foldl_cons, foldl_nil, store, copyWords]
    rw [if_neg (by omega)]
  · simp only [foldl_cons, foldl_nil, store, copyWords]
    rw [if_neg (by omega), if_neg (by omega)]

theorem load_block (hw : w < n) {i : ℕ} (hi : i < p) :
    (blockBytes n w p).foldl (load mem) packet i = mem (slot n w i) := by
  by_cases hfit : w + p < n
  · rw [blockBytes, if_pos hfit, slot, if_pos (by omega)]
    simp only [foldl_cons, foldl_nil, load, copyWords]
    rw [if_pos (by omega)]
    congr 1
    omega
  · rw [blockBytes, if_neg hfit, slot]
    simp only [foldl_cons, foldl_nil, load, copyWords]
    by_cases hend : w + i < n
    · rw [if_pos hend, if_neg (by omega), if_pos (by omega)]
      congr 1
      omega
    · rw [if_neg hend, if_pos (by omega)]
      congr 1
      omega

end Copies

/-! ### The array holds the packets -/

variable {memSize : UInt32} {s : Queue} {q : List Packet} {p : Packet}

def slots (memSize : UInt32) : ℕ := max (memSize.toNat / 4) 1

structure Holds (memSize : UInt32) (s : Queue) (q : List Packet) : Prop where
  readIdx_lt : s.hdr.readIdx.toNat < slots memSize
  writeIdx_lt : s.hdr.writeIdx.toNat < slots memSize
  contents : contents (slots memSize) s.mem s.hdr.readIdx.toNat
    (used (slots memSize) s.hdr.readIdx.toNat s.hdr.writeIdx.toNat) = unread q

namespace Holds

theorem length (h : Holds memSize s q) :
    used (slots memSize) s.hdr.readIdx.toNat s.hdr.writeIdx.toNat = (unread q).length := by
  rw [← h.contents, length_contents]

theorem length_lt (h : Holds memSize s q) : (unread q).length < slots memSize := by
  rw [← h.length]
  exact used_lt h.readIdx_lt h.writeIdx_lt

theorem reset (memSize type : UInt32) (mem : ℕ → UInt32) :
    Holds memSize (VidcHfiQueue.reset type mem) [] := by
  have hzero : (VidcHfiQueue.reset type mem).hdr.readIdx.toNat = 0 := rfl
  refine ⟨?_, ?_, ?_⟩
  · rw [hzero]
    exact Nat.lt_of_lt_of_le Nat.zero_lt_one (le_max_right ..)
  · exact Nat.lt_of_lt_of_le Nat.zero_lt_one (le_max_right ..)
  · change Ring.contents _ _ _ (used _ 0 0) = []
    rw [used_self]
    rfl

end Holds

theorem Packet.size_words (p : Packet) : (p.mem 0 >>> 2).toNat = p.words.length := by
  have hhead : p.mem 0 = p.words.headD 0 := by
    cases hp : p.words with
    | nil => simp [Packet.mem, hp]
    | cons w rest => simp [Packet.mem, hp]
  rw [toNat_words, hhead, p.size]
  omega

theorem Packet.length_le (p : Packet) : p.words.length ≤ 1024 := by
  have hhuge := p.huge
  have hsize : hugePktSize.toNat = 4096 := rfl
  omega

theorem Packet.map_mem (p : Packet) : (List.range p.words.length).map p.mem = p.words := by
  apply ext_getElem
  · simp
  · intro i hi hi'
    simp [Packet.mem, hi']

theorem toNat_emptySpace {r w : UInt32} (hr : r.toNat < memSize.toNat / 4)
    (hw : w.toNat < memSize.toNat / 4) :
    (emptySpace memSize r w).toNat = memSize.toNat / 4 - used (memSize.toNat / 4) r.toNat w.toNat := by
  rw [emptySpace, used]
  by_cases hle : r ≤ w
  · have hle' := UInt32.le_iff_toNat_le.mp hle
    have hdiff : (w - r).toNat = w.toNat - r.toNat := UInt32.toNat_sub_of_le _ _ hle
    rw [if_pos hle, if_pos hle', UInt32.toNat_sub_of_le, toNat_words, hdiff]
    rw [UInt32.le_iff_toNat_le, hdiff, toNat_words]
    omega
  · have hle' : ¬r.toNat ≤ w.toNat := fun h => hle (UInt32.le_iff_toNat_le.mpr h)
    have hlt := UInt32.not_le.mp hle
    rw [if_neg hle, if_neg hle', UInt32.toNat_sub_of_le _ _ (UInt32.le_of_lt hlt)]
    omega

theorem Holds.writeChecks_iff (h : Holds memSize s q) :
    WriteChecks memSize s.hdr (p.mem 0) ↔
      (unread q).length + p.words.length + 1 ≤ memSize.toNat / 4 := by
  have hpos := p.pos
  have hsize := p.size_words
  by_cases hzero : memSize.toNat / 4 = 0
  · refine iff_of_false (fun hc => ?_) (by omega)
    have hle := UInt32.le_iff_toNat_le.mp hc.size_le
    rw [hsize, toNat_words] at hle
    omega
  · have hslots : slots memSize = memSize.toNat / 4 := max_eq_left (Nat.one_le_iff_ne_zero.mpr hzero)
    have hr := h.readIdx_lt
    have hw := h.writeIdx_lt
    have hlength := h.length
    have hlt := h.length_lt
    rw [hslots] at hr hw hlength hlt
    have hspace := toNat_emptySpace hr hw
    rw [hlength] at hspace
    constructor
    · intro hc
      have hlt := UInt32.lt_iff_toNat_lt.mp hc.space
      rw [hsize, hspace] at hlt
      omega
    · intro hfits
      refine ⟨fun hc => ?_, ?_, ?_, ?_⟩
      · rw [hc] at hsize
        simp at hsize
        omega
      · rw [UInt32.le_iff_toNat_le, hsize, toNat_words]
        omega
      · rw [UInt32.lt_iff_toNat_lt, hsize, hspace]
        omega
      · rw [UInt32.le_iff_toNat_le, toNat_bytes]
        omega

theorem Holds.write (h : Holds memSize s q)
    (hfits : (unread q).length + p.words.length + 1 ≤ memSize.toNat / 4) :
    (s.write memSize p.mem).1 = 0 ∧ Holds memSize (s.write memSize p.mem).2 (q ++ [p]) := by
  have hslots : slots memSize = memSize.toNat / 4 := max_eq_left (by omega)
  have hwrite := writeQueue_of_checks (h.writeChecks_iff.mpr hfits)
  have hr := h.readIdx_lt
  have hw := h.writeIdx_lt
  have hlength := h.length
  have hcontents := h.contents
  rw [hslots] at hr hw hlength hcontents
  obtain ⟨hcopies, hidx⟩ := ringCopies_block hw (toNat_size_lt (p.mem 0))
  rw [p.size_words] at hcopies hidx
  have hp : p.words.length < memSize.toNat / 4 := by omega
  refine ⟨by rw [Queue.write, hwrite], ?_⟩
  rw [Queue.write, hwrite]
  refine ⟨?_, ?_, ?_⟩
  · rw [hslots]
    exact hr
  · rw [hslots]
    dsimp only
    rw [hidx]
    exact slot_lt hw hp
  · rw [hslots]
    dsimp only
    rw [hidx, hcopies, contents_block (by exact hr) hw (by omega) (fun i hi => store_block hw hp hi)
      fun j hj => store_block_of_ne hw hp hj, hcontents, p.map_mem]
    simp [unread]

theorem Holds.write_refused (h : Holds memSize s q)
    (hfits : ¬(unread q).length + p.words.length + 1 ≤ memSize.toNat / 4) :
    (s.write memSize p.mem).1 ≠ 0 ∧ ∃ txReq, (s.write memSize p.mem).2 =
      ⟨{ s.hdr with txReq := txReq }, s.mem⟩ := by
  obtain ⟨ret, txReq, hret, hwrite⟩ := writeQueue_of_not_checks fun hc => hfits (h.writeChecks_iff.mp hc)
  refine ⟨by simpa [Queue.write, hwrite] using hret, txReq, by simp [Queue.write, hwrite]⟩

theorem Holds.read_empty (h : Holds memSize s []) (packet : ℕ → UInt32) :
    (s.read memSize packet).1 ≠ 0 ∧ ∃ rxReq, (s.read memSize packet).2.1 =
      ⟨{ s.hdr with rxReq := rxReq }, s.mem⟩ := by
  have hidx : s.hdr.readIdx = s.hdr.writeIdx := by
    apply UInt32.toNat_inj.mp
    exact eq_of_used h.readIdx_lt h.length
  have hread : readQueue memSize s.hdr s.mem =
      { ret := enodata, hdr := { s.hdr with rxReq := s.hdr.receiveRequest } } := by
    rw [readQueue, if_pos hidx]
  exact ⟨by simp [Queue.read, hread, enodata], s.hdr.receiveRequest, by simp [Queue.read, hread]⟩

theorem Holds.read (h : Holds memSize s (p :: q)) (packet : ℕ → UInt32) :
    (s.read memSize packet).1 = 0 ∧
      (∀ i < p.words.length, (s.read memSize packet).2.2 i = p.mem i) ∧
      Holds memSize (s.read memSize packet).2.1 q := by
  have hunread : unread (p :: q) = p.words ++ unread q := by simp [unread]
  have hpos := p.pos
  have hle := p.length_le
  have hlength := h.length
  have hlt := h.length_lt
  rw [hunread, length_append] at hlength hlt
  have hslots : slots memSize = memSize.toNat / 4 := max_eq_left (by
    by_contra hzero
    have hone : slots memSize = 1 := max_eq_right (by omega)
    omega)
  have hr := h.readIdx_lt
  have hw := h.writeIdx_lt
  have hcontents := h.contents
  rw [hslots] at hr hw hlength hlt hcontents
  rw [hlength, contents_add _ hr (by omega), hunread] at hcontents
  obtain ⟨hfirst, hrest⟩ := append_inj hcontents (length_contents ..)
  have hslot : ∀ i < p.words.length, s.mem (slot (memSize.toNat / 4) s.hdr.readIdx.toNat i) = p.mem i := by
    intro i hi
    have hget := getElem?_contents s.mem hr hi (by omega)
    rw [hfirst, List.getElem?_eq_getElem hi, Option.some_inj] at hget
    rw [← hget]
    simp [Packet.mem, hi]
  have hword : (s.hdr.readIdx <<< 2).toNat = s.hdr.readIdx.toNat * 4 := by
    have hmem := memSize.toNat_lt
    rw [toNat_bytes]
    omega
  have hsize : (readSize s.hdr s.mem).toNat = p.words.length := by
    have hzero := hslot 0 hpos
    rw [slot_zero hr] at hzero
    rw [readSize, hword, Nat.mul_div_cancel _ (by omega), hzero, p.size_words]
  have hchecks : ReadChecks memSize s.hdr s.mem := by
    refine ⟨fun heq => ?_, by omega, fun hzero => ?_⟩
    · rw [heq, used_self] at hlength
      omega
    · rw [hzero] at hsize
      simp at hsize
      omega
  have htakes : TakesPacket memSize s.hdr s.mem := by
    have hhuge : hugePktSize.toNat = 4096 := rfl
    refine ⟨?_, ?_⟩
    · rw [UInt32.le_iff_toNat_le, toNat_bytes, hsize]
      omega
    · rw [UInt32.le_iff_toNat_le, toNat_words]
      omega
  have hread := readQueue_of_checks hchecks htakes
  obtain ⟨hcopies, hidx⟩ := @ringCopies_block memSize s.hdr.readIdx (readSize s.hdr s.mem) hr
    (toNat_size_lt _)
  rw [hsize] at hcopies hidx
  have hp : p.words.length < memSize.toNat / 4 := by omega
  refine ⟨by rw [Queue.read, hread], fun i hi => ?_, ?_⟩
  · rw [Queue.read, hread]
    dsimp only
    rw [hcopies, load_block hr hi, hslot i hi]
  · rw [Queue.read, hread]
    refine ⟨?_, ?_, ?_⟩
    · rw [hslots]
      dsimp only
      rw [hidx]
      exact slot_lt hr hp
    · rw [hslots]
      exact hw
    · rw [hslots]
      dsimp only
      rw [hidx, used_slot_left hr hw (by omega), hlength, Nat.add_sub_cancel_left, hrest]

/-- **A call** on an array that holds the packets of a list returns what the list does. -/
theorem Holds.step (h : Holds memSize s q) (op : Op) :
    (s.step memSize op).2 = (Fifo.step (memSize.toNat / 4) q op).2 ∧
      Holds memSize (s.step memSize op).1 (Fifo.step (memSize.toNat / 4) q op).1 := by
  cases op with
  | write p =>
    by_cases hfits : (unread q).length + p.words.length + 1 ≤ memSize.toNat / 4
    · obtain ⟨hret, hholds⟩ := h.write hfits
      simp only [Queue.step, Fifo.step, if_pos hfits, hret]
      exact ⟨rfl, hholds⟩
    · obtain ⟨hret, txReq, hs⟩ := h.write_refused hfits
      simp only [Queue.step, Fifo.step, if_neg hfits, hs]
      exact ⟨by simp [hret], h.readIdx_lt, h.writeIdx_lt, h.contents⟩
  | read packet =>
    cases q with
    | nil =>
      obtain ⟨hret, rxReq, hs⟩ := h.read_empty packet
      simp only [Queue.step, Fifo.step, if_neg hret, hs]
      exact ⟨trivial, h.readIdx_lt, h.writeIdx_lt, h.contents⟩
    | cons p q =>
      obtain ⟨hret, hpacket, hholds⟩ := h.read packet
      simp only [Queue.step, Fifo.step, if_pos hret]
      refine ⟨?_, hholds⟩
      have hmap : (List.range p.words.length).map (s.read memSize packet).2.2 = p.words := by
        rw [map_congr_left fun i hi => hpacket i (mem_range.mp hi), p.map_mem]
      rw [hpacket 0 p.pos, p.size_words, hmap]

theorem Holds.run (h : Holds memSize s q) (ops : List Op) :
    (runOps (Queue.step memSize) s ops).2 = (runOps (Fifo.step (memSize.toNat / 4)) q ops).2 ∧
      Holds memSize (runOps (Queue.step memSize) s ops).1
        (runOps (Fifo.step (memSize.toNat / 4)) q ops).1 := by
  induction ops generalizing s q with
  | nil => exact ⟨rfl, h⟩
  | cons op rest ih =>
    obtain ⟨hout, hholds⟩ := h.step op
    obtain ⟨houts, hend⟩ := ih hholds
    simp only [runOps, hout, houts]
    exact ⟨trivial, hend⟩

/-- The same words and the same indexes. -/
structure Queue.SameRing (s s' : Queue) : Prop where
  mem : s'.mem = s.mem
  readIdx : s'.hdr.readIdx = s.hdr.readIdx
  writeIdx : s'.hdr.writeIdx = s.hdr.writeIdx

theorem Holds.wrote_or_sameRing (h : Holds memSize s q) (p : Packet) :
    (s.step memSize (.write p)).2 = .wrote true ∨ s.SameRing (s.step memSize (.write p)).1 := by
  by_cases hfits : (unread q).length + p.words.length + 1 ≤ memSize.toNat / 4
  · left
    simp [Queue.step, (h.write hfits).1]
  · right
    obtain ⟨_, txReq, hs⟩ := h.write_refused hfits
    constructor <;> simp [Queue.step, hs]

/-- **The queue is a FIFO**: from the reset header on, the calls return what those of a list of packets
do, and a write that does not succeed leaves both indexes and the array. -/
theorem fifo (memSize type : UInt32) (mem : ℕ → UInt32) (ops : List Op) :
    (runOps (Queue.step memSize) (reset type mem) ops).2 =
        (runOps (Fifo.step (memSize.toNat / 4)) [] ops).2 ∧
      ∀ p, ((runOps (Queue.step memSize) (reset type mem) ops).1.step memSize (.write p)).2 = .wrote true ∨
        (runOps (Queue.step memSize) (reset type mem) ops).1.SameRing
          ((runOps (Queue.step memSize) (reset type mem) ops).1.step memSize (.write p)).1 := by
  obtain ⟨hout, hholds⟩ := (Holds.reset memSize type mem).run ops
  exact ⟨hout, fun p => hholds.wrote_or_sameRing p⟩

end VidcHfiQueue
