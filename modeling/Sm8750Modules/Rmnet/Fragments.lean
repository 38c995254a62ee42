import Sm8750Modules.Lib.Pieces

/-!
# Fragment descriptors

A descriptor of the receive path is a list of page fragments and their total length, which is an unsigned
32-bit number. The functions that cut it, look into it and put parts of one behind another walk over the
fragments.
-/

namespace Rmnet.Frag

open List

/-! ### Descriptors -/

/-- `skb_frag_t`: a part of a page. -/
structure Fragment where
  page : ℕ
  off : ℕ
  size : ℕ
  deriving DecidableEq

abbrev Pages := ℕ → ℕ → UInt8

def readBytes (mem : Pages) (page off len : ℕ) : List UInt8 := (List.range len).map fun i => mem page (off + i)

def Fragment.bytes (mem : Pages) (f : Fragment) : List UInt8 := readBytes mem f.page f.off f.size

/-- `skb_frag_off_add` and `skb_frag_size_sub`: without the first bytes. -/
def Fragment.pull (f : Fragment) (n : ℕ) : Fragment := { f with off := f.off + n, size := f.size - n }

/-- The first bytes; `skb_frag_size_sub` with the rest. -/
def Fragment.upTo (f : Fragment) (n : ℕ) : Fragment := { f with size := n }

variable (mem : Pages)

@[simp] theorem length_readBytes (page off len : ℕ) : (readBytes mem page off len).length = len := by
  simp [readBytes]

theorem drop_readBytes (page off len n : ℕ) :
    (readBytes mem page off len).drop n = readBytes mem page (off + n) (len - n) := by
  apply ext_getElem
  · simp
  · intro i hi hi'
    simp [readBytes, Nat.add_assoc]

theorem take_readBytes (page off len n : ℕ) :
    (readBytes mem page off len).take n = readBytes mem page off (min n len) := by
  apply ext_getElem
  · simp
  · intro i hi hi'
    simp [readBytes]

def fragOps (mem : Pages) : Pieces.Ops Fragment UInt8 where
  size := Fragment.size
  view := Fragment.bytes mem
  behind := Fragment.pull
  upTo := Fragment.upTo
  length_view f := length_readBytes _ _ _ _
  view_behind f n _ := (drop_readBytes _ _ _ _ _).symm
  view_upTo f n hn := by
    rw [Fragment.bytes, Fragment.bytes, take_readBytes, Nat.min_eq_left hn]
    rfl

@[simp] theorem fragOps_size (f : Fragment) : (fragOps mem).size f = f.size := rfl

@[simp] theorem fragOps_view (f : Fragment) : (fragOps mem).view f = f.bytes mem := rfl

@[simp] theorem length_fragment_bytes (f : Fragment) : (f.bytes mem).length = f.size :=
  length_readBytes _ _ _ _

def totalSize (frags : List Fragment) : ℕ := (frags.map Fragment.size).sum

@[simp] theorem totalSize_nil : totalSize [] = 0 := rfl

@[simp] theorem totalSize_cons (f : Fragment) (fs : List Fragment) :
    totalSize (f :: fs) = f.size + totalSize fs := rfl

@[simp] theorem totalSize_append (fs gs : List Fragment) :
    totalSize (fs ++ gs) = totalSize fs + totalSize gs := by
  simp [totalSize]

@[simp] theorem totalSize_reverse (fs : List Fragment) : totalSize fs.reverse = totalSize fs := by
  simp [totalSize]

theorem totalSize_replicate (n : ℕ) (f : Fragment) : totalSize (List.replicate n f) = n * f.size := by
  simp [totalSize]

/-- A `u32` sum. -/
def add32 (a b : ℕ) : ℕ := (a + b) % 2 ^ 32

/-- A `u32` difference. -/
def sub32 (a b : ℕ) : ℕ := (a + 2 ^ 32 - b % 2 ^ 32) % 2 ^ 32

@[ext] structure FragDescriptor where
  frags : List Fragment
  len : ℕ
  counted : len = totalSize frags % 2 ^ 32

def FragDescriptor.bytes (mem : Pages) (d : FragDescriptor) : List UInt8 :=
  d.frags.flatMap (Fragment.bytes mem)

def emptyDescriptor : FragDescriptor := ⟨[], 0, rfl⟩

variable (d : FragDescriptor)

/-- `rmnet_frag_data_ptr`: page and offset of the first fragment. -/
def dataPtr : Option (ℕ × ℕ) := d.frags.head?.map fun f => (f.page, f.off)

/-- The loop of `rmnet_frag_pull`. -/
def pullLoop : List Fragment → ℕ → ℕ → List Fragment × ℕ
  | [], _, len => ([], len)
  | f :: fs, size, len =>
    if size = 0 then (f :: fs, len)
    else if size ≥ f.size then pullLoop fs (size - f.size) (sub32 len f.size)
    else (f.pull size :: fs, sub32 len size)

/-- The loop of `rmnet_frag_trim`, from the last fragment to the first. -/
def trimLoop : List Fragment → ℕ → ℕ → List Fragment × ℕ
  | [], _, len => ([], len)
  | f :: fs, eat, len =>
    if eat = 0 then (f :: fs, len)
    else if eat ≥ f.size then trimLoop fs (eat - f.size) (sub32 len f.size)
    else (f.upTo (f.size - eat) :: fs, sub32 len eat)

theorem sub32_counted {len size rest : ℕ} (h : len = (size + rest) % 2 ^ 32) :
    sub32 len size = rest % 2 ^ 32 := by
  rw [sub32]
  omega

theorem pullLoop_counted {fs : List Fragment} {size len : ℕ} (h : len = totalSize fs % 2 ^ 32) :
    (pullLoop fs size len).2 = totalSize (pullLoop fs size len).1 % 2 ^ 32 := by
  induction fs generalizing size len with
  | nil => exact h
  | cons f fs ih =>
    rw [totalSize_cons] at h
    rw [pullLoop]
    split
    · exact h
    · split
      · exact ih (sub32_counted h)
      · rw [totalSize_cons]
        apply sub32_counted
        rw [h, Fragment.pull]
        congr 1
        show f.size + _ = size + (f.size - size + _)
        omega

theorem trimLoop_counted {fs : List Fragment} {eat len : ℕ} (h : len = totalSize fs % 2 ^ 32) :
    (trimLoop fs eat len).2 = totalSize (trimLoop fs eat len).1 % 2 ^ 32 := by
  induction fs generalizing eat len with
  | nil => exact h
  | cons f fs ih =>
    rw [totalSize_cons] at h
    rw [trimLoop]
    split
    · exact h
    · split
      · exact ih (sub32_counted h)
      · rw [totalSize_cons]
        apply sub32_counted
        rw [h, Fragment.upTo]
        congr 1
        show f.size + _ = eat + (f.size - eat + _)
        omega

/-- `rmnet_frag_pull`: the descriptor and the pointer to its first fragment. -/
def fragPull (size : ℕ) : FragDescriptor × Option (ℕ × ℕ) :=
  if size ≥ d.len then (emptyDescriptor, none)
  else
    let pulled : FragDescriptor := ⟨(pullLoop d.frags size d.len).1, _, pullLoop_counted d.counted⟩
    (pulled, dataPtr pulled)

def fragTrim (size : ℕ) : FragDescriptor × Option (ℕ × ℕ) :=
  if size = 0 then (emptyDescriptor, none)
  else if size ≥ d.len then (d, dataPtr d)
  else
    let r := trimLoop d.frags.reverse (d.len - size) d.len
    let trimmed : FragDescriptor := ⟨r.1.reverse, r.2, by
      rw [totalSize_reverse]
      exact trimLoop_counted (by rw [totalSize_reverse]; exact d.counted)⟩
    (trimmed, dataPtr trimmed)

def outOfRange (off len : ℕ) : Prop :=
  off > d.len ∨ len > d.len ∨ add32 off len > d.len
deriving Decidable

/-- The loop of `rmnet_frag_copy_data`. -/
def copyLoop (mem : Pages) : List Fragment → ℕ → ℕ → List UInt8
  | [], _, _ => []
  | f :: fs, off, len =>
    if len = 0 then []
    else if off < f.size then
      let copyLen := min len (f.size - off)
      readBytes mem f.page (f.off + off) copyLen ++ copyLoop mem fs 0 (len - copyLen)
    else copyLoop mem fs (off - f.size) len

/-- `rmnet_frag_copy_data`: the bytes written to the start of the buffer, `none` for `-EINVAL`. -/
def fragCopyData (mem : Pages) (d : FragDescriptor) (off len : ℕ) : Option (List UInt8) :=
  if outOfRange d off len then none else some (copyLoop mem d.frags off len)

/-- A pointer into a page, or to the buffer of the caller with these bytes at its start. -/
inductive HeaderPtr
  | direct (page off : ℕ)
  | buffer (bytes : List UInt8)

def HeaderPtr.read (mem : Pages) (len : ℕ) : HeaderPtr → List UInt8
  | .direct page off => readBytes mem page off len
  | .buffer bytes => bytes.take len

/-- The loop of `rmnet_frag_header_ptr`. -/
def headerLoop : List Fragment → ℕ → ℕ → Option (ℕ × ℕ)
  | [], _, _ => none
  | f :: fs, off, len =>
    if off < f.size then if add32 off len ≤ f.size then some (f.page, f.off + off) else none
    else headerLoop fs (off - f.size) len

/-- `rmnet_frag_header_ptr`; a null pointer is `none`. -/
def fragHeaderPtr (mem : Pages) (d : FragDescriptor) (off len : ℕ) : Option HeaderPtr :=
  if outOfRange d off len then none
  else
    match headerLoop d.frags off len with
    | some (page, start) => some (.direct page start)
    | none => (fragCopyData mem d off len).map .buffer

/-- The error codes of the two functions. -/
inductive FragError
  | einval
  | enomem
  deriving DecidableEq

/-- `rmnet_frag_descriptor_add_frag`, the allocation succeeding. -/
def addFrag (page pageOff len : ℕ) : FragDescriptor where
  frags := d.frags ++ [⟨page, pageOff, len⟩]
  len := add32 d.len len
  counted := by
    rw [add32, d.counted, totalSize_append]
    simp

def addLoop (alloc : ℕ → Bool) : ℕ → FragDescriptor → List Fragment → ℕ → ℕ →
    Option FragError × FragDescriptor
  | _, dst, [], _, _ => (none, dst)
  | n, dst, f :: fs, off, len =>
    if len = 0 then (none, dst)
    else if off < f.size then
      let copyLen := min len (f.size - off)
      if alloc n then addLoop alloc (n + 1) (addFrag dst f.page (f.off + off) copyLen) fs 0 (len - copyLen)
      else (some .enomem, dst)
    else addLoop alloc n dst fs (off - f.size) len

def addFragsFrom (alloc : ℕ → Bool) (dst d : FragDescriptor) (off len : ℕ) :
    Option FragError × FragDescriptor :=
  if outOfRange d off len then (some .einval, dst) else addLoop alloc 0 dst d.frags off len

/-! ### The loops as operations on pieces -/

section Loops

variable (mem : Pages)

theorem bytes_eq_flat (d : FragDescriptor) : d.bytes mem = Pieces.flat (fragOps mem) d.frags := rfl

theorem total_eq_totalSize (fs : List Fragment) : Pieces.total (fragOps mem) fs = totalSize fs := rfl

@[simp] theorem length_bytes (d : FragDescriptor) : (d.bytes mem).length = totalSize d.frags := by
  rw [bytes_eq_flat, Pieces.length_flat, total_eq_totalSize]

theorem pullLoop_frags (fs : List Fragment) (size len : ℕ) :
    (pullLoop fs size len).1 = Pieces.dropPieces (fragOps mem) fs size := by
  induction fs generalizing size len with
  | nil => rfl
  | cons f fs ih =>
    rw [pullLoop, Pieces.dropPieces]
    split
    · rfl
    · rw [fragOps_size]
      split
      · exact ih _ _
      · rfl

theorem trimLoop_frags (fs : List Fragment) (eat len : ℕ) :
    (trimLoop fs eat len).1 = Pieces.dropLastPieces (fragOps mem) fs eat := by
  induction fs generalizing eat len with
  | nil => rfl
  | cons f fs ih =>
    rw [trimLoop, Pieces.dropLastPieces]
    split
    · rfl
    · rw [fragOps_size]
      split
      · exact ih _ _
      · rfl

theorem copyLoop_eq (fs : List Fragment) (off len : ℕ) :
    copyLoop mem fs off len = Pieces.copyRange (fragOps mem) fs off len := by
  induction fs generalizing off len with
  | nil => rfl
  | cons f fs ih =>
    rw [copyLoop, Pieces.copyRange]
    split
    · rfl
    · rw [fragOps_size, fragOps_view]
      split
      · have hchunk : ((f.bytes mem).drop off).take (min len (f.size - off))
            = readBytes mem f.page (f.off + off) (min len (f.size - off)) := by
          rw [Fragment.bytes, drop_readBytes, take_readBytes, Nat.min_eq_left (Nat.min_le_right _ _)]
        rw [hchunk, ← ih]
      · exact ih _ _

theorem read_headerLoop {fs : List Fragment} {off len page start : ℕ} (hwrap : off + len < 2 ^ 32)
    (h : headerLoop fs off len = some (page, start)) :
    readBytes mem page start len = ((Pieces.flat (fragOps mem) fs).drop off).take len := by
  induction fs generalizing off with
  | nil => simp [headerLoop] at h
  | cons f fs ih =>
    rw [headerLoop, add32, Nat.mod_eq_of_lt hwrap] at h
    have hlen := length_fragment_bytes mem f
    rw [Pieces.flat_cons, fragOps_view]
    by_cases hoff : off < f.size
    · rw [if_pos hoff] at h
      by_cases hfit : off + len ≤ f.size
      · rw [if_pos hfit] at h
        obtain ⟨rfl, rfl⟩ := Prod.mk.inj (Option.some.inj h)
        rw [drop_append_of_le_length (by omega), take_append_of_le_length
          (by rw [length_drop]; omega), Fragment.bytes, drop_readBytes, take_readBytes,
          Nat.min_eq_left (by omega)]
      · simp [hfit] at h
    · rw [if_neg hoff] at h
      have hfront : (f.bytes mem).drop off = [] := drop_eq_nil_of_le (by omega)
      rw [ih (by omega) h, drop_append, hfront, hlen, nil_append]

theorem addLoop_frags (alloc : ℕ → Bool) (n : ℕ) (dst : FragDescriptor) (fs : List Fragment)
    (off len : ℕ) : ∃ k, (addLoop alloc n dst fs off len).2.frags
        = dst.frags ++ (Pieces.pieceRange (fragOps mem) fs off len).take k ∧
      ((addLoop alloc n dst fs off len).1 = none →
        (Pieces.pieceRange (fragOps mem) fs off len).length ≤ k) := by
  induction fs generalizing n dst off len with
  | nil => exact ⟨0, by simp [addLoop, Pieces.pieceRange], fun _ => Nat.le_refl 0⟩
  | cons f fs ih =>
    rw [addLoop, Pieces.pieceRange]
    by_cases hlen : len = 0
    · rw [if_pos hlen, if_pos hlen]
      exact ⟨0, by simp, fun _ => Nat.le_refl 0⟩
    · rw [if_neg hlen, if_neg hlen, fragOps_size]
      by_cases hoff : off < f.size
      · rw [if_pos hoff, if_pos hoff]
        by_cases halloc : alloc n = true
        · obtain ⟨k, hfrags, hall⟩ :=
            ih (n + 1) (addFrag dst f.page (f.off + off) (min len (f.size - off))) 0
              (len - min len (f.size - off))
          rw [if_pos halloc]
          refine ⟨k + 1, ?_, fun h => ?_⟩
          · rw [hfrags, addFrag, append_assoc]
            rfl
          · simpa using hall h
        · simp only [if_neg halloc]
          exact ⟨0, by simp, fun h => by cases h⟩
      · rw [if_neg hoff, if_neg hoff]
        exact ih n dst (off - f.size) len

theorem addLoop_none {alloc : ℕ → Bool} (halloc : ∀ n, alloc n = true) (n : ℕ) (dst : FragDescriptor)
    (fs : List Fragment) (off len : ℕ) : (addLoop alloc n dst fs off len).1 = none := by
  induction fs generalizing n dst off len with
  | nil => rfl
  | cons f fs ih =>
    rw [addLoop]
    split
    · rfl
    · split
      · simp only [halloc n, if_true]
        exact ih _ _ _ _
      · exact ih _ _ _ _

theorem outOfRange_iff {d : FragDescriptor} (hd : d.len < 2 ^ 31) (off len : ℕ) :
    outOfRange d off len ↔ d.len < off + len := by
  rw [outOfRange, add32]
  constructor
  · intro h
    have := Nat.mod_le (off + len) (2 ^ 32)
    omega
  · intro h
    by_cases hoff : off > d.len ∨ len > d.len
    · omega
    · rw [Nat.mod_eq_of_lt (by omega)]
      omega

variable {mem} {d : FragDescriptor}

section

variable (hd : d.len = totalSize d.frags)
include hd

theorem bytes_fragPull (size : ℕ) : (fragPull d size).1.bytes mem = (d.bytes mem).drop size := by
  rw [fragPull]
  by_cases h : size ≥ d.len
  · rw [if_pos h, drop_eq_nil_of_le (by rw [length_bytes]; omega)]
    rfl
  · rw [if_neg h, bytes_eq_flat, bytes_eq_flat, ← Pieces.flat_dropPieces, ← pullLoop_frags]

theorem bytes_fragTrim (size : ℕ) : (fragTrim d size).1.bytes mem = (d.bytes mem).take size := by
  rw [fragTrim]
  by_cases hzero : size = 0
  · rw [if_pos hzero, hzero, take_zero]
    rfl
  rw [if_neg hzero]
  by_cases hall : size ≥ d.len
  · rw [if_pos hall, take_of_length_le (by rw [length_bytes]; omega)]
  · have htotal : Pieces.total (fragOps mem) d.frags.reverse = d.len := by
      rw [total_eq_totalSize, totalSize_reverse, hd]
    have hcut := Pieces.flat_dropLastPieces (fragOps mem) d.frags.reverse (d.len - size)
    rw [htotal, reverse_reverse, show d.len - (d.len - size) = size by omega] at hcut
    rw [if_neg hall, bytes_eq_flat, bytes_eq_flat, ← hcut, ← trimLoop_frags]

theorem fragCopyData_eq (hlt : d.len < 2 ^ 31) (off len : ℕ) :
    fragCopyData mem d off len = if off + len ≤ (d.bytes mem).length then
      some (((d.bytes mem).drop off).take len) else none := by
  rw [fragCopyData, length_bytes, ← hd]
  by_cases h : d.len < off + len
  · rw [if_pos ((outOfRange_iff hlt off len).mpr h), if_neg (by omega)]
  · rw [if_neg (mt (outOfRange_iff hlt off len).mp h), if_pos (by omega), copyLoop_eq,
      Pieces.copyRange_eq, bytes_eq_flat]

theorem read_fragHeaderPtr (hlt : d.len < 2 ^ 31) (off len : ℕ) :
    (fragHeaderPtr mem d off len).map (HeaderPtr.read mem len)
      = if off + len ≤ (d.bytes mem).length then some (((d.bytes mem).drop off).take len) else none := by
  rw [fragHeaderPtr]
  by_cases h : d.len < off + len
  · rw [if_pos ((outOfRange_iff hlt off len).mpr h), if_neg (by rw [length_bytes]; omega)]
    rfl
  · have hin : off + len ≤ (d.bytes mem).length := by
      rw [length_bytes]
      omega
    rw [if_neg (mt (outOfRange_iff hlt off len).mp h), if_pos hin]
    cases hloop : headerLoop d.frags off len with
    | some start =>
      rw [bytes_eq_flat, ← read_headerLoop mem (by omega) hloop]
      rfl
    | none =>
      show ((fragCopyData mem d off len).map HeaderPtr.buffer).map _ = _
      rw [fragCopyData_eq hd hlt, if_pos hin]
      show some (List.take len (List.take len _)) = _
      rw [take_take, Nat.min_self]

theorem addFragsFrom_inside (hlt : d.len < 2 ^ 31)
    (alloc : ℕ → Bool) (dst : FragDescriptor) {off len : ℕ} (h : off + len ≤ totalSize d.frags) :
    (∃ k, (addFragsFrom alloc dst d off len).2.bytes mem
        = dst.bytes mem ++ (((d.bytes mem).drop off).take len).take k ∧
      ((addFragsFrom alloc dst d off len).1 = none → len ≤ k)) ∧
      ((∀ n, alloc n = true) → (addFragsFrom alloc dst d off len).1 = none) := by
  have hin : ¬ outOfRange d off len := mt (outOfRange_iff hlt off len).mp (by omega)
  rw [addFragsFrom, if_neg hin]
  refine ⟨?_, fun halloc => addLoop_none halloc 0 dst d.frags off len⟩
  obtain ⟨k, hfrags, hall⟩ := addLoop_frags mem alloc 0 dst d.frags off len
  set parts := Pieces.pieceRange (fragOps mem) d.frags off len with hparts
  have hrange : Pieces.flat (fragOps mem) parts = ((d.bytes mem).drop off).take len :=
    Pieces.flat_pieceRange _ _ _ _
  have hfront : Pieces.flat (fragOps mem) (parts.take k)
      = (((d.bytes mem).drop off).take len).take (totalSize (parts.take k)) := by
    have hsplit : Pieces.flat (fragOps mem) parts
        = Pieces.flat (fragOps mem) (parts.take k) ++ Pieces.flat (fragOps mem) (parts.drop k) := by
      rw [← Pieces.flat_append, take_append_drop]
    rw [← hrange, hsplit, take_left' (by rw [Pieces.length_flat, total_eq_totalSize])]
  refine ⟨totalSize (parts.take k), ?_, fun hnone => ?_⟩
  · rw [bytes_eq_flat, hfrags, Pieces.flat_append, hfront]
    rfl
  · rw [take_of_length_le (hall hnone), ← total_eq_totalSize mem, ← Pieces.length_flat, hrange,
      length_take, length_drop, length_bytes]
    omega

end

variable (mem) (d)

structure Slices (dst : FragDescriptor) : Prop where
  count : d.len = (d.bytes mem).length
  pull : ∀ size < 2 ^ 32, (fragPull d size).1.bytes mem = (d.bytes mem).drop size ∧
    (fragPull d size).1.len = ((fragPull d size).1.bytes mem).length
  trim : ∀ size < 2 ^ 32, (fragTrim d size).1.bytes mem = (d.bytes mem).take size ∧
    (fragTrim d size).1.len = ((fragTrim d size).1.bytes mem).length
  copyData : ∀ off < 2 ^ 32, ∀ len < 2 ^ 32, fragCopyData mem d off len =
    if off + len ≤ (d.bytes mem).length then some (((d.bytes mem).drop off).take len) else none
  headerPtr : ∀ off < 2 ^ 32, ∀ len < 2 ^ 32,
    (fragHeaderPtr mem d off len).map (HeaderPtr.read mem len) =
      if off + len ≤ (d.bytes mem).length then some (((d.bytes mem).drop off).take len) else none
  addFrags : ∀ alloc, ∀ off < 2 ^ 32, ∀ len < 2 ^ 32, off + len ≤ (d.bytes mem).length →
    ((addFragsFrom alloc dst d off len).1 = none → (addFragsFrom alloc dst d off len).2.bytes mem
      = dst.bytes mem ++ ((d.bytes mem).drop off).take len) ∧
    ((∀ n, alloc n = true) → (addFragsFrom alloc dst d off len).1 = none)
  refused : ∀ alloc, ∀ off < 2 ^ 32, ∀ len < 2 ^ 32, (d.bytes mem).length < off + len →
    addFragsFrom alloc dst d off len = (some .einval, dst)
  addCount : ∀ alloc, ∀ off < 2 ^ 32, ∀ len < 2 ^ 32, (addFragsFrom alloc dst d off len).2.len
    = ((addFragsFrom alloc dst d off len).2.bytes mem).length

theorem len_eq_of_lt {d : FragDescriptor} (h : totalSize d.frags < 2 ^ 32) :
    d.len = (d.bytes mem).length := by
  rw [d.counted, Nat.mod_eq_of_lt h, length_bytes]

theorem fragCopyData_wraps (h : 2 ^ 31 ≤ d.len) : fragCopyData mem d d.len (2 ^ 32 - d.len) ≠ none := by
  have hlt : d.len < 2 ^ 32 := by
    rw [d.counted]
    exact Nat.mod_lt _ (by decide)
  have hin : ¬ outOfRange d d.len (2 ^ 32 - d.len) := by
    rw [outOfRange, add32, show d.len + (2 ^ 32 - d.len) = 2 ^ 32 by omega]
    omega
  rw [fragCopyData, if_neg hin]
  exact Option.some_ne_none _

theorem slices_of_lt {d dst : FragDescriptor} (hd : totalSize d.frags < 2 ^ 31)
    (hdst : totalSize dst.frags + totalSize d.frags < 2 ^ 32) : Slices mem d dst := by
  have hcount : d.len = totalSize d.frags := by rw [d.counted, Nat.mod_eq_of_lt (by omega)]
  have hlt : d.len < 2 ^ 31 := by omega
  -- a count is right as soon as the bytes are no more than these
  have hlen : ∀ r : FragDescriptor, (r.bytes mem).length ≤ totalSize dst.frags + totalSize d.frags →
      r.len = (r.bytes mem).length := by
    intro r hr
    rw [length_bytes] at hr
    exact len_eq_of_lt mem (by omega)
  refine ⟨hlen d (by rw [length_bytes]; omega), fun size _ => ?_, fun size _ => ?_, ?_, ?_, ?_, ?_, ?_⟩
  · have hpull := @bytes_fragPull mem d hcount size
    refine ⟨hpull, hlen _ ?_⟩
    rw [hpull, length_drop, length_bytes]
    omega
  · have htrim := @bytes_fragTrim mem d hcount size
    refine ⟨htrim, hlen _ ?_⟩
    rw [htrim, length_take, length_bytes]
    omega
  · exact fun off _ len _ => fragCopyData_eq hcount hlt off len
  · exact fun off _ len _ => read_fragHeaderPtr hcount hlt off len
  · intro alloc off _ len _ h
    rw [length_bytes] at h
    obtain ⟨⟨k, hbytes, hall⟩, hnone⟩ := @addFragsFrom_inside mem d hcount hlt alloc dst off len h
    refine ⟨fun hr => ?_, hnone⟩
    rw [hbytes, take_of_length_le]
    exact Nat.le_trans (length_take_le _ _) (hall hr)
  · intro alloc off _ len _ h
    rw [length_bytes, ← hcount] at h
    rw [addFragsFrom, if_pos ((outOfRange_iff hlt off len).mpr h)]
  · intro alloc off _ len _
    apply hlen
    by_cases h : d.len < off + len
    · rw [addFragsFrom, if_pos ((outOfRange_iff hlt off len).mpr h), length_bytes]
      show totalSize dst.frags ≤ _
      omega
    · obtain ⟨⟨k, hbytes, -⟩, -⟩ := @addFragsFrom_inside mem d hcount hlt alloc dst off len
        (show off + len ≤ totalSize d.frags by omega)
      rw [hbytes, length_append, length_bytes, length_take, length_take, length_drop, length_bytes]
      omega

theorem Slices.lt {d dst : FragDescriptor} (h : Slices mem d dst) :
    totalSize d.frags < 2 ^ 31 ∧ totalSize dst.frags + totalSize d.frags < 2 ^ 32 := by
  have hcount : d.len = totalSize d.frags := by rw [h.count, length_bytes]
  have hd : d.len < 2 ^ 31 := by
    by_contra hge
    have hlt : d.len < 2 ^ 32 := by
      rw [d.counted]
      exact Nat.mod_lt _ (by decide)
    have hcopy := h.copyData d.len hlt (2 ^ 32 - d.len) (by omega)
    rw [length_bytes, if_neg (by omega)] at hcopy
    exact fragCopyData_wraps mem d (by omega) hcopy
  refine ⟨by omega, ?_⟩
  have hwhole : 0 + d.len ≤ (d.bytes mem).length := by
    rw [length_bytes]
    omega
  obtain ⟨happend, hnone⟩ := h.addFrags (fun _ => true) 0 (by decide) d.len (by omega) hwhole
  have hbytes := congrArg List.length (happend (hnone fun _ => rfl))
  rw [← h.addCount _ 0 (by decide) d.len (by omega), length_append, length_take,
    length_drop, length_bytes, length_bytes] at hbytes
  have hlt : (addFragsFrom (fun _ => true) dst d 0 d.len).2.len < 2 ^ 32 := by
    rw [FragDescriptor.counted]
    exact Nat.mod_lt _ (by decide)
  omega

/-- **Descriptors are lists of bytes** exactly below `2 ^ 31` bytes, and as long as appending does not
bring the other one to `2 ^ 32`: for every contents of the pages and every fragment list. -/
theorem slices_iff (dst : FragDescriptor) :
    Slices mem d dst ↔ totalSize d.frags < 2 ^ 31 ∧ totalSize dst.frags + totalSize d.frags < 2 ^ 32 :=
  ⟨fun h => h.lt, fun h => slices_of_lt mem h.1 h.2⟩

end Loops

/-- 65536 fragments of 32768 bytes. -/
def longDescriptor : FragDescriptor where
  frags := List.replicate 65536 ⟨0, 0, 32768⟩
  len := 2 ^ 31
  counted := by
    rw [totalSize_replicate]
    rfl

/-- The copy of the `2 ^ 31` bytes behind the end of the descriptor is not refused. -/
theorem not_slices_longDescriptor : ¬ ∀ mem d dst, Slices mem d dst := by
  intro h
  have htotal : totalSize longDescriptor.frags = 2 ^ 31 := totalSize_replicate _ _
  have := (h (fun _ _ => 0) longDescriptor emptyDescriptor).lt.1
  omega

end Rmnet.Frag
