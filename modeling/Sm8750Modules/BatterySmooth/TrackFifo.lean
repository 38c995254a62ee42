import Sm8750Modules.Lib.Base64
import Sm8750Modules.Lib.Runs

/-!
# Battery smooth — the track FIFO

Every change of the smoothing map leaves a record in a kfifo. An upload takes all bytes out of it, encodes
them in Base64 into a buffer and publishes the text. The kfifo holds more than the buffer can take.
-/

namespace TrackFifo

open List

/-! ### The encoder -/

def base64Table : List Char := "ABCDEFGHIJKLMNOPQRSTUVWXYZabcdefghijklmnopqrstuvwxyz0123456789+/".toList

def base64Char (ac : UInt32) (bits : ℕ) : Char :=
  base64Table.getD ((ac >>> UInt32.ofNat bits) &&& 0x3f).toNat 'A'

/-- The inner loop: the characters, and the bits that are left. -/
def emitChars (ac : UInt32) (bits : ℕ) : List Char × ℕ :=
  let bits' := bits - 6
  if 6 ≤ bits' then
    let r := emitChars ac bits'
    (base64Char ac bits' :: r.1, r.2)
  else ([base64Char ac bits'], bits')
  termination_by bits

/-- `ac`, `bits` and the characters so far. -/
structure Encoder where
  ac : UInt32
  bits : ℕ
  out : List Char

def Encoder.put (e : Encoder) (byte : UInt8) : Encoder :=
  let ac := e.ac <<< 8 ||| byte.toUInt32
  let r := emitChars ac (e.bits + 8)
  ⟨ac, r.2, e.out ++ r.1⟩

/-- The last loop, with `bits` missing. -/
def padChars : ℕ → List Char
  | 0 => []
  | 1 => ['=']
  | bits + 2 => '=' :: padChars bits

/-- What follows the last byte. -/
def Encoder.finish (e : Encoder) : List Char :=
  if e.bits ≠ 0 then
    e.out ++ [base64Char (e.ac <<< UInt32.ofNat (6 - e.bits)) 0] ++ padChars (6 - e.bits)
  else e.out

def base64Encode (src : List UInt8) : List Char := (src.foldl Encoder.put ⟨0, 0, []⟩).finish

def alphabet : Base64.Alphabet Char where
  digit i := base64Table.getD i 'A'
  pad := '='
  digit_inj := by decide +kernel
  digit_ne_pad := by decide +kernel

variable (ac : UInt32)

theorem base64Char_eq {bits : ℕ} (h : bits < 32) :
    base64Char ac bits = alphabet.digit (ac.toNat / 2 ^ bits % 64) := by
  rw [base64Char, UInt32.toNat_and, UInt32.toNat_shiftRight]
  show base64Table.getD _ _ = base64Table.getD _ _
  congr 1
  rw [UInt32.toNat_ofNat_of_lt' (by rw [UInt32.size]; omega), Nat.mod_eq_of_lt h, Nat.shiftRight_eq_div_pow]
  exact Nat.and_two_pow_sub_one_eq_mod _ 6

theorem toNat_put (byte : UInt8) :
    (ac <<< 8 ||| byte.toUInt32).toNat = ac.toNat * 256 % 2 ^ 32 + byte.toNat := by
  have hbyte : byte.toNat < 2 ^ 8 := byte.toNat_lt
  rw [UInt32.toNat_or, UInt32.toNat_shiftLeft, UInt8.toNat_toUInt32]
  show (ac.toNat <<< 8) % 2 ^ 32 ||| byte.toNat = _
  rw [Nat.shiftLeft_eq, show ac.toNat * 2 ^ 8 % 2 ^ 32 = 2 ^ 8 * (ac.toNat % 2 ^ 24) by omega,
    ← Nat.two_pow_add_eq_or_of_lt hbyte]
  omega

theorem toNat_shift {n : ℕ} (h : n < 32) :
    (ac <<< UInt32.ofNat n).toNat = ac.toNat * 2 ^ n % 2 ^ 32 := by
  rw [UInt32.toNat_shiftLeft, UInt32.toNat_ofNat_of_lt' (by rw [UInt32.size]; omega), Nat.mod_eq_of_lt h,
    Nat.shiftLeft_eq]

theorem emitChars_eight : emitChars ac 8 = ([base64Char ac 2], 2) := by
  rw [emitChars]
  rfl

theorem emitChars_ten : emitChars ac 10 = ([base64Char ac 4], 4) := by
  rw [emitChars]
  rfl

theorem emitChars_twelve : emitChars ac 12 = ([base64Char ac 6, base64Char ac 0], 0) := by
  rw [emitChars, emitChars]
  rfl

section Put

variable (ac : UInt32) (out : List Char) (a b c : UInt8)

def putAc : UInt32 := ac <<< 8 ||| a.toUInt32

theorem put_one : Encoder.put ⟨ac, 0, out⟩ a = ⟨putAc ac a, 2, out ++ [base64Char (putAc ac a) 2]⟩ := by
  rw [Encoder.put, Nat.zero_add, ← putAc, emitChars_eight]

theorem put_two : Encoder.put ⟨ac, 2, out⟩ a = ⟨putAc ac a, 4, out ++ [base64Char (putAc ac a) 4]⟩ := by
  rw [Encoder.put, ← putAc, emitChars_ten]

theorem put_three : Encoder.put ⟨ac, 4, out⟩ a
    = ⟨putAc ac a, 0, out ++ [base64Char (putAc ac a) 6, base64Char (putAc ac a) 0]⟩ := by
  rw [Encoder.put, ← putAc, emitChars_twelve]

theorem toNat_putAc : (putAc ac a).toNat = ac.toNat * 256 % 2 ^ 32 + a.toNat := toNat_put ac a

end Put

/-- **The encoder writes the Base64 text.** Between groups of three bytes no bits are left, and what the
accumulator still holds of earlier bytes is masked. -/
theorem finish_put (src : List UInt8) (ac : UInt32) (out : List Char) :
    (src.foldl Encoder.put ⟨ac, 0, out⟩).finish = out ++ Base64.encode alphabet src := by
  fun_induction Base64.encode alphabet src generalizing ac out with
  | case1 => simp [Encoder.finish]
  | case2 a =>
    have ha := a.toNat_lt
    rw [foldl_cons, foldl_nil, put_one]
    show out ++ [_] ++ [base64Char (_ <<< UInt32.ofNat 4) 0] ++ ['=', '='] = _
    rw [base64Char_eq _ (by decide), base64Char_eq _ (by decide), toNat_shift _ (by decide), toNat_putAc]
    simp only [Base64.lastOne, append_assoc, cons_append, nil_append,
      append_cancel_left_eq, List.cons.injEq]
    refine ⟨congrArg _ ?_, congrArg _ ?_, rfl, rfl, trivial⟩
    · omega
    · omega
  | case3 a b =>
    have ha := a.toNat_lt
    have hb := b.toNat_lt
    have h1 := toNat_putAc ac a
    have h2 := toNat_putAc (putAc ac a) b
    rw [foldl_cons, foldl_cons, foldl_nil, put_one, put_two]
    show out ++ [_] ++ [_] ++ [base64Char (_ <<< UInt32.ofNat 2) 0] ++ ['='] = _
    rw [base64Char_eq _ (by decide), base64Char_eq _ (by decide), base64Char_eq _ (by decide),
      toNat_shift _ (by decide)]
    simp only [Base64.lastTwo, append_assoc, cons_append, nil_append,
      append_cancel_left_eq, List.cons.injEq]
    refine ⟨congrArg _ ?_, congrArg _ ?_, congrArg _ ?_, rfl, trivial⟩
    · omega
    · omega
    · omega
  | case4 a b c rest ih =>
    have ha := a.toNat_lt
    have hb := b.toNat_lt
    have hc := c.toNat_lt
    have h1 := toNat_putAc ac a
    have h2 := toNat_putAc (putAc ac a) b
    have h3 := toNat_putAc (putAc (putAc ac a) b) c
    rw [foldl_cons, foldl_cons, foldl_cons, put_one, put_two, put_three, ih,
      base64Char_eq _ (by decide), base64Char_eq _ (by decide), base64Char_eq _ (by decide),
      base64Char_eq _ (by decide)]
    simp only [Base64.quad, append_assoc, cons_append, nil_append,
      append_cancel_left_eq, List.cons.injEq]
    refine ⟨congrArg _ ?_, congrArg _ ?_, congrArg _ ?_, congrArg _ ?_, trivial⟩
    · omega
    · omega
    · omega
    · omega

theorem base64Encode_eq (src : List UInt8) : base64Encode src = Base64.encode alphabet src := by
  rw [base64Encode, finish_put, nil_append]

def topicMsgStrBuf : ℕ := 1024

def trackCacheSize : ℕ := topicMsgStrBuf - 1

def trackFifoSize : ℕ := trackCacheSize * 3 / 4

def kfifoSize : ℕ := trackFifoSize.nextPowerOfTwo

theorem trackFifoSize_eq : trackFifoSize = 767 := rfl

theorem kfifoSize_eq : kfifoSize = 1024 := by decide +kernel

/-- The fields behind `utc` in the records, by map type. -/
def extraFields : List (List ℕ) :=
  [[2], [1, 2], [1, 2, 2, 2], [1, 2, 2], [1, 2, 2, 2, 2, 1], [1, 2, 2, 2, 1], [2, 2, 2, 2], [2, 2, 2],
    [1, 2, 2, 1], [1, 2, 2, 2]]

def bsTrackCalcSize (type : UInt8) : ℕ :=
  match extraFields[type.toNat]? with
  | some fields => 1 + 1 + 8 + fields.sum
  | none => 0

/-- `struct bs_track` as it is given to the push. -/
structure BsTrack where
  type : UInt8
  extra : ℕ → UInt8

/-- The bytes of the record that is pushed at the time `utc`. -/
def BsTrack.bytes (track : BsTrack) (utc : UInt64) : List UInt8 :=
  let totalNeed := bsTrackCalcSize track.type
  UInt8.ofNat totalNeed :: track.type
    :: ((List.range 8).map fun i => UInt8.ofNat (utc.toNat / 256 ^ i))
    ++ (List.range (totalNeed - 10)).map track.extra

/-! ### The FIFO -/

/-- `track_fifo` and what is around it. `published` are the texts of the delivered messages, `accepted`
the bytes of the records whose push has returned 0, and `outside` says that something was written outside
of `track_cache`. -/
structure BsStrategy where
  trackFifo : List UInt8
  room : trackFifo.length ≤ kfifoSize
  errTopic : Bool
  published : List (List Char)
  accepted : List UInt8
  outside : Bool

/-- `bs_track_init`. -/
def initial : BsStrategy := ⟨[], Nat.zero_le _, false, [], [], false⟩

/-- What the environment decides in an upload. -/
structure Upload where
  rawData : Bool
  topic : Bool
  msg : Bool
  publish : Bool

/-- The error codes; `publish` stands for those of the delivery. -/
inductive BsError
  | enodata
  | eoverflow
  | enomem
  | enodev
  | einval
  | eio
  | publish
  deriving DecidableEq

/-- `kfifo_out` of all bytes. -/
def BsStrategy.emptied (bs : BsStrategy) : BsStrategy := { bs with trackFifo := [], room := Nat.zero_le _ }

/-- `bs_track_fifo_pop_and_encode`: the text in `track_cache` up to the NUL. -/
def bsTrackFifoPopAndEncode (rawData : Bool) (bs : BsStrategy) : Except BsError (List Char) × BsStrategy :=
  if bs.trackFifo.length = 0 then (.error .enodata, bs)
  else if bs.trackFifo.length > trackFifoSize then (.error .eoverflow, bs)
  else if ¬ rawData then (.error .enomem, bs)
  else
    let text := base64Encode bs.trackFifo
    let written := { bs.emptied with outside := bs.outside || decide (text.length > trackCacheSize) }
    if text.length > trackCacheSize then (.error .eoverflow, written)
    else (.ok text, { written with outside := written.outside || decide (text.length ≥ trackCacheSize) })

/-- `bs_track_upload`. The message holds the text up to the size of its buffer. -/
def bsTrackUpload (env : Upload) (bs : BsStrategy) : Option BsError × BsStrategy :=
  match bsTrackFifoPopAndEncode env.rawData bs with
  | (.error e, bs) => (some e, bs)
  | (.ok text, bs) =>
    let bs := { bs with errTopic := bs.errTopic || env.topic }
    if ¬ bs.errTopic then (some .enodev, bs)
    else if ¬ env.msg then (some .enomem, bs)
    else if ¬ env.publish then (some .publish, bs)
    else (none, { bs with published := bs.published ++ [text.take (topicMsgStrBuf - 1)] })

/-- `kfifo_in`: as many bytes as there is room for. -/
def BsStrategy.kfifoIn (bs : BsStrategy) (data : List UInt8) : BsStrategy :=
  { bs with
    trackFifo := bs.trackFifo ++ data.take (kfifoSize - bs.trackFifo.length)
    room := by
      rw [List.length_append, List.length_take]
      have := bs.room
      omega }

/-- `bs_track_push_to_fifo`: its error, and the state afterwards. -/
def bsTrackPushToFifo (env : Upload) (utc : UInt64) (track : BsTrack) (bs : BsStrategy) :
    Option BsError × BsStrategy :=
  let totalNeed := bsTrackCalcSize track.type
  if totalNeed = 0 then (some .einval, bs)
  else
    let bs := if kfifoSize - bs.trackFifo.length < totalNeed then (bsTrackUpload env bs).2 else bs
    let data := track.bytes utc
    let pushed := bs.kfifoIn data
    if pushed.trackFifo.length - bs.trackFifo.length ≠ totalNeed then (some .eio, pushed)
    else (none, { pushed with accepted := pushed.accepted ++ data })

/-- Nothing is lost, no upload is stuck and nothing is written outside of the buffer. -/
structure Conserves (bs : BsStrategy) : Prop where
  inOrder : ∃ chunks : List (List UInt8), bs.published = chunks.map (Base64.encode alphabet) ∧
    chunks.flatten ++ bs.trackFifo = bs.accepted
  progress : bs.trackFifo ≠ [] → ∀ env : Upload, env.rawData = true →
    (bsTrackUpload env bs).2.trackFifo ≠ bs.trackFifo
  inside : bs.outside = false

inductive Step
  | push (env : Upload) (utc : UInt64) (track : BsTrack)
  | upload (env : Upload)

/-- The steps that keep the statement: a push that leaves no more bytes than an upload takes. -/
def Keeps (bs : BsStrategy) : Step → Prop
  | .push _ _ track => bsTrackCalcSize track.type = 0 ∨
      bs.trackFifo.length + bsTrackCalcSize track.type ≤ trackFifoSize
  | .upload env => bs.trackFifo = [] ∨ env.rawData = false ∨
      ((bs.trackFifo.length + 2) / 3 * 4 ≤ trackCacheSize ∧ (bs.errTopic = true ∨ env.topic = true) ∧
        env.msg = true ∧ env.publish = true)

/-- The FIFO under pushes and uploads in any order. -/
def machine : Runs.Machine BsStrategy Step where
  init bs := bs = initial
  guard := Keeps
  next bs
    | .push env utc track => (bsTrackPushToFifo env utc track bs).2
    | .upload env => (bsTrackUpload env bs).2

/-! ### One step -/

theorem bsTrackCalcSize_cases (type : UInt8) :
    bsTrackCalcSize type = 0 ∨ (12 ≤ bsTrackCalcSize type ∧ bsTrackCalcSize type ≤ 20) := by
  have hsum : ∀ fields ∈ extraFields, 2 ≤ fields.sum ∧ fields.sum ≤ 10 := by decide
  rw [bsTrackCalcSize]
  split
  · next fields hfields =>
    have := hsum fields (List.mem_of_getElem? hfields)
    omega
  · exact .inl rfl

theorem BsTrack.length_bytes (track : BsTrack) (utc : UInt64) (h : bsTrackCalcSize track.type ≠ 0) :
    (track.bytes utc).length = bsTrackCalcSize track.type := by
  have := bsTrackCalcSize_cases track.type
  simp only [BsTrack.bytes, cons_append, length_cons, length_append, length_map, length_range]
  omega

section Upload

variable {bs : BsStrategy} {env : Upload}

theorem trackFifo_bsTrackUpload (env : Upload) (bs : BsStrategy) : (bsTrackUpload env bs).2.trackFifo
    = (bsTrackFifoPopAndEncode env.rawData bs).2.trackFifo := by
  rw [bsTrackUpload]
  split
  · next h => rw [h]
  · next h =>
    rw [h]
    dsimp only
    split
    · rfl
    · split
      · rfl
      · split <;> rfl

theorem bsTrackUpload_idle (h : bs.trackFifo = [] ∨ trackFifoSize < bs.trackFifo.length ∨ env.rawData = false) :
    (bsTrackUpload env bs).2 = bs := by
  have hpop : ∃ e, bsTrackFifoPopAndEncode env.rawData bs = (.error e, bs) := by
    rw [bsTrackFifoPopAndEncode]
    by_cases hnil : bs.trackFifo.length = 0
    · exact ⟨.enodata, by rw [if_pos hnil]⟩
    · by_cases hlong : bs.trackFifo.length > trackFifoSize
      · exact ⟨.eoverflow, by rw [if_neg hnil, if_pos hlong]⟩
      · obtain h | h | h := h
        · simp [h] at hnil
        · omega
        · exact ⟨.enomem, by rw [if_neg hnil, if_neg hlong, if_pos (by simp [h])]⟩
  obtain ⟨e, hpop⟩ := hpop
  rw [bsTrackUpload, hpop]

theorem popAndEncode_taken (hne : bs.trackFifo ≠ []) (hlen : bs.trackFifo.length ≤ trackFifoSize) :
    bsTrackFifoPopAndEncode true bs =
      if trackCacheSize < (bs.trackFifo.length + 2) / 3 * 4 then
        (.error .eoverflow, { bs.emptied with outside := true })
      else (.ok (Base64.encode alphabet bs.trackFifo), bs.emptied) := by
  have hnil : bs.trackFifo.length ≠ 0 := fun h => hne (length_eq_zero_iff.mp h)
  have htext : (base64Encode bs.trackFifo).length = (bs.trackFifo.length + 2) / 3 * 4 := by
    rw [base64Encode_eq, Base64.length_encode]
  simp only [bsTrackFifoPopAndEncode, htext, if_neg hnil, if_neg (Nat.not_lt.mpr hlen)]
  by_cases hlong : trackCacheSize < (bs.trackFifo.length + 2) / 3 * 4
  · simp [hlong]
  · have hnul : ¬ trackCacheSize ≤ (bs.trackFifo.length + 2) / 3 * 4 := by
      rw [show trackCacheSize = 1023 from rfl] at hlong ⊢
      omega
    simp [hlong, hnul, base64Encode_eq, BsStrategy.emptied]

theorem trackFifo_taken (hne : bs.trackFifo ≠ []) (hlen : bs.trackFifo.length ≤ trackFifoSize)
    (henv : env.rawData = true) : (bsTrackUpload env bs).2.trackFifo = [] := by
  rw [trackFifo_bsTrackUpload, henv, popAndEncode_taken hne hlen]
  split <;> rfl

theorem Conserves.length_le (h : Conserves bs) : bs.trackFifo.length ≤ trackFifoSize := by
  by_contra hlong
  have hne : bs.trackFifo ≠ [] := by
    intro hnil
    simp [hnil] at hlong
  apply h.progress hne ⟨true, true, true, true⟩ rfl
  rw [bsTrackUpload_idle (.inr (.inl (by omega)))]

theorem progress_of_length_le (hlen : bs.trackFifo.length ≤ trackFifoSize) (hne : bs.trackFifo ≠ [])
    (env : Upload) (henv : env.rawData = true) : (bsTrackUpload env bs).2.trackFifo ≠ bs.trackFifo := by
  rw [trackFifo_taken hne hlen henv]
  exact hne.symm

end Upload

theorem bsTrackPushToFifo_fits {bs : BsStrategy} {track : BsTrack} (env : Upload) (utc : UInt64)
    (hlen : bs.trackFifo.length ≤ trackFifoSize) (hzero : bsTrackCalcSize track.type ≠ 0) :
    ∃ next, bsTrackPushToFifo env utc track bs = (none, next) ∧
      next.trackFifo = bs.trackFifo ++ track.bytes utc ∧ next.published = bs.published ∧
      next.accepted = bs.accepted ++ track.bytes utc ∧ next.outside = bs.outside := by
  have hsize := bsTrackCalcSize_cases track.type
  have hbytes := track.length_bytes utc hzero
  rw [trackFifoSize_eq] at hlen
  have hroom : ¬ kfifoSize - bs.trackFifo.length < bsTrackCalcSize track.type := by
    rw [kfifoSize_eq]
    omega
  have hpushed : (bs.kfifoIn (track.bytes utc)).trackFifo = bs.trackFifo ++ track.bytes utc := by
    show bs.trackFifo ++ (track.bytes utc).take (kfifoSize - bs.trackFifo.length) = _
    rw [take_of_length_le (by omega)]
  have hcount : ¬ (bs.kfifoIn (track.bytes utc)).trackFifo.length - bs.trackFifo.length
      ≠ bsTrackCalcSize track.type := by
    rw [hpushed, length_append]
    omega
  refine ⟨{ bs.kfifoIn (track.bytes utc) with accepted := bs.accepted ++ track.bytes utc }, ?_, hpushed,
    rfl, rfl, rfl⟩
  rw [bsTrackPushToFifo, if_neg hzero]
  dsimp only
  rw [if_neg hroom, if_neg hcount]
  rfl

theorem conserves_push {bs : BsStrategy} (h : Conserves bs) (env : Upload) (utc : UInt64) (track : BsTrack) :
    Conserves (bsTrackPushToFifo env utc track bs).2 ↔ Keeps bs (.push env utc track) := by
  rw [Keeps]
  by_cases hzero : bsTrackCalcSize track.type = 0
  · rw [bsTrackPushToFifo, if_pos hzero]
    simp only [hzero, true_or, iff_true]
    exact h
  obtain ⟨next, hpush, hfifo, hpublished, haccepted, houtside⟩ :=
    bsTrackPushToFifo_fits env utc h.length_le hzero
  have hlength : next.trackFifo.length = bs.trackFifo.length + bsTrackCalcSize track.type := by
    rw [hfifo, length_append, track.length_bytes utc hzero]
  rw [hpush, ← hlength]
  constructor
  · exact fun hnext => .inr hnext.length_le
  · intro hfits
    obtain ⟨chunks, hchunks, hflat⟩ := h.inOrder
    refine ⟨⟨chunks, hpublished.trans hchunks, ?_⟩, ?_, houtside.trans h.inside⟩
    · rw [hfifo, haccepted, ← append_assoc, hflat]
    · exact progress_of_length_le (hfits.resolve_left hzero)

section Taken

variable {bs : BsStrategy} {env : Upload}

theorem bsTrackUpload_delivers (hne : bs.trackFifo ≠ []) (hlen : bs.trackFifo.length ≤ trackFifoSize)
    (hmem : env.rawData = true) (hshort : (bs.trackFifo.length + 2) / 3 * 4 ≤ trackCacheSize)
    (htopic : bs.errTopic = true ∨ env.topic = true) (hmsg : env.msg = true) (hpublish : env.publish = true) :
    ∃ next, bsTrackUpload env bs = (none, next) ∧ next.trackFifo = [] ∧
      next.published = bs.published ++ [Base64.encode alphabet bs.trackFifo] ∧
      next.accepted = bs.accepted ∧ next.outside = bs.outside := by
  have htext : (Base64.encode alphabet bs.trackFifo).take (topicMsgStrBuf - 1)
      = Base64.encode alphabet bs.trackFifo := by
    rw [take_of_length_le]
    rw [Base64.length_encode]
    exact hshort
  have htopic' : ¬ ¬ (bs.errTopic || env.topic) = true := not_not.mpr ((Bool.or_eq_true _ _).mpr htopic)
  rw [bsTrackUpload, hmem, popAndEncode_taken hne hlen, if_neg (Nat.not_lt.mpr hshort)]
  dsimp only [BsStrategy.emptied]
  rw [if_neg htopic', if_neg (not_not.mpr hmsg), if_neg (not_not.mpr hpublish), htext]
  exact ⟨_, rfl, rfl, rfl, rfl, rfl⟩

theorem bsTrackUpload_loses (hne : bs.trackFifo ≠ []) (hlen : bs.trackFifo.length ≤ trackFifoSize)
    (hmem : env.rawData = true) (h : ¬ ((bs.trackFifo.length + 2) / 3 * 4 ≤ trackCacheSize ∧
      (bs.errTopic = true ∨ env.topic = true) ∧ env.msg = true ∧ env.publish = true)) :
    ∃ e next, bsTrackUpload env bs = (some e, next) ∧ next.trackFifo = [] ∧
      next.published = bs.published ∧ next.accepted = bs.accepted := by
  rw [bsTrackUpload, hmem, popAndEncode_taken hne hlen]
  by_cases hlong : trackCacheSize < (bs.trackFifo.length + 2) / 3 * 4
  · rw [if_pos hlong]
    exact ⟨_, _, rfl, rfl, rfl, rfl⟩
  rw [if_neg hlong]
  dsimp only [BsStrategy.emptied]
  split
  · exact ⟨_, _, rfl, rfl, rfl, rfl⟩
  · next htopic =>
    split
    · exact ⟨_, _, rfl, rfl, rfl, rfl⟩
    · next hmsg =>
      split
      · exact ⟨_, _, rfl, rfl, rfl, rfl⟩
      · next hpublish =>
        exact absurd ⟨Nat.not_lt.mp hlong, (Bool.or_eq_true _ _).mp (not_not.mp htopic),
          not_not.mp hmsg, not_not.mp hpublish⟩ h

/-- **Uploads.** Bytes that are taken and not published are lost. -/
theorem conserves_upload (h : Conserves bs) (env : Upload) :
    Conserves (bsTrackUpload env bs).2 ↔ Keeps bs (.upload env) := by
  have hlen := h.length_le
  rw [Keeps]
  by_cases hnil : bs.trackFifo = []
  · rw [bsTrackUpload_idle (.inl hnil)]
    simp only [hnil, true_or, iff_true]
    exact h
  by_cases hmem : env.rawData = false
  · rw [bsTrackUpload_idle (.inr (.inr hmem))]
    simp only [hmem, true_or, or_true, iff_true]
    exact h
  obtain ⟨chunks, hchunks, hflat⟩ := h.inOrder
  rw [or_iff_right hnil, or_iff_right hmem]
  have hmem' : env.rawData = true := by simpa using hmem
  constructor
  · intro hnext
    by_contra hlost
    obtain ⟨e, next, hupload, hfifo, hpublished, haccepted⟩ := bsTrackUpload_loses hnil hlen hmem' hlost
    rw [hupload] at hnext
    -- without a new text the chunks are the same, but nothing is left in the FIFO
    obtain ⟨chunks', hchunks', hflat'⟩ := hnext.inOrder
    rw [hpublished, hchunks] at hchunks'
    have hsame := map_injective_iff.mpr Base64.encode_injective hchunks'
    rw [hfifo, haccepted, ← hsame, ← hflat] at hflat'
    exact hnil (append_cancel_left hflat').symm
  · intro ⟨hshort, htopic, hmsg, hpublish⟩
    obtain ⟨next, hupload, hfifo, hpublished, haccepted, houtside⟩ :=
      bsTrackUpload_delivers hnil hlen hmem' hshort htopic hmsg hpublish
    rw [hupload]
    refine ⟨⟨chunks ++ [bs.trackFifo], ?_, ?_⟩, fun hne => absurd hfifo hne, houtside.trans h.inside⟩
    · rw [hpublished, hchunks, map_append]
      rfl
    · rw [hfifo, haccepted, flatten_append, ← hflat]
      simp

end Taken

theorem conserves_initial : Conserves initial :=
  ⟨⟨[], rfl, rfl⟩, fun hne => absurd rfl hne, rfl⟩

/-- **The runs that lose nothing.** For every list of pushes and uploads the statement holds all along
exactly if every step of it keeps the statement. -/
theorem fifo_conserves_iff (steps : List Step) :
    (∀ n, Conserves (machine.exec initial (steps.take n))) ↔ machine.Allows initial steps := by
  apply Runs.Machine.exact _ conserves_initial
  intro bs a h
  cases a with
  | push env utc track => exact conserves_push h env utc track
  | upload env => exact conserves_upload h env

def smoothLtSplit : Step := .push ⟨true, true, true, true⟩ 0 ⟨4, fun _ => 0⟩

theorem length_smoothLtSplit (n : ℕ) {bs : BsStrategy}
    (h : ∀ k, Conserves (machine.exec bs ((List.replicate n smoothLtSplit).take k))) :
    (machine.exec bs (List.replicate n smoothLtSplit)).trackFifo.length = bs.trackFifo.length + 20 * n := by
  induction n generalizing bs with
  | zero => rfl
  | succ n ih =>
    obtain ⟨next, hpush, hfifo, -⟩ := @bsTrackPushToFifo_fits bs ⟨4, fun _ => 0⟩
      ⟨true, true, true, true⟩ 0 (h 0).length_le (by decide)
    have hnext : machine.next bs smoothLtSplit = next := congrArg Prod.snd hpush
    have := ih fun k => h (k + 1)
    rw [hnext, hfifo, length_append, BsTrack.length_bytes _ _ (by decide)] at this
    rw [replicate_succ, Runs.Machine.exec, hnext, this]
    show bs.trackFifo.length + 20 + 20 * n = _
    omega

/-- 39 records of 20 bytes are 780 bytes, which no upload takes out again. -/
theorem not_conserves_records :
    ¬ ∀ (steps : List Step) (n : ℕ), Conserves (machine.exec initial (steps.take n)) := by
  intro h
  have hlength := length_smoothLtSplit 39 (h (List.replicate 39 smoothLtSplit))
  have hle := (h (List.replicate 39 smoothLtSplit) 39).length_le
  rw [take_of_length_le (by rw [length_replicate]), hlength, trackFifoSize_eq] at hle
  exact absurd hle (by decide)

end TrackFifo
