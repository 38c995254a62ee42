import Sm8750Modules.Rmnet.Coalesced

/-!
# Deaggregation of received buffers

A buffer of the modem is a row of page fragments in which QMAP packets lie one behind the other,
each with its own length. `rmnet_frag_deaggregate` takes a descriptor of the pool for each packet
and lists it with the bytes of the packet.
-/

namespace Rmnet.Ingress

open Rmnet.Coalesced List

/-- The descriptors: how many were taken, and which were put back. -/
structure Pool where
  taken : ℕ
  returned : List ℕ
deriving DecidableEq, Repr

namespace Pool

variable (p : Pool)

/-- `rmnet_get_frag_descriptor`: the descriptor has the number of those taken before. -/
def get : Pool := { p with taken := p.taken + 1 }

/-- `rmnet_recycle_frag_descriptor` -/
def recycle (id : ℕ) : Pool := { p with returned := p.returned ++ [id] }

end Pool

/-- A descriptor of the pool in use. -/
structure Held where
  id : ℕ
  priority : ℕ
  desc : Desc
deriving DecidableEq, Repr

/-- A cleared descriptor with these bytes. -/
def rawDesc (data : List UInt8) : Desc where
  data := data
  ipProto := 0
  ipLen := 0
  transProto := 0
  transLen := 0
  csumValid := false
  hdrsValid := false
  gsoSize := 0
  gsoSegs := 0
  dataOffset := 0
  pktId := 0
  tcpSeq := none
  tcpFlags := none
  ipId := none
  coalBytes := 0
  coalBufsize := 0

/-! ## Deaggregation -/

/-- The flags of `data_format` that the ingress looks at. -/
structure DataFormat where
  mapCksumV4 : Bool
  mapCksumV5 : Bool
  coalesce : Bool
deriving DecidableEq, Repr

/-- `skb_copy_bits` from the fragments of a buffer. -/
def copyBits (skb : List (List UInt8)) (off len : ℕ) : Option (List UInt8) :=
  if off + len ≤ skb.flatten.length then some ((skb.flatten.drop off).take len) else none

/-- The fragment with the byte `start`. -/
def startFrag : List (List UInt8) → ℕ → Option (List UInt8 × List (List UInt8))
  | [], _ => none
  | frag :: rest, start =>
    if start < frag.length then some (frag.drop start, rest) else startFrag rest (start - frag.length)

/-- The `cd_bit` and the `pkt_len` of a QMAP header. -/
def cdBit (maph : List UInt8) : Bool := byteAt maph 0 &&& 0x80 != 0

def pktLen (maph : List UInt8) : ℕ := (be16At maph 2).toNat

def csumHeaderSize : ℕ := 4

def csumTrailerSize : ℕ := 8

def nextHdrSize (type : UInt8) : ℕ :=
  if (type &&& 0xFE) >>> 1 = 1 then coalHeaderSize
  else if (type &&& 0xFE) >>> 1 = 2 then csumHeaderSize
  else 0

def DataFormat.readsType (fmt : DataFormat) (maph : List UInt8) : Bool :=
  !fmt.mapCksumV4 && (fmt.mapCksumV5 || fmt.coalesce) && !cdBit maph

/-- What `rmnet_frag_deaggregate_one` adds to the length in the header. -/
def DataFormat.extra (fmt : DataFormat) (maph : List UInt8) (type : UInt8) : ℕ :=
  if fmt.mapCksumV4 then csumTrailerSize else if fmt.readsType maph then nextHdrSize type else 0

/-- The fragments of a packet of so many bytes, and the number of bytes that are missing. -/
def gather : ℕ → List (List UInt8) → List (List UInt8) × ℕ
  | n, [] => ([], n)
  | n, frag :: rest =>
    if n = 0 then ([], 0)
    else
      let copy := min frag.length n
      let r := gather (n - copy) rest
      (frag.take copy :: r.1, r.2)

/-- A deaggregation on its way: the pool and the list of descriptors. -/
structure Listing where
  pool : Pool
  list : List Held
deriving DecidableEq, Repr

namespace Listing

variable (s : Listing) (fmt : DataFormat) (skb : List (List UInt8)) (priority : ℕ)

/-- The part of `rmnet_frag_deaggregate_one` that holds a descriptor, for a packet at the fragment
`first`. -/
def fill (maph first : List UInt8) (rest : List (List UInt8)) (type : UInt8) : Listing × Option ℕ :=
  let id := s.pool.taken
  let len := pktLen maph + mapHeaderSize + fmt.extra maph type
  let frags := gather len (first :: rest)
  if frags.2 ≠ 0 then ({ s with pool := s.pool.get.recycle id }, none)
  else
    ({ pool := s.pool.get, list := s.list ++ [⟨id, priority, rawDesc frags.1.flatten⟩] },
      some frags.1.flatten.length)

def deaggregateOne (start : ℕ) : Listing × Option ℕ :=
  match startFrag skb start with
  | none => (s, none)
  | some (first, rest) =>
    match if mapHeaderSize ≤ first.length then some (first.take mapHeaderSize)
      else copyBits skb start mapHeaderSize with
    | none => (s, none)
    | some maph =>
      if pktLen maph = 0 then (s, none)
      else if fmt.readsType maph then
        match if mapHeaderSize + 1 ≤ first.length then some [byteAt first mapHeaderSize]
          else copyBits skb (start + mapHeaderSize) 1 with
        -- the descriptor stays behind
        | none => ({ s with pool := s.pool.get }, none)
        | some type => s.fill fmt priority maph first rest (byteAt type 0)
      else s.fill fmt priority maph first rest 0

/-- The loop of `rmnet_frag_deaggregate` for at most so many packets. -/
def deaggregateLoop : ℕ → ℕ → Listing → Listing × ℕ × Bool
  | 0, start, s => (s, start, false)
  | fuel + 1, start, s =>
    if start < skb.flatten.length then
      match s.deaggregateOne fmt skb priority start with
      | (s, none) => (s, start, true)
      | (s, some rc) => deaggregateLoop fuel (start + rc) s
    else (s, start, false)

def deaggregate : Listing := (deaggregateLoop fmt skb priority skb.flatten.length 0 s).1

end Listing

/-! ## Fragments and bytes -/

variable {skb rest : List (List UInt8)} {start : ℕ} {first : List UInt8}

theorem startFrag_spec
    (h : startFrag skb start = some (first, rest)) :
    first ≠ [] ∧ skb.flatten.drop start = first ++ rest.flatten := by
  induction skb generalizing start with
  | nil => cases h
  | cons frag skb ih =>
    rw [startFrag] at h
    rw [flatten_cons, drop_append]
    split at h
    · rename_i hlt
      cases h
      refine ⟨?_, ?_⟩
      · rw [ne_eq, drop_eq_nil_iff]
        omega
      · rw [Nat.sub_eq_zero_of_le hlt.le, drop_zero]
    · rename_i hge
      rw [drop_eq_nil_of_le (Nat.not_lt.mp hge), nil_append]
      exact ih h

theorem startFrag_eq_none (h : startFrag skb start = none) : skb.flatten.length ≤ start := by
  induction skb generalizing start with
  | nil => exact Nat.zero_le _
  | cons frag skb ih =>
    rw [startFrag] at h
    rw [flatten_cons, length_append]
    split at h
    · cases h
    · have := ih h
      omega

theorem gather_spec (n : ℕ) (frags : List (List UInt8)) :
    (gather n frags).1.flatten = frags.flatten.take n ∧
      (gather n frags).2 = n - frags.flatten.length := by
  induction frags generalizing n with
  | nil => exact ⟨by simp [gather], by simp [gather]⟩
  | cons frag rest ih =>
    rw [gather]
    split
    · rename_i hzero
      rw [hzero, take_zero, Nat.zero_sub]
      exact ⟨rfl, rfl⟩
    · obtain ⟨hbytes, hleft⟩ := ih (n - min frag.length n)
      refine ⟨?_, ?_⟩
      · show frag.take (min frag.length n) ++ (gather (n - min frag.length n) rest).1.flatten = _
        rw [hbytes, flatten_cons, take_append]
        rcases le_total frag.length n with hle | hle
        · rw [min_eq_left hle, take_length, take_of_length_le hle]
        · rw [min_eq_right hle, Nat.sub_self, Nat.sub_eq_zero_of_le hle]
      · show (gather (n - min frag.length n) rest).2 = _
        rw [hleft, flatten_cons, length_append]
        omega

theorem byteAt_take {l : List UInt8} {i n : ℕ} (h : i < n) : byteAt (l.take n) i = byteAt l i := by
  rw [byteAt, byteAt, List.getD_eq_getElem?_getD, List.getD_eq_getElem?_getD,
    List.getElem?_take_of_lt h]

theorem byteAt_append {l l' : List UInt8} {i : ℕ} (h : i < l.length) :
    byteAt (l ++ l') i = byteAt l i := by
  rw [byteAt, byteAt, getD_append _ _ _ _ h]

variable {b : List UInt8}

theorem pktLen_take : pktLen (b.take mapHeaderSize) = pktLen b := by
  rw [pktLen, pktLen, be16At, be16At, byteAt_take (by decide), byteAt_take (by decide)]

variable {fmt : DataFormat}

theorem readsType_take : fmt.readsType (b.take mapHeaderSize) = fmt.readsType b := by
  rw [DataFormat.readsType, DataFormat.readsType, cdBit, cdBit, byteAt_take (by decide)]

theorem extra_take {type : UInt8} : fmt.extra (b.take mapHeaderSize) type = fmt.extra b type := by
  rw [DataFormat.extra, DataFormat.extra, readsType_take]

def DataFormat.length (fmt : DataFormat) (b : List UInt8) : ℕ :=
  pktLen b + mapHeaderSize + fmt.extra b (byteAt b mapHeaderSize)

def DataFormat.Fits (fmt : DataFormat) (b : List UInt8) : Prop :=
  pktLen b ≠ 0 ∧ fmt.length b ≤ b.length

def DataFormat.Truncated (fmt : DataFormat) (b : List UInt8) : Prop :=
  b.length = mapHeaderSize ∧ pktLen b ≠ 0 ∧ fmt.readsType b = true

theorem exists_header
    (h : mapHeaderSize ≤ (skb.flatten.drop start).length) :
    ∃ first rest, startFrag skb start = some (first, rest) ∧
      skb.flatten.drop start = first ++ rest.flatten ∧
      (if mapHeaderSize ≤ first.length then some (first.take mapHeaderSize)
        else copyBits skb start mapHeaderSize) =
          some ((skb.flatten.drop start).take mapHeaderSize) := by
  rw [length_drop] at h
  have hpos : 0 < mapHeaderSize := by decide
  cases hfrag : startFrag skb start with
  | none =>
    have := startFrag_eq_none hfrag
    omega
  | some r =>
    obtain ⟨first, rest⟩ := r
    obtain ⟨-, heq⟩ := startFrag_spec hfrag
    refine ⟨first, rest, rfl, heq, ?_⟩
    split
    · rename_i hle
      rw [heq, take_append_of_le_length hle]
    · rw [copyBits, if_pos (by omega)]

theorem readType_eq
    (h : skb.flatten.drop start = first ++ rest.flatten) :
    (if mapHeaderSize + 1 ≤ first.length then some [byteAt first mapHeaderSize]
      else copyBits skb (start + mapHeaderSize) 1) =
        if mapHeaderSize + 1 ≤ (skb.flatten.drop start).length then
          some [byteAt (skb.flatten.drop start) mapHeaderSize] else none := by
  have hlen := congrArg List.length h
  rw [length_append] at hlen
  by_cases hfirst : mapHeaderSize + 1 ≤ first.length
  · rw [if_pos hfirst, if_pos (by omega), h, byteAt_append hfirst]
  · rw [if_neg hfirst, copyBits]
    rw [length_drop]
    by_cases hle : start + mapHeaderSize + 1 ≤ skb.flatten.length
    · rw [if_pos hle, if_pos (by omega), ← drop_drop]
      congr 1
      have hlt : mapHeaderSize < (skb.flatten.drop start).length := by
        rw [length_drop]
        omega
      rw [byteAt, getD_eq_getElem _ _ hlt, drop_eq_getElem_cons hlt]
      rfl
    · rw [if_neg hle, if_neg (by omega)]

namespace Listing

variable {s : Listing} {fmt : DataFormat} {skb : List (List UInt8)} {priority start : ℕ}

theorem fill_eq {maph : List UInt8} {type : UInt8} {n : ℕ}
    (hn : n = pktLen maph + mapHeaderSize + fmt.extra maph type) :
    s.fill fmt priority maph first rest type =
      if n ≤ (first ++ rest.flatten).length then
        (⟨s.pool.get, s.list ++ [⟨s.pool.taken, priority,
          rawDesc ((first ++ rest.flatten).take n)⟩]⟩, some n)
      else ({ s with pool := s.pool.get.recycle s.pool.taken }, none) := by
  obtain ⟨hbytes, hleft⟩ := gather_spec n (first :: rest)
  rw [flatten_cons] at hbytes hleft
  rw [fill, ← hn]
  rw [hbytes, hleft]
  by_cases hle : n ≤ (first ++ rest.flatten).length
  · rw [if_neg (by omega), if_pos hle, length_take, min_eq_left hle]
  · rw [if_pos (by omega), if_neg hle]

theorem deaggregateOne_eq (s : Listing) (fmt : DataFormat) (skb : List (List UInt8))
    (priority start : ℕ) (hb : skb.flatten.drop start = b) :
    s.deaggregateOne fmt skb priority start =
      if b.length < mapHeaderSize ∨ pktLen b = 0 then (s, none)
      else if fmt.readsType b = true ∧ b.length < mapHeaderSize + 1 then
        ({ s with pool := s.pool.get }, none)
      else if fmt.length b ≤ b.length then
        (⟨s.pool.get, s.list ++ [⟨s.pool.taken, priority, rawDesc (b.take (fmt.length b))⟩]⟩,
          some (fmt.length b))
      else ({ s with pool := s.pool.get.recycle s.pool.taken }, none) := by
  by_cases hshort : b.length < mapHeaderSize
  · rw [if_pos (.inl hshort), deaggregateOne]
    cases hfrag : startFrag skb start with
    | none => rfl
    | some r =>
      obtain ⟨first, rest⟩ := r
      obtain ⟨-, heq⟩ := startFrag_spec hfrag
      have hlen := congrArg List.length (hb.symm.trans heq)
      rw [length_append] at hlen
      have htotal := congrArg List.length hb
      rw [length_drop] at htotal
      have hcopy : copyBits skb start mapHeaderSize = none := by
        rw [copyBits, if_neg (by omega)]
      dsimp only
      rw [if_neg (by omega), hcopy]
  · obtain ⟨first, rest, hfrag, heq, hmaph⟩ := exists_header
      (by rw [hb]; omega)
    have htype := readType_eq heq
    rw [hb] at heq hmaph htype
    rw [deaggregateOne, hfrag]
    dsimp only
    rw [hmaph]
    dsimp only
    rw [pktLen_take, readsType_take]
    by_cases hzero : pktLen b = 0
    · rw [if_pos hzero, if_pos (.inr hzero)]
    · rw [if_neg hzero, if_neg (not_or.mpr ⟨hshort, hzero⟩), htype]
      have hlength : ∀ type, type = byteAt b mapHeaderSize ∨ fmt.readsType b = false →
          fmt.length b = pktLen (b.take mapHeaderSize) + mapHeaderSize +
            fmt.extra (b.take mapHeaderSize) type := by
        intro type htype
        rw [pktLen_take, extra_take, DataFormat.length]
        rcases htype with rfl | hno
        · rfl
        · rw [DataFormat.extra, DataFormat.extra, hno]
          rfl
      by_cases hreads : fmt.readsType b = true
      · rw [if_pos hreads]
        by_cases hlast : mapHeaderSize + 1 ≤ b.length
        · rw [if_pos hlast, if_neg (fun h => absurd hlast (Nat.not_le.mpr h.2))]
          show s.fill fmt priority _ first rest (byteAt b mapHeaderSize) = _
          rw [fill_eq (hlength _ (.inl rfl)), ← heq]
        · rw [if_neg hlast, if_pos ⟨hreads, Nat.not_le.mp hlast⟩]
      · rw [if_neg hreads, if_neg (fun h => hreads h.1),
          fill_eq (hlength _ (.inr (Bool.eq_false_of_not_eq_true hreads))), ← heq]

end Listing

theorem DataFormat.length_take (h : fmt.Fits b) :
    fmt.length (b.take (fmt.length b)) = fmt.length b := by
  have hpos : mapHeaderSize < fmt.length b := by
    have := h.1
    rw [DataFormat.length]
    omega
  have hsize : mapHeaderSize = 4 := rfl
  have htake : (b.take (fmt.length b)).take mapHeaderSize = b.take mapHeaderSize := by
    rw [take_take, min_eq_left hpos.le]
  have hlen : pktLen (b.take (fmt.length b)) = pktLen b := by
    rw [← pktLen_take, htake, pktLen_take]
  have hextra : ∀ type, fmt.extra (b.take (fmt.length b)) type = fmt.extra b type := by
    intro type
    rw [← extra_take, htake, extra_take]
  have hbyte : byteAt (b.take (fmt.length b)) mapHeaderSize = byteAt b mapHeaderSize :=
    byteAt_take hpos
  rw [DataFormat.length, hlen, hextra, hbyte]
  rfl

theorem DataFormat.Fits.length_pos (h : fmt.Fits b) : mapHeaderSize < fmt.length b := by
  have := h.1
  rw [DataFormat.length]
  omega

namespace Listing

variable {s : Listing} {fmt : DataFormat} {skb : List (List UInt8)} {priority start : ℕ}

theorem deaggregateOne_of_fits (h : fmt.Fits (skb.flatten.drop start)) :
    s.deaggregateOne fmt skb priority start =
      (⟨s.pool.get, s.list ++ [⟨s.pool.taken, priority,
        rawDesc ((skb.flatten.drop start).take (fmt.length (skb.flatten.drop start)))⟩]⟩,
        some (fmt.length (skb.flatten.drop start))) := by
  have hpos := h.length_pos
  have hle := h.2
  rw [deaggregateOne_eq s fmt skb priority start rfl, if_neg, if_neg, if_pos hle]
  · rintro ⟨-, hlt⟩
    omega
  · rintro (hlt | hzero)
    · omega
    · exact h.1 hzero

variable (s priority) in
theorem deaggregateOne_of_not_fits (h : ¬fmt.Fits (skb.flatten.drop start)) :
    (s.deaggregateOne fmt skb priority start).2 = none ∧
      (s.deaggregateOne fmt skb priority start).1.list = s.list ∧
      (s.deaggregateOne fmt skb priority start).1.pool ∈
        [s.pool, s.pool.get, s.pool.get.recycle s.pool.taken] := by
  rw [deaggregateOne_eq s fmt skb priority start rfl]
  split
  · exact ⟨rfl, rfl, by simp⟩
  rename_i hheader
  split
  · exact ⟨rfl, rfl, by simp⟩
  · rw [if_neg fun hle => h ⟨fun hzero => hheader (.inr hzero), hle⟩]
    exact ⟨rfl, rfl, by simp⟩

theorem deaggregateLoop_halts {fuel : ℕ} (h : skb.flatten.length ≤ start + fuel) :
    (deaggregateLoop fmt skb priority fuel start s).2.2 = true ∨
      skb.flatten.length ≤ (deaggregateLoop fmt skb priority fuel start s).2.1 := by
  induction fuel generalizing start s with
  | zero => exact .inr h
  | succ fuel ih =>
    rw [deaggregateLoop]
    split
    · by_cases hfits : fmt.Fits (skb.flatten.drop start)
      · rw [deaggregateOne_of_fits hfits]
        have := hfits.length_pos
        exact ih (by omega)
      · obtain ⟨hnone, -⟩ := deaggregateOne_of_not_fits s priority hfits
        cases hone : s.deaggregateOne fmt skb priority start with
        | mk s' rc =>
          rw [hone] at hnone
          dsimp only at hnone
          rw [hnone]
          exact .inl rfl
    · rename_i hend
      exact .inr (Nat.not_lt.mp hend)

structure Partition (fmt : DataFormat) (bytes : List UInt8) (start stop : ℕ) (packets : List Held) :
    Prop where
  le : start ≤ stop
  bytes : packets.flatMap (fun d => d.desc.data) = (bytes.drop start).take (stop - start)
  lengths : ∀ d ∈ packets, d.desc.data.length = fmt.length d.desc.data

theorem Partition.nil (fmt : DataFormat) (bytes : List UInt8) (start : ℕ) :
    Partition fmt bytes start start [] :=
  ⟨le_rfl, by rw [Nat.sub_self, take_zero]; rfl, fun _ h => nomatch h⟩

theorem Partition.cons {bytes : List UInt8} {stop id : ℕ} {packets : List Held}
    (hfits : fmt.Fits (bytes.drop start))
    (h : Partition fmt bytes (start + fmt.length (bytes.drop start)) stop packets) :
    Partition fmt bytes start stop
      (⟨id, priority, rawDesc ((bytes.drop start).take (fmt.length (bytes.drop start)))⟩ :: packets) := by
  have hle := h.le
  refine ⟨by omega, ?_, fun d hd => ?_⟩
  · rw [flatMap_cons, h.bytes]
    show (bytes.drop start).take (fmt.length (bytes.drop start)) ++ _ = _
    rw [← drop_drop, ← take_add]
    congr 1
    omega
  · rcases mem_cons.mp hd with rfl | hd
    · show ((bytes.drop start).take (fmt.length (bytes.drop start))).length =
        fmt.length ((bytes.drop start).take (fmt.length (bytes.drop start)))
      rw [DataFormat.length_take hfits, length_take, min_eq_left hfits.2]
    · exact h.lengths d hd

variable (s fmt skb priority start) in
theorem deaggregateLoop_partition (fuel : ℕ) :
    ∃ stop packets, (deaggregateLoop fmt skb priority fuel start s).1.list = s.list ++ packets ∧
      Partition fmt skb.flatten start stop packets := by
  induction fuel generalizing start s with
  | zero => exact ⟨start, [], (append_nil _).symm, .nil _ _ _⟩
  | succ fuel ih =>
    rw [deaggregateLoop]
    split
    · by_cases hfits : fmt.Fits (skb.flatten.drop start)
      · rw [deaggregateOne_of_fits hfits]
        obtain ⟨stop, packets, hlist, hpart⟩ := ih
          ⟨s.pool.get, s.list ++ [⟨s.pool.taken, priority,
            rawDesc ((skb.flatten.drop start).take (fmt.length (skb.flatten.drop start)))⟩]⟩
          (start + fmt.length (skb.flatten.drop start))
        refine ⟨stop, ⟨s.pool.taken, priority, rawDesc ((skb.flatten.drop start).take
          (fmt.length (skb.flatten.drop start)))⟩ :: packets, ?_, hpart.cons hfits⟩
        rw [hlist, append_assoc]
        rfl
      · obtain ⟨hnone, hlist, -⟩ := deaggregateOne_of_not_fits s priority hfits
        refine ⟨start, [], ?_, .nil _ _ _⟩
        cases hone : s.deaggregateOne fmt skb priority start with
        | mk s' rc =>
          rw [hone] at hnone hlist
          dsimp only at hnone hlist
          rw [hnone, append_nil]
          exact hlist
    · exact ⟨start, [], (append_nil _).symm, .nil _ _ _⟩

end Listing

theorem deaggregate_halts (s : Listing) (fmt : DataFormat) (skb : List (List UInt8)) (priority : ℕ) :
    (Listing.deaggregateLoop fmt skb priority skb.flatten.length 0 s).2.2 = true ∨
      skb.flatten.length ≤
        (Listing.deaggregateLoop fmt skb priority skb.flatten.length 0 s).2.1 :=
  Listing.deaggregateLoop_halts (Nat.zero_add _).ge

/-- **The packets are the first bytes of the buffer**, and each has the length that its own header
says. -/
theorem deaggregate_partition (pool : Pool) (fmt : DataFormat) (skb : List (List UInt8))
    (priority : ℕ) :
    ∃ stop, ((Listing.deaggregate ⟨pool, []⟩ fmt skb priority).list.flatMap fun d => d.desc.data) =
        skb.flatten.take stop ∧
      ∀ d ∈ (Listing.deaggregate ⟨pool, []⟩ fmt skb priority).list,
        d.desc.data.length = fmt.length d.desc.data := by
  obtain ⟨stop, packets, hlist, hpart⟩ := Listing.deaggregateLoop_partition ⟨pool, []⟩ fmt skb
    priority 0 skb.flatten.length
  rw [Listing.deaggregate, hlist, nil_append]
  exact ⟨stop, hpart.bytes, hpart.lengths⟩

def Balanced (p : Pool) (inUse : List ℕ) : Prop := (p.returned ++ inUse).Perm (List.range p.taken)
deriving Decidable

namespace Balanced

variable {p : Pool} {inUse inUse' : List ℕ} {id : ℕ}

theorem perm (h : Balanced p inUse) (hp : inUse.Perm inUse') : Balanced p inUse' :=
  (hp.append_left _).symm.trans h

theorem get (h : Balanced p inUse) : Balanced p.get (inUse ++ [p.taken]) := by
  show (p.returned ++ (inUse ++ [p.taken])).Perm (List.range (p.taken + 1))
  rw [← append_assoc, range_succ]
  exact List.Perm.append_right _ h

theorem recycle (h : Balanced p (id :: inUse)) : Balanced (p.recycle id) inUse := by
  show ((p.returned ++ [id]) ++ inUse).Perm (List.range p.taken)
  rw [append_assoc]
  exact h

theorem getRecycle (h : Balanced p inUse) : Balanced (p.get.recycle p.taken) inUse :=
  (h.get.perm (perm_append_singleton _ _)).recycle

theorem not_get (h : Balanced p inUse) : ¬Balanced p.get inUse := by
  intro hget
  have hlen := List.Perm.length_eq h
  have hlen' := List.Perm.length_eq hget
  rw [length_range] at hlen hlen'
  have hsame : (p.get.returned ++ inUse).length = (p.returned ++ inUse).length := rfl
  have htaken : p.get.taken = p.taken + 1 := rfl
  omega

theorem not_recycle (h : Balanced p inUse) : ¬Balanced (p.recycle id) inUse := by
  intro hput
  have hlen := List.Perm.length_eq h
  have hlen' := List.Perm.length_eq hput
  rw [length_range] at hlen hlen'
  have hmore : ((p.recycle id).returned ++ inUse).length = (p.returned ++ inUse).length + 1 := by
    show ((p.returned ++ [id]) ++ inUse).length = _
    rw [length_append, length_append, length_append, length_singleton]
    omega
  have htaken : (p.recycle id).taken = p.taken := rfl
  omega

end Balanced

/-- The packets of a buffer begin here, one behind the other. -/
inductive Starts (fmt : DataFormat) (bytes : List UInt8) : ℕ → ℕ → Prop where
  | here (n : ℕ) : Starts fmt bytes n n
  | next {n m : ℕ} (h : fmt.Fits (bytes.drop n)) (hm : Starts fmt bytes (n + fmt.length (bytes.drop n)) m) :
      Starts fmt bytes n m

def DataFormat.Complete (fmt : DataFormat) (bytes : List UInt8) : Prop :=
  ∀ n, Starts fmt bytes 0 n → ¬fmt.Truncated (bytes.drop n)

namespace Listing

variable {s : Listing} {fmt : DataFormat} {skb : List (List UInt8)} {priority start : ℕ}

variable (priority) in
theorem pool_deaggregateOne_iff {inUse : List ℕ} (hbal : Balanced s.pool inUse)
    (hfits : ¬fmt.Fits (skb.flatten.drop start)) :
    Balanced (s.deaggregateOne fmt skb priority start).1.pool inUse ↔
      ¬fmt.Truncated (skb.flatten.drop start) := by
  rw [deaggregateOne_eq s fmt skb priority start rfl]
  split
  · rename_i hnone
    refine ⟨fun _ ht => ?_, fun _ => hbal⟩
    rcases hnone with hlt | hzero
    · exact absurd ht.1 hlt.ne
    · exact ht.2.1 hzero
  rename_i hheader
  rw [not_or] at hheader
  split
  · rename_i hlast
    refine ⟨fun hget => absurd hget hbal.not_get, fun ht => ?_⟩
    have hlen : (skb.flatten.drop start).length = mapHeaderSize := by omega
    exact absurd ⟨hlen, hheader.2, hlast.1⟩ ht
  · rename_i hlast
    rw [if_neg fun hle => hfits ⟨hheader.2, hle⟩]
    refine ⟨fun _ ht => hlast ⟨ht.2.2, ?_⟩, fun _ => hbal.getRecycle⟩
    rw [ht.1]
    exact Nat.lt_succ_self _

theorem balanced_deaggregateLoop_iff {fuel : ℕ} {rest : List ℕ}
    (hbal : Balanced s.pool (s.list.map Held.id ++ rest))
    (hfuel : skb.flatten.length ≤ start + fuel) :
    Balanced (deaggregateLoop fmt skb priority fuel start s).1.pool
        ((deaggregateLoop fmt skb priority fuel start s).1.list.map Held.id ++ rest) ↔
      ∀ n, Starts fmt skb.flatten start n → ¬fmt.Truncated (skb.flatten.drop n) := by
  -- nothing begins at the end of the buffer
  have hend : ∀ {start}, skb.flatten.length ≤ start →
      ∀ n, Starts fmt skb.flatten start n → ¬fmt.Truncated (skb.flatten.drop n) := by
    intro start hle n hstarts
    have hnil : skb.flatten.drop start = [] := drop_eq_nil_of_le hle
    cases hstarts with
    | here =>
      rw [hnil]
      exact fun ht => absurd ht.1 (by decide)
    | next hfits =>
      rw [hnil] at hfits
      exact absurd (hfits.length_pos.trans_le hfits.2) (by decide)
  induction fuel generalizing start s with
  | zero => exact ⟨fun _ => hend hfuel, fun _ => hbal⟩
  | succ fuel ih =>
    rw [deaggregateLoop]
    split
    · by_cases hfits : fmt.Fits (skb.flatten.drop start)
      · rw [deaggregateOne_of_fits hfits]
        have hpos := hfits.length_pos
        have hlisted : Balanced s.pool.get ((s.list ++ [Held.mk s.pool.taken priority
            (rawDesc ((skb.flatten.drop start).take (fmt.length (skb.flatten.drop start))))]).map
              Held.id ++ rest) := by
          refine hbal.get.perm ?_
          rw [map_append, append_assoc, append_assoc]
          exact perm_append_comm.append_left _
        refine (ih hlisted (by omega)).trans ⟨fun h n hn => ?_, fun h n hn => h n (.next hfits hn)⟩
        cases hn with
        | here =>
          intro ht
          have hle := hfits.2
          rw [ht.1] at hle
          omega
        | next _ hn => exact h n hn
      · obtain ⟨hnone, hlist, -⟩ := deaggregateOne_of_not_fits s priority hfits
        have hpool := pool_deaggregateOne_iff priority hbal hfits
        cases hone : s.deaggregateOne fmt skb priority start with
        | mk s' rc =>
          rw [hone] at hnone hlist hpool
          dsimp only at hnone hlist hpool
          rw [hnone]
          show Balanced s'.pool (s'.list.map Held.id ++ rest) ↔ _
          rw [hlist]
          refine hpool.trans ⟨fun h n hn => ?_, fun h => h start (.here start)⟩
          cases hn with
          | here => exact h
          | next hfits' => exact absurd hfits' hfits
    · rename_i hge
      exact ⟨fun _ => hend (Nat.not_lt.mp hge), fun _ => hbal⟩

end Listing

/-- **The descriptors of a deaggregation are all listed or put back exactly when the buffer's packets
do not end with a bare header.** -/
theorem balanced_deaggregate_iff {p : Pool} (fmt : DataFormat) (skb : List (List UInt8))
    (priority : ℕ) {inUse : List ℕ} (h : Balanced p inUse) :
    Balanced (Listing.deaggregate ⟨p, []⟩ fmt skb priority).pool
        ((Listing.deaggregate ⟨p, []⟩ fmt skb priority).list.map Held.id ++ inUse) ↔
      fmt.Complete skb.flatten :=
  Listing.balanced_deaggregateLoop_iff (s := ⟨p, []⟩) h (Nat.zero_add _).ge

end Rmnet.Ingress
