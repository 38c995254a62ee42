import Sm8750Modules.Lib.InternetChecksum
import Sm8750Modules.Rmnet.Fragments
import Mathlib.Data.List.GetD
import Mathlib.Tactic.IntervalCases

/-!
# Checking a transport checksum in software

When the hardware has not checked a packet behind a QMAP checksum header, the driver does: it reads the IP
header, walks the extension headers of IPv6, and sums the segment fragment by fragment.
-/

namespace Rmnet.Frag

open InternetChecksum List

def be16 (bs : List UInt8) (i : ℕ) : ℕ := 256 * (bs.getD i 0).toNat + (bs.getD (i + 1) 0).toNat

def bytes16 (n : ℕ) : List UInt8 := [UInt8.ofNat (n / 256), UInt8.ofNat n]

def pseudo4 (saddr daddr : List UInt8) (len : ℕ) (proto : UInt8) : List UInt8 :=
  saddr ++ daddr ++ [0, proto] ++ bytes16 len

def pseudo6 (saddr daddr : List UInt8) (len : ℕ) (proto : UInt8) : List UInt8 :=
  saddr ++ daddr ++ [0, 0] ++ bytes16 len ++ [0, 0, 0, proto]

/-- The checksum functions of the kernel, on a machine that loads the first byte of a word into its low
half. `csum_partial` starts with the first byte it is given in the low half, wherever that byte stands in
the data. -/
structure KernelCsum where
  csumPartial : List UInt8 → UInt32 → UInt32
  csumFold : UInt32 → UInt16
  csumTcpudpMagic : List UInt8 → List UInt8 → ℕ → UInt8 → UInt32 → UInt16
  csumIpv6Magic : List UInt8 → List UInt8 → ℕ → UInt8 → UInt32 → UInt16
  ipFastCsum : List UInt8 → UInt16
  csumPartial_modEq : ∀ bs sum, (csumPartial bs sum).toNat ≡ sum.toNat + wordSum false bs [MOD 65535]
  csumPartial_ne_zero : ∀ bs sum, sum ≠ 0 → csumPartial bs sum ≠ 0
  csumFold_eq_zero_iff : ∀ sum, csumFold sum = 0 ↔ sum ≠ 0 ∧ sum.toNat ≡ 0 [MOD 65535]
  csumTcpudpMagic_modEq : ∀ saddr daddr len proto sum, (csumTcpudpMagic saddr daddr len proto sum).toNat +
    (wordSum false (pseudo4 saddr daddr len proto) + sum.toNat) ≡ 0 [MOD 65535]
  csumIpv6Magic_modEq : ∀ saddr daddr len proto sum, (csumIpv6Magic saddr daddr len proto sum).toNat +
    (wordSum false (pseudo6 saddr daddr len proto) + sum.toNat) ≡ 0 [MOD 65535]
  ipFastCsum_eq_zero_iff : ∀ hdr, ipFastCsum hdr = 0 ↔
    wordSum false hdr ≠ 0 ∧ wordSum false hdr ≡ 0 [MOD 65535]

/-! ### The check -/

/-- The bytes behind the pointer that `rmnet_frag_header_ptr` returns. -/
def headerBytes (mem : Pages) (d : FragDescriptor) (off len : ℕ) : Option (List UInt8) :=
  (fragHeaderPtr mem d off len).map (HeaderPtr.read mem len)

def nexthdrFragment : UInt8 := 44

def nexthdrAuth : UInt8 := 51

def nexthdrNone : UInt8 := 59

/-- `ipv6_ext_hdr`: hop-by-hop, routing, fragment, authentication, none and destination options. -/
def ipv6ExtHdr (nexthdr : UInt8) : Bool :=
  nexthdr = 0 ∨ nexthdr = 43 ∨ nexthdr = nexthdrFragment ∨ nexthdr = nexthdrAuth ∨ nexthdr = nexthdrNone ∨
    nexthdr = 60

/-- The loop of `rmnet_frag_ipv6_skip_exthdr` with the turns that are left, where the headers end, the next
header and the fragment offset; `none` for `-EINVAL`. -/
def skipExthdrLoop (mem : Pages) (d : FragDescriptor) : ℕ → ℕ → UInt8 → ℕ → Option (ℕ × UInt8 × ℕ)
  | 0, _, _, _ => none
  | n + 1, start, nexthdr, fragOff =>
    if ipv6ExtHdr nexthdr = false then some (start, nexthdr, fragOff)
    else if nexthdr = nexthdrNone then none
    else
      match headerBytes mem d start 2 with
      | none => none
      | some hp =>
        if nexthdr = nexthdrFragment then
          match headerBytes mem d (start + 2) 2 with
          | none => none
          | some fp =>
            if be16 fp 0 / 8 ≠ 0 then some (start, nexthdr, be16 fp 0)
            else skipExthdrLoop mem d n (start + 8) (hp.getD 0 0) (be16 fp 0)
        else if nexthdr = nexthdrAuth then
          skipExthdrLoop mem d n (start + ((hp.getD 1 0).toNat + 2) * 4) (hp.getD 0 0) fragOff
        else skipExthdrLoop mem d n (start + ((hp.getD 1 0).toNat + 1) * 8) (hp.getD 0 0) fragOff

def skipExthdr (mem : Pages) (d : FragDescriptor) (start : ℕ) (nexthdr : UInt8) : Option (ℕ × UInt8 × ℕ) :=
  skipExthdrLoop mem d (d.len + 1) start nexthdr 0

/-- The walk over the fragments: each chunk is added in. -/
def csumWalk (K : KernelCsum) (mem : Pages) : List Fragment → ℕ → ℕ → UInt32 → UInt32
  | [], _, _, csum => csum
  | f :: fs, offset, csumLen, csum =>
    if csumLen = 0 then csum
    else if offset < f.size then
      let len := min csumLen (f.size - offset)
      csumWalk K mem fs 0 (csumLen - len) (K.csumPartial (readBytes mem f.page (f.off + offset) len) csum)
    else csumWalk K mem fs (offset - f.size) csumLen csum

def einval : ℤ := -22

def ipprotoTcp : UInt8 := 6

def ipprotoUdp : UInt8 := 17

/-- The end of `rmnet_frag_checksum_pkt`, from the protocol check on: `ipProto` is 4 or 6, `offset` where
the segment is taken to start. -/
def checksumSegment (K : KernelCsum) (mem : Pages) (d : FragDescriptor) (ipProto : ℕ) (transProto : UInt8)
    (offset csumLen : ℕ) (csum : UInt32) : ℤ :=
  if transProto ≠ ipprotoTcp ∧ transProto ≠ ipprotoUdp then einval
  else
    let walk : ℤ := if K.csumFold (csumWalk K mem d.frags offset csumLen csum) = 0 then 1 else 0
    if transProto = ipprotoUdp then
      match headerBytes mem d offset 8 with
      | none => einval
      | some uh => if be16 uh 6 = 0 then if ipProto = 4 then 1 else 0 else walk
    else walk

/-- The sizes of `struct rmnet_map_header` and `struct rmnet_map_v5_csum_header`. -/
def mapHdrsLen : ℕ := 4 + 4

def checksumPkt (K : KernelCsum) (mem : Pages) (d : FragDescriptor) : ℤ :=
  match headerBytes mem d mapHdrsLen 1 with
  | none => einval
  | some v =>
    let version := v.getD 0 0
    if version &&& 0xF0 = 0x40 then
      let ipLen := (version &&& 0xF).toNat * 4
      match headerBytes mem d mapHdrsLen ipLen with
      | none => einval
      | some iph =>
        if be16 iph 6 &&& 0x3FFF ≠ 0 then einval
        else if be16 iph 2 > sub32 d.len mapHdrsLen then einval
        else
          let csumLen := (be16 iph 2 + 2 ^ 16 - ipLen) % 2 ^ 16
          if K.ipFastCsum iph ≠ 0 then 0
          else
            let csum := ~~~ (K.csumTcpudpMagic ((iph.drop 12).take 4) ((iph.drop 16).take 4) csumLen
              (iph.getD 9 0) 0).toUInt32
            checksumSegment K mem d 4 (iph.getD 9 0) (mapHdrsLen + ipLen) csumLen csum
    else if version &&& 0xF0 = 0x60 then
      match headerBytes mem d mapHdrsLen 40 with
      | none => einval
      | some ip6h =>
        match skipExthdr mem d (mapHdrsLen + 40) (ip6h.getD 6 0) with
        | none => einval
        | some (start, protocol, fragOff) =>
          if fragOff ≠ 0 then einval
          else
            -- `start` counts from the front of the descriptor, the length of an IP header does not
            let ipLen := start % 2 ^ 16
            let csumLen := be16 ip6h 4
            if csumLen + ipLen > sub32 d.len mapHdrsLen then einval
            else
              let csum := ~~~ (K.csumIpv6Magic ((ip6h.drop 8).take 16) ((ip6h.drop 24).take 16) csumLen
                protocol 0).toUInt32
              checksumSegment K mem d 6 protocol (mapHdrsLen + ipLen) csumLen csum
    else einval

/-! ### Packets -/

structure Ipv4Packet where
  header : List UInt8
  segment : List UInt8
  ihl : ℕ
  ihl_range : 5 ≤ ihl ∧ ihl ≤ 15
  length_header : header.length = 4 * ihl
  version : header.getD 0 0 = UInt8.ofNat (0x40 + ihl)
  tot_len : be16 header 2 = header.length + segment.length
  not_fragment : be16 header 6 &&& 0x3FFF = 0
  header_sum : wordSum true header ≡ 0 [MOD 65535]
  proto : header.getD 9 0 = ipprotoTcp ∨ header.getD 9 0 = ipprotoUdp
  segment_len : (if header.getD 9 0 = ipprotoUdp then 8 else 20) ≤ segment.length

/-- Extension headers, from the next header field in front of them to the protocol behind them. -/
inductive ExtChain : UInt8 → List UInt8 → UInt8 → Prop
  | done {proto : UInt8} (h : ipv6ExtHdr proto = false) : ExtChain proto [] proto
  | fragment {hdr rest : List UInt8} {proto : UInt8} (hlen : hdr.length = 8) (hoff : be16 hdr 2 = 0)
      (hrest : ExtChain (hdr.getD 0 0) rest proto) : ExtChain nexthdrFragment (hdr ++ rest) proto
  | auth {hdr rest : List UInt8} {proto : UInt8} (hlen : hdr.length = ((hdr.getD 1 0).toNat + 2) * 4)
      (hrest : ExtChain (hdr.getD 0 0) rest proto) : ExtChain nexthdrAuth (hdr ++ rest) proto
  | options {nexthdr : UInt8} {hdr rest : List UInt8} {proto : UInt8}
      (hnext : nexthdr = 0 ∨ nexthdr = 43 ∨ nexthdr = 60)
      (hlen : hdr.length = ((hdr.getD 1 0).toNat + 1) * 8)
      (hrest : ExtChain (hdr.getD 0 0) rest proto) : ExtChain nexthdr (hdr ++ rest) proto

/-- A whole IPv6 packet with extension headers and a TCP or UDP segment. -/
structure Ipv6Packet where
  header : List UInt8
  ext : List UInt8
  segment : List UInt8
  proto : UInt8
  length_header : header.length = 40
  version : header.getD 0 0 &&& 0xF0 = 0x60
  payload_len : be16 header 4 = ext.length + segment.length
  chain : ExtChain (header.getD 6 0) ext proto
  proto_known : proto = ipprotoTcp ∨ proto = ipprotoUdp
  segment_len : (if proto = ipprotoUdp then 8 else 20) ≤ segment.length

/-- A packet of either version. -/
inductive Packet
  | v4 (p : Ipv4Packet)
  | v6 (p : Ipv6Packet)

def Packet.bytes : Packet → List UInt8
  | .v4 p => p.header ++ p.segment
  | .v6 p => p.header ++ (p.ext ++ p.segment)

def NoChecksum (proto : UInt8) (segment : List UInt8) : Prop := proto = ipprotoUdp ∧ be16 segment 6 = 0

def Packet.Verifies : Packet → Prop
  | .v4 p => NoChecksum (p.header.getD 9 0) p.segment ∨
      wordSum true (pseudo4 ((p.header.drop 12).take 4) ((p.header.drop 16).take 4) p.segment.length
        (p.header.getD 9 0) ++ p.segment) ≡ 0 [MOD 65535]
  | .v6 p => ¬ NoChecksum p.proto p.segment ∧
      wordSum true (pseudo6 ((p.header.drop 8).take 16) ((p.header.drop 24).take 16) p.segment.length
        p.proto ++ p.segment) ≡ 0 [MOD 65535]

/-- A descriptor with the two QMAP headers, a packet and padding, in any fragments. -/
structure Received where
  mem : Pages
  desc : FragDescriptor
  packet : Packet
  qmap : List UInt8
  pad : List UInt8
  length_qmap : qmap.length = mapHdrsLen
  bytes_eq : desc.bytes mem = qmap ++ (packet.bytes ++ pad)
  size_lt : totalSize desc.frags < 2 ^ 31

structure ChecksumRight (K : KernelCsum) (r : Received) : Prop where
  one_iff : checksumPkt K r.mem r.desc = 1 ↔ r.packet.Verifies
  otherwise : ¬ r.packet.Verifies → checksumPkt K r.mem r.desc ≤ 0

def chunks (mem : Pages) (d : FragDescriptor) (off len : ℕ) : List (List UInt8) :=
  (Pieces.pieceRange (fragOps mem) d.frags off len).map (Fragment.bytes mem)

theorem flatten_chunks (mem : Pages) (d : FragDescriptor) (off len : ℕ) :
    (chunks mem d off len).flatten = ((d.bytes mem).drop off).take len := by
  rw [bytes_eq_flat, ← Pieces.flat_pieceRange, chunks, Pieces.flat, flatMap_def]
  rfl

variable (K : KernelCsum)

theorem csumWalk_spec (mem : Pages) (fs : List Fragment) (offset csumLen : ℕ)
    {csum : UInt32} (h : csum ≠ 0) :
    csumWalk K mem fs offset csumLen csum ≠ 0 ∧
      (csumWalk K mem fs offset csumLen csum).toNat ≡ csum.toNat +
        (((Pieces.pieceRange (fragOps mem) fs offset csumLen).map (Fragment.bytes mem)).map
          (wordSum false)).sum [MOD 65535] := by
  induction fs generalizing offset csumLen csum with
  | nil => simp [csumWalk, Pieces.pieceRange, h, Nat.ModEq]
  | cons f fs ih =>
    rw [csumWalk, Pieces.pieceRange]
    by_cases hlen : csumLen = 0
    · simp [hlen, h, Nat.ModEq]
    rw [if_neg hlen, if_neg hlen, fragOps_size]
    by_cases hoff : offset < f.size
    · rw [if_pos hoff, if_pos hoff]
      have hbytes : readBytes mem f.page (f.off + offset) (min csumLen (f.size - offset)) =
          Fragment.bytes mem ((fragOps mem).upTo ((fragOps mem).behind f offset)
            (min csumLen (f.size - offset))) := rfl
      dsimp only
      rw [hbytes]
      obtain ⟨hne, hsum⟩ := ih 0 (csumLen - min csumLen (f.size - offset))
        (K.csumPartial_ne_zero (Fragment.bytes mem ((fragOps mem).upTo ((fragOps mem).behind f offset)
            (min csumLen (f.size - offset)))) csum h)
      refine ⟨hne, hsum.trans ?_⟩
      rw [map_cons, map_cons, sum_cons, ← Nat.add_assoc]
      exact (K.csumPartial_modEq _ csum).add_right _
    · rw [if_neg hoff, if_neg hoff]
      exact ih (offset - f.size) csumLen h

/-- Some bytes with a pseudo-header sum to zero when each chunk is summed as if it started at an even
byte. -/
def SumsToZero (mem : Pages) (d : FragDescriptor) (pseudo : List UInt8) (off len : ℕ) : Prop :=
  wordSum false pseudo + wordSum false (((d.bytes mem).drop off).take len) ≡
    255 * oddChunks false (chunks mem d off len) [MOD 65535]

theorem csumFold_walk_iff (mem : Pages) (d : FragDescriptor) {pseudo : List UInt8}
    {magic : UInt16} (h : magic.toNat + wordSum false pseudo ≡ 0 [MOD 65535]) (off len : ℕ) :
    K.csumFold (csumWalk K mem d.frags off len (~~~ magic.toUInt32)) = 0 ↔
      SumsToZero mem d pseudo off len := by
  have hmagic : magic.toNat < 2 ^ 16 := magic.toNat_lt
  have hnot : (~~~ magic.toUInt32).toNat = 2 ^ 32 - 1 - magic.toNat := by
    simp [UInt32.toNat_not]
  have hne : ~~~ magic.toUInt32 ≠ 0 := by
    intro hzero
    have := congrArg UInt32.toNat hzero
    rw [hnot] at this
    simp at this
    omega
  have hcsum : (~~~ magic.toUInt32).toNat ≡ wordSum false pseudo [MOD 65535] := by
    rw [hnot]
    unfold Nat.ModEq at h ⊢
    omega
  obtain ⟨hwalk_ne, hwalk⟩ := csumWalk_spec K mem d.frags off len hne
  rw [K.csumFold_eq_zero_iff, and_iff_right hwalk_ne]
  unfold SumsToZero
  rw [← flatten_chunks, ← chunks_modEq_zero_iff]
  have hsame := hwalk.trans (hcsum.add_right _)
  constructor
  · intro hzero
    exact hsame.symm.trans hzero
  · intro hzero
    exact hsame.trans hzero

variable {d : FragDescriptor} {mem : Pages}

theorem headerBytes_eq (h : totalSize d.frags < 2 ^ 31) (off len : ℕ) :
    headerBytes mem d off len =
      if off + len ≤ (d.bytes mem).length then some (((d.bytes mem).drop off).take len) else none := by
  have hlen : d.len = totalSize d.frags := by rw [d.counted, Nat.mod_eq_of_lt (by omega)]
  exact read_fragHeaderPtr hlen (by omega) off len

variable {proto : UInt8}

theorem checksumSegment_eq_one_iff
    (h : totalSize d.frags < 2 ^ 31) {ipProto : ℕ} {offset csumLen : ℕ} {magic : UInt16}
    {pseudo : List UInt8} (hproto : proto = ipprotoTcp ∨ proto = ipprotoUdp)
    (hmagic : magic.toNat + wordSum false pseudo ≡ 0 [MOD 65535])
    (hin : offset + 8 ≤ (d.bytes mem).length) :
    checksumSegment K mem d ipProto proto offset csumLen (~~~ magic.toUInt32) = 1 ↔
      (NoChecksum proto ((d.bytes mem).drop offset) ∧ ipProto = 4) ∨
      (¬ NoChecksum proto ((d.bytes mem).drop offset) ∧ SumsToZero mem d pseudo offset csumLen) := by
  have hknown : ¬ (proto ≠ ipprotoTcp ∧ proto ≠ ipprotoUdp) := by
    intro hnot
    cases hproto with
    | inl htcp => exact hnot.1 htcp
    | inr hudp => exact hnot.2 hudp
  have hwalk : (if K.csumFold (csumWalk K mem d.frags offset csumLen (~~~ magic.toUInt32)) = 0 then
      (1 : ℤ) else 0) = 1 ↔ SumsToZero mem d pseudo offset csumLen := by
    rw [← csumFold_walk_iff K mem d hmagic]
    split
    · next hz => simp [hz]
    · next hz => simp [hz]
  unfold checksumSegment NoChecksum
  rw [if_neg hknown]
  dsimp only
  by_cases hudp : proto = ipprotoUdp
  · rw [if_pos hudp, headerBytes_eq h, if_pos hin]
    have hcheck : be16 (((d.bytes mem).drop offset).take 8) 6 = be16 ((d.bytes mem).drop offset) 6 := by
      simp [be16, List.getD_eq_getElem?_getD]
    dsimp only
    rw [hcheck]
    by_cases hzero : be16 ((d.bytes mem).drop offset) 6 = 0
    · by_cases hfour : ipProto = 4
      · simp [hudp, hzero, hfour]
      · simp [hudp, hzero, hfour]
    · rw [if_neg hzero, hwalk]
      simp [hzero]
  · rw [if_neg hudp, hwalk]
    simp [hudp]

theorem checksumSegment_le_one (mem : Pages) (d : FragDescriptor) (ipProto : ℕ)
    (proto : UInt8) (offset csumLen : ℕ) (csum : UInt32) :
    checksumSegment K mem d ipProto proto offset csumLen csum ≤ 0 ∨
      checksumSegment K mem d ipProto proto offset csumLen csum = 1 := by
  unfold checksumSegment
  dsimp only
  split
  · simp [einval]
  split
  · split
    · simp [einval]
    · split
      · split <;> simp
      · split <;> simp
  · split <;> simp

theorem checksumPkt_le_one (mem : Pages) (d : FragDescriptor) :
    checksumPkt K mem d ≤ 0 ∨ checksumPkt K mem d = 1 := by
  have heinval : einval ≤ 0 := by simp [einval]
  unfold checksumPkt
  split
  · exact .inl heinval
  dsimp only
  split
  · split
    · exact .inl heinval
    split
    · exact .inl heinval
    split
    · exact .inl heinval
    split
    · exact .inl le_rfl
    · exact checksumSegment_le_one _ _ _ _ _ _ _ _
  split
  · split
    · exact .inl heinval
    split
    · exact .inl heinval
    split
    · exact .inl heinval
    split
    · exact .inl heinval
    · exact checksumSegment_le_one _ _ _ _ _ _ _ _
  · exact .inl heinval

variable {r : Received}

theorem checksumRight_of_one_iff {K : KernelCsum} :
    ChecksumRight K r ↔ (checksumPkt K r.mem r.desc = 1 ↔ r.packet.Verifies) := by
  constructor
  · exact fun h => h.one_iff
  · intro h
    refine ⟨h, fun hnot => ?_⟩
    cases checksumPkt_le_one K r.mem r.desc with
    | inl hle => exact hle
    | inr hone => exact absurd (h.mp hone) hnot

/-! ### IPv4 -/

theorem be16_lt (bs : List UInt8) (i : ℕ) : be16 bs i < 2 ^ 16 := by
  have hhigh := (bs.getD i 0).toNat_lt
  have hlow := (bs.getD (i + 1) 0).toNat_lt
  unfold be16
  omega

theorem be16_append {as : List UInt8} (bs : List UInt8) {i : ℕ} (h : i + 1 < as.length) :
    be16 (as ++ bs) i = be16 as i := by
  unfold be16
  rw [getD_append _ _ _ _ (by omega), getD_append _ _ _ _ h]

variable {n : ℕ}

theorem getD_take_of_lt {bs : List UInt8} {i : ℕ} (h : i < n) : (bs.take n).getD i 0 = bs.getD i 0 := by
  simp [List.getD_eq_getElem?_getD, h]

variable {qmap rest : List UInt8}

theorem header_behind_qmap {header : List UInt8}
    (h : totalSize d.frags < 2 ^ 31) (hq : qmap.length = mapHdrsLen)
    (hb : d.bytes mem = qmap ++ (header ++ rest)) (hpos : 0 < header.length) :
    (∃ v, headerBytes mem d mapHdrsLen 1 = some v ∧ v.getD 0 0 = header.getD 0 0) ∧
      headerBytes mem d mapHdrsLen header.length = some header := by
  have hread : ∀ len, len ≤ header.length →
      headerBytes mem d mapHdrsLen len = some ((header ++ rest).take len) := by
    intro len hlen
    have hin : mapHdrsLen + len ≤ (qmap ++ (header ++ rest)).length := by
      simp only [length_append, hq]
      omega
    rw [headerBytes_eq h, hb, if_pos hin, ← hq, drop_left]
  refine ⟨⟨_, hread 1 hpos, ?_⟩, ?_⟩
  · rw [getD_take_of_lt Nat.one_pos, getD_append _ _ _ _ hpos]
  · rw [hread _ (Nat.le_refl _), take_left]

theorem sub32_mapHdrsLen
    (h : totalSize d.frags < 2 ^ 31) (hq : qmap.length = mapHdrsLen) (hb : d.bytes mem = qmap ++ rest) :
    sub32 d.len mapHdrsLen = rest.length := by
  have hlen := congrArg List.length hb
  rw [length_bytes, length_append, hq] at hlen
  have htotal : d.len = mapHdrsLen + rest.length := by
    rw [d.counted, Nat.mod_eq_of_lt (by omega), hlen]
  rw [sub32, htotal]
  rw [hlen] at h
  simp only [mapHdrsLen] at h ⊢
  omega

theorem noChecksum_append {segment : List UInt8} (pad : List UInt8)
    (h : (if proto = ipprotoUdp then 8 else 20) ≤ segment.length) :
    NoChecksum proto (segment ++ pad) ↔ NoChecksum proto segment := by
  unfold NoChecksum
  apply and_congr_right
  intro hudp
  rw [if_pos hudp] at h
  rw [be16_append pad (by omega)]

theorem eight_le_of_segment_len (h : (if proto = ipprotoUdp then 8 else 20) ≤ n) : 8 ≤ n := by
  split at h <;> omega

theorem version_v4 {ihl : ℕ} (h : 5 ≤ ihl ∧ ihl ≤ 15) : UInt8.ofNat (0x40 + ihl) &&& 0xF0 = 0x40 ∧
    (UInt8.ofNat (0x40 + ihl) &&& 0xF).toNat * 4 = 4 * ihl ∧ (UInt8.ofNat (0x40 + ihl)).toNat ≠ 0 := by
  obtain ⟨hlow, hhigh⟩ := h
  interval_cases ihl <;> decide

theorem Ipv4Packet.wordSum_header_ne_zero (p : Ipv4Packet) : wordSum false p.header ≠ 0 := by
  have hlen := p.length_header
  have hihl := p.ihl_range
  have hversion := p.version
  cases hheader : p.header with
  | nil =>
    rw [hheader, length_nil] at hlen
    omega
  | cons b bs =>
    rw [hheader, getD_cons_zero] at hversion
    have hne := (version_v4 hihl).2.2
    rw [wordSum, hversion]
    simp only [Bool.false_eq_true, if_false]
    omega

theorem checksumPkt_v4 {pad : List UInt8}
    (p : Ipv4Packet) (h : totalSize d.frags < 2 ^ 31) (hq : qmap.length = mapHdrsLen)
    (hb : d.bytes mem = qmap ++ (p.header ++ p.segment ++ pad)) :
    checksumPkt K mem d = checksumSegment K mem d 4 (p.header.getD 9 0) (mapHdrsLen + p.header.length)
      p.segment.length (~~~ (K.csumTcpudpMagic ((p.header.drop 12).take 4) ((p.header.drop 16).take 4)
        p.segment.length (p.header.getD 9 0) 0).toUInt32) := by
  have hlen := p.length_header
  have hihl := p.ihl_range
  obtain ⟨hversion, hipLen, -⟩ := version_v4 hihl
  obtain ⟨⟨v, hv, hfirst⟩, hiph⟩ := header_behind_qmap h hq
    (hb.trans (by rw [append_assoc])) (by omega : 0 < p.header.length)
  rw [p.version] at hfirst
  rw [hlen] at hiph
  have htot := p.tot_len
  have htot_lt := be16_lt p.header 2
  have hfast := (K.ipFastCsum_eq_zero_iff p.header).mpr
    ⟨p.wordSum_header_ne_zero, (wordSum_modEq_zero_iff _).mp p.header_sum⟩
  have hfits : ¬ be16 p.header 2 > sub32 d.len mapHdrsLen := by
    rw [sub32_mapHdrsLen h hq hb, htot]
    simp only [length_append]
    omega
  have hcsumLen : (be16 p.header 2 + 2 ^ 16 - 4 * p.ihl) % 2 ^ 16 = p.segment.length := by
    rw [htot, hlen]
    omega
  unfold checksumPkt
  simp only [hv, hfirst, hversion, hipLen, hiph, p.not_fragment, hfits, hfast, hcsumLen, if_true,
    ne_eq, not_true_eq_false, if_false, hlen]

theorem length_bytes16 (n : ℕ) : (bytes16 n).length = 2 := by
  simp [bytes16]

theorem Ipv4Packet.flips_pseudo (p : Ipv4Packet) : flips (pseudo4 ((p.header.drop 12).take 4)
    ((p.header.drop 16).take 4) p.segment.length (p.header.getD 9 0)) = false := by
  have hlen := p.length_header
  have hihl := p.ihl_range
  have haddr : 4 ≤ p.header.length - 12 ∧ 4 ≤ p.header.length - 16 := by omega
  simp [flips, pseudo4, length_bytes16, haddr.1, haddr.2]

def Ipv4Packet.total (p : Ipv4Packet) : ℕ :=
  wordSum false (pseudo4 ((p.header.drop 12).take 4) ((p.header.drop 16).take 4) p.segment.length
    (p.header.getD 9 0)) + wordSum false p.segment

theorem Ipv4Packet.verifies_iff (p : Ipv4Packet) : (Packet.v4 p).Verifies ↔
    NoChecksum (p.header.getD 9 0) p.segment ∨ p.total ≡ 0 [MOD 65535] := by
  simp only [Packet.Verifies, Ipv4Packet.total]
  rw [wordSum_modEq_zero_iff, wordSum_append, p.flips_pseudo, Bool.xor_false]

def Received.oddSum (r : Received) (off len : ℕ) : ℕ := oddChunks false (chunks r.mem r.desc off len)

theorem checksumPkt_v4_eq_one_iff {p : Ipv4Packet} (hp : r.packet = .v4 p) :
    checksumPkt K r.mem r.desc = 1 ↔ NoChecksum (p.header.getD 9 0) p.segment ∨
      p.total ≡ 255 * r.oddSum (mapHdrsLen + p.header.length) p.segment.length [MOD 65535] := by
  have hb : r.desc.bytes r.mem = r.qmap ++ (p.header ++ p.segment ++ r.pad) := by
    rw [r.bytes_eq, hp]
    rfl
  have hseg := p.segment_len
  have hdrop : (r.desc.bytes r.mem).drop (mapHdrsLen + p.header.length) = p.segment ++ r.pad := by
    rw [hb, ← drop_drop, ← r.length_qmap, drop_left, append_assoc, drop_left]
  have hmagic := K.csumTcpudpMagic_modEq ((p.header.drop 12).take 4) ((p.header.drop 16).take 4)
    p.segment.length (p.header.getD 9 0) 0
  rw [UInt32.toNat_zero, Nat.add_zero] at hmagic
  rw [checksumPkt_v4 K p r.size_lt r.length_qmap hb,
    checksumSegment_eq_one_iff K r.size_lt p.proto hmagic ?_, hdrop,
    noChecksum_append r.pad hseg]
  · unfold SumsToZero Ipv4Packet.total Received.oddSum
    rw [hdrop, take_left]
    by_cases hno : NoChecksum (p.header.getD 9 0) p.segment
    · simp only [hno, true_and, true_or]
    · simp only [hno, false_and, false_or, not_false_eq_true, true_and]
  · have := eight_le_of_segment_len hseg
    rw [hb]
    simp only [length_append, r.length_qmap]
    omega

theorem checksumRight_v4_iff {p : Ipv4Packet} (hp : r.packet = .v4 p) :
    ChecksumRight K r ↔ NoChecksum (p.header.getD 9 0) p.segment ∨
      257 ∣ r.oddSum (mapHdrsLen + p.header.length) p.segment.length ∨
      (¬ p.total ≡ 0 [MOD 65535] ∧
        ¬ p.total ≡ 255 * r.oddSum (mapHdrsLen + p.header.length) p.segment.length [MOD 65535]) := by
  rw [checksumRight_of_one_iff, checksumPkt_v4_eq_one_iff K hp, hp, p.verifies_iff, ← same_verdict_iff]
  by_cases hno : NoChecksum (p.header.getD 9 0) p.segment
  · simp only [hno, true_or]
  · simp only [hno, false_or]
    exact Iff.comm

theorem ext_cases {hdr tail : List UInt8} (hlen : hdr.length = n) (h8 : 8 ≤ n)
    (h : totalSize d.frags < 2 ^ 31) {start : ℕ}
    (hb : (d.bytes mem).drop start = hdr ++ rest ++ tail) :
    (∃ hp, headerBytes mem d start 2 = some hp ∧ hp.getD 0 0 = hdr.getD 0 0 ∧
      hp.getD 1 0 = hdr.getD 1 0) ∧
    (∃ fp, headerBytes mem d (start + 2) 2 = some fp ∧ be16 fp 0 = be16 hdr 2) ∧
    (d.bytes mem).drop (start + n) = rest ++ tail := by
  have hsize := congrArg List.length hb
  simp only [length_drop, length_append] at hsize
  have hget : ∀ i, i < 8 → (hdr ++ rest ++ tail).getD i 0 = hdr.getD i 0 := by
    intro i hi
    rw [append_assoc, getD_append _ _ _ _ (by omega)]
  refine ⟨⟨((d.bytes mem).drop start).take 2, ?_, ?_, ?_⟩,
    ⟨((d.bytes mem).drop (start + 2)).take 2, ?_, ?_⟩, ?_⟩
  · rw [headerBytes_eq h, if_pos (by omega)]
  · rw [getD_take_of_lt (by omega), hb, hget 0 (by omega)]
  · rw [getD_take_of_lt (by omega), hb, hget 1 (by omega)]
  · rw [headerBytes_eq h, if_pos (by omega)]
  · unfold be16
    rw [getD_take_of_lt (by omega), getD_take_of_lt (by omega), ← drop_drop, hb]
    have hdrop : ∀ i, ((hdr ++ rest ++ tail).drop 2).getD i 0 = (hdr ++ rest ++ tail).getD (2 + i) 0 := by
      intro i
      simp [List.getD_eq_getElem?_getD]
    rw [hdrop, hdrop, hget _ (by omega), hget _ (by omega)]
  · rw [← drop_drop, hb, append_assoc, drop_left' hlen]

theorem skipExthdrLoop_chain (h : totalSize d.frags < 2 ^ 31)
    {nexthdr : UInt8} {ext tail : List UInt8} (hchain : ExtChain nexthdr ext proto) {start : ℕ}
    (hb : (d.bytes mem).drop start = ext ++ tail) (hn : ext.length < n) :
    skipExthdrLoop mem d n start nexthdr 0 = some (start + ext.length, proto, 0) := by
  induction hchain generalizing n start with
  | done hproto =>
    obtain ⟨m, rfl⟩ := Nat.exists_eq_add_of_lt hn
    simp [skipExthdrLoop, hproto]
  | @fragment hdr rest proto hlen hoff hrest ih =>
    obtain ⟨m, rfl⟩ : ∃ m, n = m + 1 := ⟨n - 1, by omega⟩
    obtain ⟨⟨hp, hhp, hnext, -⟩, ⟨fp, hfp, hfrag⟩, hbehind⟩ := ext_cases hlen (by omega) h hb
    rw [length_append] at hn
    have hrec := @ih m (start + 8) hbehind (by omega)
    rw [hoff] at hfrag
    simp only [skipExthdrLoop, ipv6ExtHdr, nexthdrFragment, nexthdrNone, hhp, hfp, hfrag, hnext]
    simpa [hlen, Nat.add_assoc] using hrec
  | @auth hdr rest proto hlen hrest ih =>
    obtain ⟨m, rfl⟩ : ∃ m, n = m + 1 := ⟨n - 1, by omega⟩
    obtain ⟨⟨hp, hhp, hnext, hsize⟩, -, hbehind⟩ := ext_cases hlen (by omega) h hb
    rw [length_append] at hn
    have hrec := @ih m _ hbehind (by omega)
    simp only [skipExthdrLoop, ipv6ExtHdr, nexthdrFragment, nexthdrAuth, nexthdrNone, hhp, hnext, hsize]
    simpa [hlen, Nat.add_assoc] using hrec
  | @options nexthdr hdr rest proto hnexthdr hlen hrest ih =>
    obtain ⟨m, rfl⟩ : ∃ m, n = m + 1 := ⟨n - 1, by omega⟩
    obtain ⟨⟨hp, hhp, hnext, hsize⟩, -, hbehind⟩ := ext_cases hlen (by omega) h hb
    rw [length_append] at hn
    have hrec := @ih m _ hbehind (by omega)
    rcases hnexthdr with rfl | rfl | rfl
    all_goals
      simp only [skipExthdrLoop, ipv6ExtHdr, nexthdrFragment, nexthdrAuth, nexthdrNone, hhp, hnext, hsize]
      simpa [hlen, Nat.add_assoc] using hrec

def Ipv6Packet.takenIpLen (p : Ipv6Packet) : ℕ := (mapHdrsLen + 40 + p.ext.length) % 2 ^ 16

theorem checksumPkt_v6 {pad : List UInt8}
    (p : Ipv6Packet) (h : totalSize d.frags < 2 ^ 31) (hq : qmap.length = mapHdrsLen)
    (hb : d.bytes mem = qmap ++ (p.header ++ (p.ext ++ p.segment) ++ pad)) :
    checksumPkt K mem d =
      if p.ext.length + p.segment.length + p.takenIpLen >
          40 + (p.ext.length + p.segment.length) + pad.length then einval
      else checksumSegment K mem d 6 p.proto (mapHdrsLen + p.takenIpLen) (p.ext.length + p.segment.length)
        (~~~ (K.csumIpv6Magic ((p.header.drop 8).take 16) ((p.header.drop 24).take 16)
          (p.ext.length + p.segment.length) p.proto 0).toUInt32) := by
  have hlen := p.length_header
  obtain ⟨⟨v, hv, hfirst⟩, hiph⟩ := header_behind_qmap h hq
    (hb.trans (by rw [append_assoc])) (by omega : 0 < p.header.length)
  rw [hlen] at hiph
  have hskip : skipExthdr mem d (mapHdrsLen + 40) (p.header.getD 6 0) =
      some (mapHdrsLen + 40 + p.ext.length, p.proto, 0) := by
    have hdrop : (d.bytes mem).drop (mapHdrsLen + 40) = p.ext ++ (p.segment ++ pad) := by
      rw [hb, ← drop_drop, ← hq, drop_left, append_assoc, drop_left' hlen, append_assoc]
    have hfuel : p.ext.length < d.len + 1 := by
      have hsize := congrArg List.length hb
      simp only [length_bytes, length_append] at hsize
      rw [d.counted, Nat.mod_eq_of_lt (by omega)]
      omega
    exact skipExthdrLoop_chain h p.chain hdrop hfuel
  have hnot4 : ¬ (0x60 : UInt8) = 0x40 := by decide
  have hlength : (p.header ++ (p.ext ++ p.segment) ++ pad).length =
      40 + (p.ext.length + p.segment.length) + pad.length := by
    simp only [length_append, hlen]
  unfold checksumPkt Ipv6Packet.takenIpLen
  simp only [hv, hfirst, p.version, hnot4, if_false, if_true, hiph, hskip, p.payload_len,
    sub32_mapHdrsLen h hq hb, hlength, ne_eq, not_true_eq_false]

def Received.TakenToVerify (r : Received) (p : Ipv6Packet) : Prop :=
  p.takenIpLen ≤ 40 + r.pad.length ∧
    ¬ NoChecksum p.proto ((r.desc.bytes r.mem).drop (mapHdrsLen + p.takenIpLen)) ∧
    SumsToZero r.mem r.desc (pseudo6 ((p.header.drop 8).take 16) ((p.header.drop 24).take 16)
      (p.ext.length + p.segment.length) p.proto) (mapHdrsLen + p.takenIpLen)
      (p.ext.length + p.segment.length)

theorem checksumPkt_v6_eq_one_iff {p : Ipv6Packet} (hp : r.packet = .v6 p) :
    checksumPkt K r.mem r.desc = 1 ↔ r.TakenToVerify p := by
  have hb : r.desc.bytes r.mem = r.qmap ++ (p.header ++ (p.ext ++ p.segment) ++ r.pad) := by
    rw [r.bytes_eq, hp]
    rfl
  have hmagic := K.csumIpv6Magic_modEq ((p.header.drop 8).take 16) ((p.header.drop 24).take 16)
    (p.ext.length + p.segment.length) p.proto 0
  rw [UInt32.toNat_zero, Nat.add_zero] at hmagic
  rw [checksumPkt_v6 K p r.size_lt r.length_qmap hb]
  unfold Received.TakenToVerify
  by_cases hroom : p.takenIpLen ≤ 40 + r.pad.length
  · have hsegment := eight_le_of_segment_len p.segment_len
    rw [if_neg (by omega), checksumSegment_eq_one_iff K r.size_lt p.proto_known hmagic]
    · simp [hroom]
    · rw [hb]
      simp only [length_append, r.length_qmap, p.length_header]
      omega
  · rw [if_pos (by omega)]
    simp [einval, hroom]

theorem checksumRight_v6_iff {p : Ipv6Packet} (hp : r.packet = .v6 p) :
    ChecksumRight K r ↔ ((Packet.v6 p).Verifies ∧ r.TakenToVerify p) ∨
      (¬ (Packet.v6 p).Verifies ∧ ¬ r.TakenToVerify p) := by
  rw [checksumRight_of_one_iff, checksumPkt_v6_eq_one_iff K hp, hp]
  exact Iff.comm.trans iff_iff_and_or_not_and_not

def Received.JudgedRight (r : Received) : Prop :=
  match r.packet with
  | .v4 p => NoChecksum (p.header.getD 9 0) p.segment ∨
      257 ∣ r.oddSum (mapHdrsLen + p.header.length) p.segment.length ∨
      (¬ p.total ≡ 0 [MOD 65535] ∧
        ¬ p.total ≡ 255 * r.oddSum (mapHdrsLen + p.header.length) p.segment.length [MOD 65535])
  | .v6 p => ((Packet.v6 p).Verifies ∧ r.TakenToVerify p) ∨
      (¬ (Packet.v6 p).Verifies ∧ ¬ r.TakenToVerify p)

/-- **The check returns 1 exactly for the packets whose checksum verifies, on these inputs only**: IPv4
packets without a checksum, or with chunks at odd bytes of the segment that sum to a multiple of 257, or
whose sum is neither zero nor off by 255 times theirs; and IPv6 packets for which the bytes that are read
too far behind give the same answer as the segment. -/
theorem checksumRight_iff (K : KernelCsum) (r : Received) : ChecksumRight K r ↔ r.JudgedRight := by
  unfold Received.JudgedRight
  cases hp : r.packet with
  | v4 p => exact checksumRight_v4_iff K hp
  | v6 p => exact checksumRight_v6_iff K hp

def complement16 (n : ℕ) : UInt16 := UInt16.ofNat (65535 - fold16 n)

theorem complement16_toNat (n : ℕ) : (complement16 n).toNat = 65535 - fold16 n := by
  rw [complement16, UInt16.toNat_ofNat', Nat.mod_eq_of_lt (by omega)]

theorem complement16_eq_zero_iff (n : ℕ) : complement16 n = 0 ↔ n ≠ 0 ∧ n ≡ 0 [MOD 65535] := by
  rw [← fold16_eq_iff, ← UInt16.toNat_inj, complement16_toNat, UInt16.toNat_zero]
  have := fold16_le n
  omega

theorem complement16_add (n : ℕ) : (complement16 n).toNat + n ≡ 0 [MOD 65535] := by
  have hle := fold16_le n
  have hfold := fold16_modEq n
  rw [complement16_toNat]
  unfold Nat.ModEq at hfold ⊢
  omega

def addCarry (a b : ℕ) : ℕ := if 2 ^ 32 ≤ a + b then a + b - (2 ^ 32 - 1) else a + b

/-- The generic implementation: sums of 32 and 16 bits with the carries added to their ends. -/
def genericCsum : KernelCsum where
  csumPartial bs sum := UInt32.ofNat (addCarry (fold16 (wordSum false bs)) sum.toNat)
  csumFold sum := complement16 sum.toNat
  csumTcpudpMagic saddr daddr len proto sum :=
    complement16 (wordSum false (pseudo4 saddr daddr len proto) + sum.toNat)
  csumIpv6Magic saddr daddr len proto sum :=
    complement16 (wordSum false (pseudo6 saddr daddr len proto) + sum.toNat)
  ipFastCsum hdr := complement16 (wordSum false hdr)
  csumPartial_modEq bs sum := by
    have hle := fold16_le (wordSum false bs)
    have hfold := fold16_modEq (wordSum false bs)
    have hsum := sum.toNat_lt
    have hrange : addCarry (fold16 (wordSum false bs)) sum.toNat < 2 ^ 32 := by
      unfold addCarry
      split <;> omega
    rw [UInt32.toNat_ofNat', Nat.mod_eq_of_lt hrange]
    unfold addCarry Nat.ModEq at *
    split <;> omega
  csumPartial_ne_zero bs sum h := by
    have hle := fold16_le (wordSum false bs)
    have hsum := sum.toNat_lt
    have hpos : sum.toNat ≠ 0 := fun hzero => h (UInt32.toNat_inj.mp hzero)
    intro hzero
    have htoNat := congrArg UInt32.toNat hzero
    have hrange : addCarry (fold16 (wordSum false bs)) sum.toNat < 2 ^ 32 := by
      unfold addCarry
      split <;> omega
    rw [UInt32.toNat_ofNat', Nat.mod_eq_of_lt hrange, UInt32.toNat_zero] at htoNat
    unfold addCarry at htoNat
    split at htoNat <;> omega
  csumFold_eq_zero_iff sum := by
    rw [complement16_eq_zero_iff]
    apply and_congr_left
    intro _
    rw [Ne, Ne, ← UInt32.toNat_inj, UInt32.toNat_zero]
  csumTcpudpMagic_modEq _ _ _ _ _ := complement16_add _
  csumIpv6Magic_modEq _ _ _ _ _ := complement16_add _
  ipFastCsum_eq_zero_iff _ := complement16_eq_zero_iff _

def udpOverIpv4 : Ipv4Packet where
  header := [0x45, 0, 0, 28, 0, 0, 0, 0, 64, 17, 102, 207, 10, 0, 0, 1, 10, 0, 0, 2]
  segment := [3, 232, 7, 208, 0, 8, 224, 35]
  ihl := 5
  ihl_range := by decide
  length_header := by decide
  version := by decide
  tot_len := by decide
  not_fragment := by decide
  header_sum := by decide
  proto := by decide
  segment_len := by decide

/-- The packet in two fragments, the second from the second byte of the segment on. -/
def oddSplit : Received where
  mem _ off := ([0, 0, 0, 0, 0, 0, 0, 0] ++ (udpOverIpv4.header ++ udpOverIpv4.segment)).getD off 0
  desc := ⟨[⟨0, 0, 29⟩, ⟨0, 29, 7⟩], 36, by decide⟩
  packet := .v4 udpOverIpv4
  qmap := [0, 0, 0, 0, 0, 0, 0, 0]
  pad := []
  length_qmap := by decide
  bytes_eq := by decide
  size_lt := by decide

def udpOverIpv6 : Ipv6Packet where
  header := [0x60, 0, 0, 0, 0, 8, 17, 64,
    32, 1, 0, 0, 0, 0, 0, 0, 0, 0, 0, 0, 0, 0, 0, 1, 32, 1, 0, 0, 0, 0, 0, 0, 0, 0, 0, 0, 0, 0, 0, 2]
  ext := []
  segment := [3, 232, 7, 208, 0, 8, 180, 33]
  proto := 17
  length_header := by decide
  version := by decide
  payload_len := by decide
  chain := .done (by decide)
  proto_known := by decide
  segment_len := by decide

/-- The packet in one fragment. -/
def wholeIpv6 : Received where
  mem _ off := ([0, 0, 0, 0, 0, 0, 0, 0] ++ (udpOverIpv6.header ++ udpOverIpv6.segment)).getD off 0
  desc := ⟨[⟨0, 0, 56⟩], 56, by decide⟩
  packet := .v6 udpOverIpv6
  qmap := [0, 0, 0, 0, 0, 0, 0, 0]
  pad := []
  length_qmap := by decide
  bytes_eq := by decide
  size_lt := by decide

/-- Both verify, and neither is found to: the first for its fragments, the second for its version. -/
theorem not_checksumRight_udp :
    (oddSplit.packet.Verifies ∧ ¬ ChecksumRight genericCsum oddSplit) ∧
      (wholeIpv6.packet.Verifies ∧ ¬ ChecksumRight genericCsum wholeIpv6) := by
  have hverifies4 : udpOverIpv4.total ≡ 0 [MOD 65535] := by decide
  have hverifies6 : (Packet.v6 udpOverIpv6).Verifies := by
    refine ⟨?_, by decide⟩
    simp only [NoChecksum]
    decide
  have hshort : ¬ wholeIpv6.TakenToVerify udpOverIpv6 := by
    intro h
    exact absurd h.1 (by decide)
  refine ⟨⟨udpOverIpv4.verifies_iff.mpr (.inr hverifies4), fun h => ?_⟩, hverifies6, fun h => ?_⟩
  · rw [checksumRight_v4_iff genericCsum rfl] at h
    rcases h with hno | hdvd | hneither
    · exact absurd hno (by simp only [NoChecksum]; decide)
    · exact absurd hdvd (by decide)
    · exact hneither.1 hverifies4
  · rw [checksumRight_v6_iff genericCsum rfl] at h
    cases h with
    | inl h => exact hshort h.2
    | inr h => exact h.1 hverifies6

end Rmnet.Frag
