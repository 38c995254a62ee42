import Sm8750Modules.Rmnet.Checksum

/-!
# The checksum trailer of a downlink packet

The hardware sums the whole IP packet and appends a trailer with the complement of the sum. The driver
takes the sums of the IP header and of the checksum field out of it, puts that of the pseudo-header in, and
compares the result with the field.
-/

namespace Rmnet.DlTrailer

open InternetChecksum Frag List

def csum16Add (a b : UInt16) : UInt16 := a + b + if a + b < b then 1 else 0

def csum16Sub (a b : UInt16) : UInt16 := csum16Add a (~~~b)

def ntohs (a : UInt16) : UInt16 := UInt16.ofNat (256 * (a.toNat % 256) + a.toNat / 256)

theorem csum16Add_toNat (a b : UInt16) : (csum16Add a b).toNat =
    if a.toNat + b.toNat < 65536 then a.toNat + b.toNat else a.toNat + b.toNat - 65535 := by
  have ha := a.toNat_lt
  have hb := b.toNat_lt
  have hsum : (a + b).toNat = (a.toNat + b.toNat) % 65536 := UInt16.toNat_add a b
  have hone : (1 : UInt16).toNat = 1 := by decide
  unfold csum16Add
  by_cases hlt : a + b < b
  · rw [if_pos hlt, UInt16.toNat_add, hsum, hone]
    rw [UInt16.lt_iff_toNat_lt, hsum] at hlt
    split <;> omega
  · rw [if_neg hlt, UInt16.toNat_add, hsum, UInt16.toNat_zero]
    rw [UInt16.lt_iff_toNat_lt, hsum] at hlt
    split <;> omega

theorem toNat_not (a : UInt16) : (~~~a).toNat = 65535 - a.toNat := by
  simp [UInt16.toNat_not]

theorem csum16Add_modEq (a b : UInt16) : (csum16Add a b).toNat ≡ a.toNat + b.toNat [MOD 65535] := by
  rw [csum16Add_toNat]
  unfold Nat.ModEq
  split <;> omega

theorem ntohs_modEq (a : UInt16) : (ntohs a).toNat ≡ 256 * a.toNat [MOD 65535] := by
  have ha := a.toNat_lt
  rw [ntohs, UInt16.toNat_ofNat', Nat.mod_eq_of_lt (by omega)]
  unfold Nat.ModEq
  omega

/-! ### The check -/

structure TrailerCsum extends KernelCsum where
  ipComputeCsum : List UInt8 → UInt16
  ipComputeCsum_modEq : ∀ bs, (ipComputeCsum bs).toNat + wordSum false bs ≡ 0 [MOD 65535]

/-- What the check counts in `priv->stats`. -/
inductive Stat where
  | csumSw
  | csumValidUnset
  | csumErrInvalidIpVersion
  | csumFragmentedPkt
  | csumErrInvalidTransport
  | csumSkipped
  | csumOk
  | csumValidationFailed
deriving DecidableEq, Repr

def eopnotsupp : ℤ := -95

def eprotonosupport : ℤ := -93

/-- `rmnet_map_get_csum_field`: where the checksum stands in a transport header. -/
def csumField (protocol : UInt8) : Option ℕ :=
  if protocol = ipprotoTcp then some 16 else if protocol = ipprotoUdp then some 6 else none

/-- What both versions do with the sum of the IP payload and the sum of the pseudo-header. -/
def verdict (protocol : UInt8) (ipPayloadCsum pseudoCsum field : UInt16) : ℤ × Stat :=
  let csumTemp := ~~~csum16Sub (csum16Add ipPayloadCsum (ntohs pseudoCsum)) field
  let final :=
    if csumTemp = 0 ∧ (protocol = ipprotoUdp ∨ protocol = ipprotoTcp ∧ field = 0xFFFF) then ~~~csumTemp
    else csumTemp
  if final = field then (0, .csumOk) else (einval, .csumValidationFailed)

def ipv4DlCsumTrailer (K : TrailerCsum) (data : List UInt8) (csumValue : UInt16) : ℤ × Stat :=
  if be16 data 6 &&& 0x2000 ≠ 0 ∨ be16 data 6 &&& 0x1FFF > 0 then (eopnotsupp, .csumFragmentedPkt)
  else
    let ipLen := (data.getD 0 0 &&& 0xF).toNat * 4
    let protocol := data.getD 9 0
    match csumField protocol with
    | none => (eprotonosupport, .csumErrInvalidTransport)
    | some off =>
      let field := UInt16.ofNat (be16 data (ipLen + off))
      if field = 0 ∧ protocol = ipprotoUdp then (0, .csumSkipped)
      else
        let hdrCsum := ~~~K.ipFastCsum (data.take ipLen)
        let pseudoCsum := ~~~K.csumTcpudpMagic ((data.drop 12).take 4) ((data.drop 16).take 4)
          (sub32 (be16 data 2) ipLen) protocol 0
        verdict protocol (csum16Sub (~~~csumValue) hdrCsum) pseudoCsum field

def ipv6DlCsumTrailer (K : TrailerCsum) (data : List UInt8) (csumValue : UInt16) : ℤ × Stat :=
  let nexthdr := data.getD 6 0
  match csumField nexthdr with
  | none => (eprotonosupport, .csumErrInvalidTransport)
  | some off =>
    let ip6HdrCsum := ~~~ntohs (K.ipComputeCsum (data.take 40))
    let length := if nexthdr = ipprotoUdp then be16 data (40 + 4) else be16 data 4
    let pseudoCsum := ~~~K.csumIpv6Magic ((data.drop 8).take 16) ((data.drop 24).take 16) length nexthdr 0
    verdict nexthdr (csum16Sub (~~~csumValue) ip6HdrCsum) pseudoCsum (UInt16.ofNat (be16 data (40 + off)))

def ethPIp : ℕ := 0x0800

def ethPIpv6 : ℕ := 0x86DD

/-- `rmnet_map_checksum_downlink_packet` in a kernel with IPv6. -/
def checksumDownlinkPacket (K : TrailerCsum) (rxcsum : Bool) (protocol : ℕ) (data : List UInt8) (len : ℕ) :
    ℤ × Stat :=
  let trailer := data.drop len
  let csumValue := UInt16.ofNat (be16 trailer 6)
  if rxcsum = false then (eopnotsupp, .csumSw)
  else if trailer.getD 1 0 &&& 1 = 0 then (einval, .csumValidUnset)
  else if protocol = ethPIp then ipv4DlCsumTrailer K data csumValue
  else if protocol = ethPIpv6 then ipv6DlCsumTrailer K data csumValue
  else (eprotonosupport, .csumErrInvalidIpVersion)

theorem verdict_eq_zero_iff {protocol : UInt8} (hproto : protocol = ipprotoTcp ∨ protocol = ipprotoUdp)
    (ipPayloadCsum pseudoCsum field : UInt16) : (verdict protocol ipPayloadCsum pseudoCsum field).1 = 0 ↔
      ipPayloadCsum.toNat + 256 * pseudoCsum.toNat ≡ 0 [MOD 65535] ∧
        ¬ (protocol = ipprotoUdp ∧ field = 0) := by
  have hsum : (csum16Add ipPayloadCsum (ntohs pseudoCsum)).toNat ≡
      ipPayloadCsum.toNat + 256 * pseudoCsum.toNat [MOD 65535] :=
    (csum16Add_modEq _ _).trans ((ntohs_modEq _).add_left _)
  have hiff : ipPayloadCsum.toNat + 256 * pseudoCsum.toNat ≡ 0 [MOD 65535] ↔
      (csum16Add ipPayloadCsum (ntohs pseudoCsum)).toNat ≡ 0 [MOD 65535] :=
    ⟨hsum.trans, hsum.symm.trans⟩
  rw [hiff]
  unfold verdict
  dsimp only
  generalize csum16Add ipPayloadCsum (ntohs pseudoCsum) = x
  have hsub : (csum16Sub x field).toNat = if x.toNat + (65535 - field.toNat) < 65536
      then x.toNat + (65535 - field.toNat) else x.toNat + (65535 - field.toNat) - 65535 := by
    rw [csum16Sub, csum16Add_toNat, toNat_not]
  have htemp := toNat_not (csum16Sub x field)
  generalize ~~~csum16Sub x field = temp at htemp ⊢
  have hflip := toNat_not temp
  have hx := x.toNat_lt
  have hf := field.toNat_lt
  have hmax : (0xFFFF : UInt16).toNat = 65535 := by decide
  have hne : ipprotoTcp ≠ ipprotoUdp := by decide
  have hfinal : ∀ final : UInt16, (if final = field then ((0 : ℤ), Stat.csumOk)
      else (einval, .csumValidationFailed)).1 = 0 ↔ final.toNat = field.toNat := by
    intro final
    rw [UInt16.toNat_inj]
    split <;> simp_all [einval]
  rw [hfinal]
  unfold Nat.ModEq
  rcases hproto with rfl | rfl
  · simp only [hne, false_and, not_false_eq_true, and_true, true_and, false_or, ← UInt16.toNat_inj,
      UInt16.toNat_zero, hmax]
    split at hsub <;> split <;> omega
  · simp only [true_or, and_true, true_and, ← UInt16.toNat_inj, UInt16.toNat_zero]
    split at hsub <;> split <;> omega

theorem payload_modEq {value hdr : UInt16} {header segment : ℕ}
    (hvalue : value.toNat + (header + segment) ≡ 0 [MOD 65535])
    (hhdr : hdr.toNat + header ≡ 0 [MOD 65535]) :
    (csum16Sub (~~~value) (~~~hdr)).toNat ≡ segment [MOD 65535] := by
  have hv := value.toNat_lt
  have hh := hdr.toNat_lt
  refine (csum16Add_modEq _ _).trans ?_
  rw [toNat_not, toNat_not, toNat_not]
  unfold Nat.ModEq at *
  omega

theorem pseudo_modEq {magic : UInt16} {pseudo : List UInt8}
    (hmagic : magic.toNat + wordSum false pseudo ≡ 0 [MOD 65535]) :
    256 * (~~~magic).toNat ≡ wordSum true pseudo [MOD 65535] := by
  have hm := magic.toNat_lt
  have hnot : (~~~magic).toNat ≡ wordSum false pseudo [MOD 65535] := by
    rw [toNat_not]
    unfold Nat.ModEq at *
    omega
  exact (hnot.mul_left 256).trans (swap_wordSum false pseudo)

theorem verdict_segment_iff {protocol : UInt8} (hproto : protocol = ipprotoTcp ∨ protocol = ipprotoUdp)
    {value hdr magic field : UInt16} {header pseudo segment : List UInt8}
    (hvalue : value.toNat + wordSum true (header ++ segment) ≡ 0 [MOD 65535])
    (hhdr : hdr.toNat + wordSum true header ≡ 0 [MOD 65535])
    (hmagic : magic.toNat + wordSum false pseudo ≡ 0 [MOD 65535])
    (hheader : flips header = false) (hpseudo : flips pseudo = false) :
    (verdict protocol (csum16Sub (~~~value) (~~~hdr)) (~~~magic) field).1 = 0 ↔
      wordSum true (pseudo ++ segment) ≡ 0 [MOD 65535] ∧ ¬ (protocol = ipprotoUdp ∧ field = 0) := by
  rw [wordSum_append, hheader, Bool.xor_false] at hvalue
  have hsum := (payload_modEq hvalue hhdr).add (pseudo_modEq hmagic)
  rw [verdict_eq_zero_iff hproto, wordSum_append, hpseudo, Bool.xor_false,
    Nat.add_comm (wordSum true pseudo)]
  exact and_congr_left fun _ => ⟨hsum.symm.trans, hsum.trans⟩

/-! ### Packets -/

def covered (proto : UInt8) (segment : List UInt8) : List UInt8 :=
  if proto = ipprotoUdp then segment.take (be16 segment 4) else segment

def TransportVerifies : Packet → Prop
  | .v4 p => NoChecksum (p.header.getD 9 0) p.segment ∨
      wordSum true (pseudo4 ((p.header.drop 12).take 4) ((p.header.drop 16).take 4)
        (covered (p.header.getD 9 0) p.segment).length (p.header.getD 9 0) ++
          covered (p.header.getD 9 0) p.segment) ≡ 0 [MOD 65535]
  | .v6 p => ¬ NoChecksum p.proto p.segment ∧
      wordSum true (pseudo6 ((p.header.drop 8).take 16) ((p.header.drop 24).take 16)
        (covered p.proto p.segment).length p.proto ++ covered p.proto p.segment) ≡ 0 [MOD 65535]

def Fills (proto : UInt8) (segment : List UInt8) : Prop :=
  proto = ipprotoUdp → be16 segment 4 = segment.length

def PacketFills : Packet → Prop
  | .v4 p => Fills (p.header.getD 9 0) p.segment
  | .v6 p => Fills p.proto p.segment

/-- A packet without extension headers, with padding and the trailer of the hardware. -/
structure Downlink where
  packet : Packet
  pad : List UInt8
  trailer : List UInt8
  rxcsum : Bool
  no_ext : ∀ p, packet = .v6 p → p.ext = []
  csum : be16 trailer 6 + wordSum true packet.bytes ≡ 0 [MOD 65535]

namespace Downlink

variable (d : Downlink)

/-- `skb->protocol`, which the version of the packet decides. -/
def protocol : ℕ :=
  match d.packet with
  | .v4 _ => ethPIp
  | .v6 _ => ethPIpv6

def check (K : TrailerCsum) : ℤ × Stat :=
  checksumDownlinkPacket K d.rxcsum d.protocol (d.packet.bytes ++ (d.pad ++ d.trailer))
    (d.packet.bytes.length + d.pad.length)

def Valid : Prop := d.trailer.getD 1 0 &&& 1 ≠ 0

end Downlink

theorem covered_of_fills {proto : UInt8} {segment : List UInt8} (h : Fills proto segment) :
    covered proto segment = segment := by
  unfold covered
  split
  · rename_i hudp
    rw [h hudp, take_length]
  · rfl

theorem be16_append_right (as bs : List UInt8) (i : ℕ) : be16 (as ++ bs) (as.length + i) = be16 bs i := by
  unfold be16
  rw [Nat.add_assoc, getD_append_right _ _ _ _ (by omega), getD_append_right _ _ _ _ (by omega),
    Nat.add_sub_cancel_left, Nat.add_sub_cancel_left]

theorem take_drop_append {as : List UInt8} (bs : List UInt8) {i n : ℕ} (h : i + n ≤ as.length) :
    ((as ++ bs).drop i).take n = (as.drop i).take n := by
  rw [drop_append_of_le_length (by omega), take_append_of_le_length (by rw [length_drop]; omega)]

theorem csumField_of_known {proto : UInt8} (hproto : proto = ipprotoTcp ∨ proto = ipprotoUdp)
    {segment : List UInt8} (hlen : (if proto = ipprotoUdp then 8 else 20) ≤ segment.length) :
    ∃ off, csumField proto = some off ∧ off + 1 < segment.length ∧
      (proto = ipprotoUdp ∧ UInt16.ofNat (be16 segment off) = 0 ↔ NoChecksum proto segment) := by
  have hne : ipprotoTcp ≠ ipprotoUdp := by decide
  rcases hproto with rfl | rfl
  · rw [if_neg hne] at hlen
    exact ⟨16, by decide, by omega, by simp [NoChecksum, hne]⟩
  · rw [if_pos rfl] at hlen
    refine ⟨6, by decide, by omega, and_congr_right fun _ => ?_⟩
    rw [← UInt16.toNat_inj, UInt16.toNat_ofNat', Nat.mod_eq_of_lt (be16_lt segment 6), UInt16.toNat_zero]

theorem ipv4DlCsumTrailer_eq_zero_iff (K : TrailerCsum) (p : Ipv4Packet) (rest : List UInt8)
    {value : UInt16} (hvalue : value.toNat + wordSum true (p.header ++ p.segment) ≡ 0 [MOD 65535]) :
    (ipv4DlCsumTrailer K (p.header ++ (p.segment ++ rest)) value).1 = 0 ↔ (Packet.v4 p).Verifies := by
  have hlen := p.length_header
  have hihl := p.ihl_range
  have htot := be16_lt p.header 2
  have hfrag : ∀ m, 0x3FFF &&& m = m → be16 p.header 6 &&& m = 0 := by
    intro m hm
    rw [← hm, ← Nat.and_assoc, p.not_fragment, Nat.zero_and]
  obtain ⟨off, hoff, hin, hno⟩ := csumField_of_known p.proto p.segment_len
  have hfield : be16 (p.header ++ (p.segment ++ rest)) (p.header.length + off) = be16 p.segment off := by
    rw [be16_append_right, be16_append rest hin]
  have hipLen : ((p.header ++ (p.segment ++ rest)).getD 0 0 &&& 0xF).toNat * 4 = p.header.length := by
    rw [getD_append _ _ _ _ (by omega), p.version, (version_v4 hihl).2.1, hlen]
  have hmagic := K.csumTcpudpMagic_modEq ((p.header.drop 12).take 4) ((p.header.drop 16).take 4)
    p.segment.length (p.header.getD 9 0) 0
  rw [UInt32.toNat_zero, Nat.add_zero] at hmagic
  have hfast : K.ipFastCsum p.header = 0 :=
    (K.ipFastCsum_eq_zero_iff _).mpr
      ⟨p.wordSum_header_ne_zero, (wordSum_modEq_zero_iff _).mp p.header_sum⟩
  have hsub : sub32 (be16 p.header 2) p.header.length = p.segment.length := by
    rw [p.tot_len] at htot ⊢
    rw [sub32]
    omega
  unfold ipv4DlCsumTrailer
  simp only [hipLen]
  rw [be16_append _ (by omega), be16_append _ (by omega), getD_append _ _ _ _ (by omega),
    take_drop_append _ (by omega), take_drop_append _ (by omega), take_left, hoff, hsub, hfrag _ (by decide),
    hfrag _ (by decide)]
  simp only [ne_eq, not_true_eq_false, gt_iff_lt, Nat.lt_irrefl, or_self, if_false, hfield]
  by_cases hskip : NoChecksum (p.header.getD 9 0) p.segment
  · rw [if_pos (hno.mpr hskip).symm]
    exact iff_of_true rfl (.inl hskip)
  have hfieldne : ¬ (p.header.getD 9 0 = ipprotoUdp ∧ UInt16.ofNat (be16 p.segment off) = 0) :=
    fun h => hskip (hno.mp h)
  rw [if_neg fun h => hfieldne h.symm, verdict_segment_iff p.proto hvalue ?_ hmagic ?_ p.flips_pseudo]
  · rw [and_iff_left hfieldne, Packet.Verifies, or_iff_right hskip]
  · rw [hfast, UInt16.toNat_zero, Nat.zero_add]
    exact p.header_sum
  · rw [flips, hlen, beq_eq_false_iff_ne]
    omega

theorem proto_of_no_ext {nexthdr proto : UInt8} {ext : List UInt8} (h : ExtChain nexthdr ext proto)
    (hext : ext = []) : nexthdr = proto := by
  cases h with
  | done => rfl
  | fragment hlen => simp [append_eq_nil_iff.mp hext] at hlen
  | auth hlen => simp [append_eq_nil_iff.mp hext] at hlen
  | options _ hlen => simp [append_eq_nil_iff.mp hext] at hlen

theorem ipv6DlCsumTrailer_eq_zero_iff (K : TrailerCsum) (p : Ipv6Packet) (hext : p.ext = [])
    (hfills : Fills p.proto p.segment) (rest : List UInt8) {value : UInt16}
    (hvalue : value.toNat + wordSum true (p.header ++ p.segment) ≡ 0 [MOD 65535]) :
    (ipv6DlCsumTrailer K (p.header ++ (p.segment ++ rest)) value).1 = 0 ↔ (Packet.v6 p).Verifies := by
  have hlen := p.length_header
  have hpayload := p.payload_len
  have hnext := proto_of_no_ext p.chain hext
  rw [hext, length_nil, Nat.zero_add] at hpayload
  have hfour : 4 + 1 < p.segment.length := by
    have := eight_le_of_segment_len p.segment_len
    omega
  obtain ⟨off, hoff, hin, hno⟩ := csumField_of_known p.proto_known p.segment_len
  have hat : ∀ i, i + 1 < p.segment.length →
      be16 (p.header ++ (p.segment ++ rest)) (40 + i) = be16 p.segment i := by
    intro i hi
    rw [← hlen, be16_append_right, be16_append rest hi]
  have hlength : (if p.proto = ipprotoUdp then be16 p.segment 4 else p.segment.length) =
      p.segment.length := by
    split
    · exact hfills (by assumption)
    · rfl
  have hmagic := K.csumIpv6Magic_modEq ((p.header.drop 8).take 16) ((p.header.drop 24).take 16)
    p.segment.length p.proto 0
  rw [UInt32.toNat_zero, Nat.add_zero] at hmagic
  have htake : (p.header ++ (p.segment ++ rest)).take 40 = p.header := by rw [← hlen, take_left]
  unfold ipv6DlCsumTrailer
  simp only [getD_append _ _ _ _ (show 6 < p.header.length by omega), hnext, hoff, hat 4 hfour, hat off hin]
  rw [be16_append _ (by omega), hpayload, hlength, htake, take_drop_append _ (by omega),
    take_drop_append _ (by omega), verdict_segment_iff p.proto_known hvalue ?_ hmagic ?_ ?_, hno, and_comm]
  · rfl
  · have hcompute := (swap_wordSum false p.header).symm.add_left (256 * (K.ipComputeCsum p.header).toNat)
    have hzero := (K.ipComputeCsum_modEq p.header).mul_left 256
    rw [Nat.mul_add] at hzero
    exact ((ntohs_modEq _).add_right _).trans (hcompute.trans hzero)
  · rw [flips, hlen]
    rfl
  · simp [flips, pseudo6, length_bytes16, hlen]

theorem transportVerifies_iff {packet : Packet} (h : PacketFills packet) :
    TransportVerifies packet ↔ packet.Verifies := by
  cases packet with
  | v4 p => rw [TransportVerifies, covered_of_fills h, Packet.Verifies]
  | v6 p => rw [TransportVerifies, covered_of_fills h, Packet.Verifies]

/-- **The check accepts exactly the packets whose transport checksum verifies**, when the device wants
checksums checked, the trailer is valid, and a UDP datagram fills its packet. -/
theorem check_eq_zero_iff (K : TrailerCsum) (d : Downlink) (hfills : PacketFills d.packet) :
    (d.check K).1 = 0 ↔ d.rxcsum = true ∧ d.Valid ∧ TransportVerifies d.packet := by
  have htrailer : (d.packet.bytes ++ (d.pad ++ d.trailer)).drop (d.packet.bytes.length + d.pad.length) =
      d.trailer := by
    rw [← append_assoc, ← length_append, drop_left]
  have hvalue : (UInt16.ofNat (be16 d.trailer 6)).toNat + wordSum true d.packet.bytes ≡ 0 [MOD 65535] := by
    rw [UInt16.toNat_ofNat', Nat.mod_eq_of_lt (be16_lt d.trailer 6)]
    exact d.csum
  rw [transportVerifies_iff hfills]
  unfold Downlink.check checksumDownlinkPacket Downlink.Valid Downlink.protocol
  simp only [htrailer]
  generalize d.trailer.getD 1 0 &&& 1 = bit
  cases hrxcsum : d.rxcsum with
  | false => simp [eopnotsupp]
  | true =>
    by_cases hvalid : bit = 0
    · simp [hvalid, einval]
    have hne : ethPIpv6 ≠ ethPIp := by decide
    cases hp : d.packet with
    | v4 p =>
      rw [hp] at hvalue
      have hdata := ipv4DlCsumTrailer_eq_zero_iff K p (d.pad ++ d.trailer) hvalue
      simpa [Packet.bytes, hvalid] using hdata
    | v6 p =>
      have hext := d.no_ext p hp
      rw [hp] at hvalue hfills
      rw [Packet.bytes, hext, nil_append] at hvalue
      have hdata := ipv6DlCsumTrailer_eq_zero_iff K p hext hfills (d.pad ++ d.trailer) hvalue
      simpa [Packet.bytes, hext, hvalid, hne] using hdata

def genericTrailerCsum : TrailerCsum where
  toKernelCsum := genericCsum
  ipComputeCsum bs := complement16 (wordSum false bs)
  ipComputeCsum_modEq _ := complement16_add _

/-- The datagram `udpOverIpv4` with two more bytes behind it in the IP packet. -/
def surplusOverIpv4 : Ipv4Packet where
  header := [0x45, 0, 0, 30, 0, 0, 0, 0, 64, 17, 102, 205, 10, 0, 0, 1, 10, 0, 0, 2]
  segment := udpOverIpv4.segment ++ [1, 0]
  ihl := 5
  ihl_range := udpOverIpv4.ihl_range
  length_header := by decide
  version := by decide
  tot_len := by decide
  not_fragment := by decide
  header_sum := by decide
  proto := by decide
  segment_len := by decide

def surplus : Downlink where
  packet := .v4 surplusOverIpv4
  pad := []
  trailer := [0, 1, 0, 0, 0, 0, 19, 28]
  rxcsum := true
  no_ext := by simp
  csum := by decide

/-- The datagram verifies, and the check, which counts the surplus bytes, refuses it. -/
theorem not_check_eq_zero : (surplus.rxcsum = true ∧ surplus.Valid ∧ TransportVerifies surplus.packet) ∧
    ¬ (surplus.check genericTrailerCsum).1 = 0 := by
  refine ⟨⟨rfl, by simp only [Downlink.Valid]; decide, .inr ?_⟩, by decide⟩
  decide

def filled : Downlink where
  packet := .v6 udpOverIpv6
  pad := []
  trailer := [0, 1, 0, 0, 0, 0, 142, 208]
  rxcsum := true
  no_ext := by
    intro p hp
    rw [← Packet.v6.inj hp]
    decide
  csum := by decide

theorem check_eq_zero_iff_filled : (filled.check genericTrailerCsum).1 = 0 ↔
    filled.rxcsum = true ∧ filled.Valid ∧ TransportVerifies filled.packet :=
  check_eq_zero_iff genericTrailerCsum filled fun _ => by decide

end Rmnet.DlTrailer
