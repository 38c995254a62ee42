import Sm8750Modules.Rmnet.Coalesced

/-!
# What the segments of a coalesced frame carry

A segment starts at a byte of the frame's payload and at a packet of the frame. From these two
numbers its sequence number, its IPv4 id, its flags and its checksum state follow, and the
segments together give the payload back.
-/

namespace Rmnet.Coalesced

open List

/-! ## Frames -/

/-- A frame without its QMAP headers, with what its IP and transport headers say. -/
structure Frame where
  bytes : List UInt8
  hdrs : Headers
  coal : CoalHeader
  mask : UInt64

namespace Frame

variable (F : Frame)

def hlen : ℕ := F.hdrs.ipLen.toNat + F.hdrs.transLen.toNat

def header : List UInt8 := F.bytes.take F.hlen

def payload : List UInt8 := F.bytes.drop F.hlen

def seq : UInt32 := be32At F.bytes (F.hdrs.ipLen.toNat + 4)

def flags : UInt16 := be16At F.bytes (F.hdrs.ipLen.toNat + 12)

def ipId : UInt16 := be16At F.bytes 4

def flagged (j : ℕ) : Bool := F.mask.toNat.testBit j

def buggy : Bool := F.coal.csumBuggy && !F.hdrs.zeroCsum

def fast : Bool := F.hdrs.gro && F.coal.numNlos == 1 && F.coal.csumValid

def pairs : List NlPair := F.coal.nlPairs.take F.coal.numNlos

def payloadOf (s : Desc) : List UInt8 := s.data.drop F.hlen

def seqOf (s : Desc) : UInt32 := s.tcpSeq.getD F.seq

def flagsOf (s : Desc) : UInt16 := s.tcpFlags.getD F.flags

def idOf (s : Desc) : UInt16 := s.ipId.getD F.ipId

def packetsOf (segs : List Desc) : ℕ := (segs.map fun s => s.gsoSegs.toNat).sum

def bytesOf (segs : List Desc) : ℕ := (segs.flatMap F.payloadOf).length

/-- The headers can be read. -/
structure Readable : Prop where
  proto : F.hdrs.transProto = protoTcp ∨ F.hdrs.transProto = protoUdp
  tcp : F.hdrs.transProto = protoTcp → F.hdrs.ipLen.toNat + 20 ≤ F.bytes.length
  udp : F.hdrs.transProto = protoUdp → F.hdrs.ipLen.toNat + 8 ≤ F.bytes.length
  ipv4 : F.hdrs.ipProto = 4 → 20 ≤ F.bytes.length
  zeroCsum : F.hdrs.zeroCsum = (F.hdrs.transProto == protoUdp && (F.hdrs.ipProto == 4 &&
    be16At F.bytes (F.hdrs.ipLen.toNat + 6) == 0))

structure AddsUp : Prop where
  le : ∀ p ∈ F.pairs, p.numPackets ≠ 0 → F.hlen ≤ p.pktLen.toNat
  sum : F.hlen + (F.pairs.map fun p => p.numPackets.toNat * (p.pktLen.toNat - F.hlen)).sum =
    F.bytes.length

/-- What a segment must say that starts with the packet `idx` and the payload byte `off`, where
`csum` says which packets are delivered with a valid checksum. -/
structure SegmentOk (csum : ℕ → Bool) (idx off : ℕ) (s : Desc) : Prop where
  header : s.data.take F.hlen = F.header
  seq : F.hdrs.transProto = protoTcp → F.seqOf s = F.seq + UInt32.ofNat off
  id : F.hdrs.ipProto = 4 → idx < 256 →
    idx = 0 ∨ F.hdrs.gro = false ∨ F.flagged (idx - 1) = true → F.idOf s = F.ipId + UInt16.ofNat idx
  flags : F.hdrs.transProto = protoTcp → F.flagsOf s &&& 0x0009 ≠ 0 →
    off + (F.payloadOf s).length = F.payload.length
  csum : ∀ j, idx ≤ j → j < idx + s.gsoSegs.toNat → s.csumValid = csum j

end Frame

theorem dissectIp_ipv4 {d : List UInt8} {gro gro' : Bool} {ipLen : UInt16} {proto : UInt8}
    (h : dissectIp d gro = some (4, ipLen, proto, gro')) : 20 ≤ d.length := by
  cases d with
  | nil => cases h
  | cons version rest =>
    rw [dissectIp] at h
    split at h
    · split at h
      · cases h
      · rename_i hlen
        exact Nat.le_of_not_lt hlen
    · split at h
      · split at h
        · cases h
        · split at h
          · cases h
          · split at h
            · cases h
            · have hproto := congrArg Prod.fst (Option.some.inj h)
              exact absurd hproto (show ¬(6 : UInt8) = 4 by decide)
      · cases h

theorem readable_of_dissect {d : List UInt8} {gro : Bool} {h : Headers} (hd : dissect d gro = some h)
    (coal : CoalHeader) (mask : UInt64) : Frame.Readable ⟨d, h, coal, mask⟩ := by
  rw [dissect] at hd
  split at hd
  · cases hd
  · rename_i ipProto ipLen transProto gro' hip
    have hipv4 : ipProto = 4 → 20 ≤ d.length := by
      rintro rfl
      exact dissectIp_ipv4 hip
    split at hd
    · rename_i htcp
      split at hd
      · cases hd
      · rename_i hlen
        cases hd
        refine ⟨.inl htcp, fun _ => Nat.le_of_not_lt hlen, fun hudp => ?_, hipv4, ?_⟩
        · exact absurd (htcp.symm.trans hudp) (by decide)
        · rw [htcp]
          rfl
    · rename_i htcp
      split at hd
      · rename_i hudp
        split at hd
        · cases hd
        · rename_i hlen
          cases hd
          refine ⟨.inr hudp, fun h => absurd h htcp, fun _ => Nat.le_of_not_lt hlen, hipv4, ?_⟩
          rw [hudp]
          rfl
      · cases hd

/-- A descriptor of the frame whose segments are still to come. -/
structure Desc.OfFrame (c : Desc) (F : Frame) : Prop where
  data : c.data = F.bytes
  ipProto : c.ipProto = F.hdrs.ipProto
  ipLen : c.ipLen = F.hdrs.ipLen
  transProto : c.transProto = F.hdrs.transProto
  transLen : c.transLen = F.hdrs.transLen
  tcpSeq : c.tcpSeq = none
  tcpFlags : c.tcpFlags = none
  ipId : c.ipId = none

namespace Frame

variable {F : Frame} {c : Desc}

/-- The fields that a segment gets beside its bytes. -/
structure Updated (F : Frame) (c : Desc) (csumValid : Bool) (n : Desc) : Prop where
  data : n.data = F.header ++ (F.payload.drop c.dataOffset.toNat).take c.dlen
  gsoSegs : n.gsoSegs = c.gsoSegs
  seq : F.hdrs.transProto = protoTcp → n.tcpSeq = some (F.seq + c.dataOffset.toUInt32)
  id : F.hdrs.ipProto = 4 → n.ipId = some (F.ipId + c.pktId.toUInt16)
  flags : F.hdrs.transProto = protoTcp → F.flagsOf n &&& 0x0009 ≠ 0 →
    F.bytes.length ≤ F.hlen + c.dataOffset.toNat + c.dlen
  csum : n.csumValid = (csumValid || F.hdrs.zeroCsum)

theorem hlen_eq (hc : c.OfFrame F) : c.hlen = F.hlen := by
  rw [Desc.hlen, hc.ipLen, hc.transLen]
  rfl

theorem updateTransport_spec (hF : F.Readable) (hc : c.OfFrame F) {n : Desc}
    (hn : n.tcpFlags = none) :
    ∃ n', c.updateTransport n = some (n', F.hdrs.zeroCsum) ∧ n'.data = n.data ∧
      n'.gsoSegs = n.gsoSegs ∧
      (F.hdrs.transProto = protoTcp → n'.tcpSeq = some (F.seq + c.dataOffset.toUInt32)) ∧
      (F.hdrs.transProto = protoTcp → F.flagsOf n' &&& 0x0009 ≠ 0 →
        F.bytes.length ≤ F.hlen + c.dataOffset.toNat + c.dlen) := by
  rw [Desc.updateTransport, hc.transProto, hc.ipLen, hc.data, hc.ipProto, hlen_eq hc]
  rcases hF.proto with htcp | hudp
  · have hzero : F.hdrs.zeroCsum = false := by
      rw [hF.zeroCsum, htcp]
      rfl
    dsimp only
    rw [if_pos htcp, if_neg (Nat.not_lt.mpr (hF.tcp htcp)), hzero]
    split
    · refine ⟨_, rfl, rfl, rfl, fun _ => rfl, fun _ hflags => absurd ?_ hflags⟩
      show F.flags &&& 0xFFF6 &&& 0x0009 = 0
      rw [UInt16.and_assoc]
      exact UInt16.and_zero
    · rename_i hlast
      refine ⟨_, rfl, rfl, rfl, fun _ => rfl, fun _ hflags => ?_⟩
      have hkept : F.flags &&& 0x0009 ≠ 0 := by
        have hnone : F.flagsOf { n with tcpSeq := some (be32At F.bytes (F.hdrs.ipLen.toNat + 4) +
            c.dataOffset.toUInt32) } = F.flags := by
          show n.tcpFlags.getD F.flags = F.flags
          rw [hn, Option.getD_none]
        rw [hnone] at hflags
        exact hflags
      by_contra hlt
      exact hlast ⟨hkept, Nat.lt_of_not_le hlt⟩
  · have htcp : F.hdrs.transProto ≠ protoTcp := by
      rw [hudp]
      decide
    have hzero : F.hdrs.zeroCsum = (F.hdrs.ipProto == 4 &&
        be16At F.bytes (F.hdrs.ipLen.toNat + 6) == 0) := by
      rw [hF.zeroCsum, hudp]
      rfl
    dsimp only
    rw [if_neg htcp, if_pos hudp, if_neg (Nat.not_lt.mpr (hF.udp hudp)), hzero]
    exact ⟨n, rfl, rfl, rfl, fun h => absurd h htcp, fun h => absurd h htcp⟩

theorem updateIp_spec (hF : F.Readable) (hc : c.OfFrame F) (n : Desc) :
    ∃ id, c.updateIp n = some { n with ipId := id } ∧
      (F.hdrs.ipProto = 4 → id = some (F.ipId + c.pktId.toUInt16)) := by
  rw [Desc.updateIp, hc.ipProto, hc.data]
  split
  · rename_i hv4
    rw [if_neg (Nat.not_lt.mpr (hF.ipv4 hv4))]
    exact ⟨_, rfl, fun _ => rfl⟩
  · rename_i hv4
    exact ⟨n.ipId, rfl, fun h => absurd h hv4⟩

/-- **One segment**: the bytes that are due behind a copy of the headers. -/
theorem segment_spec (hF : F.Readable) (hc : c.OfFrame F)
    (hfit : F.hlen + c.dataOffset.toNat + c.dlen ≤ F.bytes.length) (pktId : UInt8) (csumValid : Bool) :
    ∃ n, F.Updated c csumValid n ∧ c.segment pktId csumValid =
      ({ c with
          dataOffset := c.dataOffset + UInt16.ofNat c.dlen
          pktId := pktId + 1
          gsoSegs := 0
          coalBytes := 0
          coalBufsize := 0 },
        [n]) := by
  have hheader : fragsFrom c.data 0 c.hlen = some F.header := by
    rw [fragsFrom, hlen_eq hc, hc.data, if_pos (by omega)]
    rfl
  have hpayload : fragsFrom c.data (c.hlen + c.dataOffset.toNat) c.dlen =
      some ((F.payload.drop c.dataOffset.toNat).take c.dlen) := by
    rw [fragsFrom, hlen_eq hc, hc.data, if_pos hfit, Frame.payload, drop_drop]
  obtain ⟨n₁, htrans, hdata, hsegs, hseq, hflags⟩ := updateTransport_spec hF hc
    (n := { c with data := F.header ++ (F.payload.drop c.dataOffset.toNat).take c.dlen }) hc.tcpFlags
  obtain ⟨id, hip, hid⟩ := updateIp_spec hF hc n₁
  have hnew : c.newDesc csumValid =
      some { n₁ with ipId := id, csumValid := csumValid || F.hdrs.zeroCsum } := by
    rw [Desc.newDesc, hheader, hpayload]
    simp only [htrans, hip, Option.map_some]
  refine ⟨{ n₁ with ipId := id, csumValid := csumValid || F.hdrs.zeroCsum },
    ⟨hdata, hsegs, hseq, hid, hflags, rfl⟩, ?_⟩
  rw [Desc.segment, hnew]

/-! ## The segments so far -/

def loopCsum (F : Frame) (j : ℕ) : Bool := F.hdrs.zeroCsum || !F.flagged j

/-- The segments that are made say what they must, and the descriptor stands behind them. -/
structure Sent (F : Frame) (s : Loop) : Prop where
  frame : s.desc.OfFrame F
  offset : s.desc.dataOffset.toNat = F.bytesOf s.out
  payload : s.out.flatMap F.payloadOf = F.payload.take (F.bytesOf s.out)
  ok : ∀ pre t post, s.out = pre ++ t :: post →
    F.SegmentOk F.loopCsum (packetsOf pre) (F.bytesOf pre) t
  id : packetsOf s.out < 256 →
    packetsOf s.out = 0 ∨ F.hdrs.gro = false ∨ F.flagged (packetsOf s.out - 1) = true →
    s.desc.pktId = UInt8.ofNat (packetsOf s.out)

variable {s : Loop}

theorem packetsOf_append (l l' : List Desc) : packetsOf (l ++ l') = packetsOf l + packetsOf l' := by
  rw [packetsOf, map_append, sum_append]
  rfl

theorem packetsOf_singleton (t : Desc) : packetsOf [t] = t.gsoSegs.toNat := by
  rw [packetsOf, map_singleton, sum_singleton]

theorem bytesOf_append (l l' : List Desc) : F.bytesOf (l ++ l') = F.bytesOf l + F.bytesOf l' := by
  rw [bytesOf, flatMap_append, length_append]
  rfl

theorem bytesOf_singleton (t : Desc) : F.bytesOf [t] = (F.payloadOf t).length := by
  rw [bytesOf, flatMap_singleton]

theorem length_payload (F : Frame) : F.payload.length = F.bytes.length - F.hlen := by
  rw [payload, length_drop]

theorem Updated.payloadOf {n : Desc} {v : Bool} (h : F.Updated c v n)
    (hfit : F.hlen + c.dataOffset.toNat + c.dlen ≤ F.bytes.length) :
    F.payloadOf n = (F.payload.drop c.dataOffset.toNat).take c.dlen := by
  have hheader : F.header.length = F.hlen := by
    rw [header, length_take]
    omega
  rw [Frame.payloadOf, h.data, drop_append_of_le_length (Nat.le_of_eq hheader.symm),
    drop_of_length_le (Nat.le_of_eq hheader), nil_append]

theorem Updated.length_payloadOf {n : Desc} {v : Bool} (h : F.Updated c v n)
    (hfit : F.hlen + c.dataOffset.toNat + c.dlen ≤ F.bytes.length) :
    (F.payloadOf n).length = c.dlen := by
  rw [h.payloadOf hfit, length_take, length_drop, length_payload]
  omega

theorem Updated.segmentOk {n : Desc} {v : Bool} (h : F.Updated c v n)
    (hfit : F.hlen + c.dataOffset.toNat + c.dlen ≤ F.bytes.length) {idx : ℕ}
    (hid : idx < 256 → idx = 0 ∨ F.hdrs.gro = false ∨ F.flagged (idx - 1) = true →
      c.pktId = UInt8.ofNat idx)
    (hcsum : ∀ j, idx ≤ j → j < idx + c.gsoSegs.toNat → v = !F.flagged j) :
    F.SegmentOk F.loopCsum idx c.dataOffset.toNat n := by
  refine ⟨?_, fun htcp => ?_, fun hv4 hlt hprev => ?_, fun htcp hflags => ?_, fun j hle hlt => ?_⟩
  · have hheader : F.header.length = F.hlen := by
      rw [header, length_take]
      omega
    rw [h.data, take_append_of_le_length (Nat.le_of_eq hheader.symm),
      take_of_length_le (Nat.le_of_eq hheader)]
  · rw [seqOf, h.seq htcp, Option.getD_some]
    congr 1
    apply UInt32.toNat_inj.mp
    have hoff := c.dataOffset.toNat_lt
    rw [UInt16.toNat_toUInt32, UInt32.toNat_ofNat', Nat.mod_eq_of_lt (by omega)]
  · rw [idOf, h.id hv4, Option.getD_some, hid hlt hprev]
    congr 1
    apply UInt16.toNat_inj.mp
    rw [UInt8.toNat_toUInt16, UInt8.toNat_ofNat', UInt16.toNat_ofNat', Nat.mod_eq_of_lt hlt,
      Nat.mod_eq_of_lt (by omega)]
  · have hend := h.flags htcp hflags
    rw [h.length_payloadOf hfit, length_payload]
    omega
  · rw [h.gsoSegs] at hlt
    rw [h.csum, loopCsum, hcsum j hle hlt, Bool.or_comm]

theorem append_singleton_split {l pre post : List Desc} {t n : Desc} (h : l ++ [n] = pre ++ t :: post) :
    (pre = l ∧ t = n) ∨ ∃ post', l = pre ++ t :: post' := by
  rcases eq_nil_or_concat post with rfl | ⟨post', last, rfl⟩
  · obtain ⟨hl, hn⟩ := append_inj' h rfl
    exact .inl ⟨hl.symm, (List.cons.inj hn).1.symm⟩
  · have hcat : l ++ [n] = (pre ++ t :: post') ++ [last] := by
      rw [h, concat_eq_append, append_assoc, cons_append]
    exact .inr ⟨post', (append_inj' hcat rfl).1⟩

/-- What a segment that is made leaves behind. -/
structure Emitted (F : Frame) (s s' : Loop) : Prop where
  sent : F.Sent s'
  segs : s'.desc.gsoSegs = 0
  size : s'.desc.gsoSize = s.desc.gsoSize
  packets : packetsOf s'.out = packetsOf s.out + s.desc.gsoSegs.toNat
  bytes : F.bytesOf s'.out = F.bytesOf s.out + s.desc.dlen
  mask : s'.mask = s.mask
  total : s'.totalPkt = s.totalPkt

/-- **The next segment**, whose packets are all flagged or all not. -/
theorem Sent.emit (h : F.Sent s) (hF : F.Readable) (hlen : F.bytes.length < 65536)
    (hfit : F.hlen + F.bytesOf s.out + s.desc.dlen ≤ F.bytes.length) {v : Bool}
    (hcsum : ∀ j, packetsOf s.out ≤ j → j < packetsOf s.out + s.desc.gsoSegs.toNat → v = !F.flagged j)
    (htotal : packetsOf s.out + s.desc.gsoSegs.toNat < 256 →
      packetsOf s.out + s.desc.gsoSegs.toNat = 0 ∨ F.hdrs.gro = false ∨
        F.flagged (packetsOf s.out + s.desc.gsoSegs.toNat - 1) = true →
      s.totalPkt + 1 = UInt8.ofNat (packetsOf s.out + s.desc.gsoSegs.toNat)) :
    F.Emitted s (s.emit v) := by
  rw [← h.offset] at hfit
  obtain ⟨n, hn, hsegment⟩ := segment_spec hF h.frame hfit s.totalPkt v
  have hlength := hn.length_payloadOf hfit
  have hpackets : packetsOf (s.out ++ [n]) = packetsOf s.out + s.desc.gsoSegs.toNat := by
    rw [packetsOf_append, packetsOf_singleton, hn.gsoSegs]
  have hbytes : F.bytesOf (s.out ++ [n]) = F.bytesOf s.out + s.desc.dlen := by
    rw [bytesOf_append, bytesOf_singleton, hlength]
  have hok := hn.segmentOk hfit h.id hcsum
  rw [h.offset] at hok
  rw [Loop.emit, hsegment]
  refine ⟨⟨?_, ?_, ?_, ?_, ?_⟩, rfl, rfl, hpackets, hbytes, rfl, rfl⟩
  · exact ⟨h.frame.data, h.frame.ipProto, h.frame.ipLen, h.frame.transProto, h.frame.transLen,
      h.frame.tcpSeq, h.frame.tcpFlags, h.frame.ipId⟩
  · show (s.desc.dataOffset + UInt16.ofNat s.desc.dlen).toNat = F.bytesOf (s.out ++ [n])
    rw [hbytes, UInt16.toNat_add, UInt16.toNat_ofNat', h.offset, Nat.add_mod_mod]
    rw [h.offset] at hfit
    exact Nat.mod_eq_of_lt (show F.bytesOf s.out + s.desc.dlen < 65536 by omega)
  · show (s.out ++ [n]).flatMap F.payloadOf = F.payload.take (F.bytesOf (s.out ++ [n]))
    rw [flatMap_append, h.payload, flatMap_singleton, hn.payloadOf hfit, h.offset, hbytes, take_add]
  · intro pre t post hout
    rcases append_singleton_split hout with ⟨rfl, rfl⟩ | ⟨post', hold⟩
    · exact hok
    · exact h.ok pre t post' hold
  · show packetsOf (s.out ++ [n]) < 256 → _ → s.totalPkt + 1 = UInt8.ofNat (packetsOf (s.out ++ [n]))
    rw [hpackets]
    exact htotal

theorem Sent.congr {s' : Loop} (h : F.Sent s) (hout : s'.out = s.out) (hframe : s'.desc.OfFrame F)
    (hoff : s'.desc.dataOffset = s.desc.dataOffset) (hid : s'.desc.pktId = s.desc.pktId) :
    F.Sent s' := by
  refine ⟨hframe, ?_, ?_, ?_, ?_⟩
  · rw [hoff, hout]
    exact h.offset
  · rw [hout]
    exact h.payload
  · rw [hout]
    exact h.ok
  · rw [hout, hid]
    exact h.id

/-! ## The loops -/

/-- `j` packets are seen, `n` are left in the group, and `rest` bytes are left behind the group. -/
structure Progress (F : Frame) (s : Loop) (j n rest : ℕ) : Prop extends F.Sent s where
  mask : s.mask.toNat = F.mask.toNat >>> j
  total : s.totalPkt = UInt8.ofNat j
  count : packetsOf s.out + s.desc.gsoSegs.toNat = j
  pending : ∀ i, packetsOf s.out ≤ i → i < j → F.flagged i = false
  gro : F.hdrs.gro = false → s.desc.gsoSegs = 0
  small : s.desc.gsoSegs.toNat + n ≤ 255
  room : F.hlen + F.bytesOf s.out + s.desc.gsoSize.toNat * (s.desc.gsoSegs.toNat + n) + rest =
    F.bytes.length

theorem flagged_iff {j : ℕ} (h : s.mask.toNat = F.mask.toNat >>> j) :
    (s.mask &&& 1 == 1) = F.flagged j := by
  have hbit : (s.mask &&& 1).toNat = (F.mask.toNat >>> j) % 2 := by
    rw [UInt64.toNat_and, h]
    exact Nat.and_one_is_mod _
  rw [flagged, Nat.testBit, Bool.eq_iff_iff, beq_iff_eq, bne_iff_ne, Nat.one_and_eq_mod_two, ← hbit]
  rw [← UInt64.toNat_inj]
  show (s.mask &&& 1).toNat = 1 ↔ _
  have hlt : (s.mask &&& 1).toNat < 2 := by
    rw [hbit]
    exact Nat.mod_lt _ (by decide)
  omega

theorem mask_next {j : ℕ} (h : s.mask.toNat = F.mask.toNat >>> j) :
    (s.mask >>> 1).toNat = F.mask.toNat >>> (j + 1) := by
  rw [UInt64.toNat_shiftRight, h, Nat.shiftRight_add]
  rfl

theorem ofNat_succ (j : ℕ) : UInt8.ofNat j + 1 = UInt8.ofNat (j + 1) :=
  (UInt8.ofNat_add j 1).symm

theorem OfFrame.setSegs (h : s.desc.OfFrame F) (n : UInt16) : (s.setSegs n).desc.OfFrame F :=
  ⟨h.data, h.ipProto, h.ipLen, h.transProto, h.transLen, h.tcpSeq, h.tcpFlags, h.ipId⟩

def advance (s : Loop) : Loop := { s with totalPkt := s.totalPkt + 1, mask := s.mask >>> 1 }

variable {j n rest : ℕ}

theorem Sent.single (h : F.Sent s) (hF : F.Readable) (hlen : F.bytes.length < 65536)
    (hmask : s.mask.toNat = F.mask.toNat >>> j) (htotal : s.totalPkt = UInt8.ofNat j)
    (hcount : packetsOf s.out = j) (hsmall : n + 1 ≤ 255)
    (hroom : F.hlen + F.bytesOf s.out + s.desc.gsoSize.toNat * (n + 1) + rest = F.bytes.length)
    {v : Bool} (hv : v = !F.flagged j) :
    F.Progress (advance ((s.setSegs 1).emit v)) (j + 1) n rest := by
  have hset : F.Sent (s.setSegs 1) := h.congr rfl (OfFrame.setSegs h.frame 1) rfl rfl
  have hdlen : (s.setSegs 1).desc.dlen = s.desc.gsoSize.toNat :=
    Nat.mul_one _
  have hmul : s.desc.gsoSize.toNat * (n + 1) = s.desc.gsoSize.toNat * n + s.desc.gsoSize.toNat :=
    Nat.mul_succ _ _
  have hsegs : packetsOf (s.setSegs 1).out + (s.setSegs 1).desc.gsoSegs.toNat = j + 1 := by
    show packetsOf s.out + 1 = j + 1
    rw [hcount]
  have hemit : F.Emitted (s.setSegs 1) ((s.setSegs 1).emit v) := by
    refine hset.emit hF hlen ?_ (fun i hle hlt => ?_) fun _ _ => ?_
    · rw [hdlen]
      show F.hlen + F.bytesOf s.out + s.desc.gsoSize.toNat ≤ F.bytes.length
      omega
    · rw [hsegs] at hlt
      have hle' : j ≤ i := hcount ▸ hle
      rw [Nat.le_antisymm (Nat.le_of_lt_succ hlt) hle']
      exact hv
    · rw [hsegs]
      show s.totalPkt + 1 = _
      rw [htotal, ofNat_succ]
  have hpackets : packetsOf ((s.setSegs 1).emit v).out = j + 1 := hemit.packets.trans hsegs
  refine ⟨hemit.sent.congr rfl hemit.sent.frame rfl rfl, ?_, ?_, ?_, ?_, ?_, ?_, ?_⟩
  · show (((s.setSegs 1).emit v).mask >>> 1).toNat = _
    rw [hemit.mask]
    exact mask_next hmask
  · show ((s.setSegs 1).emit v).totalPkt + 1 = _
    rw [hemit.total]
    show s.totalPkt + 1 = _
    rw [htotal, ofNat_succ]
  · show packetsOf ((s.setSegs 1).emit v).out + ((s.setSegs 1).emit v).desc.gsoSegs.toNat = j + 1
    rw [hpackets, hemit.segs]
    rfl
  · intro i hle hlt
    have hle' : j + 1 ≤ i := hpackets ▸ hle
    exact absurd hlt (Nat.not_lt.mpr hle')
  · exact fun _ => hemit.segs
  · show ((s.setSegs 1).emit v).desc.gsoSegs.toNat + n ≤ 255
    rw [hemit.segs]
    show 0 + n ≤ 255
    omega
  · show F.hlen + F.bytesOf ((s.setSegs 1).emit v).out + ((s.setSegs 1).emit v).desc.gsoSize.toNat *
      (((s.setSegs 1).emit v).desc.gsoSegs.toNat + n) + rest = F.bytes.length
    rw [hemit.bytes, hemit.size, hemit.segs, hdlen]
    show F.hlen + (F.bytesOf s.out + s.desc.gsoSize.toNat) + s.desc.gsoSize.toNat * (0 + n) + rest = _
    rw [Nat.zero_add]
    omega

theorem Progress.flush (h : F.Progress s j n rest) (hF : F.Readable) (hlen : F.bytes.length < 65536)
    (hsegs : s.desc.gsoSegs ≠ 0) :
    F.Emitted s (s.emit true) ∧ packetsOf (s.emit true).out = j ∧
      F.hlen + F.bytesOf (s.emit true).out + s.desc.gsoSize.toNat * n + rest = F.bytes.length := by
  have hpos : 0 < s.desc.gsoSegs.toNat := by
    rw [Nat.pos_iff_ne_zero]
    exact fun hzero => hsegs (UInt16.toNat_inj.mp hzero)
  have hroom := h.room
  rw [Nat.mul_add] at hroom
  have hcount := h.count
  have hemit : F.Emitted s (s.emit true) := by
    refine h.toSent.emit hF hlen ?_ (fun i hle hlt => ?_) fun _ hprev => ?_
    · show F.hlen + F.bytesOf s.out + s.desc.gsoSize.toNat * s.desc.gsoSegs.toNat ≤ F.bytes.length
      omega
    · rw [h.pending i hle (by omega)]
      rfl
    · exfalso
      rw [hcount] at hprev
      rcases hprev with hzero | hgro | hflag
      · omega
      · exact hsegs (h.gro hgro)
      · rw [h.pending (j - 1) (by omega) (by omega)] at hflag
        exact absurd hflag (by decide)
  refine ⟨hemit, hemit.packets.trans hcount, ?_⟩
  rw [hemit.bytes, Desc.dlen]
  omega

theorem Progress.packet (h : F.Progress s j (n + 1) rest) (hF : F.Readable)
    (hlen : F.bytes.length < 65536) : F.Progress (s.packet F.hdrs.gro) (j + 1) n rest := by
  have hbit := flagged_iff h.mask
  have hroom := h.room
  have hcount := h.count
  have hsmall := h.small
  cases hgro : F.hdrs.gro with
  | false =>
    have hzero := h.gro hgro
    rw [hzero] at hroom hcount
    have hpacket : s.packet false = advance ((s.setSegs 1).emit (!F.flagged j)) := by
      rw [← hbit]
      rfl
    rw [hpacket]
    refine h.toSent.single hF hlen h.mask h.total hcount (by omega) ?_ rfl
    show F.hlen + F.bytesOf s.out + s.desc.gsoSize.toNat * (n + 1) + rest = F.bytes.length
    rw [show (0 : UInt16).toNat + (n + 1) = n + 1 from Nat.zero_add _] at hroom
    exact hroom
  | true =>
    cases hflag : F.flagged j with
    | true =>
      rw [hflag] at hbit
      by_cases hsegs : s.desc.gsoSegs = 0
      · have hpacket : s.packet true = advance ((s.setSegs 1).emit false) := by
          simp only [Loop.packet, hbit, hsegs, ne_eq, not_true_eq_false, if_false]
          rfl
        rw [hpacket]
        rw [hsegs] at hroom hcount
        refine h.toSent.single hF hlen h.mask h.total hcount (by omega) ?_ (by rw [hflag]; rfl)
        rw [show (0 : UInt16).toNat + (n + 1) = n + 1 from Nat.zero_add _] at hroom
        exact hroom
      · have hpacket : s.packet true = advance (((s.emit true).setSegs 1).emit false) := by
          simp only [Loop.packet, hbit, ne_eq, hsegs, not_false_eq_true, if_true]
          rfl
        obtain ⟨hemit, hpackets, hroom'⟩ := h.flush hF hlen hsegs
        rw [hpacket]
        refine hemit.sent.single hF hlen ?_ ?_ hpackets (by omega) ?_ (by rw [hflag]; rfl)
        · rw [hemit.mask]
          exact h.mask
        · rw [hemit.total]
          exact h.total
        · rw [hemit.size]
          exact hroom'
    | false =>
      rw [hflag] at hbit
      have hpacket : s.packet true = advance (s.setSegs (s.desc.gsoSegs + 1)) := by
        simp only [Loop.packet, hbit]
        rfl
      have hsucc : (s.desc.gsoSegs + 1).toNat = s.desc.gsoSegs.toNat + 1 := by
        rw [UInt16.toNat_add]
        exact Nat.mod_eq_of_lt (show s.desc.gsoSegs.toNat + 1 < 65536 by omega)
      rw [hpacket]
      refine ⟨h.toSent.congr rfl (OfFrame.setSegs h.frame _) rfl rfl, mask_next h.mask, ?_, ?_, ?_,
        ?_, ?_, ?_⟩
      · show s.totalPkt + 1 = _
        rw [h.total, ofNat_succ]
      · show packetsOf s.out + (s.desc.gsoSegs + 1).toNat = j + 1
        rw [hsucc]
        omega
      · intro i hle hlt
        rcases Nat.lt_succ_iff_lt_or_eq.mp hlt with hlt' | rfl
        · exact h.pending i hle hlt'
        · exact hflag
      · intro hno
        rw [hgro] at hno
        cases hno
      · show (s.desc.gsoSegs + 1).toNat + n ≤ 255
        rw [hsucc]
        omega
      · show F.hlen + F.bytesOf s.out + s.desc.gsoSize.toNat * ((s.desc.gsoSegs + 1).toNat + n) +
          rest = F.bytes.length
        rw [hsucc, show s.desc.gsoSegs.toNat + 1 + n = s.desc.gsoSegs.toNat + (n + 1) by omega]
        exact hroom

theorem Progress.packets (h : F.Progress s j n rest) (hF : F.Readable)
    (hlen : F.bytes.length < 65536) :
    F.Progress (Loop.packets F.hdrs.gro n s) (j + n) 0 rest := by
  induction n generalizing s j with
  | zero => exact h
  | succ n ih =>
    have hnext := ih (h.packet hF hlen)
    rw [Nat.add_assoc, Nat.add_comm 1 n] at hnext
    exact hnext

theorem toNat_hlen (h : s.desc.OfFrame F) (hlen : F.hlen < 65536) :
    (s.desc.ipLen + s.desc.transLen).toNat = F.hlen := by
  rw [h.ipLen, h.transLen, UInt16.toNat_add]
  exact Nat.mod_eq_of_lt hlen

theorem Progress.pair {p : NlPair}
    (h : F.Progress s j 0 (p.numPackets.toNat * (p.pktLen.toNat - F.hlen) + rest)) (hF : F.Readable)
    (hlen : F.bytes.length < 65536) (hsegs : s.desc.gsoSegs = 0)
    (hle : p.numPackets ≠ 0 → F.hlen ≤ p.pktLen.toNat) :
    F.Progress (s.pair F.hdrs.gro p) (j + p.numPackets.toNat) 0 rest ∧
      (s.pair F.hdrs.gro p).desc.gsoSegs = 0 := by
  have hroom := h.room
  rw [hsegs] at hroom
  have hstart : F.Progress { s with desc := { s.desc with
      gsoSize := p.pktLen - (s.desc.ipLen + s.desc.transLen) } } j p.numPackets.toNat rest := by
    refine ⟨h.toSent.congr rfl ?_ rfl rfl, h.mask, h.total, h.count, h.pending, h.gro, ?_, ?_⟩
    · exact ⟨h.frame.data, h.frame.ipProto, h.frame.ipLen, h.frame.transProto, h.frame.transLen,
        h.frame.tcpSeq, h.frame.tcpFlags, h.frame.ipId⟩
    · show s.desc.gsoSegs.toNat + p.numPackets.toNat ≤ 255
      rw [hsegs]
      show 0 + p.numPackets.toNat ≤ 255
      have hlt := p.numPackets.toNat_lt
      omega
    · show F.hlen + F.bytesOf s.out + (p.pktLen - (s.desc.ipLen + s.desc.transLen)).toNat *
        (s.desc.gsoSegs.toNat + p.numPackets.toNat) + rest = F.bytes.length
      rw [hsegs, show (0 : UInt16).toNat + p.numPackets.toNat = p.numPackets.toNat from Nat.zero_add _]
      rw [show (0 : UInt16).toNat + 0 = 0 from rfl, Nat.mul_zero, Nat.add_zero] at hroom
      by_cases hnum : p.numPackets = 0
      · rw [hnum, show (0 : UInt8).toNat = 0 from rfl, Nat.zero_mul, Nat.zero_add] at hroom
        rw [hnum, show (0 : UInt8).toNat = 0 from rfl, Nat.mul_zero, Nat.add_zero]
        exact hroom
      · have hhlen := toNat_hlen h.frame (by omega)
        have hsize : (p.pktLen - (s.desc.ipLen + s.desc.transLen)).toNat = p.pktLen.toNat - F.hlen := by
          rw [UInt16.toNat_sub_of_le _ _ (UInt16.le_iff_toNat_le.mpr (hhlen ▸ hle hnum)), hhlen]
        rw [hsize, Nat.mul_comm]
        omega
  have hend := hstart.packets hF hlen
  rw [Loop.pair]
  dsimp only
  split
  · rename_i hwait
    obtain ⟨hemit, hpackets, hroom'⟩ := hend.flush hF hlen hwait
    refine ⟨⟨hemit.sent, ?_, ?_, ?_, ?_, fun _ => hemit.segs, ?_, ?_⟩, hemit.segs⟩
    · rw [hemit.mask]
      exact hend.mask
    · rw [hemit.total]
      exact hend.total
    · rw [hemit.segs, hpackets]
      rfl
    · intro i hle hlt
      rw [hpackets] at hle
      exact absurd hlt (Nat.not_lt.mpr hle)
    · rw [hemit.segs]
      decide
    · rw [hemit.segs, hemit.size]
      exact hroom'
  · rename_i hwait
    exact ⟨hend, not_not.mp hwait⟩

theorem Progress.pairs {l : List NlPair}
    (h : F.Progress s j 0 (l.map fun p => p.numPackets.toNat * (p.pktLen.toNat - F.hlen)).sum)
    (hF : F.Readable) (hlen : F.bytes.length < 65536) (hsegs : s.desc.gsoSegs = 0)
    (hle : ∀ p ∈ l, p.numPackets ≠ 0 → F.hlen ≤ p.pktLen.toNat) :
    ∃ k, F.Progress (l.foldl (Loop.pair · F.hdrs.gro) s) k 0 0 ∧
      (l.foldl (Loop.pair · F.hdrs.gro) s).desc.gsoSegs = 0 := by
  induction l generalizing s j with
  | nil => exact ⟨j, h, hsegs⟩
  | cons p l ih =>
    rw [map_cons, sum_cons] at h
    obtain ⟨hnext, hzero⟩ := h.pair hF hlen hsegs (hle p mem_cons_self)
    exact ih hnext hzero fun q hq => hle q (mem_cons_of_mem p hq)

/-- Which packets are delivered with a valid checksum. -/
def csum (F : Frame) (j : ℕ) : Bool :=
  if F.buggy then (frameDesc F.bytes F.hdrs 0).validateCsum
  else if F.fast then true
  else F.loopCsum j

/-- **The segmentation is lossless**. -/
structure Faithful (F : Frame) (segs : List Desc) : Prop where
  payload : segs.flatMap F.payloadOf = F.payload
  segment : ∀ pre s post, segs = pre ++ s :: post →
    F.SegmentOk F.csum (packetsOf pre) (F.bytesOf pre) s

theorem faithful_whole (F : Frame) (bufsize : UInt32) (p : NlPair) {v : Bool}
    (hcsum : ∀ j, v = F.csum j) : F.Faithful [(frameDesc F.bytes F.hdrs bufsize).whole p v] := by
  refine ⟨flatMap_singleton _ _, fun pre s post hsplit => ?_⟩
  have hpre : pre = [] ∧ s = (frameDesc F.bytes F.hdrs bufsize).whole p v := by
    rcases append_singleton_split (l := []) hsplit with hone | ⟨post', hnil⟩
    · exact hone
    · exact absurd hnil (by simp)
  obtain ⟨rfl, rfl⟩ := hpre
  refine ⟨rfl, fun _ => ?_, fun _ _ _ => ?_, fun _ _ => ?_, fun j _ _ => hcsum j⟩
  · exact (UInt32.add_zero _).symm
  · exact (UInt16.add_zero _).symm
  · exact Nat.zero_add _

theorem faithful_loops (F : Frame) (bufsize : UInt32) (hF : F.Readable)
    (hlen : F.bytes.length < 65536) (hadds : F.AddsUp) (hcsum : ∀ j, F.loopCsum j = F.csum j) :
    F.Faithful (F.pairs.foldl (Loop.pair · F.hdrs.gro)
      ⟨frameDesc F.bytes F.hdrs bufsize, F.mask, 0, []⟩).out := by
  have hstart : F.Progress ⟨frameDesc F.bytes F.hdrs bufsize, F.mask, 0, []⟩ 0 0
      (F.pairs.map fun p => p.numPackets.toNat * (p.pktLen.toNat - F.hlen)).sum := by
    refine ⟨⟨⟨rfl, rfl, rfl, rfl, rfl, rfl, rfl, rfl⟩, rfl, rfl, ?_, fun _ _ => rfl⟩, rfl, rfl, rfl,
      ?_, fun _ => rfl, Nat.zero_le _, ?_⟩
    · intro pre t post hnil
      exact absurd hnil (by simp)
    · intro i _ hlt
      exact absurd hlt (Nat.not_lt_zero i)
    · show F.hlen + 0 + 0 * 0 + _ = _
      exact hadds.sum
  obtain ⟨k, hend, hsegs⟩ := hstart.pairs hF hlen rfl hadds.le
  have hroom := hend.room
  rw [hsegs, show (0 : UInt16).toNat + 0 = 0 from rfl, Nat.mul_zero] at hroom
  refine ⟨?_, fun pre s post hsplit => ?_⟩
  · rw [hend.payload]
    apply take_of_length_le
    rw [length_payload]
    omega
  · have hok := hend.ok pre s post hsplit
    exact ⟨hok.header, hok.seq, hok.id, hok.flags, fun j hle hlt => (hok.csum j hle hlt).trans (hcsum j)⟩

end Frame

def frameOf (d : List UInt8) (h : Headers) (mask : UInt64) : Frame where
  bytes := d.drop (mapHeaderSize + coalHeaderSize)
  hdrs := h
  coal := coalHeaderOf d
  mask := mask

/-- **Every coalesced frame whose pairs add up is segmented without loss, and every segment says what
it must**, under every mask and with or without hardware GRO. -/
theorem segmentCoalData_faithful (d : List UInt8) (mask : UInt64) (gro : Bool) (bufsize : UInt32)
    (h : Headers) (hframe : dissect (d.drop (mapHeaderSize + coalHeaderSize)) gro = some h)
    (hadds : (frameOf d h mask).AddsUp) (hlen : (frameOf d h mask).bytes.length < 65536) :
    (frameOf d h mask).Faithful (segmentCoalData d mask gro bufsize) := by
  have hF : (frameOf d h mask).Readable := readable_of_dissect hframe _ _
  have hlong : mapHeaderSize + coalHeaderSize < d.length := by
    by_contra hshort
    rw [drop_of_length_le (Nat.le_of_not_lt hshort)] at hframe
    cases hframe
  rw [segmentCoalData, if_neg (Nat.not_lt.mpr (Nat.le_of_lt hlong)), if_neg (Nat.not_le.mpr hlong)]
  simp only [hframe]
  by_cases hbuggy : ((coalHeaderOf d).csumBuggy && !h.zeroCsum) = true
  · rw [if_pos hbuggy]
    refine Frame.faithful_whole (frameOf d h mask) bufsize _ fun j => ?_
    rw [Frame.csum, show (frameOf d h mask).buggy = true from hbuggy]
    rfl
  rw [if_neg hbuggy]
  have hbuggy' : (frameOf d h mask).buggy = false :=
    Bool.eq_false_of_not_eq_true hbuggy
  by_cases hfast : (h.gro && (coalHeaderOf d).numNlos == 1 && (coalHeaderOf d).csumValid) = true
  · rw [if_pos hfast]
    refine Frame.faithful_whole (frameOf d h mask) bufsize _ fun j => ?_
    rw [Frame.csum, hbuggy', show (frameOf d h mask).fast = true from hfast]
    rfl
  rw [if_neg hfast]
  have hfast' : (frameOf d h mask).fast = false :=
    Bool.eq_false_of_not_eq_true hfast
  refine Frame.faithful_loops (frameOf d h mask) bufsize hF hlen hadds fun j => ?_
  rw [Frame.csum, hbuggy', hfast']
  rfl

/-- An IPv4 frame of two TCP packets with three bytes each and FIN, the first of which is flagged. -/
def tcpFrame : List UInt8 :=
  [0x80, 1, 0, 74, 2, 0x10, 0, 0, 0, 43, 1, 2, 0, 0, 0, 0, 0, 0, 0, 0, 0, 0, 0, 0, 0, 0, 0, 0, 0, 0, 0, 0,
    0x45, 0, 0, 46, 0x12, 0x34, 0x40, 0, 64, 6, 0, 0, 10, 0, 0, 1, 10, 0, 0, 2,
    0x13, 0x88, 0x17, 0x70, 0, 0, 1, 0, 0, 0, 0, 0, 0x50, 0x11, 0, 0, 0, 0, 0, 0,
    0x61, 0x62, 0x63, 0x64, 0x65, 0x66]

def tcpHeaders : Headers := ⟨4, 20, 6, 20, true, false⟩

theorem segmentCoalData_faithful_tcp :
    (frameOf tcpFrame tcpHeaders 1).Faithful (segmentCoalData tcpFrame 1 true 4096) :=
  segmentCoalData_faithful tcpFrame 1 true 4096 tcpHeaders (by decide) ⟨by decide, by decide⟩
    (by decide)

/-- An IPv4 frame of two UDP datagrams of one byte without checksum, the second of which is flagged. -/
def udpFrame : List UInt8 :=
  [0x80, 1, 0, 30, 2, 0x10, 0, 0, 0, 29, 2, 2, 0, 0, 0, 0, 0, 0, 0, 0, 0, 0, 0, 0, 0, 0, 0, 0, 0, 0, 0, 0,
    0x45, 0, 0, 30, 0x12, 0x34, 0x40, 0, 64, 17, 0, 0, 10, 0, 0, 1, 10, 0, 0, 2,
    0x13, 0x88, 0x17, 0x70, 0, 10, 0, 0, 0x61, 0x62]

def udpHeaders : Headers := ⟨4, 20, 17, 8, false, true⟩

/-- A frame whose segments all have the id of their first packet, and whose flagged packets are
delivered with an invalid checksum, the others with a valid one. -/
structure Frame.Exact (F : Frame) (segs : List Desc) : Prop where
  payload : segs.flatMap F.payloadOf = F.payload
  seq : ∀ pre s post, segs = pre ++ s :: post → F.hdrs.transProto = protoTcp →
    F.seqOf s = F.seq + UInt32.ofNat (F.bytesOf pre)
  id : ∀ pre s post, segs = pre ++ s :: post → F.hdrs.ipProto = 4 →
    F.idOf s = F.ipId + UInt16.ofNat (Frame.packetsOf pre)
  flags : ∀ pre s post, segs = pre ++ s :: post → F.hdrs.transProto = protoTcp →
    F.flagsOf s &&& 0x0009 ≠ 0 → F.bytesOf pre + (F.payloadOf s).length = F.payload.length
  csum : ∀ pre s post, segs = pre ++ s :: post →
    ∀ j, Frame.packetsOf pre ≤ j → j < Frame.packetsOf pre + s.gsoSegs.toNat →
      s.csumValid = !F.flagged j

/-- The flagged datagram without checksum is delivered as valid. -/
theorem not_exact :
    ¬∀ (d : List UInt8) (mask : UInt64) (gro : Bool) (bufsize : UInt32) (h : Headers),
      checkCoalHeader d = some mask →
      dissect (d.drop (mapHeaderSize + coalHeaderSize)) gro = some h → (frameOf d h mask).AddsUp →
      (frameOf d h mask).bytes.length < 65536 →
      (frameOf d h mask).Exact (segmentCoalData d mask gro bufsize) := by
  intro hall
  have hexact := hall udpFrame 2 false 4096 udpHeaders (by decide) (by decide)
    ⟨by decide, by decide⟩ (by decide)
  have hsplit : segmentCoalData udpFrame 2 false 4096 =
      (segmentCoalData udpFrame 2 false 4096).take 1 ++
        (segmentCoalData udpFrame 2 false 4096).getD 1 (frameDesc [] udpHeaders 0) :: [] := by decide
  have hcsum := hexact.csum _ _ _ hsplit 1 (by decide) (by decide)
  exact absurd hcsum (by decide)

end Rmnet.Coalesced
