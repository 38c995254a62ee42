import Mathlib

/-!
# Segmentation of coalesced frames

The modem coalesces TCP or UDP packets of one flow into a frame: one header, and the payloads in
groups of equal length.
-/

namespace Rmnet.Coalesced

/-! ## Headers -/

def byteAt (d : List UInt8) (i : ℕ) : UInt8 := d.getD i 0

def be16At (d : List UInt8) (i : ℕ) : UInt16 :=
  (byteAt d i).toUInt16 <<< 8 ||| (byteAt d (i + 1)).toUInt16

def be32At (d : List UInt8) (i : ℕ) : UInt32 :=
  (be16At d i).toUInt32 <<< 16 ||| (be16At d (i + 2)).toUInt32

structure NlPair where
  pktLen : UInt16
  csumErrorBitmap : UInt8
  numPackets : UInt8
deriving DecidableEq, Repr

structure CoalHeader where
  numNlos : ℕ
  csumValid : Bool
  closeType : UInt8
  closeValue : UInt8
  nlPairs : List NlPair
deriving DecidableEq, Repr

def maxNlos : ℕ := 6

def maxPackets : UInt8 := 48

def mapHeaderSize : ℕ := 4

def coalHeaderSize : ℕ := 28

/-- The coalescing header behind the QMAP header. -/
def coalHeaderOf (d : List UInt8) : CoalHeader where
  numNlos := (byteAt d (mapHeaderSize + 1) >>> 4 &&& 7).toNat
  csumValid := byteAt d (mapHeaderSize + 1) &&& 0x80 != 0
  closeType := byteAt d (mapHeaderSize + 2) &&& 0x0F
  closeValue := byteAt d (mapHeaderSize + 2) >>> 4
  nlPairs :=
    (List.range maxNlos).map fun i =>
      let o := mapHeaderSize + 4 + 4 * i
      ⟨be16At d o, byteAt d (o + 2), byteAt d (o + 3)⟩

/-- The loop of `rmnet_frag_data_check_coal_header` over the pairs from the `i`-th on. -/
def checkPairs : List NlPair → ℕ → UInt64 → UInt8 → Option UInt64
  | [], _, mask, _ => some mask
  | p :: rest, i, mask, pkts =>
    let mask := mask ||| p.csumErrorBitmap.toUInt64 <<< UInt64.ofNat (8 * i)
    let pkts := pkts + p.numPackets
    if maxPackets < pkts then none else checkPairs rest (i + 1) mask pkts

/-- `rmnet_frag_data_check_coal_header`: the mask of the packets with a bad checksum. -/
def checkCoalHeader (d : List UInt8) : Option UInt64 :=
  if d.length < mapHeaderSize + coalHeaderSize then none
  else
    let h := coalHeaderOf d
    if h.numNlos = 0 ∨ maxNlos < h.numNlos then none else checkPairs h.nlPairs 0 0 0

/-- `rmnet_map_v5_csum_buggy`: the frame has one packet, and the hardware's word on its checksum is
not to be trusted. -/
def CoalHeader.csumBuggy (h : CoalHeader) : Bool :=
  h.numNlos == 1 && (h.nlPairs.getD 0 ⟨0, 0, 0⟩).numPackets == 1 &&
    (h.closeType == 4 || (h.closeType == 3 && (h.closeValue == 1 || h.closeValue == 2 || h.closeValue == 3)))

def protoTcp : UInt8 := 6

def protoUdp : UInt8 := 17

def ipv6ExtHdr (nexthdr : UInt8) : Bool :=
  nexthdr == 0 || nexthdr == 43 || nexthdr == 44 || nexthdr == 51 || nexthdr == 59 || nexthdr == 60

def ipv6SkipExthdr (d : List UInt8) : ℕ → ℕ → UInt8 → UInt16 → Bool →
    Option (ℕ × UInt8 × UInt16 × Bool)
  | 0, _, _, _, _ => none
  | fuel + 1, start, nexthdr, fragOff, fragHdr =>
    if ipv6ExtHdr nexthdr then
      if nexthdr = 59 then none
      else if d.length < start + 2 then none
      else if nexthdr = 44 then
        if d.length < start + 4 then none
        else
          let fragOff := be16At d (start + 2)
          if fragOff &&& 0xFFF8 ≠ 0 then some (start, nexthdr, fragOff, true)
          else ipv6SkipExthdr d fuel (start + 8) (byteAt d start) fragOff true
      else if nexthdr = 51 then
        ipv6SkipExthdr d fuel (start + ((byteAt d (start + 1)).toNat + 2) * 4) (byteAt d start)
          fragOff fragHdr
      else
        ipv6SkipExthdr d fuel (start + ((byteAt d (start + 1)).toNat + 1) * 8) (byteAt d start)
          fragOff fragHdr
    else some (start, nexthdr, fragOff, fragHdr)

/-- What the headers of a frame say, and whether hardware GRO may be used for it. -/
structure Headers where
  ipProto : UInt8
  ipLen : UInt16
  transProto : UInt8
  transLen : UInt16
  gro : Bool
  zeroCsum : Bool
deriving DecidableEq, Repr

/-- The IP header: protocol version, length, transport protocol, and GRO. -/
def dissectIp (d : List UInt8) (gro : Bool) : Option (UInt8 × UInt16 × UInt8 × Bool) :=
  match d with
  | [] => none
  | version :: _ =>
    if version &&& 0xF0 = 0x40 then
      if d.length < 20 then none
      else
        let ihl := version &&& 0x0F
        some (4, ihl.toUInt16 * 4, byteAt d 9, gro && ihl == 5)
    else if version &&& 0xF0 = 0x60 then
      if d.length < 40 then none
      else
        match ipv6SkipExthdr d (d.length + 1) 40 (byteAt d 6) 0 false with
        | none => none
        | some (ipLen, proto, fragOff, fragHdr) =>
          if fragOff ≠ 0 then none
          else some (6, UInt16.ofNat ipLen, proto, gro && !fragHdr && ipLen ≤ 40)
    else none

/-- The headers of a frame whose QMAP headers are pulled off. -/
def dissect (d : List UInt8) (gro : Bool) : Option Headers :=
  match dissectIp d gro with
  | none => none
  | some (ipProto, ipLen, transProto, gro) =>
    if transProto = protoTcp then
      if d.length < ipLen.toNat + 20 then none
      else
        some ⟨ipProto, ipLen, transProto, (byteAt d (ipLen.toNat + 12) >>> 4).toUInt16 * 4, gro, false⟩
    else if transProto = protoUdp then
      if d.length < ipLen.toNat + 8 then none
      else
        some ⟨ipProto, ipLen, transProto, 8, gro, ipProto == 4 && be16At d (ipLen.toNat + 6) == 0⟩
    else none

/-- `struct rmnet_frag_descriptor`, with the bytes of its fragments in one list. -/
structure Desc where
  data : List UInt8
  ipProto : UInt8
  ipLen : UInt16
  transProto : UInt8
  transLen : UInt16
  csumValid : Bool
  hdrsValid : Bool
  gsoSize : UInt16
  gsoSegs : UInt16
  dataOffset : UInt16
  pktId : UInt8
  tcpSeq : Option UInt32
  tcpFlags : Option UInt16
  ipId : Option UInt16
  coalBytes : UInt32
  coalBufsize : UInt32
deriving DecidableEq, Repr

/-- `rmnet_frag_descriptor_add_frags_from`: the bytes that are added. -/
def fragsFrom (d : List UInt8) (off len : ℕ) : Option (List UInt8) :=
  if off + len ≤ d.length then some ((d.drop off).take len) else none

namespace Desc

variable (c : Desc)

def hlen : ℕ := c.ipLen.toNat + c.transLen.toNat

def dlen : ℕ := c.gsoSize.toNat * c.gsoSegs.toNat

/-- The protocol-specific part of `__rmnet_frag_segment_data`, for the segment `n` of `c`. -/
def updateTransport (n : Desc) : Option (Desc × Bool) :=
  let off := c.ipLen.toNat
  if c.transProto = protoTcp then
    if c.data.length < off + 20 then none
    else
      let flags := be16At c.data (off + 12)
      let n := { n with tcpSeq := some (be32At c.data (off + 4) + c.dataOffset.toUInt32) }
      -- FIN and PSH
      if flags &&& 0x0009 ≠ 0 ∧ c.hlen + c.dataOffset.toNat + c.dlen < c.data.length then
        some ({ n with tcpFlags := some (flags &&& 0xFFF6) }, false)
      else some (n, false)
  else if c.transProto = protoUdp then
    if c.data.length < off + 8 then none
    else some (n, c.ipProto == 4 && be16At c.data (off + 6) == 0)
  else some (n, false)

/-- The IPv4 part of `__rmnet_frag_segment_data`. -/
def updateIp (n : Desc) : Option Desc :=
  if c.ipProto = 4 then
    if c.data.length < 20 then none
    else some { n with ipId := some (be16At c.data 4 + c.pktId.toUInt16) }
  else some n

/-- The segment that `__rmnet_frag_segment_data` makes. -/
def newDesc (csumValid : Bool) : Option Desc :=
  match fragsFrom c.data 0 c.hlen, fragsFrom c.data (c.hlen + c.dataOffset.toNat) c.dlen with
  | some header, some payload =>
    match c.updateTransport { c with data := header ++ payload } with
    | none => none
    | some (n, zeroCsum) =>
      (c.updateIp n).map fun n => { n with csumValid := csumValid || zeroCsum }
  | _, _ => none

/-- `__rmnet_frag_segment_data`: the frame moves past the segment. -/
def segment (pktId : UInt8) (csumValid : Bool) : Desc × List Desc :=
  match c.newDesc csumValid with
  | none => (c, [])
  | some n =>
    ({ c with
        dataOffset := c.dataOffset + UInt16.ofNat c.dlen
        pktId := pktId + 1
        gsoSegs := 0
        coalBytes := 0
        coalBufsize := 0 },
      [n])

end Desc

/-- The sum of the 16-bit words of a list of bytes, padded with a zero. -/
def sumWords : List UInt8 → ℕ
  | [] => 0
  | [b] => b.toNat * 256
  | a :: b :: rest => a.toNat * 256 + b.toNat + sumWords rest

/-- `rmnet_frag_validate_csum`: the folded sum of the pseudo header and the datagram is all ones. -/
def Desc.validateCsum (c : Desc) : Bool :=
  let datagram := c.data.drop c.ipLen.toNat
  let addresses :=
    if c.ipProto = 4 then (c.data.drop 12).take 8 else (c.data.drop 8).take 32
  let sum := sumWords addresses + datagram.length + c.transProto.toNat + sumWords datagram
  sum ≠ 0 && sum % 65535 == 0

/-- The segmentation on its way: the frame's descriptor, the rest of the mask, the packets so far,
and the descriptors made. -/
structure Loop where
  desc : Desc
  mask : UInt64
  totalPkt : UInt8
  out : List Desc

namespace Loop

variable (s : Loop)

/-- `__rmnet_frag_segment_data` in the loops. -/
def emit (csumValid : Bool) : Loop :=
  let r := s.desc.segment s.totalPkt csumValid
  { s with desc := r.1, out := s.out ++ r.2 }

def setSegs (n : UInt16) : Loop := { s with desc := { s.desc with gsoSegs := n } }

def packet (gro : Bool) : Loop :=
  let csumErr := s.mask &&& 1 == 1
  let s' :=
    if !gro then (s.setSegs 1).emit (!csumErr)
    else if csumErr then
      -- the good data before it, and the packet
      let s := if s.desc.gsoSegs ≠ 0 then s.emit true else s
      (s.setSegs 1).emit false
    else s.setSegs (s.desc.gsoSegs + 1)
  { s' with totalPkt := s'.totalPkt + 1, mask := s'.mask >>> 1 }

def packets (gro : Bool) : ℕ → Loop → Loop
  | 0, s => s
  | n + 1, s => packets gro n (s.packet gro)

/-- One number-length pair. -/
def pair (gro : Bool) (p : NlPair) : Loop :=
  let size := p.pktLen - (s.desc.ipLen + s.desc.transLen)
  let s := packets gro p.numPackets.toNat { s with desc := { s.desc with gsoSize := size } }
  if s.desc.gsoSegs ≠ 0 then s.emit true else s

end Loop

/-- The descriptor of a dissected frame; `bufsize` is the size of its pages. -/
def frameDesc (d : List UInt8) (h : Headers) (bufsize : UInt32) : Desc where
  data := d
  ipProto := h.ipProto
  ipLen := h.ipLen
  transProto := h.transProto
  transLen := h.transLen
  csumValid := false
  hdrsValid := true
  gsoSize := 0
  gsoSegs := 0
  dataOffset := 0
  pktId := 0
  tcpSeq := none
  tcpFlags := none
  ipId := none
  coalBytes := UInt32.ofNat d.length
  coalBufsize := bufsize

/-- The frame as one descriptor, by its first pair. -/
def Desc.whole (c : Desc) (p : NlPair) (csumValid : Bool) : Desc :=
  { c with
    csumValid := csumValid
    gsoSize := p.pktLen - (c.ipLen + c.transLen)
    gsoSegs := p.numPackets.toUInt16 }

def segmentCoalData (d : List UInt8) (mask : UInt64) (gro : Bool) (bufsize : UInt32) : List Desc :=
  if d.length < mapHeaderSize + coalHeaderSize then []
  else if d.length ≤ mapHeaderSize + coalHeaderSize then []
  else
    let coal := coalHeaderOf d
    let d := d.drop (mapHeaderSize + coalHeaderSize)
    match dissect d gro with
    | none => []
    | some h =>
      let c := frameDesc d h bufsize
      let first := coal.nlPairs.getD 0 ⟨0, 0, 0⟩
      if coal.csumBuggy && !h.zeroCsum then [c.whole first c.validateCsum]
      else if h.gro && coal.numNlos == 1 && coal.csumValid then [c.whole first true]
      else ((coal.nlPairs.take coal.numNlos).foldl (Loop.pair · h.gro) ⟨c, mask, 0, []⟩).out

end Rmnet.Coalesced
