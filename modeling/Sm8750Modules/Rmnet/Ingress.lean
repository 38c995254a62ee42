import Sm8750Modules.Rmnet.Deaggregate
import Sm8750Modules.Rmnet.OffloadPackets

/-!
# Ingress of descriptors

Each descriptor of a deaggregated buffer is put back with its command, delivered to the stack, or
segmented and handed to the offload engine packet by packet.
-/

namespace Rmnet.Ingress

open Runs Rmnet.Coalesced Rmnet.Offload List

/-! ## Dissection -/

/-- The features of the device of an endpoint. -/
structure Device where
  rxCsum : Bool
  groHw : Bool
deriving DecidableEq, Repr

/-- The port: its format and endpoints, whether the offload module is there, and what is computed elsewhere. -/
structure Port where
  fmt : DataFormat
  endpoint : UInt8 → Option Device
  offloadHook : Bool
  flowHash : HeaderInfo → UInt32
  checksumPkt : List UInt8 → Bool
  bufsize : List UInt8 → UInt32

def noHeaders : HeaderInfo := ⟨0, 0, (0, 0, 0, 0), (0, 0, 0, 0), 0, 0, 0, 0, 0, 0⟩

/-- A descriptor as the offload engine sees it. -/
def fragDescOf (c : Desc) : FragDesc where
  data := c.data
  hash := 0
  gsoSize := c.gsoSize
  gsoSegs := c.gsoSegs
  coalBytes := c.coalBytes
  coalBufsize := c.coalBufsize
  tcpFlagsSet := c.tcpFlags.isSome
  tcpFlags := c.tcpFlags.getD 0
  csumValid := c.csumValid

/-- The headers found, whether they can be used, and whether the length in the IP header is another. -/
structure Dissected where
  hdrs : HeaderInfo
  usable : Bool
  lenMismatch : Bool

def HeaderInfo.setIpv4 (h : HeaderInfo) (d : List UInt8) : HeaderInfo :=
  { h with
    saddr := (be32At d 12, 0, 0, 0)
    daddr := (be32At d 16, 0, 0, 0)
    flagWord :=
      (byteAt d 8).toUInt32 <<< 24 ||| (byteAt d 1).toUInt32 <<< 16 ||| (be16At d 6).toUInt32 }

def HeaderInfo.setIpv6 (h : HeaderInfo) (d : List UInt8) : HeaderInfo :=
  { h with
    saddr := (be32At d 8, be32At d 12, be32At d 16, be32At d 20)
    daddr := (be32At d 24, be32At d 28, be32At d 32, be32At d 36)
    flagWord := be32At d 0 }

def HeaderInfo.setPorts (h : HeaderInfo) (d : List UInt8) : HeaderInfo :=
  { h with sport := be16At d h.ipLen.toNat, dport := be16At d (h.ipLen.toNat + 2) }

def protoFragment : UInt8 := 44

def HeaderInfo.addFragment (h : HeaderInfo) (proto : UInt8) : HeaderInfo :=
  if proto = protoFragment then { h with ipLen := h.ipLen + 8 } else h

/-- The IP header of a descriptor whose headers are known. -/
def validIp (c : Desc) : Except HeaderInfo HeaderInfo :=
  let h := { noHeaders with
    ipProto := c.ipProto, ipLen := c.ipLen, transProto := c.transProto, transLen := c.transLen }
  if c.ipProto = 4 then
    if c.data.length < 20 then .error h else .ok (HeaderInfo.setIpv4 h c.data)
  else if c.data.length < 40 then .error h
  else
    let h := HeaderInfo.setIpv6 h c.data
    if 40 < c.ipLen then
      match ipv6SkipExthdr c.data (c.data.length + 1) 40 (byteAt c.data 6) 0 false with
      | none => .error (HeaderInfo.addFragment h (byteAt c.data 6))
      | some (_, proto, fragOff, fragHdr) =>
        if fragOff ≠ 0 ∨ fragHdr = true then .error (HeaderInfo.addFragment h proto) else .ok h
    else .ok h

/-- The part of `rmnet_offload_dissect_pkt` for a descriptor whose headers are known. -/
def dissectValid (c : Desc) : Dissected :=
  match validIp c with
  | .error h => ⟨h, false, false⟩
  | .ok h =>
    if c.data.length < c.ipLen.toNat + 8 then ⟨h, false, false⟩
    else
      let h := HeaderInfo.setPorts h c.data
      if c.transProto = Offload.protoTcp then
        if c.data.length < c.ipLen.toNat + 20 then ⟨h, false, false⟩
        else
          ⟨{ h with tcpSeq := c.tcpSeq.getD (be32At c.data (c.ipLen.toNat + 4)) }, true, false⟩
      else ⟨h, true, false⟩

/-- The IP header of a descriptor that only the modem has seen. -/
def rawIp (d : List UInt8) : Option (Except HeaderInfo (HeaderInfo × Bool)) :=
  match d with
  | [] => none
  | version :: _ =>
    if (version &&& 0xF0) >>> 4 = 4 then
      let h := { noHeaders with ipProto := 4 }
      if d.length < 20 then some (.error h)
      else
        let h := HeaderInfo.setIpv4
          { h with ipLen := (version &&& 0x0F).toUInt16 * 4, transProto := byteAt d 9 } d
        -- fragments
        if be16At d 6 &&& 0x3FFF ≠ 0 then some (.error h)
        else some (.ok (h, be16At d 2 != UInt16.ofNat d.length))
    else if (version &&& 0xF0) >>> 4 = 6 then
      let h := { noHeaders with ipProto := 6 }
      if d.length < 40 then some (.error h)
      else
        match ipv6SkipExthdr d (d.length + 1) 40 (byteAt d 6) 0 false with
        | none => some (.error h)
        | some (ipLen, proto, fragOff, fragHdr) =>
          let h := HeaderInfo.setIpv6 { h with ipLen := UInt16.ofNat ipLen, transProto := proto } d
          if fragOff ≠ 0 ∨ fragHdr = true then some (.error (HeaderInfo.addFragment h proto))
          else some (.ok (h, be16At d 4 + 40 != UInt16.ofNat d.length))
    else none

/-- The part of `rmnet_offload_dissect_pkt` for the other descriptors. -/
def dissectRaw (d : List UInt8) : Option Dissected :=
  match rawIp d with
  | none => none
  | some (.error h) => some ⟨h, false, false⟩
  | some (.ok (h, mismatch)) =>
    let off := h.ipLen.toNat
    if h.transProto = Offload.protoTcp then
      if d.length < off + 20 then some ⟨h, false, mismatch⟩
      else
        some ⟨HeaderInfo.setPorts
          { h with transLen := (byteAt d (off + 12) >>> 4).toUInt16 * 4, tcpSeq := be32At d (off + 4) }
          d, true, mismatch⟩
    else if h.transProto = Offload.protoUdp then
      if d.length < off + 8 then some ⟨h, false, mismatch⟩
      else some ⟨HeaderInfo.setPorts { h with transLen := 8 } d, true, mismatch⟩
    else some ⟨h, false, mismatch⟩

/-- `rmnet_offload_dissect_pkt`; nothing for what is not IP. -/
def dissectPkt (port : Port) (dev : Device) (c : Desc) : Option Info :=
  let found :=
    if !dev.rxCsum then some ⟨noHeaders, false, false⟩
    else if c.hdrsValid then some (dissectValid c)
    else dissectRaw c.data
  found.map fun r =>
    { fragDesc := fragDescOf c
      hdrs := r.hdrs
      hashKey := if r.usable then port.flowHash r.hdrs else 0
      payloadLen := UInt16.ofNat c.data.length - r.hdrs.ipLen - r.hdrs.transLen
      firstPkt := false
      skipHash := !r.usable
      lenMismatch := r.lenMismatch }

/-- The segmentation of a frame with the descriptors it takes, and the numbers of those listed. -/
structure Segmenting where
  pool : Pool
  loop : Loop
  ids : List ℕ

namespace Segmenting

variable (s : Segmenting)

/-- `__rmnet_frag_segment_data` takes a descriptor, and puts it back where it gives up. -/
def emit (csumValid : Bool) : Segmenting :=
  match s.loop.desc.newDesc csumValid with
  | none => { s with pool := s.pool.get.recycle s.pool.taken, loop := s.loop.emit csumValid }
  | some _ =>
    { pool := s.pool.get, loop := s.loop.emit csumValid, ids := s.ids ++ [s.pool.taken] }

def setSegs (n : UInt16) : Segmenting := { s with loop := s.loop.setSegs n }

def packet (gro : Bool) : Segmenting :=
  let csumErr := s.loop.mask &&& 1 == 1
  let s' :=
    if !gro then (s.setSegs 1).emit (!csumErr)
    else if csumErr then
      let s := if s.loop.desc.gsoSegs ≠ 0 then s.emit true else s
      (s.setSegs 1).emit false
    else s.setSegs (s.loop.desc.gsoSegs + 1)
  { s' with loop := { s'.loop with totalPkt := s'.loop.totalPkt + 1, mask := s'.loop.mask >>> 1 } }

def packets (gro : Bool) : ℕ → Segmenting → Segmenting
  | 0, s => s
  | n + 1, s => packets gro n (s.packet gro)

/-- One number-length pair. -/
def pair (gro : Bool) (p : NlPair) : Segmenting :=
  let size := p.pktLen - (s.loop.desc.ipLen + s.loop.desc.transLen)
  let s := packets gro p.numPackets.toNat
    { s with loop := { s.loop with desc := { s.loop.desc with gsoSize := size } } }
  if s.loop.desc.gsoSegs ≠ 0 then s.emit true else s

def held (priority : ℕ) : List Held :=
  (s.ids.zip s.loop.out).map fun r => ⟨r.1, priority, r.2⟩

end Segmenting

/-- `rmnet_frag_segment_coal_data`. -/
def segmentCoal (port : Port) (dev : Device) (d : Held) (mask : UInt64) (pool : Pool) :
    Pool × List Held :=
  if d.desc.data.length < mapHeaderSize + coalHeaderSize then (pool, [])
  else if d.desc.data.length ≤ mapHeaderSize + coalHeaderSize then (pool.recycle d.id, [])
  else
    let coal := coalHeaderOf d.desc.data
    let body := d.desc.data.drop (mapHeaderSize + coalHeaderSize)
    match dissect body dev.groHw with
    | none => (pool, [])
    | some h =>
      let c := frameDesc body h (port.bufsize d.desc.data)
      let first := coal.nlPairs.getD 0 ⟨0, 0, 0⟩
      if coal.csumBuggy && !h.zeroCsum then (pool, [{ d with desc := c.whole first c.validateCsum }])
      else if h.gro && coal.numNlos == 1 && coal.csumValid then
        (pool, [{ d with desc := c.whole first true }])
      else
        let s := (coal.nlPairs.take coal.numNlos).foldl (Segmenting.pair · h.gro)
          ⟨pool, ⟨c, mask, 0, []⟩, []⟩
        (s.pool, s.held d.priority)

/-! ## The handler -/

def headerType (d : List UInt8) : UInt8 := byteAt d mapHeaderSize >>> 1

/-- `rmnet_frag_process_next_hdr_packet`: the descriptors listed, or an error. -/
def processNextHdr (port : Port) (dev : Device) (d : Held) (len : UInt16) (pool : Pool) :
    Pool × Option (List Held) :=
  let data := d.desc.data
  if data.length < mapHeaderSize + csumHeaderSize then (pool, none)
  else if headerType data = 1 then
    match checkCoalHeader data with
    | none => (pool, none)
    | some mask =>
      let r := segmentCoal port dev d mask pool
      if r.2.head?.map Held.id = some d.id then (r.1, some r.2) else (r.1.recycle d.id, some r.2)
  else if headerType data = 2 then
    let valid := dev.rxCsum && (byteAt data (mapHeaderSize + 1) &&& 0x80 != 0 || port.checksumPkt data)
    -- the descriptor is put back, and the caller does it again
    if data.length ≤ mapHeaderSize + csumHeaderSize then (pool.recycle d.id, none)
    else if len = 0 then (pool.recycle d.id, none)
    else
      (pool, some [{ d with desc :=
        { d.desc with
          data := (data.drop (mapHeaderSize + csumHeaderSize)).take len.toNat
          csumValid := valid } }])
  else (pool, none)

/-- The descriptors on their way. -/
structure State where
  pool : Pool
  pending : List Held
  segs : List (Device × Held)
  delivered : List ℕ
  handed : List (ℕ × FragDesc)
  engine : Engine

namespace State

variable (σ : State) (port : Port)

def deaggregate (skb : List (List UInt8)) (priority : ℕ) : State :=
  let s := Listing.deaggregate ⟨σ.pool, []⟩ port.fmt skb priority
  { σ with pool := s.pool, pending := s.list }

def recycle (d : Held) : State := { σ with pool := σ.pool.recycle d.id }

def lowLatency : ℕ := 0xda1a

/-- The end of `__rmnet_frag_ingress_handler`. -/
def dispatch (dev : Device) (d : Held) (segs : List Held) : State :=
  if d.priority = lowLatency ∨ port.offloadHook = false then
    { σ with delivered := σ.delivered ++ segs.map Held.id }
  else { σ with segs := segs.map fun s => (dev, s) }

/-- The device of a descriptor that is data; `RMNET_MAX_LOGICAL_EP` is the last multiplexer. -/
def deviceOf (data : List UInt8) : Option Device :=
  if data.length < mapHeaderSize then none
  else if cdBit data then none
  else if 255 ≤ (byteAt data 1).toNat then none
  else port.endpoint (byteAt data 1)

def hasNextHdr (data : List UInt8) : Bool :=
  byteAt data 0 &&& 0x40 != 0 && (port.fmt.coalesce || port.fmt.mapCksumV5)

def lenOf (data : List UInt8) : UInt16 := be16At data 2 - (byteAt data 0 &&& 0x3F).toUInt16

def ingressHandler (d : Held) : State :=
  match deviceOf port d.desc.data with
  | none => σ.recycle d
  | some dev =>
    let len := lenOf d.desc.data
    if hasNextHdr port d.desc.data then
      match processNextHdr port dev d len σ.pool with
      | (pool, none) => { σ with pool := pool }.recycle d
      | (pool, some segs) => { σ with pool := pool }.dispatch port dev d segs
    else if d.desc.data.length ≤ mapHeaderSize then σ.recycle d
    else if len = 0 then σ.recycle d
    else
      σ.dispatch port dev d
        [{ d with desc := { d.desc with data := (d.desc.data.drop mapHeaderSize).take len.toNat } }]

/-- The next descriptor of the buffer. -/
def handle : State :=
  match σ.pending with
  | [] => σ
  | d :: rest => { σ with pending := rest }.ingressHandler port d

/-- `__rmnet_offload_ingress` for the next packet. -/
def offload : State :=
  match σ.segs with
  | [] => σ
  | (dev, d) :: rest =>
    let σ := { σ with segs := rest }
    match dissectPkt port dev d.desc with
    | none => σ.recycle d
    | some info =>
      { σ with
        handed := σ.handed ++ [(d.id, info.fragDesc)]
        engine := σ.engine.mainIngress info }

end State

/-! ## Segmentation and the pool -/

namespace Segmenting

variable {s : Segmenting}

theorem out_emit (l : Loop) (v : Bool) : (l.emit v).out = l.out ++ (l.desc.newDesc v).toList := by
  rw [Loop.emit, Desc.segment]
  cases l.desc.newDesc v with
  | none => rfl
  | some n => rfl

theorem loop_emit (s : Segmenting) (v : Bool) : (s.emit v).loop = s.loop.emit v := by
  rw [emit]
  split <;> rfl

theorem loop_packet (s : Segmenting) (gro : Bool) : (s.packet gro).loop = s.loop.packet gro := by
  cases gro with
  | false =>
    rw [packet, Loop.packet]
    simp only [Bool.not_false, if_true, loop_emit, setSegs]
  | true =>
    rw [packet, Loop.packet]
    simp only [Bool.not_true, Bool.false_eq_true, if_false]
    split
    · split <;> simp only [loop_emit, setSegs]
    · rfl

/-- The descriptors listed have their numbers, and all others are where they were. -/
structure Kept (s : Segmenting) (rest : List ℕ) : Prop where
  length : s.ids.length = s.loop.out.length
  balanced : Balanced s.pool (s.ids ++ rest)

variable {rest : List ℕ}

section

variable (h : s.Kept rest)
include h

theorem Kept.emit (v : Bool) : (s.emit v).Kept rest := by
  have hout := out_emit s.loop v
  rw [Segmenting.emit]
  cases hnew : s.loop.desc.newDesc v with
  | none =>
    rw [hnew, Option.toList_none, append_nil] at hout
    exact ⟨by rw [h.length, ← hout], h.balanced.getRecycle⟩
  | some n =>
    rw [hnew, Option.toList_some] at hout
    refine ⟨?_, h.balanced.get.perm ?_⟩
    · show (s.ids ++ [s.pool.taken]).length = (s.loop.emit v).out.length
      rw [hout, length_append, length_append, h.length]
      rfl
    · rw [append_assoc, append_assoc]
      exact perm_append_comm.append_left _

theorem Kept.packet (gro : Bool) : (s.packet gro).Kept rest := by
  have hsetSegs : ∀ {t : Segmenting} (n : UInt16), t.Kept rest → (t.setSegs n).Kept rest :=
    fun _ ht => ⟨ht.length, ht.balanced⟩
  have hgood : (if s.loop.desc.gsoSegs ≠ 0 then s.emit true else s).Kept rest := by
    split
    · exact h.emit _
    · exact h
  have hbody : (if (!gro) = true then (s.setSegs 1).emit (!s.loop.mask &&& 1 == 1)
      else if (s.loop.mask &&& 1 == 1) = true then
        ((if s.loop.desc.gsoSegs ≠ 0 then s.emit true else s).setSegs 1).emit false
      else s.setSegs (s.loop.desc.gsoSegs + 1)).Kept rest := by
    split
    · exact (hsetSegs 1 h).emit _
    · split
      · exact (hsetSegs 1 hgood).emit _
      · exact hsetSegs _ h
  exact ⟨hbody.length, hbody.balanced⟩

theorem Kept.packets (gro : Bool) (n : ℕ) : (Segmenting.packets gro n s).Kept rest := by
  induction n generalizing s with
  | zero => exact h
  | succ n ih => exact ih (h.packet gro)

theorem Kept.pair (gro : Bool) (p : NlPair) : (s.pair gro p).Kept rest := by
  have hsize : ∀ size, ({ s with loop := { s.loop with desc := { s.loop.desc with
      gsoSize := size } } } : Segmenting).Kept rest := fun _ => ⟨h.length, h.balanced⟩
  have hpackets := (hsize (p.pktLen - (s.loop.desc.ipLen + s.loop.desc.transLen))).packets gro
    p.numPackets.toNat
  rw [Segmenting.pair]
  dsimp only
  split
  · exact hpackets.emit true
  · exact hpackets

theorem Kept.foldl (gro : Bool) (l : List NlPair) : (l.foldl (Segmenting.pair · gro) s).Kept rest := by
  induction l generalizing s with
  | nil => exact h
  | cons p l ih => exact ih (h.pair gro p)

theorem Kept.ids_held (priority : ℕ) : (s.held priority).map Held.id = s.ids := by
  rw [held, map_map]
  exact map_fst_zip h.length.le

end

end Segmenting

theorem balanced_segmentCoal (port : Port) (dev : Device) {d : Held} (mask : UInt64) {pool : Pool}
    {rest : List ℕ} (h : Balanced pool (d.id :: rest))
    (hlen : d.desc.data.length ≠ mapHeaderSize + coalHeaderSize) :
    Balanced (segmentCoal port dev d mask pool).1
        ((segmentCoal port dev d mask pool).2.map Held.id ++ d.id :: rest) ∨
      ((segmentCoal port dev d mask pool).1 = pool ∧
        (segmentCoal port dev d mask pool).2.map Held.id = [d.id]) := by
  rw [segmentCoal]
  split
  · exact .inl h
  rename_i hge
  rw [if_neg (by omega)]
  dsimp only
  cases dissect (d.desc.data.drop (mapHeaderSize + coalHeaderSize)) dev.groHw with
  | none => exact .inl h
  | some hdrs =>
    dsimp only
    split
    · exact .inr ⟨rfl, rfl⟩
    split
    · exact .inr ⟨rfl, rfl⟩
    · left
      have hstart : Segmenting.Kept ⟨pool, ⟨frameDesc (d.desc.data.drop (mapHeaderSize +
          coalHeaderSize)) hdrs (port.bufsize d.desc.data), mask, 0, []⟩, []⟩ (d.id :: rest) := ⟨rfl, h⟩
      have hkept := hstart.foldl hdrs.gro ((coalHeaderOf d.desc.data).nlPairs.take
        (coalHeaderOf d.desc.data).numNlos)
      rw [hkept.ids_held]
      exact hkept.balanced

/-- The next header leaves something of the packet. -/
def NextHdrOk (data : List UInt8) (len : UInt16) : Prop :=
  (headerType data = 2 → mapHeaderSize + csumHeaderSize ≤ data.length →
    data.length ≠ mapHeaderSize + csumHeaderSize ∧ len ≠ 0) ∧
  (headerType data = 1 → (checkCoalHeader data).isSome = true →
    data.length ≠ mapHeaderSize + coalHeaderSize)
deriving Decidable

variable {port : Port} {dev : Device} {d : Held} {len : UInt16} {pool : Pool} {rest : List ℕ}

theorem head_ne_of_balanced {ids : List ℕ} {id : ℕ} (h : Balanced pool (ids ++ id :: rest)) :
    ids.head? ≠ some id := by
  intro hhead
  have hnodup : (pool.returned ++ (ids ++ id :: rest)).Nodup :=
    (List.Perm.nodup_iff h).mpr nodup_range
  have hids := (nodup_append.mp hnodup).2.1
  have hmem : id ∈ ids := List.mem_of_head? hhead
  exact (nodup_append.mp hids).2.2 id hmem id mem_cons_self rfl

/-- After an error the descriptor is still in use, else those listed are in its place. -/
def Listed (id : ℕ) (rest : List ℕ) : Pool × Option (List Held) → Prop
  | (p, none) => Balanced p (id :: rest)
  | (p, some segs) => Balanced p (segs.map Held.id ++ rest)

variable (port dev) in
theorem listed_processNextHdr (h : Balanced pool (d.id :: rest)) (hok : NextHdrOk d.desc.data len) :
    Listed d.id rest (processNextHdr port dev d len pool) := by
  rw [processNextHdr]
  dsimp only
  split
  · exact h
  rename_i hge
  split
  · rename_i htype
    cases hcheck : checkCoalHeader d.desc.data with
    | none => exact h
    | some mask =>
      have hlen := hok.2 htype (by rw [hcheck]; rfl)
      dsimp only
      rcases balanced_segmentCoal port dev mask h hlen with hnew | ⟨hpool, hown⟩
      · have hhead := head_ne_of_balanced hnew
        rw [← List.head?_map, if_neg hhead]
        exact (hnew.perm perm_middle).recycle
      · rw [← List.head?_map, hown, List.head?_cons, if_pos rfl]
        show Balanced (segmentCoal port dev d mask pool).1
          ((segmentCoal port dev d mask pool).2.map Held.id ++ rest)
        rw [hpool, hown]
        exact h
  split
  · rename_i htype
    obtain ⟨hlength, hlen⟩ := hok.1 htype (Nat.not_lt.mp hge)
    rw [if_neg (by omega), if_neg hlen]
    exact h
  · exact h

variable (port dev pool) in
theorem processNextHdr_of_not_ok (h : ¬NextHdrOk d.desc.data len) :
    processNextHdr port dev d len pool = (pool.recycle d.id, none) ∨
      processNextHdr port dev d len pool = ((pool.recycle d.id).recycle d.id, some []) := by
  rw [NextHdrOk, not_and_or] at h
  rw [processNextHdr]
  dsimp only
  have hsizes : mapHeaderSize + csumHeaderSize ≤ mapHeaderSize + coalHeaderSize := by decide
  rcases h with hcsum | hcoal
  · left
    rw [Classical.not_imp, Classical.not_imp] at hcsum
    obtain ⟨htype, hge, hempty⟩ := hcsum
    rw [if_neg (Nat.not_lt.mpr hge), htype, if_neg (by decide), if_pos rfl]
    by_cases hlen : d.desc.data.length ≤ mapHeaderSize + csumHeaderSize
    · rw [if_pos hlen]
    · have hzero : len = 0 := by
        by_contra hne
        exact hempty ⟨by omega, hne⟩
      rw [if_neg hlen, if_pos hzero]
  · right
    rw [Classical.not_imp, Classical.not_imp, not_not] at hcoal
    obtain ⟨htype, hsome, hlen⟩ := hcoal
    obtain ⟨mask, hmask⟩ := Option.isSome_iff_exists.mp hsome
    have hsegment : segmentCoal port dev d mask pool = (pool.recycle d.id, []) := by
      rw [segmentCoal, if_neg (by omega), if_pos hlen.le]
    rw [if_neg (by omega), htype, if_pos rfl, hmask]
    dsimp only
    rw [hsegment]
    rfl

/-- A buffer arrives; its next descriptor is handled. -/
inductive Event where
  | deaggregate (port : Port) (skb : List (List UInt8)) (priority : ℕ)
  | handle (port : Port)
  | offload (port : Port)
  | engine (a : Offload.Event)

namespace State

variable (σ : State)

def next : Event → State
  | .deaggregate port skb priority => σ.deaggregate port skb priority
  | .handle port => σ.handle port
  | .offload port => σ.offload port
  | .engine a => { σ with engine := σ.engine.next a }

def inUse : List ℕ :=
  σ.pending.map Held.id ++ σ.segs.map (fun s => s.2.id) ++ σ.delivered ++ σ.handed.map Prod.fst

/-- **Descriptors are conserved**: each was put back once or is in use once, and what was handed to
the offload module is held there or went out. -/
structure Conserved (σ : State) : Prop where
  once : Balanced σ.pool σ.inUse
  engine : (↑(σ.handed.map Prod.snd) : Multiset FragDesc) = σ.engine.descs

/-- Before the first buffer. -/
structure Init (σ : State) : Prop where
  pool : σ.pool = ⟨0, []⟩
  inUse : σ.inUse = []
  handed : σ.handed = []
  engine : σ.engine.Init

end State

/-- A packet with its headers is longer than an IP header can say. -/
def TooLong (pkt : Info) : Prop :=
  65536 < pkt.payloadLen.toNat + pkt.hdrs.ipLen.toNat + pkt.hdrs.transLen.toNat
deriving Decidable

namespace Event

/-- The packets of a buffer are handled one after the other, then those of the next buffer. -/
def Enabled (σ : State) : Event → Prop
  | .deaggregate _ _ _ => σ.pending = [] ∧ σ.segs = []
  | .handle _ => σ.segs = []
  | .offload _ => True
  | .engine a => ∀ pkt, a ≠ .ingress pkt

/-- What the steps must respect: a buffer does not end with a bare header, a next header leaves
something of its packet, and what bypasses the flows of the engine is not too long. -/
def Safe (σ : State) : Event → Prop
  | .deaggregate port skb _ => port.fmt.Complete skb.flatten
  | .handle port =>
    ∀ d ∈ σ.pending.head?, (State.deviceOf port d.desc.data).isSome = true →
      State.hasNextHdr port d.desc.data = true →
      NextHdrOk d.desc.data (State.lenOf d.desc.data)
  | .offload port =>
    ∀ s ∈ σ.segs.head?, ∀ info ∈ dissectPkt port s.1 s.2.desc, σ.engine.Bypasses info → ¬TooLong info
  | .engine _ => True

end Event

/-- Buffers in any order with flushes. -/
def ingressMachine : Machine State Event where
  init := State.Init
  guard := fun σ e => e.Enabled σ
  next := State.next

/-- The runs whose steps respect the conditions. -/
def carefulMachine : Machine State Event where
  init := State.Init
  guard := fun σ e => e.Enabled σ ∧ e.Safe σ
  next := State.next

/-- Descriptors are conserved, and the engine's table names nodes that there are. -/
structure Sound (σ : State) : Prop extends σ.Conserved where
  bounded : σ.engine.Bounded

namespace Sound

variable {σ : State} {port : Port}

theorem deaggregate_iff (h : Sound σ) {skb : List (List UInt8)} {priority : ℕ}
    (hpending : σ.pending = []) :
    Sound (σ.deaggregate port skb priority) ↔ port.fmt.Complete skb.flatten := by
  have hrest : σ.inUse = σ.segs.map (fun s => s.2.id) ++ σ.delivered ++ σ.handed.map Prod.fst := by
    rw [State.inUse, hpending]
    rfl
  have honce := h.once
  rw [hrest] at honce
  refine Iff.trans ⟨fun hs => ?_, fun hb => ⟨⟨?_, h.engine⟩, h.bounded⟩⟩
    (balanced_deaggregate_iff port.fmt skb priority honce)
  · have hnew := hs.once
    rw [State.inUse, append_assoc, append_assoc] at hnew
    rw [append_assoc]
    exact hnew
  · show Balanced _ (_ ++ _ ++ _ ++ _)
    rw [append_assoc] at hb
    rw [append_assoc, append_assoc]
    exact hb

theorem dispatch {dev : Device} {d : Held} {segs : List Held} (hsegs : σ.segs = [])
    (hengine : (↑(σ.handed.map Prod.snd) : Multiset FragDesc) = σ.engine.descs)
    (hbounded : σ.engine.Bounded) :
    Sound (σ.dispatch port dev d segs) ↔ Balanced σ.pool (segs.map Held.id ++ σ.inUse) := by
  have hiff : ∀ {σ' : State}, σ'.pool = σ.pool → σ'.handed = σ.handed → σ'.engine = σ.engine →
      σ'.inUse.Perm (segs.map Held.id ++ σ.inUse) →
      (Sound σ' ↔ Balanced σ.pool (segs.map Held.id ++ σ.inUse)) := by
    intro σ' hpool hhanded hengine' hperm
    refine ⟨fun hs => hpool ▸ hs.once.perm hperm, fun hb => ⟨⟨?_, ?_⟩, hengine' ▸ hbounded⟩⟩
    · rw [hpool]
      exact hb.perm hperm.symm
    · rw [hhanded, hengine']
      exact hengine
  rw [State.dispatch]
  split
  · refine hiff rfl rfl rfl ?_
    rw [perm_iff_count]
    intro a
    simp only [State.inUse, count_append]
    omega
  · refine hiff rfl rfl rfl ?_
    have hids : (segs.map fun s => (dev, s)).map (fun s : Device × Held => s.2.id) =
        segs.map Held.id := by
      rw [map_map]
      rfl
    rw [perm_iff_count]
    intro a
    simp only [State.inUse, count_append, hids, hsegs, map_nil, count_nil]
    omega

theorem recycle {d : Held} (hbal : Balanced σ.pool (d.id :: σ.inUse))
    (hengine : (↑(σ.handed.map Prod.snd) : Multiset FragDesc) = σ.engine.descs)
    (hbounded : σ.engine.Bounded) : Sound (σ.recycle d) :=
  ⟨⟨hbal.recycle, hengine⟩, hbounded⟩

variable (port) in
theorem ingressHandler_iff {d : Held} (hbal : Balanced σ.pool (d.id :: σ.inUse))
    (hengine : (↑(σ.handed.map Prod.snd) : Multiset FragDesc) = σ.engine.descs)
    (hbounded : σ.engine.Bounded) (hsegs : σ.segs = []) :
    Sound (σ.ingressHandler port d) ↔ ((State.deviceOf port d.desc.data).isSome = true →
      State.hasNextHdr port d.desc.data = true →
        NextHdrOk d.desc.data (State.lenOf d.desc.data)) := by
  rw [State.ingressHandler]
  cases hdev : State.deviceOf port d.desc.data with
  | none => exact ⟨fun _ hsome => (Bool.noConfusion hsome), fun _ => recycle hbal hengine hbounded⟩
  | some dev =>
    dsimp only
    by_cases hnext : State.hasNextHdr port d.desc.data = true
    · rw [if_pos hnext]
      by_cases hok : NextHdrOk d.desc.data (State.lenOf d.desc.data)
      · refine ⟨fun _ _ _ => hok, fun _ => ?_⟩
        have hlisted := listed_processNextHdr port dev hbal hok
        cases hresult : processNextHdr port dev d (State.lenOf d.desc.data) σ.pool with
        | mk p r =>
          rw [hresult] at hlisted
          cases r with
          | none => exact recycle (σ := { σ with pool := p }) hlisted hengine hbounded
          | some segs => exact (dispatch (σ := { σ with pool := p }) hsegs hengine hbounded).mpr hlisted
      · have hbad : ¬Balanced ((σ.pool.recycle d.id).recycle d.id) σ.inUse := hbal.recycle.not_recycle
        refine ⟨fun hs => absurd ?_ hbad, fun h => absurd (h rfl hnext) hok⟩
        rcases processNextHdr_of_not_ok port dev σ.pool hok with hr | hr
        · rw [hr] at hs
          exact hs.once
        · rw [hr] at hs
          exact (dispatch (σ := { σ with pool := (σ.pool.recycle d.id).recycle d.id }) hsegs hengine
            hbounded).mp hs
    · rw [if_neg hnext]
      refine ⟨fun _ _ h => absurd h hnext, fun _ => ?_⟩
      split
      · exact recycle hbal hengine hbounded
      split
      · exact recycle hbal hengine hbounded
      · exact (dispatch hsegs hengine hbounded).mpr hbal

theorem handle_iff (h : Sound σ) (hsegs : σ.segs = []) :
    Sound (σ.handle port) ↔ (Event.handle port).Safe σ := by
  rw [State.handle]
  cases hpending : σ.pending with
  | nil =>
    refine ⟨fun _ d hd => ?_, fun _ => h⟩
    rw [hpending] at hd
    cases hd
  | cons d rest =>
    have hbal : Balanced σ.pool (d.id :: ({ σ with pending := rest } : State).inUse) := by
      have honce := h.once
      rw [State.inUse, hpending] at honce
      exact honce
    have hone := ingressHandler_iff (σ := { σ with pending := rest }) port hbal h.engine
      h.bounded hsegs
    refine hone.trans ⟨fun hok d' hd' => ?_, fun hok => ?_⟩
    · rw [hpending] at hd'
      cases hd'
      exact hok
    · exact hok d (by rw [hpending]; rfl)

theorem offload_iff (h : Sound σ) : Sound (σ.offload port) ↔ (Event.offload port).Safe σ := by
  rw [State.offload]
  cases hsegs : σ.segs with
  | nil =>
    refine ⟨fun _ s hs => ?_, fun _ => h⟩
    rw [hsegs] at hs
    cases hs
  | cons s rest =>
    obtain ⟨dev, d⟩ := s
    have hbal : Balanced σ.pool (d.id :: ({ σ with segs := rest } : State).inUse) := by
      refine h.once.perm ?_
      rw [State.inUse, hsegs, map_cons, State.inUse, append_assoc, append_assoc,
        append_assoc, append_assoc]
      exact perm_middle
    have hsafe : (Event.offload port).Safe σ ↔ ∀ info ∈ dissectPkt port dev d.desc,
        σ.engine.Bypasses info → ¬TooLong info := by
      refine ⟨fun hs => hs (dev, d) (by rw [hsegs]; rfl), fun hs s hmem => ?_⟩
      rw [hsegs] at hmem
      cases hmem
      exact hs
    rw [hsafe]
    dsimp only
    cases hinfo : dissectPkt port dev d.desc with
    | none =>
      refine ⟨fun _ info hmem => ?_, fun _ => recycle (σ := { σ with segs := rest }) hbal h.engine
        h.bounded⟩
      cases hmem
    | some info =>
      obtain ⟨hdescs, hbounded⟩ := σ.engine.descs_mainIngress info h.bounded
      have honce : Balanced σ.pool (σ.pending.map Held.id ++ rest.map (fun s => s.2.id) ++ σ.delivered ++
          (σ.handed ++ [(d.id, info.fragDesc)]).map Prod.fst) := by
        refine hbal.perm ?_
        rw [State.inUse, map_append, ← append_assoc]
        exact (perm_append_singleton _ _).symm
      have hhanded : (↑((σ.handed ++ [(d.id, info.fragDesc)]).map Prod.snd) : Multiset FragDesc) =
          σ.engine.descs + {info.fragDesc} := by
        rw [map_append, ← Multiset.coe_add, h.engine]
        rfl
      have hlost : (σ.engine.descs + {info.fragDesc} = (σ.engine.mainIngress info).descs) ↔
          (σ.engine.Bypasses info → ¬TooLong info) := by
        rw [hdescs, add_right_inj]
        by_cases hby : σ.engine.Bypasses info
        · rw [if_pos hby]
          by_cases hlong : TooLong info
          · rw [(parts_flushCurrentPkt info).trans (if_pos hlong)]
            exact ⟨fun heq => absurd heq (by simp), fun hs => absurd hlong (hs hby)⟩
          · rw [(parts_flushCurrentPkt info).trans (if_neg hlong)]
            exact ⟨fun _ _ => hlong, fun _ => rfl⟩
        · rw [if_neg hby]
          exact ⟨fun _ hyes => absurd hyes hby, fun _ => rfl⟩
      constructor
      · intro hs info' hmem
        cases hmem
        exact hlost.mp (hhanded ▸ hs.engine)
      · intro hs
        exact ⟨⟨honce, hhanded.trans (hlost.mpr (hs info rfl))⟩, hbounded⟩

theorem of_init (h : σ.Init) : Sound σ := by
  refine ⟨⟨?_, ?_⟩, .init h.engine⟩
  · rw [h.pool, h.inUse]
    exact List.Perm.refl _
  · rw [h.handed, Engine.descs_init h.engine]
    rfl

/-- **A step keeps the invariant exactly when it respects the conditions.** -/
theorem next_iff (h : Sound σ) {e : Event} (he : e.Enabled σ) : Sound (σ.next e) ↔ e.Safe σ := by
  cases e with
  | deaggregate port skb priority => exact h.deaggregate_iff he.1
  | handle port => exact h.handle_iff he
  | offload port => exact h.offload_iff
  | engine a =>
    obtain ⟨hdescs, hbounded⟩ := Engine.descs_next h.bounded he
    exact ⟨fun _ => trivial, fun _ => ⟨⟨h.once, h.engine.trans hdescs.symm⟩, hbounded⟩⟩

end Sound

/-! ## Runs -/

theorem sound_of_reachable {σ : State} (h : carefulMachine.Reachable σ) : Sound σ :=
  h.invariant (fun _ => Sound.of_init) fun _ _ hs he => (hs.next_iff he.1).mpr he.2

theorem balanced_iff_complete (fmt : DataFormat) (bytes : List UInt8) :
    Balanced (Listing.deaggregate ⟨⟨0, []⟩, []⟩ fmt [bytes] 0).pool
        ((Listing.deaggregate ⟨⟨0, []⟩, []⟩ fmt [bytes] 0).list.map Held.id ++ []) ↔
      fmt.Complete bytes := by
  have hiff := balanced_deaggregate_iff (p := ⟨0, []⟩) fmt [bytes] 0 (List.Perm.refl ([] ++ []))
  rw [flatten_singleton] at hiff
  exact hiff

instance (fmt : DataFormat) (bytes : List UInt8) : Decidable (fmt.Complete bytes) :=
  decidable_of_iff _ (balanced_iff_complete fmt bytes)

instance (σ : State) : ∀ e : Event, Decidable (e.Safe σ)
  | .deaggregate port skb _ => inferInstanceAs (Decidable (port.fmt.Complete skb.flatten))
  | .handle port => inferInstanceAs (Decidable (∀ d ∈ σ.pending.head?,
      (State.deviceOf port d.desc.data).isSome = true → State.hasNextHdr port d.desc.data = true →
        NextHdrOk d.desc.data (State.lenOf d.desc.data)))
  | .offload port => inferInstanceAs (Decidable (∀ s ∈ σ.segs.head?,
      ∀ info ∈ dissectPkt port s.1 s.2.desc, σ.engine.Bypasses info → ¬TooLong info))
  | .engine _ => isTrue trivial

def packet : Offload.Event → Option Info
  | .ingress pkt => some pkt
  | _ => none

theorem packet_eq_none_iff (a : Offload.Event) : packet a = none ↔ ∀ pkt, a ≠ .ingress pkt := by
  cases a <;> simp [packet]

instance (σ : State) : ∀ e : Event, Decidable (e.Enabled σ)
  | .deaggregate _ _ _ => inferInstanceAs (Decidable (_ ∧ _))
  | .handle _ => inferInstanceAs (Decidable (σ.segs = []))
  | .offload _ => isTrue trivial
  | .engine a => decidable_of_iff _ (packet_eq_none_iff a)

instance (σ : State) (e : Event) : Decidable (ingressMachine.guard σ e) :=
  inferInstanceAs (Decidable (e.Enabled σ))

instance (σ : State) (e : Event) : Decidable (carefulMachine.guard σ e) :=
  inferInstanceAs (Decidable (e.Enabled σ ∧ e.Safe σ))

def newState : State := ⟨⟨0, []⟩, [], [], [], [], Offload.start⟩

theorem init_newState : newState.Init := ⟨rfl, rfl, rfl, Offload.start_init⟩

/-- A port in the coalescing format with one kind of device. -/
def somePort : Port where
  fmt := ⟨false, false, true⟩
  endpoint := fun _ => some ⟨true, false⟩
  offloadHook := true
  flowHash := fun _ => 1
  checksumPkt := fun _ => false
  bufsize := fun _ => 4096

/-- Two UDP packets with checksum headers, the first header split between two fragments. -/
def twoPackets : List (List UInt8) :=
  [[0x40, 1],
   [0, 29, 0x04, 0x80, 0, 0,
    0x45, 0, 0, 29, 0, 0, 0, 0, 64, 17, 0, 0, 10, 0, 0, 1, 10, 0, 0, 2,
    0, 53, 0, 53, 0, 9, 0, 0, 7,
    0x40, 1, 0, 29, 0x04, 0x80, 0, 0,
    0x45, 0, 0, 29, 0, 0, 0, 0, 64, 17, 0, 0, 10, 0, 0, 1, 10, 0, 0, 2,
    0, 53, 0, 53, 0, 9, 0, 0, 8]]

end Rmnet.Ingress
