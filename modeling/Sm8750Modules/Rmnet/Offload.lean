import Mathlib

/-!
# The offload engine

Received packets of one TCP or UDP flow are held in a flow node and handed on as one descriptor.
Fifty flow nodes hang in a hash table; a packet is compared with the flow that its key finds, and
is appended to it, replaces what it holds, or goes out behind it.
-/

namespace Rmnet.Offload

/-- `struct rmnet_frag_descriptor`, with the bytes of its fragments in one list. -/
structure FragDesc where
  data : List UInt8
  hash : UInt32
  gsoSize : UInt16
  gsoSegs : UInt16
  coalBytes : UInt32
  coalBufsize : UInt32
  tcpFlagsSet : Bool
  tcpFlags : UInt16
  csumValid : Bool
deriving DecidableEq, Repr

/-- `struct rmnet_offload_header_info`, in host order. -/
structure HeaderInfo where
  sport : UInt16
  dport : UInt16
  saddr : UInt32 × UInt32 × UInt32 × UInt32
  daddr : UInt32 × UInt32 × UInt32 × UInt32
  flagWord : UInt32
  tcpSeq : UInt32
  ipLen : UInt16
  transLen : UInt16
  ipProto : UInt8
  transProto : UInt8
deriving DecidableEq, Repr

structure Info where
  fragDesc : FragDesc
  hdrs : HeaderInfo
  hashKey : UInt32
  payloadLen : UInt16
  firstPkt : Bool
  skipHash : Bool
  lenMismatch : Bool
deriving DecidableEq, Repr

def protoTcp : UInt8 := 6

def protoUdp : UInt8 := 17

/-- A descriptor on its way to the core driver, and the packets it is made of. -/
structure Delivery where
  desc : FragDesc
  packets : List Info
deriving DecidableEq, Repr

/-- `rmnet_frag_header_ptr`: a byte of a header that starts at `off` and has `len` bytes. -/
def FragDesc.headerPtr (d : FragDesc) (off len : ℕ) : Option (ℕ → UInt8) :=
  if off + len ≤ d.data.length then some fun i => d.data.getD (off + i) 0 else none

/-- `struct rmnet_offload_flow`; a held descriptor stands with what the dissection found in it. -/
structure Flow where
  pkts : List Info
  hdrs : HeaderInfo
  hashKey : UInt32
  len : UInt16
  gsoLen : UInt16
  pktsHeld : UInt8
deriving DecidableEq, Repr

def orElseIfZero (x y : UInt16) : UInt16 := if x = 0 then y else x

/-- The loop body of `rmnet_offload_engine_flush_flow`. -/
def FragDesc.addFragsFrom (hlen : ℕ) (head frag : FragDesc) : FragDesc :=
  if hlen ≤ frag.data.length then
    { head with
      data := head.data ++ frag.data.drop hlen
      gsoSegs := head.gsoSegs + orElseIfZero frag.gsoSegs 1
      coalBytes := head.coalBytes + frag.coalBytes
      coalBufsize := head.coalBufsize + frag.coalBufsize }
  else head

namespace Flow

variable (f : Flow) (pkt : Info)

/-- The descriptor that the packets of a flow become. -/
def combine (head : Info) (rest : List Info) : FragDesc :=
  let hlen := f.hdrs.ipLen.toNat + f.hdrs.transLen.toNat
  let start :=
    { head.fragDesc with
      gsoSegs := orElseIfZero head.fragDesc.gsoSegs 1
      gsoSize := f.gsoLen }
  { (rest.map Info.fragDesc).foldl (FragDesc.addFragsFrom hlen) start with hash := f.hashKey }

/-- `rmnet_offload_engine_flush_flow` -/
def flush : Flow × List Delivery :=
  if f.pktsHeld = 0 then (f, [])
  else
    match f.pkts with
    | [] => (f, [])
    | head :: rest =>
      ({ f with pkts := [], pktsHeld := 0, len := 0 }, [⟨f.combine head rest, head :: rest⟩])

/-- The header part of `rmnet_offload_engine_add_flow_pkt`. -/
def startWith : Flow :=
  if pkt.firstPkt then
    { f with
      hdrs := pkt.hdrs
      hashKey := pkt.hashKey
      gsoLen := orElseIfZero pkt.fragDesc.gsoSize pkt.payloadLen }
  else f

/-- `rmnet_offload_engine_add_flow_pkt` -/
def addPkt : Flow :=
  let f := f.startWith pkt
  let hdrs :=
    if pkt.hdrs.transProto = protoTcp then
      { f.hdrs with tcpSeq := f.hdrs.tcpSeq + pkt.payloadLen.toUInt32 }
    else f.hdrs
  { f with
    hdrs := hdrs
    pkts := f.pkts ++ [pkt]
    pktsHeld := f.pktsHeld + 1
    len := f.len + pkt.payloadLen }

def ipMismatch : Bool :=
  if f.pktsHeld = 0 then false
  else if pkt.hdrs.ipProto = 4 then
    f.hdrs.flagWord != pkt.hdrs.flagWord || f.hdrs.ipLen != pkt.hdrs.ipLen
  else if pkt.hdrs.ipProto = 6 then
    (f.hdrs.flagWord ^^^ pkt.hdrs.flagWord) &&& 0x0FF00000 != 0
  else false

/-- `rmnet_offload_engine_flow_match` -/
def matchPkt : Bool :=
  if f.pktsHeld = 0 then f.hashKey == pkt.hashKey
  else if f.hdrs.transProto != pkt.hdrs.transProto then false
  else if f.hdrs.sport != pkt.hdrs.sport || f.hdrs.dport != pkt.hdrs.dport then false
  else if pkt.hdrs.ipProto = 4 then
    f.hdrs.saddr.1 == pkt.hdrs.saddr.1 && f.hdrs.daddr.1 == pkt.hdrs.daddr.1
  else if pkt.hdrs.ipProto = 6 then
    f.hdrs.saddr == pkt.hdrs.saddr && f.hdrs.daddr == pkt.hdrs.daddr
  else false

end Flow

/-- What a merge check asks for. -/
inductive FlushKind where
  | all
  | some
  | none
deriving DecidableEq, Repr

def tcpFlagFlush (pkt : Info) : Bool :=
  match pkt.fragDesc.headerPtr pkt.hdrs.ipLen.toNat 20 with
  | none => true
  | some tp =>
    let flags := if pkt.fragDesc.tcpFlagsSet then pkt.fragDesc.tcpFlags.toUInt8 else tp 13
    (pkt.payloadLen == 0 && flags &&& 0x10 != 0) || flags &&& 0xAF != 0

def doffLen (tp : ℕ → UInt8) : ℕ := (tp 12 >>> 4).toNat * 4

namespace Flow

variable (f : Flow) (pkt : Info)

def tcpOptionMismatch : Bool :=
  match f.pkts.head? with
  | none => true
  | some first =>
    match first.fragDesc.headerPtr f.hdrs.ipLen.toNat f.hdrs.transLen.toNat,
      pkt.fragDesc.headerPtr pkt.hdrs.ipLen.toNat pkt.hdrs.transLen.toNat with
    | some flowHdr, some pktHdr =>
      if doffLen pktHdr ≠ doffLen flowHdr then true
      else (List.range (doffLen flowHdr - 20)).any fun i => flowHdr (20 + i) != pktHdr (20 + i)
    | _, _ => true

def tcpMergeCheck (limit : ℕ) : FlushKind :=
  if tcpFlagFlush pkt then .all
  else if f.pktsHeld = 0 then .none
  else if f.tcpOptionMismatch pkt then .some
  else if pkt.hdrs.tcpSeq ≠ f.hdrs.tcpSeq then .all
  else if orElseIfZero pkt.fragDesc.gsoSize pkt.payloadLen ≠ f.gsoLen then .some
  else if limit ≤ pkt.payloadLen.toNat + f.len.toNat then .some
  else .none

def udpMergeCheck (limit : ℕ) : FlushKind :=
  if f.pktsHeld = 0 then .none
  else if orElseIfZero pkt.fragDesc.gsoSize pkt.payloadLen ≠ f.gsoLen then .some
  else if limit ≤ pkt.payloadLen.toNat + f.len.toNat then .some
  else .none

end Flow

def flushCurrentPkt (pkt : Info) : List Delivery :=
  if 65536 < pkt.payloadLen.toNat + pkt.hdrs.ipLen.toNat + pkt.hdrs.transLen.toNat then []
  else
    let desc :=
      if pkt.skipHash then pkt.fragDesc else { pkt.fragDesc with hash := pkt.hashKey }
    [⟨desc, [pkt]⟩]

namespace Flow

variable (f : Flow) (pkt : Info)

/-- The merge checks leave `roi_first_pkt` set unless the packet joins packets that are held. -/
def joining : Info := { pkt with firstPkt := f.pktsHeld == 0 }

/-- What the ingress handlers do with the result of the merge check. -/
def settle : FlushKind → Flow × List Delivery
  | .none => (f.addPkt (f.joining pkt), [])
  | .some => (f.flush.1.addPkt { pkt with firstPkt := true }, f.flush.2)
  | .all => (f.flush.1, f.flush.2 ++ flushCurrentPkt pkt)

def tcpIngress (limit : ℕ) (forceFlush : Bool) : Flow × List Delivery :=
  if forceFlush then (f.flush.1, f.flush.2 ++ flushCurrentPkt pkt)
  else f.settle pkt (f.tcpMergeCheck pkt limit)

def udpIngress (limit : ℕ) (forceFlush : Bool) : Flow × List Delivery :=
  if forceFlush then (f.flush.1, f.flush.2 ++ flushCurrentPkt pkt)
  else f.settle pkt (f.udpMergeCheck pkt limit)

end Flow

/-! ## The engine -/

def numFlows : ℕ := 50

/-- The engine: the flow nodes, the buckets of the hash table with the newest node first, the
knobs, and what was handed to the core driver. -/
structure Engine where
  pool : ℕ → Flow
  nodesUsed : ℕ
  recycleIdx : ℕ
  table : ℕ → List ℕ
  tcpByteLimit : ℕ
  udpByteLimit : ℕ
  engineMode : ℕ
  dlMarkerStart : Bool
  delivered : List Delivery

/-- `hash_min` for the 32 buckets. -/
def bucketOf (key : UInt32) : ℕ := ((key * 0x61C88647) >>> 27).toNat

namespace Engine

variable (e : Engine) (pkt : Info)

def nodes : List ℕ := (List.range 32).flatMap e.table

def setFlow (i : ℕ) (f : Flow) : Engine := { e with pool := Function.update e.pool i f }

@[simp]
theorem pool_setFlow_self (i : ℕ) (f : Flow) : (e.setFlow i f).pool i = f := by
  simp [setFlow]

theorem pool_setFlow_of_ne {i j : ℕ} (f : Flow) (h : j ≠ i) : (e.setFlow i f).pool j = e.pool j := by
  simp [setFlow, h]

/-- `rmnet_offload_deliver_descs` -/
def deliver (out : List Delivery) : Engine := { e with delivered := e.delivered ++ out }

/-- A node that holds packets and satisfies the condition is flushed. -/
def flushNode (p : Flow → Bool) (s : Engine × List Delivery) (i : ℕ) : Engine × List Delivery :=
  let f := s.1.pool i
  if f.pktsHeld ≠ 0 ∧ p f = true then (s.1.setFlow i f.flush.1, s.2 ++ f.flush.2) else s

def flushByProtocol (l4Proto : UInt8) : Engine × List Delivery :=
  e.nodes.foldl (flushNode fun f => f.hdrs.transProto == l4Proto) (e, [])

def flushByHash (hashVal : UInt32) : Engine × List Delivery :=
  (e.table (bucketOf hashVal)).foldl (flushNode fun f => f.hashKey == hashVal) (e, [])

def flushAllFlows : Engine × List Delivery :=
  e.nodes.foldl (flushNode fun _ => true) (e, [])

def optimizeProtocol (l4Proto : UInt8) : Bool :=
  e.engineMode == 0 || (e.engineMode == 1 && l4Proto == protoTcp) ||
    (e.engineMode == 2 && l4Proto == protoUdp)

def hashDel (i : ℕ) : Engine := { e with table := fun b => (e.table b).filter (· ≠ i) }

def hashAdd (i : ℕ) (key : UInt32) : Engine :=
  { e with table := Function.update e.table (bucketOf key) (i :: e.table (bucketOf key)) }

def recycle : Engine × ℕ :=
  if e.nodesUsed < numFlows then ({ e with nodesUsed := e.nodesUsed + 1 }, e.nodesUsed)
  else
    let i := e.recycleIdx
    let e := { e with recycleIdx := (e.recycleIdx + 1) % numFlows }.hashDel i
    let f := e.pool i
    ((e.setFlow i f.flush.1).deliver f.flush.2, i)

def lookup : Option ℕ :=
  (e.table (bucketOf pkt.hashKey)).find? fun i => (e.pool i).matchPkt pkt

/-- `node_found` of `rmnet_offload_engine_ingress`. -/
def nodeFound (i : ℕ) : Engine × List Delivery × Bool :=
  let f := e.pool i
  let ipFlush := f.ipMismatch pkt
  if pkt.hdrs.transProto = protoTcp then
    let r := f.tcpIngress pkt e.tcpByteLimit ipFlush
    (e.setFlow i r.1, r.2, true)
  else if pkt.hdrs.transProto = protoUdp then
    let r := f.udpIngress pkt e.udpByteLimit ipFlush
    (e.setFlow i r.1, r.2, true)
  else (e, [], false)

def newNode : Engine × ℕ :=
  let r := e.recycle
  let e := r.1.setFlow r.2 { r.1.pool r.2 with hashKey := pkt.hashKey }
  (e.hashAdd r.2 pkt.hashKey, r.2)

def ingress : Engine × List Delivery × Bool :=
  if !e.optimizeProtocol pkt.hdrs.transProto then (e, [], false)
  else
    match e.lookup pkt with
    | some i => e.nodeFound pkt i
    | none => (e.newNode pkt).1.nodeFound pkt (e.newNode pkt).2

/-- `__rmnet_offload_ingress` for an IP packet, after its dissection. -/
def mainIngress : Engine :=
  if pkt.skipHash then e.deliver (flushCurrentPkt pkt)
  else if pkt.lenMismatch then
    let r := e.flushByHash pkt.hashKey
    r.1.deliver (r.2 ++ flushCurrentPkt pkt)
  else if !pkt.fragDesc.csumValid then e.deliver (flushCurrentPkt pkt)
  else
    let r := e.ingress pkt
    if r.2.2 then r.1.deliver r.2.1 else r.1.deliver (r.2.1 ++ flushCurrentPkt pkt)

def chainFlush : Engine := e.flushAllFlows.1.deliver e.flushAllFlows.2

def dlHeader : Engine :=
  { (if e.dlMarkerStart then e.chainFlush else e) with dlMarkerStart := true }

def dlTrailer : Engine := { e.chainFlush with dlMarkerStart := false }

def modeChange (newMode : ℕ) : Engine :=
  if e.engineMode = 3 ∨ newMode = 0 then e
  else if newMode = 1 then
    let r := e.flushByProtocol protoUdp
    r.1.deliver r.2
  else if newMode = 2 then
    let r := e.flushByProtocol protoTcp
    r.1.deliver r.2
  else if newMode = 3 then e.chainFlush
  else e

/-- `__rmnet_offload_knob_set` for the two byte limits and the engine mode. -/
def setTcpByteLimit (v : ℕ) : Engine := if 65000 < v then e else { e with tcpByteLimit := v }

def setUdpByteLimit (v : ℕ) : Engine := if 65000 < v then e else { e with udpByteLimit := v }

def setEngineMode (v : ℕ) : Engine :=
  if 3 < v ∨ v = e.engineMode then e else { e.modeChange v with engineMode := v }

end Engine

end Rmnet.Offload
