import Sm8750Modules.Rmnet.Coalesced
import Sm8750Modules.Rmnet.OffloadCounts

/-!
# Deliveries of merged packets

A flow appends the payloads of its packets behind the headers of the first. Cut by the segment
size, a delivery gives the packets back where the packets of a flow agree.
-/

namespace Rmnet.Offload

open Rmnet.Coalesced (byteAt be16At be32At)
open List

/-- A payload cut into segments of `n` bytes, the last one shorter perhaps. -/
def resegmentFuel (n : ℕ) : ℕ → List UInt8 → List (List UInt8)
  | 0, l => [l]
  | fuel + 1, l => if l.length ≤ n then [l] else l.take n :: resegmentFuel n fuel (l.drop n)

def resegment (n : ℕ) (l : List UInt8) : List (List UInt8) :=
  if n = 0 then [l] else resegmentFuel n l.length l

variable {n : ℕ} {l : List UInt8}

theorem resegmentFuel_of_le {fuel : ℕ} (h : l.length ≤ n) : resegmentFuel n fuel l = [l] := by
  cases fuel with
  | zero => rfl
  | succ fuel => rw [resegmentFuel, if_pos h]

theorem resegmentFuel_eq {fuel : ℕ} (hn : 0 < n) (h : l.length ≤ fuel) :
    resegmentFuel n fuel l = resegment n l := by
  rw [resegment, if_neg hn.ne']
  induction fuel using Nat.strong_induction_on generalizing l with
  | h fuel ih =>
    by_cases hle : l.length ≤ n
    · rw [resegmentFuel_of_le hle, resegmentFuel_of_le hle]
    · cases fuel with
      | zero => omega
      | succ fuel =>
        have hdrop : (l.drop n).length ≤ fuel := by
          rw [length_drop]
          omega
        cases hlen : l.length with
        | zero => omega
        | succ m =>
          rw [resegmentFuel, resegmentFuel, if_neg hle]
          have hm : (l.drop n).length ≤ m := by
            rw [length_drop]
            omega
          rw [ih fuel (Nat.lt_succ_self _) hdrop, ih m (by omega) hm, if_neg hle]

theorem resegment_of_le (h : l.length ≤ n) : resegment n l = [l] := by
  rw [resegment]
  split
  · rfl
  · exact resegmentFuel_of_le h

theorem resegment_of_lt (hn : 0 < n) (h : n < l.length) :
    resegment n l = l.take n :: resegment n (l.drop n) := by
  have hstep : resegmentFuel n (l.length + 1) l = l.take n :: resegmentFuel n l.length (l.drop n) := by
    rw [resegmentFuel, if_neg (by omega)]
  have hdrop : (l.drop n).length ≤ l.length := by
    rw [length_drop]
    omega
  rw [← resegmentFuel_eq hn (Nat.le_succ l.length), hstep, resegmentFuel_eq hn hdrop]

theorem resegment_append {k : ℕ} (hn : 0 < n) {a b : List UInt8} (ha : a.length = n * (k + 1))
    (hb : b ≠ []) : resegment n (a ++ b) = resegment n a ++ resegment n b := by
  have hpos : 0 < b.length := length_pos_of_ne_nil hb
  induction k generalizing a with
  | zero =>
    rw [Nat.zero_add, Nat.mul_one] at ha
    rw [resegment_of_lt hn (by rw [length_append]; omega), resegment_of_le ha.le,
      take_append_of_le_length ha.ge, take_of_length_le ha.le,
      drop_append_of_le_length ha.ge, drop_eq_nil_of_le ha.le]
    rfl
  | succ k ih =>
    have hlt : n < a.length := by
      rw [ha]
      nlinarith
    have hrest : (a.drop n).length = n * (k + 1) := by
      rw [length_drop, ha, Nat.mul_succ n (k + 1), Nat.add_sub_cancel]
    rw [resegment_of_lt hn (by rw [length_append]; omega), resegment_of_lt hn hlt,
      take_append_of_le_length hlt.le, drop_append_of_le_length hlt.le, ih hrest]
    rfl

/-! ## Packets -/

namespace Info

variable (p : Info)

def hlen : ℕ := p.hdrs.ipLen.toNat + p.hdrs.transLen.toNat

def payload : List UInt8 := p.fragDesc.data.drop p.hlen

def segments : List (List UInt8) := resegment p.fragDesc.gsoSize.toNat p.payload

def gsoLen : UInt16 := orElseIfZero p.fragDesc.gsoSize p.payloadLen

def doff : ℕ := (byteAt p.fragDesc.data (p.hdrs.ipLen.toNat + 12) >>> 4).toNat

def options : List UInt8 :=
  (List.range (p.doff * 4 - 20)).map fun i => byteAt p.fragDesc.data (p.hdrs.ipLen.toNat + (20 + i))

/-- The TCP flags, which the core driver may have set in the descriptor. -/
def tcpFlags : UInt8 :=
  if p.fragDesc.tcpFlagsSet then p.fragDesc.tcpFlags.toUInt8
  else byteAt p.fragDesc.data (p.hdrs.ipLen.toNat + 13)

def specialFlags : UInt8 := p.tcpFlags &&& 0xAF

def trafficClass : UInt32 :=
  if p.hdrs.ipProto = 4 then p.hdrs.flagWord &&& 0x00FF0000 else p.hdrs.flagWord &&& 0x0FF00000

def ackNumber : UInt32 := be32At p.fragDesc.data (p.hdrs.ipLen.toNat + 8)

end Info

def seqBytes (l : List Info) : UInt32 := (l.map fun p => p.payloadLen.toUInt32).sum

/-- What a merged packet has in common with the first one. -/
structure SameHeaders (head p : Info) : Prop where
  ipProto : p.hdrs.ipProto = head.hdrs.ipProto
  transProto : p.hdrs.transProto = head.hdrs.transProto
  ipLen : p.hdrs.ipLen = head.hdrs.ipLen
  transLen : p.hdrs.transLen = head.hdrs.transLen
  trafficClass : p.trafficClass = head.trafficClass
  options : p.hdrs.transProto = protoTcp → p.options = head.options
  flags : p.hdrs.transProto = protoTcp → p.specialFlags = head.specialFlags

/-- **A delivery gives its packets back**. -/
structure Delivery.Transparent (d : Delivery) : Prop where
  segments : ∀ head ∈ d.packets.head?, d.desc.data.take head.hlen = head.fragDesc.data.take head.hlen ∧
    resegment d.desc.gsoSize.toNat (d.desc.data.drop head.hlen) = d.packets.flatMap Info.segments
  seq : ∀ pre p post, d.packets = pre ++ p :: post → p.hdrs.transProto = protoTcp →
    ∀ head ∈ d.packets.head?, p.hdrs.tcpSeq = head.hdrs.tcpSeq + seqBytes pre
  same : ∀ head ∈ d.packets.head?, ∀ p ∈ d.packets, SameHeaders head p

theorem SameHeaders.refl (p : Info) : SameHeaders p p := ⟨rfl, rfl, rfl, rfl, rfl, fun _ => rfl, fun _ => rfl⟩

variable {head : Info}

theorem SameHeaders.hlen {p : Info} (h : SameHeaders head p) : p.hlen = head.hlen := by
  rw [Info.hlen, Info.hlen, h.ipLen, h.transLen]

theorem Delivery.transparent_singleton {desc : FragDesc} {p : Info} (hdata : desc.data = p.fragDesc.data)
    (hgso : resegment desc.gsoSize.toNat p.payload = p.segments) : (Delivery.mk desc [p]).Transparent := by
  refine ⟨fun head hhead => ?_, fun pre q post heq _ head hhead => ?_, fun head hhead q hq => ?_⟩
  · cases hhead
    show desc.data.take p.hlen = _ ∧ resegment desc.gsoSize.toNat (desc.data.drop p.hlen) =
      p.segments ++ []
    rw [hdata, append_nil]
    exact ⟨rfl, hgso⟩
  · cases hhead
    cases pre with
    | nil =>
      cases heq
      show p.hdrs.tcpSeq = p.hdrs.tcpSeq + 0
      rw [UInt32.add_zero]
    | cons a pre =>
      have hlen := congrArg List.length heq
      simp at hlen
  · cases hhead
    rw [mem_singleton.mp hq]
    exact .refl p

/-- What the dissection finds in a packet that is a candidate. -/
structure Info.Dissected (p : Info) : Prop where
  version : p.hdrs.ipProto = 4 ∨ p.hdrs.ipProto = 6
  proto : p.hdrs.transProto = protoTcp ∨ p.hdrs.transProto = protoUdp
  length : p.fragDesc.data.length < 65536
  fits : p.hlen ≤ p.fragDesc.data.length
  payloadLen : p.payloadLen = UInt16.ofNat p.fragDesc.data.length - p.hdrs.ipLen - p.hdrs.transLen
  tcp : p.hdrs.transProto = protoTcp → p.hdrs.transLen.toNat = p.doff * 4
  udp : p.hdrs.transProto = protoUdp → p.hdrs.transLen = 8

namespace Info.Dissected

variable {p : Info}

theorem congr (h : p.Dissected) (b : Bool) : Info.Dissected { p with firstPkt := b } :=
  ⟨h.version, h.proto, h.length, h.fits, h.payloadLen, h.tcp, h.udp⟩

theorem length_payload (h : p.Dissected) : p.payload.length = p.payloadLen.toNat := by
  have hlen := h.length
  have hle := h.fits
  rw [Info.payload, length_drop, h.payloadLen]
  rw [Info.hlen] at hle ⊢
  have hdata : (UInt16.ofNat p.fragDesc.data.length).toNat = p.fragDesc.data.length := by
    rw [UInt16.toNat_ofNat', Nat.mod_eq_of_lt hlen]
  rw [UInt16.toNat_sub_of_le, UInt16.toNat_sub_of_le, hdata]
  · omega
  · rw [UInt16.le_iff_toNat_le, hdata]
    omega
  · rw [UInt16.le_iff_toNat_le, UInt16.toNat_sub_of_le, hdata]
    · omega
    · rw [UInt16.le_iff_toNat_le, hdata]
      omega

theorem resegment_gsoLen (h : p.Dissected) : resegment p.gsoLen.toNat p.payload = p.segments := by
  rw [Info.segments, Info.gsoLen, orElseIfZero]
  split
  · rename_i hzero
    rw [hzero, resegment_of_le h.length_payload.le]
    rfl
  · rfl

end Info.Dissected

/-! ## Flows -/

theorem and_eq_of_xor_and {a b m : UInt32} (h : (a ^^^ b) &&& m = 0) : a &&& m = b &&& m := by
  have hand : (a &&& m) ^^^ (b &&& m) = 0 := by
    rw [← h, ← UInt32.toBitVec_inj]
    simp only [UInt32.toBitVec_xor, UInt32.toBitVec_and]
    ext i
    simp only [BitVec.getElem_xor, BitVec.getElem_and]
    exact (Bool.and_xor_distrib_right _ _ _).symm
  exact UInt32.xor_eq_zero_iff.mp hand

/-- Packets that a flow may hold together behind `head`. -/
structure Mergeable (head : Info) (l : List Info) : Prop where
  dissected : ∀ p ∈ l, p.Dissected
  same : ∀ p ∈ l, SameHeaders head p
  seq : ∀ pre p post, l = pre ++ p :: post → p.hdrs.transProto = protoTcp →
    p.hdrs.tcpSeq = head.hdrs.tcpSeq + seqBytes pre
  whole : l.length = 1 ∨ 0 < head.gsoLen.toNat ∧ ∀ p ∈ l, p.hlen ≤ p.fragDesc.data.length ∧
    p.gsoLen = head.gsoLen ∧ ∃ k, p.payload.length = head.gsoLen.toNat * (k + 1)
  flags : ∀ p ∈ l, p.hdrs.transProto = protoTcp → p.specialFlags = 0

theorem resegment_flatMap {l : List Info} (hne : l ≠ []) (hn : 0 < n)
    (hwhole : ∀ p ∈ l, ∃ k, p.payload.length = n * (k + 1))
    (hsegs : ∀ p ∈ l, resegment n p.payload = p.segments) :
    resegment n (l.flatMap Info.payload) = l.flatMap Info.segments := by
  have hpos : ∀ p ∈ l, p.payload ≠ [] := by
    intro p hp hnil
    obtain ⟨k, hk⟩ := hwhole p hp
    rw [hnil, length_nil] at hk
    exact absurd hk.symm (Nat.mul_pos hn k.succ_pos).ne'
  induction l with
  | nil => exact absurd rfl hne
  | cons p l ih =>
    rw [flatMap_cons, flatMap_cons]
    by_cases hl : l = []
    · rw [hl, flatMap_nil, flatMap_nil, append_nil, append_nil]
      exact hsegs p mem_cons_self
    · obtain ⟨k, hk⟩ := hwhole p mem_cons_self
      have hrest : l.flatMap Info.payload ≠ [] := by
        obtain ⟨q, hq⟩ := exists_mem_of_ne_nil l hl
        intro hnil
        exact hpos q (mem_cons_of_mem p hq) (flatMap_eq_nil_iff.mp hnil q hq)
      rw [resegment_append hn hk hrest, hsegs p mem_cons_self,
        ih hl (fun q hq => hwhole q (mem_cons_of_mem p hq))
          (fun q hq => hsegs q (mem_cons_of_mem p hq))
          (fun q hq => hpos q (mem_cons_of_mem p hq))]

theorem data_combine (f : Flow) (rest : List Info)
    (hlen : f.hdrs.ipLen.toNat + f.hdrs.transLen.toNat = head.hlen)
    (hrest : ∀ p ∈ rest, p.hlen = head.hlen ∧ p.hlen ≤ p.fragDesc.data.length) :
    (f.combine head rest).data = head.fragDesc.data ++ rest.flatMap Info.payload ∧
      (f.combine head rest).gsoSize = f.gsoLen := by
  rw [Flow.combine]
  dsimp only
  rw [hlen]
  have hfold : ∀ (start : FragDesc), ((rest.map Info.fragDesc).foldl (FragDesc.addFragsFrom head.hlen)
      start).data = start.data ++ rest.flatMap Info.payload ∧
      ((rest.map Info.fragDesc).foldl (FragDesc.addFragsFrom head.hlen) start).gsoSize =
        start.gsoSize := by
    induction rest with
    | nil => exact fun start => ⟨(append_nil _).symm, rfl⟩
    | cons p rest ih =>
      intro start
      obtain ⟨hp, hle⟩ := hrest p mem_cons_self
      have hadd : (start.addFragsFrom head.hlen p.fragDesc).data = start.data ++ p.payload ∧
          (start.addFragsFrom head.hlen p.fragDesc).gsoSize = start.gsoSize := by
        rw [FragDesc.addFragsFrom, if_pos (hp ▸ hle), Info.payload, hp]
        exact ⟨rfl, rfl⟩
      obtain ⟨hdata, hgso⟩ := ih (fun q hq => hrest q (mem_cons_of_mem p hq))
        (start.addFragsFrom head.hlen p.fragDesc)
      rw [map_cons, foldl_cons, hdata, hgso, hadd.1, hadd.2, flatMap_cons, append_assoc]
      exact ⟨rfl, rfl⟩
  exact hfold _

theorem Mergeable.transparent {f : Flow} {rest : List Info}
    (h : Mergeable head (head :: rest))
    (hlen : f.hdrs.ipLen.toNat + f.hdrs.transLen.toNat = head.hlen) (hgso : f.gsoLen = head.gsoLen) :
    (Delivery.mk (f.combine head rest) (head :: rest)).Transparent := by
  have hhead := mem_cons_self (a := head) (l := rest)
  by_cases hrest : rest = []
  · obtain ⟨hdata, hsize⟩ := data_combine f [] hlen
      (fun p hp => nomatch hp)
    rw [hrest]
    refine Delivery.transparent_singleton ?_ ?_
    · rw [hdata, flatMap_nil, append_nil]
    · rw [hsize, hgso]
      exact (h.dissected head hhead).resegment_gsoLen
  · obtain ⟨hpos, hwhole⟩ := h.whole.resolve_left fun hone => hrest (length_eq_zero_iff.mp
      (Nat.succ_injective hone))
    obtain ⟨hdata, hsize⟩ := data_combine f rest hlen fun p hp =>
      ⟨(h.same p (mem_cons_of_mem head hp)).hlen, (hwhole p (mem_cons_of_mem head hp)).1⟩
    obtain ⟨hfits, -, k, hk⟩ := hwhole head hhead
    refine ⟨fun head' hhead' => ?_, fun pre p post heq htcp head' hhead' => ?_,
      fun head' hhead' p hp => ?_⟩
    · cases hhead'
      show (f.combine head rest).data.take head.hlen = _ ∧ resegment (f.combine head rest).gsoSize.toNat
        ((f.combine head rest).data.drop head.hlen) = _
      rw [hdata, hsize, hgso, take_append_of_le_length hfits, drop_append_of_le_length hfits]
      refine ⟨rfl, resegment_flatMap (l := head :: rest) (cons_ne_nil _ _) hpos
        (fun p hp => (hwhole p hp).2.2) fun p hp => ?_⟩
      rw [← (hwhole p hp).2.1]
      exact (h.dissected p hp).resegment_gsoLen
    · cases hhead'
      exact h.seq pre p post heq htcp
    · cases hhead'
      exact h.same p hp

/-- What a flow holds is mergeable, and its headers are those of the first packet with the next
sequence number. -/
def Flow.Merged (f : Flow) : Prop :=
  ∀ head ∈ f.pkts.head?, Mergeable head f.pkts ∧ f.gsoLen = head.gsoLen ∧ f.hashKey = head.hashKey ∧
    f.hdrs = { head.hdrs with
      tcpSeq := if head.hdrs.transProto = protoTcp then head.hdrs.tcpSeq + seqBytes f.pkts
        else head.hdrs.tcpSeq }

namespace Flow

variable {f : Flow} {pkt : Info}

theorem Merged.of_nil (h : f.pkts = []) : f.Merged := by
  intro head hhead
  rw [h] at hhead
  cases hhead

theorem Merged.transparent_flush (h : f.Merged) : ∀ d ∈ f.flush.2, d.Transparent := by
  intro d hd
  rw [Flow.flush] at hd
  split at hd
  · cases hd
  · split at hd
    · cases hd
    · rename_i head rest hpkts
      rw [mem_singleton.mp hd]
      obtain ⟨hmerge, hgso, -, hhdrs⟩ := h head (by rw [hpkts]; rfl)
      rw [hpkts] at hmerge
      refine hmerge.transparent ?_ hgso
      rw [hhdrs]
      rfl

theorem seqBytes_append (l l' : List Info) : seqBytes (l ++ l') = seqBytes l + seqBytes l' := by
  rw [seqBytes, map_append, sum_append]
  rfl

theorem seqBytes_singleton (p : Info) : seqBytes [p] = p.payloadLen.toUInt32 := by
  show p.payloadLen.toUInt32 + 0 = _
  rw [UInt32.add_zero]

theorem Merged.addPkt_first (hpkts : f.pkts = []) (hp : pkt.Dissected)
    (hflags : pkt.hdrs.transProto = protoTcp → pkt.specialFlags = 0) :
    (f.addPkt { pkt with firstPkt := true }).Merged := by
  intro head hhead
  have hadded := pkts_addPkt f { pkt with firstPkt := true }
  rw [hpkts, nil_append] at hadded
  rw [hadded] at hhead ⊢
  cases hhead
  have hmerge : Mergeable { pkt with firstPkt := true } [{ pkt with firstPkt := true }] := by
    refine ⟨fun p hp' => ?_, fun p hp' => ?_, fun pre p post heq _ => ?_, .inl rfl, fun p hp' => ?_⟩
    · rw [mem_singleton.mp hp']
      exact hp.congr true
    · rw [mem_singleton.mp hp']
      exact .refl _
    · cases pre with
      | nil =>
        cases heq
        show pkt.hdrs.tcpSeq = pkt.hdrs.tcpSeq + 0
        rw [UInt32.add_zero]
      | cons a pre =>
        have hlen := congrArg List.length heq
        simp at hlen
    · rw [mem_singleton.mp hp']
      exact hflags
  refine ⟨hmerge, rfl, rfl, ?_⟩
  rw [seqBytes_singleton]
  show (if pkt.hdrs.transProto = protoTcp then
    { pkt.hdrs with tcpSeq := pkt.hdrs.tcpSeq + pkt.payloadLen.toUInt32 } else pkt.hdrs) = _
  by_cases htcp : pkt.hdrs.transProto = protoTcp
  · rw [if_pos htcp, if_pos htcp]
  · rw [if_neg htcp, if_neg htcp]

/-- The packet agrees with the flow in what is not compared: the length of the IP headers of IPv6
packets, and whether there are whole segments on both sides. -/
structure Agrees (f : Flow) (pkt : Info) : Prop where
  ipLen : pkt.hdrs.ipProto = 6 → pkt.hdrs.ipLen = f.hdrs.ipLen
  whole : ∀ p ∈ f.pkts ++ [pkt], p.payloadLen ≠ 0 ∧ f.gsoLen.toNat ∣ p.payloadLen.toNat

instance (f : Flow) (pkt : Info) : Decidable (f.Agrees pkt) :=
  decidable_of_iff ((pkt.hdrs.ipProto = 6 → pkt.hdrs.ipLen = f.hdrs.ipLen) ∧
      ∀ p ∈ f.pkts ++ [pkt], p.payloadLen ≠ 0 ∧ f.gsoLen.toNat ∣ p.payloadLen.toNat)
    ⟨fun h => ⟨h.1, h.2⟩, fun h => ⟨h.ipLen, h.whole⟩⟩

/-- What is compared when a packet joins the packets of a flow. -/
structure Compared (f : Flow) (pkt : Info) : Prop where
  transProto : pkt.hdrs.transProto = f.hdrs.transProto
  ipLen : pkt.hdrs.ipProto = 4 → pkt.hdrs.ipLen = f.hdrs.ipLen
  trafficClass : ∀ mask, mask = (if pkt.hdrs.ipProto = 4 then 0x00FF0000 else 0x0FF00000) →
    pkt.hdrs.flagWord &&& mask = f.hdrs.flagWord &&& mask
  gsoLen : pkt.gsoLen = f.gsoLen
  seq : pkt.hdrs.transProto = protoTcp → pkt.hdrs.tcpSeq = f.hdrs.tcpSeq
  flags : pkt.hdrs.transProto = protoTcp → pkt.specialFlags = 0
  options : pkt.hdrs.transProto = protoTcp → f.tcpOptionMismatch pkt = false

theorem specialFlags_of_tcpFlagFlush (h : tcpFlagFlush pkt = false) : pkt.specialFlags = 0 := by
  rw [tcpFlagFlush] at h
  cases hptr : pkt.fragDesc.headerPtr pkt.hdrs.ipLen.toNat 20 with
  | none =>
    rw [hptr] at h
    cases h
  | some tp =>
    rw [hptr] at h
    rw [FragDesc.headerPtr] at hptr
    split at hptr
    · cases hptr
      have hflags := (Bool.or_eq_false_iff.mp h).2
      exact bne_eq_false_iff_eq.mp hflags
    · cases hptr

theorem options_of_tcpOptionMismatch (hhead : f.pkts.head? = some head)
    (hlen : f.hdrs.ipLen = head.hdrs.ipLen) (h : f.tcpOptionMismatch pkt = false) :
    pkt.doff = head.doff ∧ pkt.options = head.options := by
  rw [tcpOptionMismatch, hhead] at h
  dsimp only at h
  cases hflow : head.fragDesc.headerPtr f.hdrs.ipLen.toNat f.hdrs.transLen.toNat with
  | none =>
    rw [hflow] at h
    cases h
  | some flowHdr =>
    cases hpkt : pkt.fragDesc.headerPtr pkt.hdrs.ipLen.toNat pkt.hdrs.transLen.toNat with
    | none =>
      rw [hflow, hpkt] at h
      cases h
    | some pktHdr =>
      rw [hflow, hpkt] at h
      dsimp only at h
      split at h
      · cases h
      · rename_i hdoff
        have hflowHdr : flowHdr = fun i => byteAt head.fragDesc.data (head.hdrs.ipLen.toNat + i) := by
          rw [FragDesc.headerPtr, hlen] at hflow
          split at hflow
          · exact (Option.some_inj.mp hflow).symm
          · cases hflow
        have hpktHdr : pktHdr = fun i => byteAt pkt.fragDesc.data (pkt.hdrs.ipLen.toNat + i) := by
          rw [FragDesc.headerPtr] at hpkt
          split at hpkt
          · exact (Option.some_inj.mp hpkt).symm
          · cases hpkt
        rw [hflowHdr, hpktHdr] at h hdoff
        have hwords : pkt.doff = head.doff :=
          Nat.eq_of_mul_eq_mul_right (by decide) (not_not.mp hdoff)
        refine ⟨hwords, ?_⟩
        rw [Info.options, Info.options, hwords]
        refine map_congr_left fun i hi => ?_
        have hbyte := any_eq_false.mp h i hi
        exact (not_not.mp fun hne => hbyte (bne_iff_ne.mpr hne)).symm

theorem ip_of_match (hheld : f.pktsHeld ≠ 0) (hmatch : f.matchPkt pkt = true)
    (hip : f.ipMismatch pkt = false) (hversion : pkt.hdrs.ipProto = 4 ∨ pkt.hdrs.ipProto = 6) :
    pkt.hdrs.transProto = f.hdrs.transProto ∧
      (pkt.hdrs.ipProto = 4 → pkt.hdrs.ipLen = f.hdrs.ipLen) ∧
      ∀ mask, mask = (if pkt.hdrs.ipProto = 4 then 0x00FF0000 else 0x0FF00000) →
        pkt.hdrs.flagWord &&& mask = f.hdrs.flagWord &&& mask := by
  have htrans : pkt.hdrs.transProto = f.hdrs.transProto := by
    rw [matchPkt, if_neg hheld] at hmatch
    split at hmatch
    · cases hmatch
    · rename_i hne
      exact (not_not.mp fun h => hne (bne_iff_ne.mpr h)).symm
  refine ⟨htrans, ?_⟩
  rw [ipMismatch, if_neg hheld] at hip
  rcases hversion with hv | hv
  · rw [if_pos hv] at hip
    obtain ⟨hword, hlen⟩ := Bool.or_eq_false_iff.mp hip
    refine ⟨fun _ => (bne_eq_false_iff_eq.mp hlen).symm, fun mask _ => ?_⟩
    rw [bne_eq_false_iff_eq.mp hword]
  · have hne : ¬pkt.hdrs.ipProto = 4 := by
      rw [hv]
      decide
    rw [if_neg hne, if_pos hv] at hip
    refine ⟨fun h => absurd h hne, fun mask hmask => ?_⟩
    rw [if_neg hne] at hmask
    rw [hmask]
    exact (and_eq_of_xor_and (bne_eq_false_iff_eq.mp hip)).symm

theorem compared_of_tcpMergeCheck {limit : ℕ} (hheld : f.pktsHeld ≠ 0) (hmatch : f.matchPkt pkt = true)
    (hip : f.ipMismatch pkt = false) (hversion : pkt.hdrs.ipProto = 4 ∨ pkt.hdrs.ipProto = 6)
    (hcheck : f.tcpMergeCheck pkt limit = .none) : f.Compared pkt := by
  obtain ⟨htrans, hlen, hclass⟩ := ip_of_match hheld hmatch hip hversion
  rw [tcpMergeCheck, if_neg hheld] at hcheck
  split at hcheck
  · cases hcheck
  rename_i hflags
  split at hcheck
  · cases hcheck
  rename_i hoptions
  split at hcheck
  · cases hcheck
  rename_i hseq
  split at hcheck
  · cases hcheck
  rename_i hgso
  exact ⟨htrans, hlen, hclass, not_not.mp hgso, fun _ => not_not.mp hseq,
    fun _ => specialFlags_of_tcpFlagFlush (Bool.eq_false_iff.mpr hflags),
    fun _ => Bool.eq_false_iff.mpr hoptions⟩

theorem compared_of_udpMergeCheck {limit : ℕ} (hheld : f.pktsHeld ≠ 0) (hmatch : f.matchPkt pkt = true)
    (hip : f.ipMismatch pkt = false) (hversion : pkt.hdrs.ipProto = 4 ∨ pkt.hdrs.ipProto = 6)
    (hudp : pkt.hdrs.transProto ≠ protoTcp) (hcheck : f.udpMergeCheck pkt limit = .none) :
    f.Compared pkt := by
  obtain ⟨htrans, hlen, hclass⟩ := ip_of_match hheld hmatch hip hversion
  rw [udpMergeCheck, if_neg hheld] at hcheck
  split at hcheck
  · cases hcheck
  rename_i hgso
  exact ⟨htrans, hlen, hclass, not_not.mp hgso, fun h => absurd h hudp, fun h => absurd h hudp,
    fun h => absurd h hudp⟩

theorem Compared.same (h : f.Compared pkt) (hagrees : f.Agrees pkt)
    (hversion : pkt.hdrs.ipProto = head.hdrs.ipProto) (hhead : f.pkts.head? = some head)
    (hflow : f.hdrs = { head.hdrs with tcpSeq := f.hdrs.tcpSeq }) (hp : pkt.Dissected)
    (hd : head.Dissected) (hflags : head.hdrs.transProto = protoTcp → head.specialFlags = 0) :
    SameHeaders head pkt := by
  have hipLen : f.hdrs.ipLen = head.hdrs.ipLen := by
    rw [hflow]
  have htrans : pkt.hdrs.transProto = head.hdrs.transProto := by
    rw [h.transProto, hflow]
  have hoptions : pkt.hdrs.transProto = protoTcp → pkt.doff = head.doff ∧ pkt.options = head.options :=
    fun htcp => options_of_tcpOptionMismatch hhead hipLen (h.options htcp)
  refine ⟨hversion, htrans, ?_, ?_, ?_, fun htcp => (hoptions htcp).2, fun htcp => ?_⟩
  · rcases hp.version with hv | hv
    · exact (h.ipLen hv).trans hipLen
    · exact (hagrees.ipLen hv).trans hipLen
  · rcases hp.proto with htcp | hudp
    · rw [← UInt16.toNat_inj, hp.tcp htcp, hd.tcp (htrans ▸ htcp), (hoptions htcp).1]
    · rw [hp.udp hudp, hd.udp (htrans ▸ hudp)]
  · have hclass := h.trafficClass _ rfl
    rw [hflow] at hclass
    rw [Info.trafficClass, Info.trafficClass, ← hversion]
    by_cases hv : pkt.hdrs.ipProto = 4
    · rw [if_pos hv] at hclass
      rw [if_pos hv, if_pos hv]
      exact hclass
    · rw [if_neg hv] at hclass
      rw [if_neg hv, if_neg hv]
      exact hclass
  · rw [h.flags htcp, hflags (htrans ▸ htcp)]

theorem whole_of_dvd {p : Info} (hp : p.Dissected) (hne : p.payloadLen ≠ 0)
    (hdvd : n ∣ p.payloadLen.toNat) : 0 < n ∧ ∃ k, p.payload.length = n * (k + 1) := by
  have hpos : p.payloadLen.toNat ≠ 0 := fun h => hne (UInt16.toNat_inj.mp h)
  obtain ⟨k, hk⟩ := hdvd
  rw [hk] at hpos
  rw [hp.length_payload, hk]
  refine ⟨Nat.pos_of_ne_zero (left_ne_zero_of_mul hpos), k - 1, ?_⟩
  rw [Nat.sub_add_cancel (Nat.pos_of_ne_zero (right_ne_zero_of_mul hpos))]

theorem Compared.mergeable (h : f.Compared pkt) (hmerged : Mergeable head f.pkts)
    (hagrees : f.Agrees pkt) (hhead : f.pkts.head? = some head) (hgso : f.gsoLen = head.gsoLen)
    (hsame : SameHeaders head pkt) (hp : pkt.Dissected)
    (hseq : pkt.hdrs.transProto = protoTcp → f.hdrs.tcpSeq = head.hdrs.tcpSeq + seqBytes f.pkts) :
    Mergeable head (f.pkts ++ [pkt]) := by
  have hdissected : ∀ p ∈ f.pkts ++ [pkt], p.Dissected := by
    intro p hmem
    rcases mem_append.mp hmem with hold | hnew
    · exact hmerged.dissected p hold
    · rw [mem_singleton.mp hnew]
      exact hp
  have hgsoLen : ∀ p ∈ f.pkts ++ [pkt], p.gsoLen = head.gsoLen := by
    intro p hmem
    rcases mem_append.mp hmem with hold | hnew
    · rcases hmerged.whole with hone | hmany
      · obtain ⟨q, hq⟩ := length_eq_one_iff.mp hone
        rw [hq] at hhead hold
        rw [mem_singleton.mp hold, Option.some_inj.mp hhead]
      · exact (hmany.2 p hold).2.1
    · rw [mem_singleton.mp hnew, ← hgso]
      exact h.gsoLen
  have hwhole : ∀ p ∈ f.pkts ++ [pkt], 0 < head.gsoLen.toNat ∧
      ∃ k, p.payload.length = head.gsoLen.toNat * (k + 1) := by
    intro p hmem
    obtain ⟨hne, hdvd⟩ := hagrees.whole p hmem
    rw [hgso] at hdvd
    exact whole_of_dvd (hdissected p hmem) hne hdvd
  refine ⟨hdissected, fun p hmem => ?_, fun pre p post heq htcp => ?_, .inr ⟨?_, fun p hmem => ?_⟩,
    fun p hmem => ?_⟩
  · rcases mem_append.mp hmem with hold | hnew
    · exact hmerged.same p hold
    · rw [mem_singleton.mp hnew]
      exact hsame
  · rcases eq_nil_or_concat post with hnil | ⟨init, last, hpost⟩
    · rw [hnil] at heq
      obtain ⟨hpre, hlast⟩ := append_inj' heq rfl
      cases hlast
      rw [h.seq htcp, hseq htcp, hpre]
    · rw [hpost, concat_eq_append, ← cons_append, ← append_assoc] at heq
      exact hmerged.seq pre p init (append_inj' heq rfl).1 htcp
  · exact (hwhole pkt (mem_append_right _ (mem_singleton_self pkt))).1
  · exact ⟨(hdissected p hmem).fits, hgsoLen p hmem, (hwhole p hmem).2⟩
  · rcases mem_append.mp hmem with hold | hnew
    · exact hmerged.flags p hold
    · rw [mem_singleton.mp hnew]
      exact h.flags

theorem Merged.addPkt_next (h : f.Merged) (hpkts : f.pkts ≠ []) (hcompared : f.Compared pkt)
    (hagrees : f.Agrees pkt) (hversion : pkt.hdrs.ipProto = f.hdrs.ipProto) (hp : pkt.Dissected)
    (hfirst : pkt.firstPkt = false) : (f.addPkt pkt).Merged := by
  obtain ⟨head, hhead⟩ : ∃ head, f.pkts.head? = some head := by
    cases hl : f.pkts with
    | nil => exact absurd hl hpkts
    | cons head rest => exact ⟨head, rfl⟩
  obtain ⟨hmerged, hgso, hkey, hhdrs⟩ := h head hhead
  have hmem : head ∈ f.pkts := List.mem_of_mem_head? hhead
  have hflow : f.hdrs = { head.hdrs with tcpSeq := f.hdrs.tcpSeq } := by
    rw [hhdrs]
  have hsame : SameHeaders head pkt := by
    refine hcompared.same hagrees ?_ hhead hflow hp (hmerged.dissected head hmem)
      (hmerged.flags head hmem)
    rw [hversion, hhdrs]
  have hseq : pkt.hdrs.transProto = protoTcp → f.hdrs.tcpSeq = head.hdrs.tcpSeq + seqBytes f.pkts := by
    intro htcp
    rw [hsame.transProto] at htcp
    rw [hhdrs, if_pos htcp]
  have hmerge := hcompared.mergeable hmerged hagrees hhead hgso hsame hp hseq
  have hstart : f.startWith pkt = f := by
    rw [startWith, hfirst]
    rfl
  intro head' hhead'
  rw [pkts_addPkt, List.head?_append_of_ne_nil _ hpkts, hhead] at hhead'
  cases hhead'
  rw [pkts_addPkt, Flow.addPkt, hstart]
  refine ⟨hmerge, hgso, hkey, ?_⟩
  show (if pkt.hdrs.transProto = protoTcp then
    { f.hdrs with tcpSeq := f.hdrs.tcpSeq + pkt.payloadLen.toUInt32 } else f.hdrs) = _
  rw [seqBytes_append, seqBytes_singleton, hsame.transProto]
  by_cases htcp : head.hdrs.transProto = protoTcp
  · rw [if_pos htcp, if_pos htcp, hhdrs, if_pos htcp, UInt32.add_assoc]
  · rw [if_neg htcp, if_neg htcp, hhdrs, if_neg htcp]

theorem compared_congr (h : f.Compared pkt) (b : Bool) : f.Compared { pkt with firstPkt := b } :=
  ⟨h.transProto, h.ipLen, h.trafficClass, h.gsoLen, h.seq, h.flags, h.options⟩

theorem agrees_congr (h : f.Agrees pkt) (b : Bool) : f.Agrees { pkt with firstPkt := b } := by
  refine ⟨h.ipLen, fun p hp => ?_⟩
  rcases mem_append.mp hp with hold | hnew
  · exact h.whole p (mem_append_left _ hold)
  · rw [mem_singleton.mp hnew]
    exact h.whole pkt (mem_append_right _ (mem_singleton_self pkt))

theorem transparent_flushCurrentPkt (pkt : Info) : ∀ d ∈ flushCurrentPkt pkt, d.Transparent := by
  intro d hd
  rw [flushCurrentPkt] at hd
  split at hd
  · cases hd
  · rw [mem_singleton.mp hd]
    refine Delivery.transparent_singleton ?_ ?_
    · split <;> rfl
    · split <;> rfl

/-- **A packet at its flow**: what the flow holds is mergeable still, and what goes out is
transparent. -/
theorem Merged.settle (hc : f.Counted) (h : f.Merged) (hp : pkt.Dissected) (kind : FlushKind)
    (hflags : kind ≠ .all → pkt.hdrs.transProto = protoTcp → pkt.specialFlags = 0)
    (hjoin : kind = .none → f.pkts ≠ [] →
      f.Compared pkt ∧ f.Agrees pkt ∧ pkt.hdrs.ipProto = f.hdrs.ipProto) :
    (f.settle pkt kind).1.Merged ∧ ∀ d ∈ (f.settle pkt kind).2, d.Transparent := by
  cases kind with
  | none =>
    refine ⟨?_, fun d hd => nomatch hd⟩
    show (f.addPkt { pkt with firstPkt := f.pktsHeld == 0 }).Merged
    by_cases hpkts : f.pkts = []
    · rw [hc.held_eq_zero_iff.mpr hpkts]
      exact Merged.addPkt_first hpkts hp (hflags (by decide))
    · obtain ⟨hcompared, hagrees, hversion⟩ := hjoin rfl hpkts
      have hheld : (f.pktsHeld == 0) = false :=
        beq_false_of_ne fun hzero => hpkts (hc.held_eq_zero_iff.mp hzero)
      rw [hheld]
      exact h.addPkt_next hpkts (compared_congr hcompared false) (agrees_congr hagrees false) hversion
        (hp.congr false) rfl
  | some => exact ⟨Merged.addPkt_first hc.pkts_flush hp (hflags (by decide)), h.transparent_flush⟩
  | all =>
    refine ⟨.of_nil hc.pkts_flush, fun d hd => ?_⟩
    rcases mem_append.mp hd with hold | hnew
    · exact h.transparent_flush d hold
    · exact transparent_flushCurrentPkt pkt d hnew

theorem specialFlags_of_tcpMergeCheck {limit : ℕ} (h : f.tcpMergeCheck pkt limit ≠ .all) :
    pkt.specialFlags = 0 := by
  refine specialFlags_of_tcpFlagFlush (Bool.eq_false_iff.mpr fun hflush => h ?_)
  rw [tcpMergeCheck, if_pos hflush]

end Flow

end Rmnet.Offload
