import Sm8750Modules.Rmnet.Segments

/-!
# Bounds of a coalescing header

A coalescing header counts its packets in six bytes. Both copies of the check add them up in a byte
and compare after each addition, so a sum that passes 256 can come out small again.
-/

namespace Rmnet.Coalesced

open List

/-- `rmnet_map_data_check_coal_header`, where `d` is the memory from the data pointer of the socket buffer on.
-/
def mapDataCheckCoalHeader (d : List UInt8) : Option UInt64 :=
  let h := coalHeaderOf d
  if h.numNlos = 0 ∨ maxNlos < h.numNlos then none else checkPairs h.nlPairs 0 0 0

/-! ## The counters of the segmenters -/

/-- The loops of a segmenter: what it does with a pair before its packets, with each packet, and
with what is left behind them. -/
structure Segmenter (σ : Type) where
  enter : NlPair → σ → σ
  packet : σ → σ
  leave : σ → σ

namespace Segmenter

variable {σ : Type} (S : Segmenter σ)

def atNext : ℕ → σ → List σ
  | 0, _ => []
  | n + 1, s => s :: atNext n (S.packet s)

def pair (p : NlPair) (s : σ) : σ := S.leave (S.packet^[p.numPackets.toNat] (S.enter p s))

def atPackets : List NlPair → σ → List σ
  | [], _ => []
  | p :: rest, s => S.atNext p.numPackets.toNat (S.enter p s) ++ atPackets rest (S.pair p s)

structure Keeps (I : ℕ → σ → Prop) : Prop where
  enter : ∀ n p s, I n s → I n (S.enter p s)
  packet : ∀ n s, I n s → I (n + 1) (S.packet s)
  leave : ∀ n s, I n s → I n (S.leave s)

variable {S} {I : ℕ → σ → Prop}

theorem length_atNext (n : ℕ) (s : σ) : (S.atNext n s).length = n := by
  induction n generalizing s with
  | zero => rfl
  | succ n ih => rw [atNext, length_cons, ih]

theorem length_atPackets (pairs : List NlPair) (s : σ) :
    (S.atPackets pairs s).length = (pairs.map fun p => p.numPackets.toNat).sum := by
  induction pairs generalizing s with
  | nil => rfl
  | cons p rest ih =>
    rw [atPackets, length_append, length_atNext, ih, map_cons, sum_cons]

theorem Keeps.iterate (h : S.Keeps I) {n : ℕ} {s : σ} (hs : I n s) (m : ℕ) :
    I (n + m) (S.packet^[m] s) := by
  induction m generalizing n s with
  | zero => exact hs
  | succ m ih =>
    have hm := ih (h.packet n s hs)
    rwa [Nat.add_right_comm] at hm

theorem Keeps.pair (h : S.Keeps I) {n : ℕ} {s : σ} (hs : I n s) (p : NlPair) :
    I (n + p.numPackets.toNat) (S.pair p s) :=
  h.leave _ _ (h.iterate (h.enter n p s hs) _)

theorem Keeps.atNext (h : S.Keeps I) {n m k : ℕ} {s t : σ} (hs : I n s)
    (ht : (S.atNext m s)[k]? = some t) : I (n + k) t := by
  induction m generalizing n k s with
  | zero => cases ht
  | succ m ih =>
    cases k with
    | zero =>
      cases ht
      exact hs
    | succ k =>
      have hk := ih (h.packet n s hs) ht
      rwa [Nat.add_right_comm] at hk

/-- **The counters.** What holds at the first packet, and is kept by the loops, holds at every
packet with its number. -/
theorem Keeps.atPackets (h : S.Keeps I) {pairs : List NlPair} {n k : ℕ} {s t : σ} (hs : I n s)
    (ht : (S.atPackets pairs s)[k]? = some t) : I (n + k) t := by
  induction pairs generalizing n k s with
  | nil => cases ht
  | cons p rest ih =>
    rw [Segmenter.atPackets] at ht
    by_cases hk : k < p.numPackets.toNat
    · rw [List.getElem?_append_left (by rwa [length_atNext])] at ht
      exact h.atNext (h.enter n p s hs) ht
    · rw [List.getElem?_append_right (by rw [length_atNext]; omega), length_atNext] at ht
      have hrest := ih (h.pair hs p) ht
      rwa [show n + p.numPackets.toNat + (k - p.numPackets.toNat) = n + k by omega] at hrest

end Segmenter

/-- The loops of `rmnet_frag_segment_coal_data`. -/
def fragSegmenter (gro : Bool) : Segmenter Loop where
  enter p s :=
    { s with desc := { s.desc with gsoSize := p.pktLen - (s.desc.ipLen + s.desc.transLen) } }
  packet s := s.packet gro
  leave s := if s.desc.gsoSegs ≠ 0 then s.emit true else s

/-- The counters of `rmnet_map_segment_coal_skb` and of its `struct rmnet_map_coal_metadata`, and how
many segments it has tried to allocate. -/
structure MapLoop where
  pktCount : UInt8
  pktId : UInt8
  totalPkt : UInt8
  mask : UInt64
  tried : ℕ
deriving DecidableEq, Repr

variable (alloc : ℕ → Bool)

namespace MapLoop

/-- `__rmnet_map_segment_coal_skb`, which gives up where the segment cannot be allocated. -/
def segment (s : MapLoop) : MapLoop :=
  if alloc s.tried then { s with pktId := s.totalPkt + 1, pktCount := 0, tried := s.tried + 1 }
  else { s with tried := s.tried + 1 }

def packet (gro : Bool) (s : MapLoop) : MapLoop :=
  let csumErr := s.mask &&& 1 == 1
  let s' :=
    if !gro then { s with pktCount := 1 }.segment alloc
    else if csumErr then
      let s := if s.pktCount ≠ 0 then s.segment alloc else s
      { s with pktCount := 1 }.segment alloc
    else { s with pktCount := s.pktCount + 1 }
  { s' with totalPkt := s'.totalPkt + 1, mask := s'.mask >>> 1 }

end MapLoop

/-- The loops of `rmnet_map_segment_coal_skb`; `alloc` says which allocations succeed. -/
def mapSegmenter (gro : Bool) : Segmenter MapLoop where
  enter _ s := s
  packet s := s.packet alloc gro
  leave s := if s.pktCount ≠ 0 then s.segment alloc else s

theorem keeps_fragSegmenter (gro : Bool) :
    (fragSegmenter gro).Keeps fun n s => s.totalPkt = UInt8.ofNat n where
  enter _ _ _ h := h
  packet n s h := by
    have hpacket : (s.packet gro).totalPkt = s.totalPkt + 1 := by
      rw [Loop.packet]
      dsimp only
      split
      · rfl
      · split
        · split <;> rfl
        · rfl
    show (s.packet gro).totalPkt = UInt8.ofNat (n + 1)
    rw [hpacket, h, Frame.ofNat_succ]
  leave n s h := by
    show (if s.desc.gsoSegs ≠ 0 then s.emit true else s).totalPkt = UInt8.ofNat n
    split <;> exact h

namespace MapLoop

variable {alloc : ℕ → Bool} {gro : Bool} (s : MapLoop)

theorem segment_totalPkt : (s.segment alloc).totalPkt = s.totalPkt := by
  rw [segment]
  split <;> rfl

theorem segment_pktCount_le : (s.segment alloc).pktCount ≤ s.pktCount := by
  rw [segment]
  split
  · exact UInt8.zero_le
  · exact UInt8.le_refl _

theorem packet_totalPkt : (s.packet alloc gro).totalPkt = s.totalPkt + 1 := by
  rw [packet]
  dsimp only
  split
  · rw [segment_totalPkt]
  · split
    · rw [segment_totalPkt]
      split
      · rw [segment_totalPkt]
      · rfl
    · rfl

theorem packet_pktCount_le {n : ℕ} (h : s.pktCount.toNat ≤ n) :
    (s.packet alloc gro).pktCount.toNat ≤ n + 1 := by
  have hone : ∀ t : MapLoop, ({ t with pktCount := 1 }.segment alloc).pktCount.toNat ≤ 1 :=
    fun t => UInt8.le_iff_toNat_le.mp ({ t with pktCount := 1 }.segment_pktCount_le)
  rw [packet]
  dsimp only
  split
  · exact (hone s).trans (by omega)
  · split
    · exact (hone _).trans (by omega)
    · rw [UInt8.toNat_add]
      exact (Nat.mod_le _ _).trans (Nat.add_le_add_right h 1)

end MapLoop

theorem keeps_mapSegmenter (alloc : ℕ → Bool) (gro : Bool) :
    (mapSegmenter alloc gro).Keeps fun n s =>
      s.totalPkt = UInt8.ofNat n ∧ s.pktCount.toNat ≤ n where
  enter _ _ _ h := h
  packet n s h := by
    refine ⟨?_, s.packet_pktCount_le h.2⟩
    show (s.packet alloc gro).totalPkt = UInt8.ofNat (n + 1)
    rw [s.packet_totalPkt, h.1, Frame.ofNat_succ]
  leave n s h := by
    show (if s.pktCount ≠ 0 then s.segment alloc else s).totalPkt = UInt8.ofNat n ∧
      (if s.pktCount ≠ 0 then s.segment alloc else s).pktCount.toNat ≤ n
    split
    · exact ⟨s.segment_totalPkt.trans h.1, (UInt8.le_iff_toNat_le.mp s.segment_pktCount_le).trans h.2⟩
    · exact h

namespace CoalHeader

variable (h : CoalHeader)

def totalPackets : ℕ := (h.nlPairs.map fun p => p.numPackets.toNat).sum

/-- What the check promises to the segmenters: there are one to six pairs and 48 packets at most, the
byte-wide counters are the number of the packet at every packet, and the packet has a bit in the
48-bit mask. -/
structure Bounded : Prop where
  nlos : 1 ≤ h.numNlos ∧ h.numNlos ≤ 6
  packets : h.totalPackets ≤ 48
  frag : ∀ gro desc mask k s,
    ((fragSegmenter gro).atPackets (h.nlPairs.take h.numNlos) ⟨desc, mask, 0, []⟩)[k]? = some s →
      s.totalPkt.toNat = k ∧ k < 48
  map : ∀ alloc gro mask k s,
    ((mapSegmenter alloc gro).atPackets (h.nlPairs.take h.numNlos) ⟨0, 0, 0, mask, 0⟩)[k]? = some s →
      s.totalPkt.toNat = k ∧ s.pktCount.toNat ≤ k ∧ k < 48

theorem bounded_of_packets (hnlos : 1 ≤ h.numNlos ∧ h.numNlos ≤ 6) (hpackets : h.totalPackets ≤ 48) :
    h.Bounded := by
  have htake : ((h.nlPairs.take h.numNlos).map fun p => p.numPackets.toNat).sum ≤ 48 :=
    ((take_sublist h.numNlos h.nlPairs).map _).sum_le_sum (fun _ _ => Nat.zero_le _)
      |>.trans hpackets
  have hlt : ∀ {σ : Type} {S : Segmenter σ} {s t : σ} {k : ℕ},
      (S.atPackets (h.nlPairs.take h.numNlos) s)[k]? = some t → k < 48 := by
    intro σ S s t k ht
    obtain ⟨hk, -⟩ := List.getElem?_eq_some_iff.mp ht
    rw [Segmenter.length_atPackets] at hk
    omega
  have hcount : ∀ k < 48, (UInt8.ofNat k).toNat = k := by
    intro k hk
    rw [UInt8.toNat_ofNat']
    omega
  refine ⟨hnlos, hpackets, fun gro desc mask k s hs => ?_, fun alloc gro mask k s hs => ?_⟩
  · have htotal := (keeps_fragSegmenter gro).atPackets (n := 0) rfl hs
    rw [Nat.zero_add] at htotal
    exact ⟨by rw [htotal, hcount k (hlt hs)], hlt hs⟩
  · have htotal := (keeps_mapSegmenter alloc gro).atPackets (n := 0) ⟨rfl, Nat.zero_le _⟩ hs
    rw [Nat.zero_add] at htotal
    exact ⟨by rw [htotal.1, hcount k (hlt hs)], htotal.2, hlt hs⟩

end CoalHeader

theorem sum_le_of_checkPairs {pairs : List NlPair} {i : ℕ} {mask : UInt64} {pkts : UInt8}
    (hsmall : ∀ p ∈ pairs, p.numPackets.toNat < 208) (hpkts : pkts.toNat ≤ 48)
    (h : (checkPairs pairs i mask pkts).isSome) :
    pkts.toNat + (pairs.map fun p => p.numPackets.toNat).sum ≤ 48 := by
  induction pairs generalizing i mask pkts with
  | nil => exact hpkts
  | cons p rest ih =>
    have hp := hsmall p mem_cons_self
    have hadd : (pkts + p.numPackets).toNat = pkts.toNat + p.numPackets.toNat := by
      rw [UInt8.toNat_add]
      omega
    rw [checkPairs] at h
    split at h
    · cases h
    · rename_i hle
      have hle' : (pkts + p.numPackets).toNat ≤ 48 :=
        UInt8.le_iff_toNat_le.mp (UInt8.not_lt.mp hle)
      have hrest := ih (fun q hq => hsmall q (mem_cons_of_mem p hq)) hle' h
      rw [hadd] at hrest
      rw [map_cons, sum_cons]
      omega

theorem accepted_checks {d : List UInt8}
    (h : (checkCoalHeader d).isSome ∨ (mapDataCheckCoalHeader d).isSome) :
    (1 ≤ (coalHeaderOf d).numNlos ∧ (coalHeaderOf d).numNlos ≤ 6) ∧
      (checkPairs (coalHeaderOf d).nlPairs 0 0 0).isSome := by
  have hmap : (mapDataCheckCoalHeader d).isSome := by
    rcases h with h | h
    · rw [checkCoalHeader] at h
      split at h
      · cases h
      · exact h
    · exact h
  rw [mapDataCheckCoalHeader] at hmap
  split at hmap
  · cases hmap
  · rename_i hnlos
    rw [maxNlos] at hnlos
    exact ⟨by omega, hmap⟩

/-- **Exact bounds.** An accepted coalescing header keeps its bounds exactly when none of its pairs
counts 208 packets or more. -/
theorem bounded_iff (d : List UInt8)
    (h : (checkCoalHeader d).isSome ∨ (mapDataCheckCoalHeader d).isSome) :
    (coalHeaderOf d).Bounded ↔ ∀ p ∈ (coalHeaderOf d).nlPairs, p.numPackets.toNat < 208 := by
  obtain ⟨hnlos, hpairs⟩ := accepted_checks h
  constructor
  · intro hb p hp
    have hle : p.numPackets.toNat ≤ (coalHeaderOf d).totalPackets :=
      single_le_sum (fun _ _ => Nat.zero_le _) _ (mem_map_of_mem hp)
    have := hb.packets
    omega
  · intro hsmall
    have hsum := sum_le_of_checkPairs hsmall (show (0 : UInt8).toNat ≤ 48 by decide) hpairs
    rw [UInt8.toNat_zero, Nat.zero_add] at hsum
    exact (coalHeaderOf d).bounded_of_packets hnlos hsum

def fullHeader : List UInt8 :=
  [0, 0, 0, 0, 3, 0x10, 0, 0, 0, 60, 0, 48] ++ List.replicate 20 0

def wrappingHeader : List UInt8 :=
  [0, 0, 0, 0, 3, 0x20, 0, 0, 0, 60, 0, 48, 0, 60, 0, 255] ++ List.replicate 16 0

theorem bounded_iff_fullHeader :
    (checkCoalHeader fullHeader).isSome ∧
      ((coalHeaderOf fullHeader).Bounded ↔
        ∀ p ∈ (coalHeaderOf fullHeader).nlPairs, p.numPackets.toNat < 208) :=
  ⟨by decide, bounded_iff fullHeader (.inl (by decide))⟩

/-- Both copies of the check accept a header with 303 packets. -/
theorem not_bounded_wrappingHeader :
    ¬ ∀ d : List UInt8, (checkCoalHeader d).isSome ∨ (mapDataCheckCoalHeader d).isSome →
      (coalHeaderOf d).Bounded := by
  intro hall
  have hpackets := (hall wrappingHeader (.inl (by decide))).packets
  exact absurd hpackets (by decide)

end Rmnet.Coalesced
