import Sm8750Modules.Rmnet.OffloadPackets
import Sm8750Modules.Rmnet.Transparent

/-!
# The packets of a flow in order

Each flow of the network is held in one node at most, which its hash key finds. What was delivered
of a flow, followed by what is held of it, is what was received of it.
-/

namespace Rmnet.Offload

open List

/-! ## The flows of the network -/

structure FlowKey where
  ipProto : UInt8
  transProto : UInt8
  sport : UInt16
  dport : UInt16
  saddr : UInt32 × UInt32 × UInt32 × UInt32
  daddr : UInt32 × UInt32 × UInt32 × UInt32
deriving DecidableEq, Repr

/-- The address words that an IP version has. -/
def addrOf (ipProto : UInt8) (a : UInt32 × UInt32 × UInt32 × UInt32) :
    UInt32 × UInt32 × UInt32 × UInt32 :=
  if ipProto = 4 then (a.1, 0, 0, 0) else a

def HeaderInfo.flowKey (h : HeaderInfo) : FlowKey where
  ipProto := h.ipProto
  transProto := h.transProto
  sport := h.sport
  dport := h.dport
  saddr := addrOf h.ipProto h.saddr
  daddr := addrOf h.ipProto h.daddr

namespace Info

variable (p : Info)

def key : FlowKey := p.hdrs.flowKey

def isCandidate : Bool := !p.skipHash && (p.lenMismatch || p.fragDesc.csumValid)

def ofFlow (K : FlowKey) : Bool := p.isCandidate && p.key == K

end Info

def part (K : FlowKey) (l : List Info) : List FragDesc :=
  (l.filter fun p => p.ofFlow K).map Info.fragDesc

def outOf (K : FlowKey) (out : List Delivery) : List FragDesc := part K (out.flatMap Delivery.packets)

theorem part_append (K : FlowKey) (l l' : List Info) : part K (l ++ l') = part K l ++ part K l' := by
  rw [part, filter_append, map_append]
  rfl

theorem part_of_forall {K : FlowKey} {l : List Info} (h : ∀ p ∈ l, p.key ≠ K) : part K l = [] := by
  rw [part, map_eq_nil_iff, filter_eq_nil_iff]
  intro p hp hof
  rw [Info.ofFlow, Bool.and_eq_true_iff] at hof
  exact h p hp (beq_iff_eq.mp hof.2)

theorem part_firstPkt (K : FlowKey) (p : Info) (b : Bool) : part K [{ p with firstPkt := b }] = part K [p] := by
  rw [part, part, filter_singleton, filter_singleton]
  show (bif p.ofFlow K then [_] else []).map _ = (bif p.ofFlow K then [_] else []).map _
  cases p.ofFlow K with
  | true => rfl
  | false => rfl

theorem outOf_append (K : FlowKey) (l l' : List Delivery) : outOf K (l ++ l') = outOf K l ++ outOf K l' := by
  rw [outOf, flatMap_append, part_append]
  rfl

namespace Flow

variable {f : Flow} {pkt : Info} {K : FlowKey}

theorem flowKey_of_matchPkt (hheld : f.pktsHeld ≠ 0) (hmatch : f.matchPkt pkt = true)
    (hversion : f.hdrs.ipProto = pkt.hdrs.ipProto) : f.hdrs.flowKey = pkt.key := by
  rw [matchPkt, if_neg hheld] at hmatch
  split at hmatch
  · cases hmatch
  rename_i htrans
  split at hmatch
  · cases hmatch
  rename_i hports
  obtain ⟨hsport, hdport⟩ := Bool.or_eq_false_iff.mp (Bool.eq_false_iff.mpr hports)
  rw [Info.key, HeaderInfo.flowKey, HeaderInfo.flowKey, hversion,
    not_not.mp fun h => htrans (bne_iff_ne.mpr h), bne_eq_false_iff_eq.mp hsport,
    bne_eq_false_iff_eq.mp hdport]
  split at hmatch
  · rename_i hfour
    obtain ⟨hsaddr, hdaddr⟩ := Bool.and_eq_true_iff.mp hmatch
    simp only [addrOf, if_pos hfour, beq_iff_eq.mp hsaddr, beq_iff_eq.mp hdaddr]
  · split at hmatch
    · obtain ⟨hsaddr, hdaddr⟩ := Bool.and_eq_true_iff.mp hmatch
      rw [beq_iff_eq.mp hsaddr, beq_iff_eq.mp hdaddr]
    · cases hmatch

theorem matchPkt_of_flowKey (hheld : f.pktsHeld ≠ 0) (hkey : f.hdrs.flowKey = pkt.key)
    (hversion : pkt.hdrs.ipProto = 4 ∨ pkt.hdrs.ipProto = 6) : f.matchPkt pkt = true := by
  rw [Info.key, HeaderInfo.flowKey, HeaderInfo.flowKey] at hkey
  injection hkey with hip htrans hsport hdport hsaddr hdaddr
  rw [hip] at hsaddr hdaddr
  rw [matchPkt, if_neg hheld, htrans, hsport, hdport]
  simp only [bne_self_eq_false, Bool.or_self, Bool.false_eq_true, if_false]
  rcases hversion with hv | hv
  · rw [addrOf, addrOf, if_pos hv, if_pos hv] at hsaddr hdaddr
    rw [if_pos hv, Bool.and_eq_true_iff, beq_iff_eq, beq_iff_eq]
    exact ⟨(Prod.mk.injEq _ _ _ _ ▸ hsaddr).1, (Prod.mk.injEq _ _ _ _ ▸ hdaddr).1⟩
  · have hne : ¬pkt.hdrs.ipProto = 4 := by
      rw [hv]
      decide
    rw [addrOf, addrOf, if_neg hne, if_neg hne] at hsaddr hdaddr
    rw [if_neg hne, if_pos hv, Bool.and_eq_true_iff, beq_iff_eq, beq_iff_eq]
    exact ⟨hsaddr, hdaddr⟩

theorem part_flush (hc : f.Counted) (K : FlowKey) : outOf K f.flush.2 = part K f.pkts := by
  rw [Flow.flush]
  split
  · rename_i hzero
    rw [hc.held_eq_zero_iff.mp hzero]
    rfl
  · split
    · rename_i hnil
      rw [hnil]
      rfl
    · rename_i head rest hpkts
      rw [hpkts, outOf, flatMap_cons, flatMap_nil, append_nil]

theorem part_flushCurrentPkt (hp : pkt.Dissected) (K : FlowKey) :
    outOf K (flushCurrentPkt pkt) = part K [pkt] := by
  have hle : ¬65536 < pkt.payloadLen.toNat + pkt.hdrs.ipLen.toNat + pkt.hdrs.transLen.toNat := by
    have hlength := hp.length
    have hfits := hp.fits
    rw [← hp.length_payload, Info.payload, length_drop]
    rw [Info.hlen] at hfits ⊢
    omega
  rw [flushCurrentPkt, if_neg hle]
  rfl

theorem part_settle (hc : f.Counted) (hp : pkt.Dissected) (kind : FlushKind) (K : FlowKey) :
    outOf K (f.settle pkt kind).2 ++ part K (f.settle pkt kind).1.pkts =
      part K f.pkts ++ part K [pkt] := by
  cases kind with
  | none =>
    show outOf K [] ++ part K (f.addPkt { pkt with firstPkt := f.pktsHeld == 0 }).pkts = _
    rw [pkts_addPkt, part_append, part_firstPkt]
    rfl
  | some =>
    show outOf K f.flush.2 ++ part K (f.flush.1.addPkt { pkt with firstPkt := true }).pkts = _
    rw [pkts_addPkt, hc.pkts_flush, part_flush hc, nil_append, part_firstPkt]
  | all =>
    show outOf K (f.flush.2 ++ flushCurrentPkt pkt) ++ part K f.flush.1.pkts = _
    rw [hc.pkts_flush, outOf_append, part_flush hc, part_flushCurrentPkt hp]
    exact append_nil _

end Flow

/-! ## The nodes -/

namespace Flow

variable {f : Flow}

theorem hdrs_flush (f : Flow) : f.flush.1.hdrs = f.hdrs ∧ f.flush.1.hashKey = f.hashKey := by
  rw [Flow.flush]
  split
  · exact ⟨rfl, rfl⟩
  · split
    · exact ⟨rfl, rfl⟩
    · exact ⟨rfl, rfl⟩

theorem flush_of_held (h : f.pktsHeld = 0) : f.flush = (f, []) := by
  rw [Flow.flush, if_pos h]

theorem flush_flush (f : Flow) : f.flush.1.flush.1 = f.flush.1 := by
  by_cases hheld : f.pktsHeld = 0
  · rw [flush_of_held hheld, flush_of_held hheld]
  · cases hpkts : f.pkts with
    | nil =>
      have hflush : f.flush = (f, []) := by
        rw [Flow.flush, if_neg hheld, hpkts]
      rw [hflush, hflush]
    | cons head rest =>
      have hzero : f.flush.1.pktsHeld = 0 := by
        rw [Flow.flush, if_neg hheld, hpkts]
      rw [flush_of_held hzero]

end Flow

namespace Engine

variable {e e' : Engine} {pkt : Info} {i j : ℕ} {K : FlowKey}

def heldOf (e : Engine) (K : FlowKey) : List FragDesc :=
  (List.range numFlows).flatMap fun i => part K (e.pool i).pkts

def Alone (e : Engine) (K : FlowKey) (i : ℕ) : Prop := ∀ j, j ≠ i → ∀ p ∈ (e.pool j).pkts, p.key ≠ K

def Lone (e : Engine) : Prop :=
  ∀ i j p q, p ∈ (e.pool i).pkts → q ∈ (e.pool j).pkts → p.key = q.key → i = j

theorem flatMap_range_of_alone {α : Type*} {f : ℕ → List α} {n : ℕ} (hi : i < n)
    (h : ∀ j, j ≠ i → f j = []) : (List.range n).flatMap f = f i := by
  induction n with
  | zero => exact absurd hi (Nat.not_lt_zero i)
  | succ n ih =>
    rw [range_succ, flatMap_append, flatMap_singleton]
    by_cases hin : i = n
    · have hnil : (List.range n).flatMap f = [] := by
        rw [flatMap_eq_nil_iff]
        intro j hj
        exact h j (hin ▸ (mem_range.mp hj).ne)
      rw [hnil, hin, nil_append]
    · rw [ih (by omega), h n fun hni => hin hni.symm, append_nil]

theorem heldOf_of_alone (hi : i < numFlows) (h : e.Alone K i) : e.heldOf K = part K (e.pool i).pkts :=
  flatMap_range_of_alone hi fun j hj => part_of_forall (h j hj)

theorem heldOf_of_forall (h : ∀ j, ∀ p ∈ (e.pool j).pkts, p.key ≠ K) : e.heldOf K = [] := by
  rw [heldOf, flatMap_eq_nil_iff]
  exact fun j _ => part_of_forall (h j)

/-- **A node that changes**: what goes out and what is held of a flow, where no other node holds it,
or this node has nothing to do with it. -/
theorem heldOf_setFlow (hi : i < numFlows) {f : Flow} {out : List Delivery} {brought : List FragDesc}
    (hpart : outOf K out ++ part K f.pkts = part K (e.pool i).pkts ++ brought)
    (hcase : e.Alone K i ∨ part K (e.pool i).pkts ++ brought = []) :
    outOf K out ++ (e.setFlow i f).heldOf K = e.heldOf K ++ brought := by
  rcases hcase with halone | hnil
  · have halone' : (e.setFlow i f).Alone K i := by
      intro j hj
      rw [pool_setFlow_of_ne e f hj]
      exact halone j hj
    rw [heldOf_of_alone hi halone, heldOf_of_alone hi halone', pool_setFlow_self]
    exact hpart
  · rw [hnil] at hpart
    obtain ⟨hout, hnew⟩ := append_eq_nil_iff.mp hpart
    obtain ⟨hold, hbrought⟩ := append_eq_nil_iff.mp hnil
    rw [hout, hbrought, nil_append, append_nil, heldOf, heldOf]
    congr 1
    funext j
    by_cases hj : j = i
    · rw [hj, pool_setFlow_self, hnew, hold]
    · rw [pool_setFlow_of_ne e f hj]

theorem Lone.mono (h : e.Lone) (hsub : ∀ i, ∀ p ∈ (e'.pool i).pkts, p ∈ (e.pool i).pkts) : e'.Lone :=
  fun i j p q hp hq hkey => h i j p q (hsub i p hp) (hsub j q hq) hkey

theorem Lone.alone (h : e.Lone) {p : Info} (hp : p ∈ (e.pool i).pkts) : e.Alone p.key i :=
  fun j hj q hq hkey => hj (h j i q p hq hp hkey)

theorem Lone.alone_or_nil (h : e.Lone) (K : FlowKey) (i : ℕ) :
    e.Alone K i ∨ part K (e.pool i).pkts ++ [] = [] := by
  by_cases hin : ∃ q ∈ (e.pool i).pkts, q.key = K
  · obtain ⟨q, hq, hkey⟩ := hin
    exact .inl (hkey ▸ h.alone hq)
  · refine .inr ?_
    rw [append_nil]
    exact part_of_forall fun q hq hkey => hin ⟨q, hq, hkey⟩

variable (p : Flow → Bool)

theorem pool_flushNode (s : Engine × List Delivery) :
    (flushNode p s i).1.pool j =
      if j = i ∧ p (s.1.pool j) = true then (s.1.pool j).flush.1 else s.1.pool j := by
  rw [flushNode]
  by_cases hji : j = i
  · rw [hji]
    by_cases hheld : (s.1.pool i).pktsHeld = 0
    · rw [if_neg fun h => h.1 hheld, Flow.flush_of_held hheld, ite_self]
    · by_cases hp : p (s.1.pool i) = true
      · rw [if_pos ⟨hheld, hp⟩, if_pos ⟨rfl, hp⟩, pool_setFlow_self]
      · rw [if_neg fun h => hp h.2, if_neg fun h => hp h.2]
  · have hsame : ¬(j = i ∧ p (s.1.pool j) = true) := fun h => hji h.1
    rw [if_neg hsame]
    split
    · rw [pool_setFlow_of_ne _ _ hji]
    · rfl

theorem pool_foldl_flushNode (l : List ℕ) (s : Engine × List Delivery) :
    (l.foldl (flushNode p) s).1.pool j =
      if j ∈ l ∧ p (s.1.pool j) = true then (s.1.pool j).flush.1 else s.1.pool j := by
  induction l generalizing s with
  | nil => rw [if_neg fun h => nomatch h.1]; rfl
  | cons i l ih =>
    rw [foldl_cons, ih, pool_flushNode]
    by_cases hp : p (s.1.pool j) = true
    · by_cases hji : j = i
      · have hone : j = i ∧ p (s.1.pool j) = true := ⟨hji, hp⟩
        have hmem : j ∈ i :: l ∧ p (s.1.pool j) = true := ⟨mem_cons.mpr (.inl hji), hp⟩
        rw [if_pos hone, if_pos hmem, Flow.flush_flush, ite_self]
      · have hsame : ¬(j = i ∧ p (s.1.pool j) = true) := fun h => hji h.1
        rw [if_neg hsame]
        simp only [mem_cons, hji, false_or]
    · have hnot : ∀ q : Prop, ¬(q ∧ p (s.1.pool j) = true) := fun q h => hp h.2
      rw [if_neg (hnot (j = i)), if_neg (hnot _), if_neg (hnot _)]

theorem part_foldl_flushNode {l : List ℕ} (hl : ∀ i ∈ l, i < numFlows)
    {s : Engine × List Delivery} (hc : s.1.Counts) (hlone : s.1.Lone) (K : FlowKey) :
    outOf K (l.foldl (flushNode p) s).2 ++ (l.foldl (flushNode p) s).1.heldOf K =
      outOf K s.2 ++ s.1.heldOf K := by
  induction l generalizing s with
  | nil => rfl
  | cons i l ih =>
    have hnext : (flushNode p s i).1.Lone := by
      refine hlone.mono fun j q hq => ?_
      rw [pool_flushNode] at hq
      split at hq
      · rw [(hc j).pkts_flush] at hq
        cases hq
      · exact hq
    rw [foldl_cons, ih (fun j hj => hl j (mem_cons_of_mem i hj)) (hc.flushNode p i) hnext,
      flushNode]
    split
    · have hmove : outOf K (s.1.pool i).flush.2 ++ (s.1.setFlow i (s.1.pool i).flush.1).heldOf K =
          s.1.heldOf K ++ [] := by
        refine heldOf_setFlow (hl i mem_cons_self) ?_ ?_
        · rw [Flow.part_flush (hc i), (hc i).pkts_flush]
          rfl
        · exact hlone.alone_or_nil K i
      show outOf K (s.2 ++ (s.1.pool i).flush.2) ++ (s.1.setFlow i (s.1.pool i).flush.1).heldOf K = _
      rw [outOf_append, append_assoc, hmove, append_nil]
    · rfl

theorem transparent_foldl_flushNode (l : List ℕ) {s : Engine × List Delivery}
    (hc : s.1.Counts) (hmerged : ∀ i, (s.1.pool i).Merged) (hout : ∀ d ∈ s.2, d.Transparent) :
    ∀ d ∈ (l.foldl (flushNode p) s).2, d.Transparent := by
  induction l generalizing s with
  | nil => exact hout
  | cons i l ih =>
    refine ih (hc.flushNode p i) (fun j => ?_) ?_
    · rw [pool_flushNode]
      split
      · exact .of_nil (hc j).pkts_flush
      · exact hmerged j
    · rw [flushNode]
      split
      · intro d hd
        rcases mem_append.mp hd with hold | hnew
        · exact hout d hold
        · exact (hmerged i).transparent_flush d hnew
      · exact hout

/-- The nodes lie in the buckets of their hashes, no two have the same, and each holds packets of
one flow. -/
structure Placed (e : Engine) : Prop where
  keyed : ∀ i, ∀ p ∈ (e.pool i).pkts,
    p.key = (e.pool i).hdrs.flowKey ∧ p.hashKey = (e.pool i).hashKey
  bucket : ∀ b, ∀ i ∈ e.table b, b = bucketOf (e.pool i).hashKey
  distinct : ∀ i j, i < e.nodesUsed → j < e.nodesUsed → (e.pool i).hashKey = (e.pool j).hashKey →
    i = j
  lone : e.Lone

def Optimized (e : Engine) : Prop :=
  ∀ i, ∀ p ∈ (e.pool i).pkts, (p.hdrs.transProto = protoTcp ∨ p.hdrs.transProto = protoUdp) ∧
    e.optimizeProtocol p.hdrs.transProto = true

/-- **What the engine keeps**, for the packets that were received. -/
structure Faithful (e : Engine) (received : List Info) : Prop where
  sound : Sound e
  placed : e.Placed
  merged : ∀ i, (e.pool i).Merged
  optimized : e.Optimized
  transparent : ∀ d ∈ e.delivered, d.Transparent
  ordered : ∀ K, outOf K e.delivered ++ e.heldOf K = part K received

variable {received : List Info}

theorem Placed.congr (h : e.Placed) (hpool : e'.pool = e.pool) (htable : e'.table = e.table)
    (hused : e'.nodesUsed = e.nodesUsed) : e'.Placed := by
  refine ⟨?_, ?_, ?_, ?_⟩
  · rw [hpool]
    exact h.keyed
  · rw [hpool, htable]
    exact h.bucket
  · rw [hpool, hused]
    exact h.distinct
  · rw [Lone, hpool]
    exact h.lone

theorem Faithful.congr (h : e.Faithful received) (hsound : Sound e') (hopt : e'.Optimized)
    (hpool : e'.pool = e.pool) (htable : e'.table = e.table) (hused : e'.nodesUsed = e.nodesUsed)
    (hdelivered : e'.delivered = e.delivered) : e'.Faithful received := by
  refine ⟨hsound, h.placed.congr hpool htable hused, ?_, hopt, ?_, ?_⟩
  · rw [hpool]
    exact h.merged
  · rw [hdelivered]
    exact h.transparent
  · intro K
    rw [hdelivered, heldOf, hpool]
    exact h.ordered K

theorem Placed.of_flushed (h : e.Placed) (hc : e.Counts) (htable : e'.table = e.table)
    (hused : e'.nodesUsed = e.nodesUsed)
    (hpool : ∀ i, e'.pool i = (e.pool i).flush.1 ∨ e'.pool i = e.pool i) : e'.Placed := by
  have hmem : ∀ i, ∀ p ∈ (e'.pool i).pkts, e'.pool i = e.pool i := by
    intro i p hp
    rcases hpool i with hflush | hsame
    · rw [hflush, (hc i).pkts_flush] at hp
      cases hp
    · exact hsame
  have hkey : ∀ i, (e'.pool i).hashKey = (e.pool i).hashKey := by
    intro i
    rcases hpool i with hflush | hsame
    · rw [hflush, (Flow.hdrs_flush _).2]
    · rw [hsame]
  refine ⟨fun i p hp => ?_, fun b i hi => ?_, fun i j hi hj heq => ?_, h.lone.mono fun i p hp => ?_⟩
  · have hsame := hmem i p hp
    rw [hsame] at hp ⊢
    exact h.keyed i p hp
  · rw [hkey]
    exact h.bucket b i (htable ▸ hi)
  · rw [hkey, hkey] at heq
    exact h.distinct i j (hused ▸ hi) (hused ▸ hj) heq
  · rw [hmem i p hp] at hp
    exact hp

theorem Sound.nodes_lt (h : Sound e) : ∀ i ∈ e.nodes, i < numFlows := by
  intro i hi
  obtain ⟨b, -, hb⟩ := mem_flatMap.mp hi
  exact Nat.lt_of_lt_of_le (h.linked.used b i hb).2 h.linked.bound

theorem Faithful.flushed (h : e.Faithful received) (p : Flow → Bool) {l : List ℕ}
    (hl : ∀ i ∈ l, i < numFlows) :
    ((l.foldl (flushNode p) (e, [])).1.deliver (l.foldl (flushNode p) (e, [])).2).Faithful
      received := by
  have hframe := foldl_flushNode_frame p l (e, [])
  have hpool : ∀ i, (l.foldl (flushNode p) (e, [])).1.pool i = (e.pool i).flush.1 ∨
      (l.foldl (flushNode p) (e, [])).1.pool i = e.pool i := by
    intro i
    rw [pool_foldl_flushNode]
    split
    · exact .inl rfl
    · exact .inr rfl
  have hsub : ∀ i, ∀ q ∈ ((l.foldl (flushNode p) (e, [])).1.pool i).pkts, q ∈ (e.pool i).pkts := by
    intro i q hq
    rcases hpool i with hflush | hsame
    · rw [hflush, (h.sound.counts i).pkts_flush] at hq
      cases hq
    · exact hsame ▸ hq
  refine ⟨(h.sound.foldl_flushNode p l).deliver _, ?_, fun i => ?_, fun i q hq => ?_, ?_, fun K => ?_⟩
  · refine Placed.of_flushed h.placed h.sound.counts ?_ ?_ hpool
    · show (l.foldl (flushNode p) (e, [])).1.table = _
      rw [hframe]
    · show (l.foldl (flushNode p) (e, [])).1.nodesUsed = _
      rw [hframe]
  · show ((l.foldl (flushNode p) (e, [])).1.pool i).Merged
    rcases hpool i with hflush | hsame
    · rw [hflush]
      exact .of_nil (h.sound.counts i).pkts_flush
    · rw [hsame]
      exact h.merged i
  · show _ ∧ (l.foldl (flushNode p) (e, [])).1.optimizeProtocol _ = true
    rw [hframe]
    exact h.optimized i q (hsub i q hq)
  · show ∀ d ∈ (l.foldl (flushNode p) (e, [])).1.delivered ++ (l.foldl (flushNode p) (e, [])).2, _
    rw [hframe]
    intro d hd
    rcases mem_append.mp hd with hold | hnew
    · exact h.transparent d hold
    · exact transparent_foldl_flushNode p l (s := (e, [])) h.sound.counts h.merged
        (fun d hd => nomatch hd) d hnew
  · show outOf K ((l.foldl (flushNode p) (e, [])).1.delivered ++ (l.foldl (flushNode p) (e, [])).2) ++
      (l.foldl (flushNode p) (e, [])).1.heldOf K = _
    have hdelivered : (l.foldl (flushNode p) (e, [])).1.delivered = e.delivered := by
      rw [hframe]
    rw [outOf_append, hdelivered, append_assoc,
      part_foldl_flushNode p hl (s := (e, [])) h.sound.counts h.placed.lone K]
    exact h.ordered K

end Engine

end Rmnet.Offload
