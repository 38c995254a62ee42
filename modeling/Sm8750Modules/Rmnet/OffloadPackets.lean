import Sm8750Modules.Rmnet.OffloadCounts

/-!
# The descriptors in the offload engine

Each packet that the engine is given brings a descriptor, which is held in a flow or goes out with
a delivery.
-/

namespace Rmnet.Offload

open List

def parts (out : List Delivery) : Multiset FragDesc :=
  ↑(out.flatMap fun d => d.packets.map Info.fragDesc)

theorem parts_append (l l' : List Delivery) : parts (l ++ l') = parts l + parts l' := by
  rw [parts, flatMap_append]
  rfl

theorem parts_nil : parts [] = 0 := rfl

namespace Flow

variable (f : Flow) (pkt : Info)

def descs : Multiset FragDesc := ↑(f.pkts.map Info.fragDesc)

theorem descs_flush : f.flush.1.descs + parts f.flush.2 = f.descs := by
  rw [Flow.flush]
  split
  · exact add_zero _
  · split
    · exact add_zero _
    · rename_i head rest hpkts
      rw [descs, descs, hpkts, parts]
      simp

theorem descs_addPkt : (f.addPkt pkt).descs = f.descs + {pkt.fragDesc} := by
  rw [descs, descs, pkts_addPkt, map_append]
  rfl

theorem descs_settle (kind : FlushKind) :
    (f.settle pkt kind).1.descs + parts (f.settle pkt kind).2 =
      f.descs + if kind = .all then parts (flushCurrentPkt pkt) else {pkt.fragDesc} := by
  cases kind with
  | none =>
    show (f.addPkt (f.joining pkt)).descs + parts [] = _
    rw [descs_addPkt, parts_nil, add_zero, if_neg (by decide)]
    rfl
  | some =>
    show (f.flush.1.addPkt { pkt with firstPkt := true }).descs + parts f.flush.2 = _
    rw [descs_addPkt, if_neg (by decide), ← f.descs_flush]
    exact add_right_comm _ _ _
  | all =>
    show f.flush.1.descs + parts (f.flush.2 ++ flushCurrentPkt pkt) = _
    rw [parts_append, ← add_assoc, f.descs_flush, if_pos rfl]

end Flow

theorem parts_flushCurrentPkt (pkt : Info) : parts (flushCurrentPkt pkt) =
    if 65536 < pkt.payloadLen.toNat + pkt.hdrs.ipLen.toNat + pkt.hdrs.transLen.toNat then 0
    else {pkt.fragDesc} := by
  rw [flushCurrentPkt]
  split
  · rfl
  · rfl

namespace Engine

variable (e : Engine) (pkt : Info)

def held : Multiset FragDesc := ∑ i ∈ Finset.range numFlows, (e.pool i).descs

def descs : Multiset FragDesc := e.held + parts e.delivered

structure Bounded (e : Engine) : Prop where
  table : ∀ b, ∀ i ∈ e.table b, i < numFlows
  nodesUsed : e.nodesUsed ≤ numFlows
  recycleIdx : e.recycleIdx < numFlows

theorem descs_deliver (out : List Delivery) : (e.deliver out).descs = e.descs + parts out := by
  show e.held + parts (e.delivered ++ out) = _
  rw [parts_append, ← add_assoc]
  rfl

theorem descs_setFlow {i : ℕ} (hi : i < numFlows) {f : Flow} {out : Multiset FragDesc}
    (brought : Multiset FragDesc) (h : f.descs + out = (e.pool i).descs + brought) :
    (e.setFlow i f).descs + out = e.descs + brought := by
  have hmem := Finset.mem_range.mpr hi
  have hold := Finset.add_sum_erase (Finset.range numFlows) (fun j => (e.pool j).descs) hmem
  have hnew := Finset.add_sum_erase (Finset.range numFlows)
    (fun j => ((e.setFlow i f).pool j).descs) hmem
  have hrest : ∑ j ∈ (Finset.range numFlows).erase i, ((e.setFlow i f).pool j).descs =
      ∑ j ∈ (Finset.range numFlows).erase i, (e.pool j).descs := by
    refine Finset.sum_congr rfl fun j hj => ?_
    rw [pool_setFlow_of_ne e f (Finset.ne_of_mem_erase hj)]
  rw [hrest, pool_setFlow_self] at hnew
  show ∑ j ∈ Finset.range numFlows, ((e.setFlow i f).pool j).descs + parts e.delivered + out =
    ∑ j ∈ Finset.range numFlows, (e.pool j).descs + parts e.delivered + brought
  rw [← hold, ← hnew]
  calc f.descs + ∑ j ∈ (Finset.range numFlows).erase i, (e.pool j).descs + parts e.delivered + out
      = f.descs + out +
          (∑ j ∈ (Finset.range numFlows).erase i, (e.pool j).descs + parts e.delivered) := by abel
    _ = (e.pool i).descs + brought +
          (∑ j ∈ (Finset.range numFlows).erase i, (e.pool j).descs + parts e.delivered) := by rw [h]
    _ = (e.pool i).descs + ∑ j ∈ (Finset.range numFlows).erase i, (e.pool j).descs +
          parts e.delivered + brought := by abel

theorem Bounded.congr {e e' : Engine} (h : e.Bounded) (htable : e'.table = e.table)
    (hused : e'.nodesUsed = e.nodesUsed) (hrecycle : e'.recycleIdx = e.recycleIdx) : e'.Bounded :=
  ⟨htable ▸ h.table, hused ▸ h.nodesUsed, hrecycle ▸ h.recycleIdx⟩

theorem descs_foldl_flushNode (p : Flow → Bool) {l : List ℕ} (hl : ∀ i ∈ l, i < numFlows)
    (s : Engine × List Delivery) :
    (l.foldl (flushNode p) s).1.descs + parts (l.foldl (flushNode p) s).2 =
      s.1.descs + parts s.2 := by
  induction l generalizing s with
  | nil => rfl
  | cons i l ih =>
    rw [foldl_cons, ih fun j hj => hl j (mem_cons_of_mem i hj), flushNode]
    split
    · show (s.1.setFlow i (s.1.pool i).flush.1).descs + parts (s.2 ++ (s.1.pool i).flush.2) = _
      rw [parts_append, add_comm (parts s.2), ← add_assoc,
        s.1.descs_setFlow (hl i mem_cons_self) 0
          (by rw [(s.1.pool i).descs_flush, add_zero]), add_zero]
    · rfl

theorem Bounded.foldl_flushNode {e : Engine} (h : e.Bounded) (p : Flow → Bool) (l : List ℕ) :
    (l.foldl (flushNode p) (e, [])).1.Bounded := by
  rw [foldl_flushNode_frame]
  exact h.congr rfl rfl rfl

theorem Bounded.nodes {e : Engine} (h : e.Bounded) : ∀ i ∈ e.nodes, i < numFlows := by
  intro i hi
  obtain ⟨b, -, hb⟩ := mem_flatMap.mp hi
  exact h.table b i hb

theorem descs_flushed (p : Flow → Bool) {l : List ℕ} (hl : ∀ i ∈ l, i < numFlows) :
    ((l.foldl (flushNode p) (e, [])).1.deliver (l.foldl (flushNode p) (e, [])).2).descs =
      e.descs := by
  rw [descs_deliver, descs_foldl_flushNode p hl, parts_nil, add_zero]

/-! ## A packet -/

def PassesFlow (f : Flow) : Prop := f.ipMismatch pkt = true ∨ e.mergeCheck f pkt = .all
deriving Decidable

/-- The packet that finds no flow gets a new one. -/
def flowOf : Flow :=
  match e.lookup pkt with
  | some i => e.pool i
  | none => (e.newNode pkt).1.pool (e.newNode pkt).2

/-- **A packet bypasses the flows**. -/
def Bypasses : Prop :=
  pkt.skipHash = true ∨ pkt.lenMismatch = true ∨ pkt.fragDesc.csumValid = false ∨
    e.optimizeProtocol pkt.hdrs.transProto = false ∨
    (pkt.hdrs.transProto ≠ protoTcp ∧ pkt.hdrs.transProto ≠ protoUdp) ∨
    e.PassesFlow pkt (e.flowOf pkt)
deriving Decidable

theorem newNode_frame : (e.newNode pkt).1.tcpByteLimit = e.tcpByteLimit ∧
    (e.newNode pkt).1.udpByteLimit = e.udpByteLimit := by
  rw [Engine.newNode, recycle]
  split
  · exact ⟨rfl, rfl⟩
  · exact ⟨rfl, rfl⟩

theorem descs_hashAdd {i : ℕ} (h : e.Bounded) (hi : i < numFlows) (key : UInt32) :
    ((e.setFlow i { e.pool i with hashKey := key }).hashAdd i key).descs = e.descs ∧
      ((e.setFlow i { e.pool i with hashKey := key }).hashAdd i key).Bounded := by
  refine ⟨?_, fun b j hj => ?_, h.nodesUsed, h.recycleIdx⟩
  · have hset : (e.setFlow i { e.pool i with hashKey := key }).descs + 0 = e.descs + 0 :=
      e.descs_setFlow hi 0 rfl
    rw [add_zero, add_zero] at hset
    exact hset
  · rcases (mem_hashAdd _ key b j).mp hj with ⟨rfl, -⟩ | hold
    · exact hi
    · exact h.table b j hold

theorem descs_newNode (h : e.Bounded) : (e.newNode pkt).1.descs = e.descs ∧
    (e.newNode pkt).1.Bounded ∧ (e.newNode pkt).2 < numFlows := by
  have hrecycle : e.recycle.1.descs = e.descs ∧ e.recycle.1.Bounded ∧ e.recycle.2 < numFlows := by
    rw [recycle]
    split
    · rename_i hlt
      exact ⟨rfl, ⟨h.table, hlt, h.recycleIdx⟩, hlt⟩
    · refine ⟨?_, ⟨fun b j hj => ?_, h.nodesUsed, Nat.mod_lt _ (by decide)⟩, h.recycleIdx⟩
      · rw [descs_deliver, descs_setFlow _ h.recycleIdx 0
          (by rw [Flow.descs_flush, add_zero]), add_zero]
        rfl
      · exact h.table b j (mem_filter.mp hj).1
  obtain ⟨hdescs, hbounded, hlt⟩ := hrecycle
  obtain ⟨hadd, hbounded'⟩ := e.recycle.1.descs_hashAdd hbounded hlt pkt.hashKey
  exact ⟨hadd.trans hdescs, hbounded', hlt⟩

theorem descs_nodeFound {i : ℕ} (hi : i < numFlows) :
    (e.nodeFound pkt i).1.descs + parts (e.nodeFound pkt i).2.1 =
      e.descs + (if pkt.hdrs.transProto ≠ protoTcp ∧ pkt.hdrs.transProto ≠ protoUdp then 0
        else if e.PassesFlow pkt (e.pool i) then parts (flushCurrentPkt pkt)
        else {pkt.fragDesc}) ∧
    ((e.nodeFound pkt i).2.2 = false ↔
      pkt.hdrs.transProto ≠ protoTcp ∧ pkt.hdrs.transProto ≠ protoUdp) := by
  -- the forced flush and the outcome of the merge check
  have hflow : ∀ kind, (kind = .all ↔ e.mergeCheck (e.pool i) pkt = .all) →
      ∀ r : Flow × List Delivery, r = (if (e.pool i).ipMismatch pkt then
        ((e.pool i).flush.1, (e.pool i).flush.2 ++ flushCurrentPkt pkt)
        else (e.pool i).settle pkt kind) →
      (e.setFlow i r.1).descs + parts r.2 = e.descs +
        if e.PassesFlow pkt (e.pool i) then parts (flushCurrentPkt pkt) else {pkt.fragDesc} := by
    intro kind hkind r hr
    refine e.descs_setFlow hi _ ?_
    rw [hr]
    by_cases hip : (e.pool i).ipMismatch pkt = true
    · rw [if_pos hip, if_pos (.inl hip)]
      show (e.pool i).flush.1.descs + parts ((e.pool i).flush.2 ++ flushCurrentPkt pkt) = _
      rw [parts_append, ← add_assoc, (e.pool i).descs_flush]
    · have hiff : e.PassesFlow pkt (e.pool i) ↔ kind = .all :=
        ⟨fun h => hkind.mpr (h.resolve_left hip), fun h => .inr (hkind.mp h)⟩
      rw [if_neg hip, (e.pool i).descs_settle pkt kind]
      simp only [hiff]
  rw [Engine.nodeFound]
  by_cases htcp : pkt.hdrs.transProto = protoTcp
  · have hcheck : e.mergeCheck (e.pool i) pkt = (e.pool i).tcpMergeCheck pkt e.tcpByteLimit := by
      rw [mergeCheck, if_pos htcp]
    rw [if_pos htcp, if_neg fun h => h.1 htcp]
    refine ⟨hflow _ (by rw [hcheck]) _ rfl, ?_⟩
    exact ⟨fun h => (Bool.noConfusion h), fun h => absurd htcp h.1⟩
  · rw [if_neg htcp]
    by_cases hudp : pkt.hdrs.transProto = protoUdp
    · have hcheck : e.mergeCheck (e.pool i) pkt = (e.pool i).udpMergeCheck pkt e.udpByteLimit := by
        rw [mergeCheck, if_neg htcp]
      rw [if_pos hudp, if_neg fun h => h.2 hudp]
      refine ⟨hflow _ (by rw [hcheck]) _ rfl, ?_⟩
      exact ⟨fun h => (Bool.noConfusion h), fun h => absurd hudp h.2⟩
    · rw [if_neg hudp, if_pos ⟨htcp, hudp⟩]
      exact ⟨rfl, fun _ => ⟨htcp, hudp⟩, fun _ => rfl⟩

theorem Bounded.nodeFound {e : Engine} (h : e.Bounded) (i : ℕ) : (e.nodeFound pkt i).1.Bounded := by
  rw [Engine.nodeFound]
  split
  · exact h.congr rfl rfl rfl
  · split
    · exact h.congr rfl rfl rfl
    · exact h

theorem descs_ingress (h : e.Bounded) (hopt : e.optimizeProtocol pkt.hdrs.transProto = true) :
    (e.ingress pkt).1.descs + parts (e.ingress pkt).2.1 =
      e.descs + (if pkt.hdrs.transProto ≠ protoTcp ∧ pkt.hdrs.transProto ≠ protoUdp then 0
        else if e.PassesFlow pkt (e.flowOf pkt) then parts (flushCurrentPkt pkt)
        else {pkt.fragDesc}) ∧
    ((e.ingress pkt).2.2 = false ↔ pkt.hdrs.transProto ≠ protoTcp ∧ pkt.hdrs.transProto ≠ protoUdp) ∧
    (e.ingress pkt).1.Bounded := by
  have hnot : ¬(!e.optimizeProtocol pkt.hdrs.transProto) = true := by
    rw [hopt]
    decide
  rw [Engine.ingress, if_neg hnot, flowOf]
  cases hi : e.lookup pkt with
  | some i =>
    have hlt := h.table _ i (List.mem_of_find?_eq_some hi)
    obtain ⟨hdescs, htaken⟩ := e.descs_nodeFound pkt hlt
    exact ⟨hdescs, htaken, h.nodeFound pkt i⟩
  | none =>
    obtain ⟨hnew, hbounded, hlt⟩ := e.descs_newNode pkt h
    obtain ⟨hdescs, htaken⟩ := (e.newNode pkt).1.descs_nodeFound pkt hlt
    rw [hnew] at hdescs
    have hcheck : (e.newNode pkt).1.PassesFlow pkt = e.PassesFlow pkt := by
      obtain ⟨htcp, hudp⟩ := e.newNode_frame pkt
      funext f
      rw [PassesFlow, PassesFlow, mergeCheck, mergeCheck, htcp, hudp]
    simp only [hcheck] at hdescs
    exact ⟨hdescs, htaken, hbounded.nodeFound pkt _⟩

/-- **The descriptor of a packet is held or goes out**. -/
theorem descs_mainIngress (h : e.Bounded) :
    (e.mainIngress pkt).descs = e.descs +
      (if e.Bypasses pkt then parts (flushCurrentPkt pkt) else {pkt.fragDesc}) ∧
    (e.mainIngress pkt).Bounded := by
  rw [Engine.mainIngress]
  by_cases hskip : pkt.skipHash = true
  · rw [if_pos hskip, if_pos (.inl hskip), descs_deliver]
    exact ⟨rfl, h.congr rfl rfl rfl⟩
  rw [if_neg hskip]
  by_cases hlen : pkt.lenMismatch = true
  · rw [if_pos hlen, if_pos (.inr (.inl hlen))]
    dsimp only
    rw [descs_deliver, parts_append, ← add_assoc, flushByHash,
      descs_foldl_flushNode _ (h.table _), parts_nil, add_zero]
    exact ⟨rfl, (h.foldl_flushNode _ _).congr rfl rfl rfl⟩
  rw [if_neg hlen]
  by_cases hcsum : pkt.fragDesc.csumValid = false
  · have hby : e.Bypasses pkt := .inr (.inr (.inl hcsum))
    rw [if_pos hby, hcsum, Bool.not_false, if_pos rfl, descs_deliver]
    exact ⟨rfl, h.congr rfl rfl rfl⟩
  have hvalid : pkt.fragDesc.csumValid = true := Bool.eq_true_of_not_eq_false hcsum
  rw [hvalid, if_neg (by decide)]
  dsimp only
  by_cases hopt : e.optimizeProtocol pkt.hdrs.transProto = false
  · have hnone : e.ingress pkt = (e, [], false) := by
      rw [Engine.ingress, hopt]
      rfl
    have hby : e.Bypasses pkt := .inr (.inr (.inr (.inl hopt)))
    rw [if_pos hby, hnone]
    show (e.deliver ([] ++ flushCurrentPkt pkt)).descs = _ ∧ _
    rw [descs_deliver]
    exact ⟨rfl, h.congr rfl rfl rfl⟩
  obtain ⟨hdescs, htaken, hbounded⟩ := e.descs_ingress pkt h (Bool.eq_true_of_not_eq_false hopt)
  by_cases hproto : pkt.hdrs.transProto ≠ protoTcp ∧ pkt.hdrs.transProto ≠ protoUdp
  · have hby : e.Bypasses pkt := .inr (.inr (.inr (.inr (.inl hproto))))
    rw [if_pos hby, htaken.mpr hproto, if_neg (by decide)]
    rw [if_pos hproto, add_zero] at hdescs
    rw [descs_deliver, parts_append, ← add_assoc, hdescs]
    exact ⟨rfl, hbounded.congr rfl rfl rfl⟩
  · have htrue : (e.ingress pkt).2.2 = true := Bool.eq_true_of_not_eq_false fun h => hproto (htaken.mp h)
    have hiff : e.Bypasses pkt ↔ e.PassesFlow pkt (e.flowOf pkt) := by
      refine ⟨?_, fun hp => .inr (.inr (.inr (.inr (.inr hp))))⟩
      rintro (hp | hp | hp | hp | hp | hp)
      · exact absurd hp hskip
      · exact absurd hp hlen
      · exact absurd hp hcsum
      · exact absurd hp hopt
      · exact absurd hp hproto
      · exact hp
    rw [htrue, if_pos rfl, descs_deliver, hdescs, if_neg hproto]
    simp only [hiff]
    exact ⟨trivial, hbounded.congr rfl rfl rfl⟩

theorem Bounded.init {e : Engine} (h : e.Init) : e.Bounded := by
  refine ⟨fun b i hi => ?_, ?_, ?_⟩
  · rw [h.table b] at hi
    cases hi
  · rw [h.nodesUsed]
    exact Nat.zero_le _
  · rw [h.recycleIdx]
    decide

theorem descs_init {e : Engine} (h : e.Init) : e.descs = 0 := by
  have hheld : e.held = 0 := by
    refine Finset.sum_eq_zero fun i _ => ?_
    rw [Flow.descs, (h.empty i).1]
    rfl
  rw [descs, hheld, h.delivered]
  rfl

theorem Bounded.chainFlush {e : Engine} (h : e.Bounded) :
    e.chainFlush.descs = e.descs ∧ e.chainFlush.Bounded :=
  ⟨e.descs_flushed _ h.nodes, (h.foldl_flushNode _ _).congr rfl rfl rfl⟩

theorem descs_next {e : Engine} (h : e.Bounded) {a : Event} (ha : ∀ pkt, a ≠ .ingress pkt) :
    (e.next a).descs = e.descs ∧ (e.next a).Bounded := by
  cases a with
  | ingress pkt => exact absurd rfl (ha pkt)
  | chainEnd => exact h.chainFlush
  | dlHeader =>
    show e.dlHeader.descs = _ ∧ e.dlHeader.Bounded
    rw [Engine.dlHeader]
    split
    · exact ⟨h.chainFlush.1, h.chainFlush.2.congr rfl rfl rfl⟩
    · exact ⟨rfl, h.congr rfl rfl rfl⟩
  | dlTrailer => exact ⟨h.chainFlush.1, h.chainFlush.2.congr rfl rfl rfl⟩
  | tcpByteLimit v =>
    show (e.setTcpByteLimit v).descs = _ ∧ (e.setTcpByteLimit v).Bounded
    rw [setTcpByteLimit]
    split
    · exact ⟨rfl, h⟩
    · exact ⟨rfl, h.congr rfl rfl rfl⟩
  | udpByteLimit v =>
    show (e.setUdpByteLimit v).descs = _ ∧ (e.setUdpByteLimit v).Bounded
    rw [setUdpByteLimit]
    split
    · exact ⟨rfl, h⟩
    · exact ⟨rfl, h.congr rfl rfl rfl⟩
  | engineMode v =>
    have hflush : ∀ p, ((e.nodes.foldl (flushNode p) (e, [])).1.deliver
        (e.nodes.foldl (flushNode p) (e, [])).2).descs = e.descs ∧
        ((e.nodes.foldl (flushNode p) (e, [])).1.deliver
          (e.nodes.foldl (flushNode p) (e, [])).2).Bounded := fun p =>
      ⟨e.descs_flushed p h.nodes, (h.foldl_flushNode p _).congr rfl rfl rfl⟩
    have hmode : (e.modeChange v).descs = e.descs ∧ (e.modeChange v).Bounded := by
      rw [modeChange]
      split
      · exact ⟨rfl, h⟩
      split
      · exact hflush _
      split
      · exact hflush _
      split
      · exact h.chainFlush
      · exact ⟨rfl, h⟩
    show (e.setEngineMode v).descs = _ ∧ (e.setEngineMode v).Bounded
    rw [setEngineMode]
    split
    · exact ⟨rfl, h⟩
    · exact ⟨hmode.1, hmode.2.congr rfl rfl rfl⟩

end Engine

end Rmnet.Offload
