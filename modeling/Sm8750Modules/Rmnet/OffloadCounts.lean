import Sm8750Modules.Lib.Runs
import Sm8750Modules.Rmnet.Offload

/-!
# The counters of the offload flows

A flow counts its packets in eight bits and their payload in sixteen, and is taken for empty when
the count is zero. The byte limits keep the sixteen bits from wrapping; nothing keeps the eight.
-/

namespace Rmnet.Offload

open Runs List

/-! ## Flows -/

namespace Flow

def payload (f : Flow) : ℕ := (f.pkts.map fun p => p.payloadLen.toNat).sum

structure Counted (f : Flow) : Prop where
  held : f.pktsHeld.toNat = f.pkts.length
  len : f.len.toNat = f.payload

variable {f : Flow} {pkt : Info}

theorem Counted.held_eq_zero_iff (h : f.Counted) : f.pktsHeld = 0 ↔ f.pkts = [] := by
  rw [← UInt8.toNat_inj, h.held]
  exact length_eq_zero_iff

theorem Counted.of_empty (hpkts : f.pkts = []) (hheld : f.pktsHeld = 0) (hlen : f.len = 0) :
    f.Counted :=
  ⟨by rw [hheld, hpkts]; rfl, by rw [hlen, payload, hpkts]; rfl⟩

theorem Counted.flush (h : f.Counted) : f.flush.1.Counted := by
  rw [Flow.flush]
  split
  · exact h
  · split
    · exact h
    · exact .of_empty rfl rfl rfl

theorem Counted.pkts_flush (h : f.Counted) : f.flush.1.pkts = [] := by
  rw [Flow.flush]
  split
  · rename_i hzero
    exact h.held_eq_zero_iff.mp hzero
  · split
    · rename_i hnil
      exact hnil
    · rfl

theorem pkts_startWith (f : Flow) (pkt : Info) : (f.startWith pkt).pkts = f.pkts := by
  rw [startWith]
  split <;> rfl

theorem pktsHeld_startWith (f : Flow) (pkt : Info) : (f.startWith pkt).pktsHeld = f.pktsHeld := by
  rw [startWith]
  split <;> rfl

theorem len_startWith (f : Flow) (pkt : Info) : (f.startWith pkt).len = f.len := by
  rw [startWith]
  split <;> rfl

theorem pkts_addPkt (f : Flow) (pkt : Info) : (f.addPkt pkt).pkts = f.pkts ++ [pkt] := by
  show (f.startWith pkt).pkts ++ [pkt] = _
  rw [pkts_startWith]

theorem pktsHeld_addPkt (f : Flow) (pkt : Info) : (f.addPkt pkt).pktsHeld = f.pktsHeld + 1 := by
  show (f.startWith pkt).pktsHeld + 1 = _
  rw [pktsHeld_startWith]

theorem len_addPkt (f : Flow) (pkt : Info) : (f.addPkt pkt).len = f.len + pkt.payloadLen := by
  show (f.startWith pkt).len + pkt.payloadLen = _
  rw [len_startWith]

theorem Counted.addPkt (h : f.Counted) (hheld : f.pkts.length < 255)
    (hlen : f.payload + pkt.payloadLen.toNat < 65536) : (f.addPkt pkt).Counted := by
  refine ⟨?_, ?_⟩
  · rw [pktsHeld_addPkt, pkts_addPkt, UInt8.toNat_add, h.held, length_append]
    exact Nat.mod_eq_of_lt (show f.pkts.length + 1 < 256 from Nat.succ_lt_succ hheld)
  · rw [len_addPkt, payload, pkts_addPkt, UInt16.toNat_add, h.len, map_append, sum_append]
    exact Nat.mod_eq_of_lt hlen

theorem payload_lt_of_tcpMergeCheck {limit : ℕ} (h : f.Counted) (hpkts : f.pkts ≠ [])
    (hcheck : f.tcpMergeCheck pkt limit = .none) : f.payload + pkt.payloadLen.toNat < limit := by
  have hzero : ¬f.pktsHeld = 0 := fun hz => hpkts (h.held_eq_zero_iff.mp hz)
  rw [tcpMergeCheck, if_neg hzero] at hcheck
  rw [← h.len]
  split at hcheck
  · cases hcheck
  · split at hcheck
    · cases hcheck
    · split at hcheck
      · cases hcheck
      · split at hcheck
        · cases hcheck
        · split at hcheck
          · cases hcheck
          · omega

theorem payload_lt_of_udpMergeCheck {limit : ℕ} (h : f.Counted) (hpkts : f.pkts ≠ [])
    (hcheck : f.udpMergeCheck pkt limit = .none) : f.payload + pkt.payloadLen.toNat < limit := by
  have hzero : ¬f.pktsHeld = 0 := fun hz => hpkts (h.held_eq_zero_iff.mp hz)
  rw [udpMergeCheck, if_neg hzero] at hcheck
  rw [← h.len]
  split at hcheck
  · cases hcheck
  · split at hcheck
    · cases hcheck
    · omega

theorem Counted.addPkt_nil (h : f.Counted) (hpkts : f.pkts = []) : (f.addPkt pkt).Counted := by
  refine h.addPkt (by rw [hpkts]; decide) ?_
  rw [payload, hpkts]
  show 0 + pkt.payloadLen.toNat < 65536
  rw [Nat.zero_add]
  exact pkt.payloadLen.toNat_lt

theorem Counted.settle {limit : ℕ} (h : f.Counted) (hlimit : limit ≤ 65000) {kind : FlushKind}
    (hkind : kind = .none → f.pkts ≠ [] → f.payload + pkt.payloadLen.toNat < limit)
    (hroom : kind = .none → f.pkts.length < 255) : (f.settle pkt kind).1.Counted := by
  cases kind with
  | all => exact h.flush
  | some => exact h.flush.addPkt_nil h.pkts_flush
  | none =>
    by_cases hpkts : f.pkts = []
    · exact h.addPkt_nil hpkts
    · have hlt := hkind rfl hpkts
      show (f.addPkt (f.joining pkt)).Counted
      refine h.addPkt (hroom rfl) ?_
      show f.payload + pkt.payloadLen.toNat < 65536
      omega

end Flow

namespace Engine

variable {e e' : Engine} {pkt : Info} {i : ℕ}

def Counts (e : Engine) : Prop := ∀ i, (e.pool i).Counted

theorem Counts.setFlow (h : e.Counts) {f : Flow} (hf : f.Counted) : (e.setFlow i f).Counts := by
  intro j
  by_cases hj : j = i
  · rw [hj, pool_setFlow_self]
    exact hf
  · rw [pool_setFlow_of_ne e f hj]
    exact h j

theorem foldl_flushNode_frame (p : Flow → Bool) (l : List ℕ) (s : Engine × List Delivery) :
    (l.foldl (flushNode p) s).1 = { s.1 with pool := (l.foldl (flushNode p) s).1.pool } := by
  induction l generalizing s with
  | nil => rfl
  | cons i l ih =>
    rw [foldl_cons, ih]
    have hone : (flushNode p s i).1 = { s.1 with pool := (flushNode p s i).1.pool } := by
      rw [flushNode]
      split <;> rfl
    rw [hone]

theorem Counts.flushNode {s : Engine × List Delivery} (h : s.1.Counts) (p : Flow → Bool) (i : ℕ) :
    (Engine.flushNode p s i).1.Counts := by
  rw [Engine.flushNode]
  split
  · exact h.setFlow (h i).flush
  · exact h

theorem Counts.foldl_flushNode {s : Engine × List Delivery} (h : s.1.Counts) (p : Flow → Bool)
    (l : List ℕ) : (l.foldl (Engine.flushNode p) s).1.Counts := by
  induction l generalizing s with
  | nil => exact h
  | cons i l ih => exact ih (h.flushNode p i)

theorem pkts_flushNode_of_nil {s : Engine × List Delivery} (p : Flow → Bool) {j : ℕ}
    (h : s.1.Counts) (hj : (s.1.pool j).pkts = []) (i : ℕ) :
    ((flushNode p s i).1.pool j).pkts = [] := by
  rw [flushNode]
  split
  · by_cases hji : j = i
    · rw [hji, pool_setFlow_self]
      exact (h i).pkts_flush
    · rw [pool_setFlow_of_ne _ _ hji]
      exact hj
  · exact hj

theorem pkts_foldl_of_nil {s : Engine × List Delivery} (p : Flow → Bool) {j : ℕ} (h : s.1.Counts)
    (hj : (s.1.pool j).pkts = []) (l : List ℕ) :
    ((l.foldl (flushNode p) s).1.pool j).pkts = [] := by
  induction l generalizing s with
  | nil => exact hj
  | cons i l ih => exact ih (h.flushNode p i) (pkts_flushNode_of_nil p h hj i)

theorem pkts_foldl_of_mem {s : Engine × List Delivery} {j : ℕ} (h : s.1.Counts) {l : List ℕ}
    (hj : j ∈ l) : ((l.foldl (flushNode fun _ => true) s).1.pool j).pkts = [] := by
  induction l generalizing s with
  | nil => cases hj
  | cons i l ih =>
    rw [foldl_cons]
    rcases mem_cons.mp hj with hji | hmem
    · refine pkts_foldl_of_nil _ (h.flushNode _ i) ?_ l
      rw [hji, flushNode]
      split
      · rw [pool_setFlow_self]
        exact (h i).pkts_flush
      · rename_i hzero
        apply (h i).held_eq_zero_iff.mp
        by_contra hne
        exact hzero ⟨hne, rfl⟩
    · exact ih (h.flushNode _ i) hmem

/-- The hash table holds each used node once, and no other node. -/
structure Linked (e : Engine) : Prop where
  nodup : ∀ b, (e.table b).Nodup
  one : ∀ b b' i, i ∈ e.table b → i ∈ e.table b' → b = b'
  used : ∀ b i, i ∈ e.table b → b < 32 ∧ i < e.nodesUsed
  linked : ∀ i, i < e.nodesUsed → ∃ b, i ∈ e.table b
  bound : e.nodesUsed ≤ numFlows
  recycle : e.recycleIdx < numFlows

theorem bucketOf_lt (key : UInt32) : bucketOf key < 32 := by
  have hlt := (key * 0x61C88647).toNat_lt
  rw [bucketOf, UInt32.toNat_shiftRight, Nat.shiftRight_eq_div_pow]
  show (key * 0x61C88647).toNat / 2 ^ 27 < 32
  omega

theorem Linked.nodes_nodup (h : e.Linked) : e.nodes.Nodup := by
  rw [nodes, nodup_flatMap]
  refine ⟨fun b _ => h.nodup b, nodup_range.imp fun hne => ?_⟩
  intro i hi hi'
  exact hne (h.one _ _ i hi hi')

theorem Linked.mem_nodes (h : e.Linked) (hi : i < e.nodesUsed) : i ∈ e.nodes := by
  obtain ⟨b, hb⟩ := h.linked i hi
  exact mem_flatMap.mpr ⟨b, mem_range.mpr (h.used b i hb).1, hb⟩

theorem Linked.congr (h : e.Linked) (htable : e'.table = e.table)
    (hused : e'.nodesUsed = e.nodesUsed) (hidx : e'.recycleIdx = e.recycleIdx) : e'.Linked := by
  refine ⟨?_, ?_, ?_, ?_, ?_, ?_⟩
  · rw [htable]
    exact h.nodup
  · rw [htable]
    exact h.one
  · rw [htable, hused]
    exact h.used
  · rw [htable, hused]
    exact h.linked
  · rw [hused]
    exact h.bound
  · rw [hidx]
    exact h.recycle

theorem mem_hashAdd (e : Engine) (key : UInt32) (b j : ℕ) :
    j ∈ (e.hashAdd i key).table b ↔ (j = i ∧ b = bucketOf key) ∨ j ∈ e.table b := by
  rw [hashAdd]
  by_cases hb : b = bucketOf key
  · simp [hb]
  · simp [hb]

theorem nodup_hashAdd (h : ∀ b, (e.table b).Nodup) (key : UInt32) (hi : ∀ b, i ∉ e.table b) (b : ℕ) :
    ((e.hashAdd i key).table b).Nodup := by
  rw [hashAdd]
  by_cases hb : b = bucketOf key
  · rw [hb]
    simp only [Function.update_self]
    exact nodup_cons.mpr ⟨hi _, h _⟩
  · simp only [Function.update_of_ne hb]
    exact h b

theorem Linked.addNew (h : e.Linked) (hlt : e.nodesUsed < numFlows) (key : UInt32)
    (htable : e'.table = e.table) (hused : e'.nodesUsed = e.nodesUsed + 1)
    (hidx : e'.recycleIdx = e.recycleIdx) : (e'.hashAdd e.nodesUsed key).Linked := by
  have hnew : ∀ b, e.nodesUsed ∉ e'.table b := by
    intro b hb
    rw [htable] at hb
    exact absurd (h.used b _ hb).2 (Nat.lt_irrefl _)
  refine ⟨nodup_hashAdd (htable ▸ h.nodup) key hnew, ?_, ?_, ?_, ?_, ?_⟩
  · intro b b' i hi hi'
    rw [mem_hashAdd] at hi hi'
    rcases hi with ⟨rfl, hb⟩ | hi
    · rcases hi' with ⟨-, hb'⟩ | hi'
      · rw [hb, hb']
      · exact absurd hi' (hnew b')
    · rcases hi' with ⟨rfl, -⟩ | hi'
      · exact absurd hi (hnew b)
      · rw [htable] at hi hi'
        exact h.one b b' i hi hi'
  · intro b i hi
    rw [mem_hashAdd] at hi
    show b < 32 ∧ i < e'.nodesUsed
    rw [hused]
    rcases hi with ⟨rfl, hb⟩ | hi
    · exact ⟨hb ▸ bucketOf_lt key, Nat.lt_succ_self _⟩
    · rw [htable] at hi
      exact ⟨(h.used b i hi).1, Nat.lt_succ_of_lt (h.used b i hi).2⟩
  · intro i hi
    have hi' : i < e.nodesUsed + 1 := hused ▸ hi
    rcases Nat.lt_succ_iff_lt_or_eq.mp hi' with hlt' | heq
    · obtain ⟨b, hb⟩ := h.linked i hlt'
      exact ⟨b, (mem_hashAdd e' key b i).mpr (.inr (htable ▸ hb))⟩
    · exact ⟨bucketOf key, (mem_hashAdd e' key _ i).mpr (.inl ⟨heq, rfl⟩)⟩
  · show e'.nodesUsed ≤ numFlows
    rw [hused]
    exact hlt
  · show e'.recycleIdx < numFlows
    rw [hidx]
    exact h.recycle

theorem Linked.move (h : e.Linked) (hi : i < e.nodesUsed) (key : UInt32)
    (htable : e'.table = (e.hashDel i).table) (hused : e'.nodesUsed = e.nodesUsed)
    (hidx : e'.recycleIdx < numFlows) : (e'.hashAdd i key).Linked := by
  have hmem : ∀ b j, j ∈ e'.table b ↔ j ∈ e.table b ∧ j ≠ i := by
    intro b j
    rw [htable]
    show j ∈ (e.table b).filter (· ≠ i) ↔ _
    rw [mem_filter, decide_eq_true_iff]
  have hnew : ∀ b, i ∉ e'.table b := fun b hb => ((hmem b i).mp hb).2 rfl
  have hnodup : ∀ b, (e'.table b).Nodup := by
    intro b
    rw [htable]
    exact (h.nodup b).filter _
  refine ⟨nodup_hashAdd hnodup key hnew, ?_, ?_, ?_, ?_, hidx⟩
  · intro b b' j hj hj'
    rw [mem_hashAdd] at hj hj'
    rcases hj with ⟨rfl, hb⟩ | hj
    · rcases hj' with ⟨-, hb'⟩ | hj'
      · rw [hb, hb']
      · exact absurd hj' (hnew b')
    · rcases hj' with ⟨rfl, -⟩ | hj'
      · exact absurd hj (hnew b)
      · exact h.one b b' j ((hmem b j).mp hj).1 ((hmem b' j).mp hj').1
  · intro b j hj
    rw [mem_hashAdd] at hj
    show b < 32 ∧ j < e'.nodesUsed
    rw [hused]
    rcases hj with ⟨rfl, hb⟩ | hj
    · exact ⟨hb ▸ bucketOf_lt key, hi⟩
    · exact h.used b j ((hmem b j).mp hj).1
  · intro j hj
    by_cases hji : j = i
    · exact ⟨bucketOf key, (mem_hashAdd e' key _ j).mpr (.inl ⟨hji, rfl⟩)⟩
    · obtain ⟨b, hb⟩ := h.linked j (hused ▸ hj)
      exact ⟨b, (mem_hashAdd e' key b j).mpr (.inr ((hmem b j).mpr ⟨hb, hji⟩))⟩
  · show e'.nodesUsed ≤ numFlows
    rw [hused]
    exact h.bound

end Engine

/-- A dissected packet, the end of a packet chain, a marker, or a new knob value. -/
inductive Event where
  | ingress (pkt : Info)
  | chainEnd
  | dlHeader
  | dlTrailer
  | tcpByteLimit (v : ℕ)
  | udpByteLimit (v : ℕ)
  | engineMode (v : ℕ)
deriving DecidableEq, Repr

namespace Engine

def next (e : Engine) : Event → Engine
  | .ingress pkt => e.mainIngress pkt
  | .chainEnd => e.chainFlush
  | .dlHeader => e.dlHeader
  | .dlTrailer => e.dlTrailer
  | .tcpByteLimit v => e.setTcpByteLimit v
  | .udpByteLimit v => e.setUdpByteLimit v
  | .engineMode v => e.setEngineMode v

/-- After `rmnet_offload_engine_init`. -/
structure Init (e : Engine) : Prop where
  empty : ∀ i, (e.pool i).pkts = [] ∧ (e.pool i).pktsHeld = 0 ∧ (e.pool i).len = 0
  nodesUsed : e.nodesUsed = 0
  recycleIdx : e.recycleIdx = 0
  table : ∀ b, e.table b = []
  tcpByteLimit : e.tcpByteLimit = 65000
  udpByteLimit : e.udpByteLimit = 65000
  delivered : e.delivered = []

/-- **The flow accounting**: the counters say what each flow holds, each node is in the hash table
at most once, and a flush of all flows leaves no packet held. -/
structure Accounted (e : Engine) : Prop where
  flows : ∀ i, (e.pool i).Counted
  once : e.nodes.Nodup
  drained : ∀ i, (e.flushAllFlows.1.pool i).pkts = []

def mergeCheck (e : Engine) (f : Flow) (pkt : Info) : FlushKind :=
  if pkt.hdrs.transProto = protoTcp then f.tcpMergeCheck pkt e.tcpByteLimit
  else f.udpMergeCheck pkt e.udpByteLimit

/-- The packet is appended to what the flow of the node holds. -/
def Joins (e : Engine) (pkt : Info) (i : ℕ) : Prop :=
  (pkt.skipHash = false ∧ pkt.lenMismatch = false ∧ pkt.fragDesc.csumValid = true) ∧
    e.optimizeProtocol pkt.hdrs.transProto = true ∧
    (pkt.hdrs.transProto = protoTcp ∨ pkt.hdrs.transProto = protoUdp) ∧
    (e.pool i).ipMismatch pkt = false ∧ e.mergeCheck (e.pool i) pkt = .none
deriving Decidable

end Engine

/-- Packets in any order with flushes and new knob values. -/
def offload : Machine Engine Event where
  init := Engine.Init
  guard := fun _ _ => True
  next := Engine.next

/-- What the steps must respect: a packet joins a flow of fewer than 255. -/
def Event.Safe (e : Engine) : Event → Prop
  | .ingress pkt => ∀ i ∈ e.lookup pkt, e.Joins pkt i → (e.pool i).pkts.length < 255
  | _ => True

instance (e : Engine) : ∀ a : Event, Decidable (a.Safe e) := by
  intro a
  cases a <;> dsimp only [Event.Safe] <;> infer_instance

/-! ## The invariant -/

/-- Counted flows, a table of the used nodes, nothing in the nodes that were never used, and byte
limits in the range of their knobs. -/
structure Sound (e : Engine) : Prop where
  counts : e.Counts
  linked : e.Linked
  fresh : ∀ i, e.nodesUsed ≤ i → (e.pool i).pkts = []
  tcp : e.tcpByteLimit ≤ 65000
  udp : e.udpByteLimit ≤ 65000

namespace Sound

open Engine

variable {e e' : Engine} {pkt : Info} {i : ℕ}

section

variable (h : Sound e)
include h

theorem setFlow (hi : i < e.nodesUsed) {f : Flow} (hf : f.Counted) : Sound (e.setFlow i f) := by
  refine ⟨h.counts.setFlow hf, h.linked.congr rfl rfl rfl, fun j hj => ?_, h.tcp, h.udp⟩
  rw [pool_setFlow_of_ne e f (Nat.ne_of_gt (Nat.lt_of_lt_of_le hi hj))]
  exact h.fresh j hj

theorem deliver (out : List Delivery) : Sound (e.deliver out) :=
  ⟨h.counts, h.linked.congr rfl rfl rfl, h.fresh, h.tcp, h.udp⟩

theorem foldl_flushNode (p : Flow → Bool) (l : List ℕ) : Sound (l.foldl (flushNode p) (e, [])).1 := by
  have hframe := foldl_flushNode_frame p l (e, [])
  refine ⟨Counts.foldl_flushNode h.counts p l, h.linked.congr ?_ ?_ ?_, fun j hj => ?_, ?_, ?_⟩
  · rw [hframe]
  · rw [hframe]
  · rw [hframe]
  · refine pkts_foldl_of_nil p h.counts (h.fresh j ?_) l
    rw [hframe] at hj
    exact hj
  · rw [hframe]
    exact h.tcp
  · rw [hframe]
    exact h.udp

theorem chainFlush : Sound e.chainFlush := (h.foldl_flushNode _ _).deliver _

theorem mem_lookup (hi : e.lookup pkt = some i) : i < e.nodesUsed :=
  (h.linked.used _ i (List.mem_of_find?_eq_some hi)).2

theorem newNode (pkt : Info) :
    Sound (e.newNode pkt).1 ∧ (e.newNode pkt).2 < (e.newNode pkt).1.nodesUsed ∧
      ((e.newNode pkt).1.pool (e.newNode pkt).2).pkts = [] := by
  by_cases hlt : e.nodesUsed < numFlows
  · have hnew : e.newNode pkt = (({ e with nodesUsed := e.nodesUsed + 1 }.setFlow e.nodesUsed
        { e.pool e.nodesUsed with hashKey := pkt.hashKey }).hashAdd e.nodesUsed pkt.hashKey,
        e.nodesUsed) := by
      rw [Engine.newNode, recycle, if_pos hlt]
    rw [hnew]
    have hpkts := h.fresh e.nodesUsed le_rfl
    have hcounted := h.counts e.nodesUsed
    refine ⟨⟨?_, ?_, ?_, h.tcp, h.udp⟩, Nat.lt_succ_self _, ?_⟩
    · exact Counts.setFlow (e := { e with nodesUsed := e.nodesUsed + 1 }) h.counts
        ⟨hcounted.held, hcounted.len⟩
    · exact h.linked.addNew hlt _ rfl rfl rfl
    · intro j hj
      have hne : j ≠ e.nodesUsed := Nat.ne_of_gt hj
      show ((Engine.setFlow _ _ _).pool j).pkts = []
      rw [pool_setFlow_of_ne _ _ hne]
      exact h.fresh j (Nat.le_of_lt hj)
    · show ((Engine.setFlow _ _ _).pool e.nodesUsed).pkts = []
      rw [pool_setFlow_self]
      exact hpkts
  · have hfull : e.nodesUsed = numFlows := Nat.le_antisymm h.linked.bound (Nat.le_of_not_lt hlt)
    obtain ⟨e₁, he₁⟩ : ∃ e₁, e₁ =
        { e with recycleIdx := (e.recycleIdx + 1) % numFlows }.hashDel e.recycleIdx := ⟨_, rfl⟩
    obtain ⟨f, hf⟩ : ∃ f, f = (e.pool e.recycleIdx).flush := ⟨_, rfl⟩
    have hnew : e.newNode pkt = ((((e₁.setFlow e.recycleIdx f.1).deliver f.2).setFlow e.recycleIdx
        { f.1 with hashKey := pkt.hashKey }).hashAdd e.recycleIdx pkt.hashKey, e.recycleIdx) := by
      have hpool : ∀ i g out, ((e₁.setFlow i g).deliver out).pool i = g :=
        fun i g out => pool_setFlow_self e₁ i g
      simp only [Engine.newNode, recycle, if_neg hlt]
      rw [← he₁, show e₁.pool e.recycleIdx = e.pool e.recycleIdx by rw [he₁]; rfl, ← hf, hpool]
    have hcounts : e₁.Counts := by
      rw [he₁]
      exact h.counts
    have hflush : f.1.Counted := hf ▸ (h.counts e.recycleIdx).flush
    have hpkts : f.1.pkts = [] := hf ▸ (h.counts e.recycleIdx).pkts_flush
    have hidx : e.recycleIdx < e.nodesUsed := hfull ▸ h.linked.recycle
    rw [hnew]
    refine ⟨⟨?_, ?_, ?_, ?_, ?_⟩, ?_, ?_⟩
    · exact Counts.setFlow (e := (e₁.setFlow e.recycleIdx f.1).deliver f.2)
        (hcounts.setFlow hflush) ⟨hflush.held, hflush.len⟩
    · refine h.linked.move hidx pkt.hashKey ?_ ?_ ?_
      · rw [he₁]
        rfl
      · rw [he₁]
        rfl
      · show e₁.recycleIdx < numFlows
        rw [he₁]
        exact Nat.mod_lt _ (by decide)
    · intro j hj
      have hused : e.nodesUsed ≤ j := by
        rw [he₁] at hj
        exact hj
      have hne : j ≠ e.recycleIdx := Nat.ne_of_gt (Nat.lt_of_lt_of_le hidx hused)
      show ((Engine.setFlow _ _ _).pool j).pkts = []
      rw [pool_setFlow_of_ne _ _ hne]
      show ((e₁.setFlow e.recycleIdx f.1).pool j).pkts = []
      rw [pool_setFlow_of_ne _ _ hne, he₁]
      exact h.fresh j hused
    · show e₁.tcpByteLimit ≤ 65000
      rw [he₁]
      exact h.tcp
    · show e₁.udpByteLimit ≤ 65000
      rw [he₁]
      exact h.udp
    · show e.recycleIdx < e₁.nodesUsed
      rw [he₁]
      exact hidx
    · show ((Engine.setFlow _ _ _).pool e.recycleIdx).pkts = []
      rw [pool_setFlow_self]
      exact hpkts

theorem nodeFound (hi : i < e.nodesUsed)
    (hroom : (e.pool i).ipMismatch pkt = false → (pkt.hdrs.transProto = protoTcp ∨
      pkt.hdrs.transProto = protoUdp) → e.mergeCheck (e.pool i) pkt = .none →
      (e.pool i).pkts.length < 255) : Sound (e.nodeFound pkt i).1 := by
  rw [Engine.nodeFound]
  by_cases htcp : pkt.hdrs.transProto = protoTcp
  · rw [if_pos htcp]
    refine h.setFlow hi ?_
    rw [Flow.tcpIngress]
    split
    · exact (h.counts i).flush
    · rename_i hmatch
      refine (h.counts i).settle h.tcp (fun hk hne => ?_) fun hk => ?_
      · exact Flow.payload_lt_of_tcpMergeCheck (h.counts i) hne hk
      · refine hroom (by simpa using hmatch) (.inl htcp) ?_
        rw [mergeCheck, if_pos htcp]
        exact hk
  · rw [if_neg htcp]
    by_cases hudp : pkt.hdrs.transProto = protoUdp
    · rw [if_pos hudp]
      refine h.setFlow hi ?_
      rw [Flow.udpIngress]
      split
      · exact (h.counts i).flush
      · rename_i hmatch
        refine (h.counts i).settle h.udp (fun hk hne => ?_) fun hk => ?_
        · exact Flow.payload_lt_of_udpMergeCheck (h.counts i) hne hk
        · refine hroom (by simpa using hmatch) (.inr hudp) ?_
          rw [mergeCheck, if_neg htcp]
          exact hk
    · rw [if_neg hudp]
      exact h

theorem ingress (hsafe : ∀ i ∈ e.lookup pkt,
    (pkt.hdrs.transProto = protoTcp ∨ pkt.hdrs.transProto = protoUdp) →
    e.optimizeProtocol pkt.hdrs.transProto = true → (e.pool i).ipMismatch pkt = false →
    e.mergeCheck (e.pool i) pkt = .none → (e.pool i).pkts.length < 255) :
    Sound (e.ingress pkt).1 := by
  rw [Engine.ingress]
  split
  · exact h
  · rename_i hopt
    split
    · rename_i i hi
      exact h.nodeFound (h.mem_lookup hi) fun hmatch hproto hcheck =>
        hsafe i hi hproto (by simpa using hopt) hmatch hcheck
    · obtain ⟨hnew, hlt, hpkts⟩ := h.newNode pkt
      refine hnew.nodeFound hlt fun _ _ _ => ?_
      rw [hpkts]
      decide

theorem mainIngress (hsafe : (Event.ingress pkt).Safe e) : Sound (e.mainIngress pkt) := by
  rw [Engine.mainIngress]
  split
  · exact h.deliver _
  · rename_i hskip
    split
    · exact (h.foldl_flushNode _ _).deliver _
    · rename_i hlen
      split
      · exact h.deliver _
      · rename_i hcsum
        have hin : Sound (e.ingress pkt).1 := by
          refine h.ingress fun i hi hproto hopt hmatch hcheck => hsafe i hi ?_
          exact ⟨⟨by simpa using hskip, by simpa using hlen, by simpa using hcsum⟩, hopt, hproto,
            hmatch, hcheck⟩
        dsimp only
        split
        · exact hin.deliver _
        · exact hin.deliver _

theorem modeChange (v : ℕ) : Sound (e.modeChange v) := by
  rw [Engine.modeChange]
  split
  · exact h
  · split
    · exact (h.foldl_flushNode _ _).deliver _
    · split
      · exact (h.foldl_flushNode _ _).deliver _
      · split
        · exact h.chainFlush
        · exact h

/-- **Every step of a sound engine that joins no packet to a flow of 255 leads to a sound engine.** -/
theorem next {a : Event} (hsafe : a.Safe e) : Sound (e.next a) := by
  cases a with
  | ingress pkt => exact h.mainIngress hsafe
  | chainEnd => exact h.chainFlush
  | dlHeader =>
    have hflush : Sound (if e.dlMarkerStart then e.chainFlush else e) := by
      split
      · exact h.chainFlush
      · exact h
    exact ⟨hflush.counts, hflush.linked.congr rfl rfl rfl, hflush.fresh, hflush.tcp, hflush.udp⟩
  | dlTrailer =>
    have hflush := h.chainFlush
    exact ⟨hflush.counts, hflush.linked.congr rfl rfl rfl, hflush.fresh, hflush.tcp, hflush.udp⟩
  | tcpByteLimit v =>
    show Sound (e.setTcpByteLimit v)
    rw [setTcpByteLimit]
    split
    · exact h
    · rename_i hv
      exact ⟨h.counts, h.linked.congr rfl rfl rfl, h.fresh, Nat.le_of_not_lt hv, h.udp⟩
  | udpByteLimit v =>
    show Sound (e.setUdpByteLimit v)
    rw [setUdpByteLimit]
    split
    · exact h
    · rename_i hv
      exact ⟨h.counts, h.linked.congr rfl rfl rfl, h.fresh, h.tcp, Nat.le_of_not_lt hv⟩
  | engineMode v =>
    show Sound (e.setEngineMode v)
    rw [setEngineMode]
    split
    · exact h
    · have hmode := h.modeChange v
      exact ⟨hmode.counts, hmode.linked.congr rfl rfl rfl, hmode.fresh, hmode.tcp, hmode.udp⟩

end

theorem of_init (h : e.Init) : Sound e := by
  refine ⟨fun i => .of_empty (h.empty i).1 (h.empty i).2.1 (h.empty i).2.2, ?_, fun i _ => (h.empty i).1,
    Nat.le_of_eq h.tcpByteLimit, Nat.le_of_eq h.udpByteLimit⟩
  refine ⟨fun b => ?_, fun b b' i hi => ?_, fun b i hi => ?_, fun i hi => ?_, ?_, ?_⟩
  · rw [h.table b]
    exact nodup_nil
  · rw [h.table b] at hi
    cases hi
  · rw [h.table b] at hi
    cases hi
  · rw [h.nodesUsed] at hi
    exact absurd hi (Nat.not_lt_zero i)
  · rw [h.nodesUsed]
    exact Nat.zero_le _
  · rw [h.recycleIdx]
    decide

theorem accounted (h : Sound e) : e.Accounted := by
  refine ⟨h.counts, h.linked.nodes_nodup, fun i => ?_⟩
  by_cases hi : i < e.nodesUsed
  · exact pkts_foldl_of_mem (s := (e, [])) h.counts (h.linked.mem_nodes hi)
  · exact pkts_foldl_of_nil (s := (e, [])) _ h.counts (h.fresh i (Nat.le_of_not_lt hi)) _

end Sound

def careful : Machine Engine Event := { offload with guard := fun e a => a.Safe e }

instance (e : Engine) (a : Event) : Decidable (careful.guard e a) :=
  inferInstanceAs (Decidable (a.Safe e))

/-- **In every run whose packets join flows of fewer than 255 packets, the counters are right, the
table holds each node once, and a flush of all flows leaves nothing.** -/
theorem accounted_of_reachable (e : Engine) (h : careful.Reachable e) : e.Accounted :=
  (h.invariant (fun _ hinit => Sound.of_init hinit) fun _ _ he ha => he.next ha).accounted

theorem mainIngress_of_joins {e : Engine} {pkt : Info} {i : ℕ} (hi : e.lookup pkt = some i)
    (h : e.Joins pkt i) :
    e.mainIngress pkt =
      (e.setFlow i ((e.pool i).addPkt ((e.pool i).joining pkt))).deliver [] := by
  obtain ⟨⟨hskip, hlen, hcsum⟩, hopt, hproto, hmatch, hcheck⟩ := h
  have hingress : e.ingress pkt =
      (e.setFlow i ((e.pool i).addPkt ((e.pool i).joining pkt)), [], true) := by
    rw [Engine.ingress, hopt, hi]
    simp only [Bool.not_true, Bool.false_eq_true, if_false, Engine.nodeFound, hmatch]
    rw [Engine.mergeCheck] at hcheck
    by_cases htcp : pkt.hdrs.transProto = protoTcp
    · rw [if_pos htcp] at hcheck
      rw [if_pos htcp, Flow.tcpIngress, hcheck]
      rfl
    · rw [if_neg htcp] at hcheck
      rw [if_neg htcp, if_pos (hproto.resolve_left htcp), Flow.udpIngress, hcheck]
      rfl
  rw [Engine.mainIngress, hskip, hlen, hcsum, hingress]
  rfl

/-- A UDP datagram with one byte of payload. -/
def datagram : Info where
  fragDesc :=
    { data := [0x45, 0, 0, 29, 0, 0, 0x40, 0, 64, 17, 0, 0, 10, 0, 0, 1, 10, 0, 0, 2,
        0x13, 0x88, 0x17, 0x70, 0, 9, 0, 0, 0x41]
      hash := 0
      gsoSize := 0
      gsoSegs := 0
      coalBytes := 0
      coalBufsize := 0
      tcpFlagsSet := false
      tcpFlags := 0
      csumValid := true }
  hdrs :=
    { sport := 5000
      dport := 6000
      saddr := (0x0A000001, 0, 0, 0)
      daddr := (0x0A000002, 0, 0, 0)
      flagWord := 0x40004000
      tcpSeq := 0
      ipLen := 20
      transLen := 8
      ipProto := 4
      transProto := 17 }
  hashKey := 7
  payloadLen := 1
  firstPkt := false
  skipHash := false
  lenMismatch := false

def emptyFlow : Flow := ⟨[], datagram.hdrs, 0, 0, 0, 0⟩

def start : Engine where
  pool _ := emptyFlow
  nodesUsed := 0
  recycleIdx := 0
  table _ := []
  tcpByteLimit := 65000
  udpByteLimit := 65000
  engineMode := 0
  dlMarkerStart := false
  delivered := []

theorem start_init : start.Init :=
  ⟨fun _ => ⟨rfl, rfl, rfl⟩, rfl, rfl, fun _ => rfl, rfl, rfl, rfl⟩

def floodedFlow (n : ℕ) : Flow where
  pkts := { datagram with firstPkt := true } :: List.replicate n datagram
  hdrs := datagram.hdrs
  hashKey := 7
  len := UInt16.ofNat (n + 1)
  gsoLen := 1
  pktsHeld := UInt8.ofNat (n + 1)

/-- An engine that holds `n + 1` datagrams in its first node. -/
structure Flooded (e : Engine) (n : ℕ) : Prop where
  pool : e.pool 0 = floodedFlow n
  table : e.table (bucketOf 7) = [0]
  limit : e.udpByteLimit = 65000
  mode : e.engineMode = 0

theorem floodedFlow_addPkt (n : ℕ) : (floodedFlow n).addPkt datagram = floodedFlow (n + 1) := by
  have hpkts : (floodedFlow n).pkts ++ [datagram] = (floodedFlow (n + 1)).pkts := by
    rw [floodedFlow, floodedFlow, cons_append, ← replicate_succ']
  have hheld : (floodedFlow n).pktsHeld + 1 = (floodedFlow (n + 1)).pktsHeld :=
    (UInt8.ofNat_add (n + 1) 1).symm
  have hlen : (floodedFlow n).len + 1 = (floodedFlow (n + 1)).len :=
    (UInt16.ofNat_add (n + 1) 1).symm
  show Flow.mk ((floodedFlow n).pkts ++ [datagram]) datagram.hdrs 7 ((floodedFlow n).len + 1) 1
    ((floodedFlow n).pktsHeld + 1) = _
  rw [hpkts, hheld, hlen]
  rfl

theorem floodedFlow_held {n : ℕ} (hn : n < 255) : (floodedFlow n).pktsHeld ≠ 0 := by
  intro h
  have hnat := congrArg UInt8.toNat h
  rw [floodedFlow, UInt8.toNat_ofNat', Nat.mod_eq_of_lt (by omega)] at hnat
  exact absurd hnat (Nat.succ_ne_zero n)

theorem Flooded.next {e : Engine} {n : ℕ} (h : Flooded e n) (hn : n < 255) :
    Flooded (e.next (.ingress datagram)) (n + 1) := by
  have hheld := floodedFlow_held hn
  have hmatch : (floodedFlow n).matchPkt datagram = true := by
    rw [Flow.matchPkt, if_neg hheld]
    rfl
  have hlookup : e.lookup datagram = some 0 := by
    rw [Engine.lookup, show datagram.hashKey = 7 from rfl, h.table, List.find?_cons, h.pool, hmatch]
  have hjoin : (floodedFlow n).joining datagram = datagram := by
    rw [Flow.joining, beq_false_of_ne hheld]
    rfl
  have hcheck : (floodedFlow n).udpMergeCheck datagram 65000 = .none := by
    have hlen : (floodedFlow n).len.toNat = n + 1 := by
      rw [floodedFlow, UInt16.toNat_ofNat', Nat.mod_eq_of_lt (by omega)]
    have hgso : orElseIfZero datagram.fragDesc.gsoSize datagram.payloadLen = (floodedFlow n).gsoLen :=
      rfl
    rw [Flow.udpMergeCheck, if_neg hheld, if_neg (not_not_intro hgso), hlen, if_neg]
    show ¬65000 ≤ 1 + (n + 1)
    omega
  have hjoins : e.Joins datagram 0 := by
    refine ⟨by decide, ?_, .inr rfl, ?_, ?_⟩
    · rw [Engine.optimizeProtocol, h.mode]
      rfl
    · rw [h.pool, Flow.ipMismatch, if_neg hheld]
      rfl
    · rw [Engine.mergeCheck, if_neg (by decide), h.pool, h.limit]
      exact hcheck
  show Flooded (e.mainIngress datagram) (n + 1)
  rw [mainIngress_of_joins hlookup hjoins, h.pool, hjoin, floodedFlow_addPkt]
  exact ⟨Engine.pool_setFlow_self e 0 _, h.table, h.limit, h.mode⟩

theorem exists_flooded {n : ℕ} (hn : n ≤ 255) : ∃ e, offload.Reachable e ∧ Flooded e n := by
  induction n with
  | zero =>
    refine ⟨start.next (.ingress datagram), ?_, ?_⟩
    · exact (Machine.Reachable.init (M := offload) start_init).next (a := .ingress datagram) trivial
    · exact ⟨by decide, by decide, rfl, rfl⟩
  | succ n ih =>
    obtain ⟨e, hreach, hflood⟩ := ih (Nat.le_of_succ_le hn)
    exact ⟨e.next (.ingress datagram),
      Machine.Reachable.next (M := offload) (a := .ingress datagram) hreach trivial, hflood.next hn⟩

/-- The flow of 256 datagrams counts none of them. -/
theorem not_accounted : ¬∀ e : Engine, offload.Reachable e → e.Accounted := by
  intro h
  obtain ⟨e, hreach, hflood⟩ := exists_flooded le_rfl
  have hcount := ((h e hreach).flows 0).held
  rw [hflood.pool] at hcount
  have hlength : (floodedFlow 255).pkts.length = 256 := by
    rw [floodedFlow, length_cons, length_replicate]
  rw [hlength] at hcount
  exact absurd hcount (by decide)

theorem accounted_example :
    (careful.exec start [.ingress datagram, .ingress datagram, .ingress datagram, .chainEnd]).Accounted :=
  accounted_of_reachable _ ((Machine.Reachable.init (M := careful) start_init).exec
    [.ingress datagram, .ingress datagram, .ingress datagram, .chainEnd] (by decide))

end Rmnet.Offload
