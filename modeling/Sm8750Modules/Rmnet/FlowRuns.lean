import Sm8750Modules.Rmnet.FlowOrder

/-!
# Runs of the offload engine

A packet goes to the node of its flow, to a new one, or out past the flows. Where its hash finds
its flow, what is merged can be cut again, and nothing of a flow overtakes.
-/

namespace Rmnet.Offload

open Runs Function List

namespace Engine

variable {e e' : Engine} {pkt : Info} {i j : ℕ} {K : FlowKey} {received : List Info}

/-- What the engine relies on for a packet that may be held: its dissection. -/
structure Admits (e : Engine) (pkt : Info) : Prop where
  dissected : pkt.Dissected
  hash : ∀ i < numFlows, ∀ q ∈ (e.pool i).pkts, q.hashKey = pkt.hashKey ↔ q.key = pkt.key
  version : ∀ i ∈ e.lookup pkt, (e.pool i).pkts ≠ [] → (e.pool i).hdrs.ipProto = pkt.hdrs.ipProto
  joins : ∀ i ∈ e.lookup pkt, e.Joins pkt i → (e.pool i).pkts ≠ [] →
    (e.pool i).Agrees pkt ∧ (e.pool i).pkts.length < 255

theorem Sound.lt_of_mem (h : Sound e) {p : Info} (hp : p ∈ (e.pool i).pkts) :
    i < e.nodesUsed ∧ i < numFlows := by
  have hlt : i < e.nodesUsed := by
    by_contra hge
    rw [h.fresh i (Nat.le_of_not_lt hge)] at hp
    cases hp
  exact ⟨hlt, Nat.lt_of_lt_of_le hlt h.linked.bound⟩

theorem Faithful.hashKey_of_mem (h : e.Faithful received) (ha : e.Admits pkt) {q : Info}
    (hq : q ∈ (e.pool i).pkts) (hkey : q.key = pkt.key) : (e.pool i).hashKey = pkt.hashKey := by
  rw [← (h.placed.keyed i q hq).2]
  exact (ha.hash i (Sound.lt_of_mem h.sound hq).2 q hq).mpr hkey

theorem Faithful.lookup_some (h : e.Faithful received) (ha : e.Admits pkt)
    (hi : e.lookup pkt = some i) : (e.pool i).hashKey = pkt.hashKey ∧ e.Alone pkt.key i ∧
      ((e.pool i).pkts ≠ [] → (e.pool i).hdrs.flowKey = pkt.key) := by
  have hmatch : (e.pool i).matchPkt pkt = true :=
    List.find?_some (p := fun i => (e.pool i).matchPkt pkt) hi
  have hused := h.sound.mem_lookup hi
  by_cases hpkts : (e.pool i).pkts = []
  · have hkey : (e.pool i).hashKey = pkt.hashKey := by
      rw [Flow.matchPkt, if_pos ((h.sound.counts i).held_eq_zero_iff.mpr hpkts)] at hmatch
      exact beq_iff_eq.mp hmatch
    refine ⟨hkey, fun j hj q hq hqkey => hj ?_, fun hne => absurd hpkts hne⟩
    refine h.placed.distinct j i (Sound.lt_of_mem h.sound hq).1 hused ?_
    rw [hkey, h.hashKey_of_mem ha hq hqkey]
  · have hheld : (e.pool i).pktsHeld ≠ 0 := fun hzero =>
      hpkts ((h.sound.counts i).held_eq_zero_iff.mp hzero)
    have hflow := Flow.flowKey_of_matchPkt hheld hmatch (ha.version i hi hpkts)
    obtain ⟨q, hq⟩ := exists_mem_of_ne_nil _ hpkts
    have hqkey : q.key = pkt.key := (h.placed.keyed i q hq).1.trans hflow
    exact ⟨h.hashKey_of_mem ha hq hqkey, hqkey ▸ h.placed.lone.alone hq, fun _ => hflow⟩

/-- **Where no node is found, none holds the flow**, nor has a used node its hash. -/
theorem Faithful.lookup_none (h : e.Faithful received) (ha : e.Admits pkt)
    (hnone : e.lookup pkt = none) :
    (∀ j, j < e.nodesUsed → (e.pool j).hashKey ≠ pkt.hashKey) ∧
      ∀ j, ∀ q ∈ (e.pool j).pkts, q.key ≠ pkt.key := by
  have hhash : ∀ j, j < e.nodesUsed → (e.pool j).hashKey ≠ pkt.hashKey := by
    intro j hj heq
    obtain ⟨b, hb⟩ := h.sound.linked.linked j hj
    have hbucket := h.placed.bucket b j hb
    rw [heq] at hbucket
    rw [hbucket] at hb
    refine List.find?_eq_none.mp hnone j hb ?_
    by_cases hpkts : (e.pool j).pkts = []
    · rw [Flow.matchPkt, if_pos ((h.sound.counts j).held_eq_zero_iff.mpr hpkts)]
      exact beq_iff_eq.mpr heq
    · have hheld : (e.pool j).pktsHeld ≠ 0 := fun hzero =>
        hpkts ((h.sound.counts j).held_eq_zero_iff.mp hzero)
      obtain ⟨q, hq⟩ := exists_mem_of_ne_nil _ hpkts
      obtain ⟨hqkey, hqhash⟩ := h.placed.keyed j q hq
      have hkey := (ha.hash j (Sound.lt_of_mem h.sound hq).2 q hq).mp (hqhash.trans heq)
      exact Flow.matchPkt_of_flowKey hheld (hqkey.symm.trans hkey) ha.dissected.version
  exact ⟨hhash, fun j q hq hkey =>
    hhash j (Sound.lt_of_mem h.sound hq).1 (h.hashKey_of_mem ha hq hkey)⟩

theorem newNode_spec (h : Sound e) (pkt : Info) :
    (e.newNode pkt).1.pool = (e.setFlow (e.newNode pkt).2
        { (e.pool (e.newNode pkt).2).flush.1 with hashKey := pkt.hashKey }).pool ∧
      (e.newNode pkt).1.delivered = e.delivered ++ (e.pool (e.newNode pkt).2).flush.2 ∧
      (∀ b j, j ∈ (e.newNode pkt).1.table b →
        (j = (e.newNode pkt).2 ∧ b = bucketOf pkt.hashKey) ∨
          (j ∈ e.table b ∧ j ≠ (e.newNode pkt).2)) ∧
      (∀ j, j < (e.newNode pkt).1.nodesUsed → j = (e.newNode pkt).2 ∨ j < e.nodesUsed) ∧
      (e.newNode pkt).1.engineMode = e.engineMode := by
  by_cases hlt : e.nodesUsed < numFlows
  · have hnew : e.newNode pkt = (({ e with nodesUsed := e.nodesUsed + 1 }.setFlow e.nodesUsed
        { e.pool e.nodesUsed with hashKey := pkt.hashKey }).hashAdd e.nodesUsed pkt.hashKey,
        e.nodesUsed) := by
      rw [Engine.newNode, recycle, if_pos hlt]
    have hflush : (e.pool e.nodesUsed).flush = (e.pool e.nodesUsed, []) :=
      Flow.flush_of_held ((h.counts _).held_eq_zero_iff.mpr (h.fresh _ le_rfl))
    rw [hnew]
    dsimp only
    rw [hflush]
    refine ⟨rfl, (append_nil _).symm, fun b j hj => ?_, fun j hj => ?_, rfl⟩
    · rcases (mem_hashAdd _ pkt.hashKey b j).mp hj with hadded | hold
      · exact .inl hadded
      · exact .inr ⟨hold, (h.linked.used b j hold).2.ne⟩
    · rcases Nat.lt_succ_iff_lt_or_eq.mp hj with hold | heq
      · exact .inr hold
      · exact .inl heq
  · obtain ⟨e₁, he₁⟩ : ∃ e₁, e₁ =
        { e with recycleIdx := (e.recycleIdx + 1) % numFlows }.hashDel e.recycleIdx := ⟨_, rfl⟩
    have hnew : e.newNode pkt = ((((e₁.setFlow e.recycleIdx (e.pool e.recycleIdx).flush.1).deliver
        (e.pool e.recycleIdx).flush.2).setFlow e.recycleIdx
        { (e.pool e.recycleIdx).flush.1 with hashKey := pkt.hashKey }).hashAdd e.recycleIdx
          pkt.hashKey, e.recycleIdx) := by
      have hpool : ∀ i g out, ((e₁.setFlow i g).deliver out).pool i = g :=
        fun i g out => pool_setFlow_self e₁ i g
      simp only [Engine.newNode, recycle, if_neg hlt]
      rw [← he₁, show e₁.pool e.recycleIdx = e.pool e.recycleIdx by rw [he₁]; rfl, hpool]
    rw [hnew]
    dsimp only
    refine ⟨?_, ?_, fun b j hj => ?_, fun j hj => ?_, ?_⟩
    · show update (update e₁.pool _ _) _ _ = update e.pool _ _
      rw [update_idem, he₁]
      rfl
    · show e₁.delivered ++ _ = _
      rw [he₁]
      rfl
    · rcases (mem_hashAdd _ pkt.hashKey b j).mp hj with hadded | hold
      · exact .inl hadded
      · have hdel : j ∈ e₁.table b := hold
        rw [he₁] at hdel
        obtain ⟨hmem, hne⟩ := mem_filter.mp hdel
        exact .inr ⟨hmem, of_decide_eq_true hne⟩
    · have hold : j < e₁.nodesUsed := hj
      rw [he₁] at hold
      exact .inr hold
    · show e₁.engineMode = _
      rw [he₁]
      rfl

theorem Faithful.newNode (h : e.Faithful received) (ha : e.Admits pkt)
    (hnone : e.lookup pkt = none) : (e.newNode pkt).1.Faithful received ∧
      ((e.newNode pkt).1.pool (e.newNode pkt).2).hashKey = pkt.hashKey ∧
      (e.newNode pkt).1.Alone pkt.key (e.newNode pkt).2 := by
  obtain ⟨hsound, hlt, hpkts⟩ := h.sound.newNode pkt
  obtain ⟨hpool, hdelivered, htable, hused, hmode⟩ := newNode_spec h.sound pkt
  obtain ⟨hhash, hflow⟩ := h.lookup_none ha hnone
  obtain ⟨i, hi⟩ : ∃ i, i = (e.newNode pkt).2 := ⟨_, rfl⟩
  obtain ⟨e₁, he₁⟩ : ∃ e₁, e₁ = (e.newNode pkt).1 := ⟨_, rfl⟩
  rw [← hi, ← he₁] at hpool hdelivered htable hused hpkts hlt
  rw [← he₁] at hmode hsound
  rw [← hi, ← he₁]
  have hself : e₁.pool i = { (e.pool i).flush.1 with hashKey := pkt.hashKey } := by
    rw [hpool, pool_setFlow_self]
  have hother : ∀ j, j ≠ i → e₁.pool j = e.pool j := by
    intro j hj
    rw [hpool, pool_setFlow_of_ne _ _ hj]
  have hmem : ∀ j, ∀ p ∈ (e₁.pool j).pkts, j ≠ i ∧ e₁.pool j = e.pool j := by
    intro j p hp
    have hj : j ≠ i := by
      intro heq
      rw [heq, hpkts] at hp
      cases hp
    exact ⟨hj, hother j hj⟩
  have hkey : (e₁.pool i).hashKey = pkt.hashKey := by
    rw [hself]
  have hfresh : ∀ j, j ≠ i → j < e₁.nodesUsed → (e₁.pool j).hashKey ≠ pkt.hashKey := by
    intro j hj hlt'
    rw [hother j hj]
    exact hhash j ((hused j hlt').resolve_left hj)
  have hsub : ∀ j, ∀ p ∈ (e₁.pool j).pkts, p ∈ (e.pool j).pkts := by
    intro j p hp
    rw [(hmem j p hp).2] at hp
    exact hp
  refine ⟨⟨hsound, ⟨fun j p hp => ?_, fun b j hj => ?_, fun j k hj hk heq => ?_,
    h.placed.lone.mono hsub⟩, fun j => ?_, fun j p hp => ?_, ?_, fun K => ?_⟩, hkey,
    fun j _ p hp => hflow j p (hsub j p hp)⟩
  · rw [(hmem j p hp).2]
    exact h.placed.keyed j p (hsub j p hp)
  · rcases htable b j hj with ⟨hji, hb⟩ | ⟨hold, hne⟩
    · rw [hji, hkey, hb]
    · rw [hother j hne]
      exact h.placed.bucket b j hold
  · by_cases hji : j = i
    · by_cases hki : k = i
      · rw [hji, hki]
      · rw [hji, hkey] at heq
        exact absurd heq.symm (hfresh k hki hk)
    · by_cases hki : k = i
      · rw [hki, hkey] at heq
        exact absurd heq (hfresh j hji hj)
      · rw [hother j hji, hother k hki] at heq
        exact h.placed.distinct j k ((hused j hj).resolve_left hji) ((hused k hk).resolve_left hki) heq
  · by_cases hji : j = i
    · rw [hji]
      exact .of_nil hpkts
    · rw [hother j hji]
      exact h.merged j
  · obtain ⟨hproto, hopt⟩ := h.optimized j p (hsub j p hp)
    refine ⟨hproto, ?_⟩
    rw [optimizeProtocol, hmode]
    exact hopt
  · rw [hdelivered]
    intro d hd
    rcases mem_append.mp hd with hold | hnew
    · exact h.transparent d hold
    · exact (h.merged i).transparent_flush d hnew
  · have hmove : outOf K (e.pool i).flush.2 ++ (e.setFlow i { (e.pool i).flush.1 with
        hashKey := pkt.hashKey }).heldOf K = e.heldOf K ++ [] := by
      refine heldOf_setFlow (Nat.lt_of_lt_of_le hlt hsound.linked.bound) ?_ ?_
      · show _ ++ part K (e.pool i).flush.1.pkts = _
        rw [Flow.part_flush (h.sound.counts i), (h.sound.counts i).pkts_flush]
        rfl
      · exact h.placed.lone.alone_or_nil K i
    have hheld : e₁.heldOf K = (e.setFlow i { (e.pool i).flush.1 with
        hashKey := pkt.hashKey }).heldOf K := by
      rw [heldOf, heldOf, hpool]
    rw [hdelivered, outOf_append, hheld, append_assoc, hmove, append_nil]
    exact h.ordered K

end Engine

/-! ## A packet at its node -/

namespace Flow

variable {f : Flow} {pkt : Info}

/-- The flow is that of a packet, or will be. -/
structure Keyed (f : Flow) (pkt : Info) : Prop where
  hashKey : f.hashKey = pkt.hashKey
  flowKey : f.pkts ≠ [] → f.hdrs.flowKey = pkt.key
  pkts : ∀ p ∈ f.pkts, p.key = pkt.key ∧ p.hashKey = pkt.hashKey

theorem Keyed.flush (h : f.Keyed pkt) (hc : f.Counted) : f.flush.1.Keyed pkt := by
  refine ⟨(hdrs_flush f).2.trans h.hashKey, fun hne => absurd hc.pkts_flush hne, fun p hp => ?_⟩
  rw [hc.pkts_flush] at hp
  cases hp

theorem Keyed.addPkt (h : f.Keyed pkt) {first : Bool} (hfirst : f.pkts = [] → first = true) :
    (f.addPkt { pkt with firstPkt := first }).Keyed pkt := by
  refine ⟨?_, fun _ => ?_, fun p hp => ?_⟩
  · show (f.startWith { pkt with firstPkt := first }).hashKey = _
    rw [startWith]
    split
    · rfl
    · exact h.hashKey
  · have hstart : (f.startWith { pkt with firstPkt := first }).hdrs.flowKey = pkt.key := by
      rw [startWith]
      split
      · rfl
      · rename_i hnot
        exact h.flowKey fun hnil => hnot (hfirst hnil)
    rw [Flow.addPkt]
    dsimp only
    split
    · exact hstart
    · exact hstart
  · rw [pkts_addPkt] at hp
    rcases mem_append.mp hp with hold | hnew
    · exact h.pkts p hold
    · rw [mem_singleton.mp hnew]
      exact ⟨rfl, rfl⟩

theorem Keyed.settle (h : f.Keyed pkt) (hc : f.Counted) (kind : FlushKind) :
    (f.settle pkt kind).1.Keyed pkt := by
  cases kind with
  | none =>
    refine h.addPkt fun hnil => ?_
    rw [hc.held_eq_zero_iff.mpr hnil]
    rfl
  | some => exact (h.flush hc).addPkt fun _ => rfl
  | all => exact h.flush hc

end Flow

namespace Engine

variable {e e' : Engine} {pkt : Info} {i j : ℕ} {K : FlowKey} {received : List Info}

def outcome (e : Engine) (f : Flow) (pkt : Info) : FlushKind :=
  if f.ipMismatch pkt then .all else e.mergeCheck f pkt

theorem nodeFound_eq (hproto : pkt.hdrs.transProto = protoTcp ∨ pkt.hdrs.transProto = protoUdp) :
    e.nodeFound pkt i = (e.setFlow i ((e.pool i).settle pkt (e.outcome (e.pool i) pkt)).1,
      ((e.pool i).settle pkt (e.outcome (e.pool i) pkt)).2, true) := by
  rw [Engine.nodeFound, outcome, mergeCheck]
  by_cases htcp : pkt.hdrs.transProto = protoTcp
  · rw [if_pos htcp, if_pos htcp, Flow.tcpIngress]
    cases (e.pool i).ipMismatch pkt with
    | true => rfl
    | false => rfl
  · rw [if_neg htcp, if_pos (hproto.resolve_left htcp), if_neg htcp, Flow.udpIngress]
    cases (e.pool i).ipMismatch pkt with
    | true => rfl
    | false => rfl

theorem specialFlags_of_outcome (h : e.outcome (e.pool i) pkt ≠ .all)
    (htcp : pkt.hdrs.transProto = protoTcp) : pkt.specialFlags = 0 := by
  rw [outcome] at h
  split at h
  · exact absurd rfl h
  · rw [mergeCheck, if_pos htcp] at h
    exact Flow.specialFlags_of_tcpMergeCheck h

theorem compared_of_outcome (h : e.outcome (e.pool i) pkt = .none) (hheld : (e.pool i).pktsHeld ≠ 0)
    (hmatch : (e.pool i).matchPkt pkt = true) (hp : pkt.Dissected) : (e.pool i).Compared pkt := by
  rw [outcome] at h
  split at h
  · cases h
  · rename_i hip
    rw [mergeCheck] at h
    split at h
    · exact Flow.compared_of_tcpMergeCheck hheld hmatch (Bool.eq_false_iff.mpr hip) hp.version h
    · rename_i hudp
      exact Flow.compared_of_udpMergeCheck hheld hmatch (Bool.eq_false_iff.mpr hip) hp.version hudp h

theorem Faithful.nodeFound (h : e.Faithful received) (hi : i < e.nodesUsed) (hp : pkt.Dissected)
    (hopt : e.optimizeProtocol pkt.hdrs.transProto = true)
    (hkeyed : (e.pool i).Keyed pkt) (halone : e.Alone pkt.key i)
    (hjoin : e.outcome (e.pool i) pkt = .none → (e.pool i).pkts ≠ [] →
      (e.pool i).Agrees pkt ∧ (e.pool i).pkts.length < 255 ∧
        pkt.hdrs.ipProto = (e.pool i).hdrs.ipProto) :
    (e.nodeFound pkt i).2.2 = true ∧
      ((e.nodeFound pkt i).1.deliver (e.nodeFound pkt i).2.1).Faithful (received ++ [pkt]) := by
  have hc := h.sound.counts i
  have hsound : Sound (e.nodeFound pkt i).1 := by
    refine h.sound.nodeFound hi fun hip _ hcheck => ?_
    by_cases hpkts : (e.pool i).pkts = []
    · rw [hpkts]
      decide
    · refine (hjoin ?_ hpkts).2.1
      rw [outcome, hip, hcheck]
      rfl
  rw [nodeFound_eq hp.proto] at hsound ⊢
  refine ⟨rfl, ?_⟩
  obtain ⟨r, hr⟩ : ∃ r, r = (e.pool i).settle pkt (e.outcome (e.pool i) pkt) := ⟨_, rfl⟩
  rw [← hr] at hsound ⊢
  have hkeyed' : r.1.Keyed pkt := hr ▸ hkeyed.settle hc _
  have hmerged : r.1.Merged ∧ ∀ d ∈ r.2, d.Transparent := by
    rw [hr]
    refine Flow.Merged.settle hc (h.merged i) hp _ specialFlags_of_outcome fun hnone hpkts => ?_
    obtain ⟨hagrees, -, hversion⟩ := hjoin hnone hpkts
    have hheld : (e.pool i).pktsHeld ≠ 0 := fun hzero => hpkts (hc.held_eq_zero_iff.mp hzero)
    have hmatch := Flow.matchPkt_of_flowKey hheld (hkeyed.flowKey hpkts) hp.version
    exact ⟨compared_of_outcome hnone hheld hmatch hp, hagrees, hversion⟩
  have hself : (e.setFlow i r.1).pool i = r.1 := pool_setFlow_self e i r.1
  have hother : ∀ j, j ≠ i → (e.setFlow i r.1).pool j = e.pool j := fun j hj =>
    pool_setFlow_of_ne e r.1 hj
  have hkey : (e.pool i).hashKey = r.1.hashKey := hkeyed.hashKey.trans hkeyed'.hashKey.symm
  have hsame : ∀ j, ((e.setFlow i r.1).pool j).hashKey = (e.pool j).hashKey := by
    intro j
    by_cases hj : j = i
    · rw [hj, hself, hkey]
    · rw [hother j hj]
  refine ⟨hsound.deliver _, ⟨fun j p hj => ?_, fun b j hj => ?_, fun j k hj hk heq => ?_,
    fun j k p q hj hk heq => ?_⟩, fun j => ?_, fun j p hj => ?_, fun d hd => ?_, fun K => ?_⟩
  · show p.key = ((e.setFlow i r.1).pool j).hdrs.flowKey ∧ _
    replace hj : p ∈ ((e.setFlow i r.1).pool j).pkts := hj
    show _ ∧ p.hashKey = ((e.setFlow i r.1).pool j).hashKey
    by_cases hji : j = i
    · rw [hji, hself] at hj ⊢
      obtain ⟨hpkey, hphash⟩ := hkeyed'.pkts p hj
      rw [hpkey, hphash, hkeyed'.hashKey, hkeyed'.flowKey (ne_nil_of_mem hj)]
      exact ⟨rfl, rfl⟩
    · rw [hother j hji] at hj ⊢
      exact h.placed.keyed j p hj
  · show b = bucketOf ((e.setFlow i r.1).pool j).hashKey
    rw [hsame]
    exact h.placed.bucket b j hj
  · replace heq : ((e.setFlow i r.1).pool j).hashKey = ((e.setFlow i r.1).pool k).hashKey := heq
    rw [hsame, hsame] at heq
    exact h.placed.distinct j k hj hk heq
  · replace hj : p ∈ ((e.setFlow i r.1).pool j).pkts := hj
    replace hk : q ∈ ((e.setFlow i r.1).pool k).pkts := hk
    by_cases hji : j = i
    · by_cases hki : k = i
      · rw [hji, hki]
      · rw [hji, hself] at hj
        rw [hother k hki] at hk
        exact absurd (heq.symm.trans (hkeyed'.pkts p hj).1) (halone k hki q hk)
    · by_cases hki : k = i
      · rw [hki, hself] at hk
        rw [hother j hji] at hj
        exact absurd (heq.trans (hkeyed'.pkts q hk).1) (halone j hji p hj)
      · rw [hother j hji] at hj
        rw [hother k hki] at hk
        exact h.placed.lone j k p q hj hk heq
  · show ((e.setFlow i r.1).pool j).Merged
    by_cases hji : j = i
    · rw [hji, hself]
      exact hmerged.1
    · rw [hother j hji]
      exact h.merged j
  · replace hj : p ∈ ((e.setFlow i r.1).pool j).pkts := hj
    by_cases hji : j = i
    · rw [hji, hself] at hj
      have htrans : p.hdrs.transProto = pkt.hdrs.transProto :=
        congrArg FlowKey.transProto (hkeyed'.pkts p hj).1
      rw [htrans]
      exact ⟨hp.proto, hopt⟩
    · rw [hother j hji] at hj
      exact h.optimized j p hj
  · rcases mem_append.mp hd with hold | hnew
    · exact h.transparent d hold
    · exact hmerged.2 d hnew
  · have hmove : outOf K r.2 ++ (e.setFlow i r.1).heldOf K = e.heldOf K ++ part K [pkt] := by
      refine heldOf_setFlow (Nat.lt_of_lt_of_le hi h.sound.linked.bound) ?_ ?_
      · rw [hr]
        exact Flow.part_settle hc hp _ K
      · by_cases hK : pkt.key = K
        · exact .inl (hK ▸ halone)
        · refine .inr ?_
          rw [← part_append]
          refine part_of_forall fun q hq hqkey => hK ?_
          rcases mem_append.mp hq with hold | hnew
          · exact (hkeyed.pkts q hold).1.symm.trans hqkey
          · rw [← mem_singleton.mp hnew]
            exact hqkey
    show outOf K (e.delivered ++ r.2) ++ (e.setFlow i r.1).heldOf K = _
    rw [outOf_append, append_assoc, hmove, ← append_assoc, h.ordered K, part_append]

theorem Faithful.ingress (h : e.Faithful received) (ha : e.Admits pkt)
    (hcandidate : pkt.skipHash = false ∧ pkt.lenMismatch = false ∧ pkt.fragDesc.csumValid = true)
    (hopt : e.optimizeProtocol pkt.hdrs.transProto = true) :
    (e.ingress pkt).2.2 = true ∧
      ((e.ingress pkt).1.deliver (e.ingress pkt).2.1).Faithful (received ++ [pkt]) := by
  rw [Engine.ingress, hopt, Bool.not_true, if_neg Bool.false_ne_true]
  cases hlookup : e.lookup pkt with
  | some i =>
    obtain ⟨hkey, halone, hflow⟩ := h.lookup_some ha hlookup
    refine h.nodeFound (h.sound.mem_lookup hlookup) ha.dissected hopt ⟨hkey, hflow, fun p hp => ?_⟩
      halone fun hnone hpkts => ?_
    · obtain ⟨hpkey, hphash⟩ := h.placed.keyed i p hp
      exact ⟨hpkey.trans (hflow (ne_nil_of_mem hp)), hphash.trans hkey⟩
    · have hjoins : e.Joins pkt i := by
        rw [outcome] at hnone
        split at hnone
        · cases hnone
        · rename_i hip
          exact ⟨hcandidate, hopt, ha.dissected.proto, Bool.eq_false_iff.mpr hip, hnone⟩
      obtain ⟨hagrees, hlt⟩ := ha.joins i hlookup hjoins hpkts
      exact ⟨hagrees, hlt, (ha.version i hlookup hpkts).symm⟩
  | none =>
    obtain ⟨hnew, hkey, halone⟩ := h.newNode ha hlookup
    obtain ⟨-, hlt, hpkts⟩ := h.sound.newNode pkt
    have hopt' : (e.newNode pkt).1.optimizeProtocol pkt.hdrs.transProto = true := by
      rw [optimizeProtocol, (newNode_spec h.sound pkt).2.2.2.2]
      exact hopt
    refine hnew.nodeFound hlt ha.dissected hopt' ⟨hkey, fun hne => absurd hpkts hne, fun p hp => ?_⟩
      halone fun _ hne => absurd hpkts hne
    rw [hpkts] at hp
    cases hp

theorem Faithful.deliver_flushCurrentPkt (h : e.Faithful received) (pkt : Info)
    (hpart : ∀ K, outOf K (flushCurrentPkt pkt) = part K [pkt])
    (hnone : ∀ K, part K [pkt] ≠ [] → e.heldOf K = []) :
    (e.deliver (flushCurrentPkt pkt)).Faithful (received ++ [pkt]) := by
  refine ⟨h.sound.deliver _, h.placed.congr rfl rfl rfl, h.merged, h.optimized, fun d hd => ?_,
    fun K => ?_⟩
  · rcases mem_append.mp hd with hold | hnew
    · exact h.transparent d hold
    · exact Flow.transparent_flushCurrentPkt pkt d hnew
  · show outOf K (e.delivered ++ flushCurrentPkt pkt) ++ e.heldOf K = _
    rw [outOf_append, hpart, part_append, ← h.ordered K]
    by_cases hK : part K [pkt] = []
    · rw [hK, append_nil, append_nil]
    · rw [hnone K hK, append_nil, append_nil]

theorem Faithful.heldOf_flushByHash (h : e.Faithful received) (ha : e.Admits pkt) :
    e.flushByHash pkt.hashKey |>.1.heldOf pkt.key = [] := by
  refine heldOf_of_forall fun j q hq hkey => ?_
  rw [flushByHash, pool_foldl_flushNode] at hq
  split at hq
  · rw [(h.sound.counts j).pkts_flush] at hq
    cases hq
  · rename_i hnot
    have hhash := h.hashKey_of_mem ha hq hkey
    obtain ⟨b, hb⟩ := h.sound.linked.linked j (Sound.lt_of_mem h.sound hq).1
    have hbucket := h.placed.bucket b j hb
    rw [hhash] at hbucket
    exact hnot ⟨hbucket ▸ hb, beq_iff_eq.mpr hhash⟩

theorem part_of_not_candidate (h : pkt.isCandidate = false) (K : FlowKey) : part K [pkt] = [] := by
  rw [part, map_eq_nil_iff, filter_eq_nil_iff]
  intro p hp
  rw [mem_singleton.mp hp, Info.ofFlow, h]
  exact Bool.false_ne_true

theorem outOf_of_not_candidate (h : pkt.isCandidate = false) (K : FlowKey) :
    outOf K (flushCurrentPkt pkt) = [] := by
  rw [flushCurrentPkt]
  split
  · rfl
  · exact part_of_not_candidate h K

theorem Faithful.mainIngress (h : e.Faithful received) (ha : pkt.isCandidate = true → e.Admits pkt) :
    (e.mainIngress pkt).Faithful (received ++ [pkt]) := by
  have hother : pkt.isCandidate = false →
      (e.deliver (flushCurrentPkt pkt)).Faithful (received ++ [pkt]) := by
    intro hnot
    refine h.deliver_flushCurrentPkt pkt (fun K => ?_) fun K hK => absurd (part_of_not_candidate hnot K) hK
    rw [outOf_of_not_candidate hnot, part_of_not_candidate hnot]
  have hown : ∀ K, part K [pkt] ≠ [] → pkt.key = K := by
    intro K hK
    by_contra hne
    exact hK (part_of_forall fun p hp hkey => hne (mem_singleton.mp hp ▸ hkey))
  rw [Engine.mainIngress]
  by_cases hskip : pkt.skipHash = true
  · rw [if_pos hskip]
    exact hother (by rw [Info.isCandidate, hskip]; rfl)
  rw [if_neg hskip]
  replace hskip : pkt.skipHash = false := Bool.eq_false_iff.mpr hskip
  by_cases hlen : pkt.lenMismatch = true
  · have hadmit := ha (by rw [Info.isCandidate, hskip, hlen]; rfl)
    rw [if_pos hlen]
    dsimp only
    have hflushed := h.flushed (fun f => f.hashKey == pkt.hashKey)
      (l := e.table (bucketOf pkt.hashKey)) fun i hi =>
        Nat.lt_of_lt_of_le (h.sound.linked.used _ i hi).2 h.sound.linked.bound
    have hall := hflushed.deliver_flushCurrentPkt pkt
      (Flow.part_flushCurrentPkt hadmit.dissected) fun K hK => by
        rw [← hown K hK]
        exact h.heldOf_flushByHash hadmit
    rw [deliver, deliver] at hall
    dsimp only at hall
    rw [append_assoc] at hall
    exact hall
  rw [if_neg hlen]
  replace hlen : pkt.lenMismatch = false := Bool.eq_false_iff.mpr hlen
  by_cases hcsum : pkt.fragDesc.csumValid = false
  · rw [hcsum, Bool.not_false, if_pos rfl]
    exact hother (by rw [Info.isCandidate, hskip, hlen, hcsum]; rfl)
  replace hcsum : pkt.fragDesc.csumValid = true := Bool.eq_true_of_not_eq_false hcsum
  have hadmit := ha (by rw [Info.isCandidate, hskip, hlen, hcsum]; rfl)
  rw [hcsum, Bool.not_true, if_neg Bool.false_ne_true]
  by_cases hopt : e.optimizeProtocol pkt.hdrs.transProto = false
  · have hingress : e.ingress pkt = (e, [], false) := by
      rw [Engine.ingress, hopt]
      rfl
    rw [hingress]
    refine h.deliver_flushCurrentPkt pkt (Flow.part_flushCurrentPkt hadmit.dissected) fun K hK => ?_
    rw [← hown K hK]
    refine heldOf_of_forall fun j q hq hkey => ?_
    have htrans : q.hdrs.transProto = pkt.hdrs.transProto := congrArg FlowKey.transProto hkey
    have hheld := (h.optimized j q hq).2
    rw [htrans, hopt] at hheld
    cases hheld
  · obtain ⟨htaken, hall⟩ := h.ingress hadmit ⟨hskip, hlen, hcsum⟩ (Bool.eq_true_of_not_eq_false hopt)
    dsimp only
    rw [htaken, if_pos rfl]
    exact hall

theorem Faithful.chainFlush (h : e.Faithful received) : e.chainFlush.Faithful received :=
  h.flushed _ (Sound.nodes_lt h.sound)

theorem Faithful.modeChange (h : e.Faithful received) {v : ℕ} (hv : v ≤ 3) :
    (e.modeChange v).Faithful received ∧ ({ e.modeChange v with engineMode := v } : Engine).Optimized := by
  have hnodes := Sound.nodes_lt h.sound
  -- what a flush by protocol leaves
  have hleft : ∀ l4Proto i, ∀ p ∈ ((e.flushByProtocol l4Proto).1.pool i).pkts,
      (p.hdrs.transProto = protoTcp ∨ p.hdrs.transProto = protoUdp) ∧ p.hdrs.transProto ≠ l4Proto := by
    intro l4Proto i p hp
    rw [flushByProtocol, pool_foldl_flushNode] at hp
    split at hp
    · rw [(h.sound.counts i).pkts_flush] at hp
      cases hp
    · rename_i hnot
      refine ⟨(h.optimized i p hp).1, fun heq => hnot ⟨?_, beq_iff_eq.mpr ?_⟩⟩
      · exact h.sound.linked.mem_nodes (Sound.lt_of_mem h.sound hp).1
      · rw [← heq]
        exact (congrArg FlowKey.transProto (h.placed.keyed i p hp).1).symm
  rw [Engine.modeChange]
  by_cases hnone : e.engineMode = 3 ∨ v = 0
  · rw [if_pos hnone]
    refine ⟨h, fun i p hp => ⟨(h.optimized i p hp).1, ?_⟩⟩
    rcases hnone with hmode | hzero
    · have hheld := (h.optimized i p hp).2
      rw [optimizeProtocol, hmode] at hheld
      cases hheld
    · rw [hzero]
      rfl
  rw [if_neg hnone]
  by_cases hone : v = 1
  · rw [if_pos hone]
    refine ⟨h.flushed _ hnodes, fun i p hp => ?_⟩
    obtain ⟨hproto, hne⟩ := hleft protoUdp i p hp
    refine ⟨hproto, ?_⟩
    rw [hone, hproto.resolve_right hne]
    rfl
  rw [if_neg hone]
  by_cases htwo : v = 2
  · rw [if_pos htwo]
    refine ⟨h.flushed _ hnodes, fun i p hp => ?_⟩
    obtain ⟨hproto, hne⟩ := hleft protoTcp i p hp
    refine ⟨hproto, ?_⟩
    rw [htwo, hproto.resolve_left hne]
    rfl
  rw [if_neg htwo]
  have hthree : v = 3 := by
    have hzero : v ≠ 0 := fun hz => hnone (.inr hz)
    omega
  rw [if_pos hthree]
  refine ⟨h.chainFlush, fun i p hp => ?_⟩
  replace hp : p ∈ (e.flushAllFlows.1.pool i).pkts := hp
  rw [h.sound.accounted.drained i] at hp
  cases hp

theorem Faithful.of_init (h : e.Init) : e.Faithful [] := by
  have hmem : ∀ i (p : Info), p ∉ (e.pool i).pkts := by
    intro i p hp
    rw [(h.empty i).1] at hp
    cases hp
  refine ⟨.of_init h, ⟨fun i p hp => absurd hp (hmem i p), fun b i hi => ?_, fun i j hi => ?_,
    fun i j p q hp => absurd hp (hmem i p)⟩, fun i => .of_nil (h.empty i).1,
    fun i p hp => absurd hp (hmem i p), fun d hd => ?_, fun K => ?_⟩
  · rw [h.table b] at hi
    cases hi
  · rw [h.nodesUsed] at hi
    exact absurd hi (Nat.not_lt_zero i)
  · rw [h.delivered] at hd
    cases hd
  · rw [h.delivered, heldOf_of_forall fun j p hp => absurd hp (hmem j p)]
    rfl

end Engine

/-! ## Runs -/

/-- The engine, and the packets that it was given. -/
structure Trace where
  engine : Engine
  received : List Info

/-- The packet that a step brings. -/
def Event.brought : Event → List Info
  | .ingress pkt => [pkt]
  | _ => []

def Trace.next (t : Trace) (a : Event) : Trace := ⟨t.engine.next a, t.received ++ a.brought⟩

/-- Packets and flushes in any order. -/
def traced : Machine Trace Event where
  init := fun t => t.engine.Init ∧ t.received = []
  guard := fun _ _ => True
  next := Trace.next

/-- What the steps must respect: see `Engine.Admits`. -/
def Event.Admitted (e : Engine) : Event → Prop
  | .ingress pkt => pkt.isCandidate = true → e.Admits pkt
  | _ => True

def admitted : Machine Trace Event := { traced with guard := fun t a => a.Admitted t.engine }

/-- **The engine is transparent**: each delivery gives its packets back. -/
structure Trace.Transparent (t : Trace) : Prop where
  deliveries : ∀ d ∈ t.engine.delivered, d.Transparent
  ordered : ∀ K, outOf K t.engine.delivered ++ t.engine.heldOf K = part K t.received
  flushed : ∀ K, outOf K t.engine.chainFlush.delivered = part K t.received

theorem Engine.Faithful.next_of_brought {e : Engine} {received : List Info} (h : e.Faithful received)
    {a : Event} (ha : a.brought = []) : (e.next a).Faithful received := by
  cases a with
  | ingress pkt => cases ha
  | chainEnd =>
    exact h.chainFlush
  | dlHeader =>
    have hflush : (if e.dlMarkerStart then e.chainFlush else e).Faithful received := by
      split
      · exact h.chainFlush
      · exact h
    exact hflush.congr (h.sound.next (a := .dlHeader) trivial) hflush.optimized rfl rfl rfl rfl
  | dlTrailer =>
    exact h.chainFlush.congr (h.sound.next (a := .dlTrailer) trivial) h.chainFlush.optimized rfl rfl rfl
      rfl
  | tcpByteLimit v =>
    have hsound := h.sound.next (a := .tcpByteLimit v) trivial
    rw [Engine.next, Engine.setTcpByteLimit] at hsound ⊢
    split at hsound
    · rename_i hv
      rw [if_pos hv]
      exact h
    · rename_i hv
      rw [if_neg hv]
      exact h.congr hsound h.optimized rfl rfl rfl rfl
  | udpByteLimit v =>
    have hsound := h.sound.next (a := .udpByteLimit v) trivial
    rw [Engine.next, Engine.setUdpByteLimit] at hsound ⊢
    split at hsound
    · rename_i hv
      rw [if_pos hv]
      exact h
    · rename_i hv
      rw [if_neg hv]
      exact h.congr hsound h.optimized rfl rfl rfl rfl
  | engineMode v =>
    have hsound := h.sound.next (a := .engineMode v) trivial
    rw [Engine.next, Engine.setEngineMode] at hsound ⊢
    split at hsound
    · rename_i hv
      rw [if_pos hv]
      exact h
    · rename_i hv
      rw [if_neg hv]
      obtain ⟨hmode, hopt⟩ := h.modeChange (Nat.le_of_not_lt fun hlt => hv (.inl hlt))
      exact hmode.congr hsound hopt rfl rfl rfl rfl

theorem Engine.Faithful.next {e : Engine} {received : List Info} (h : e.Faithful received) {a : Event}
    (ha : a.Admitted e) : (e.next a).Faithful (received ++ a.brought) := by
  by_cases hbrought : a.brought = []
  · rw [hbrought, append_nil]
    exact h.next_of_brought hbrought
  · cases a with
    | ingress pkt => exact h.mainIngress ha
    | _ => exact absurd rfl hbrought

theorem faithful_of_reachable {t : Trace} (h : admitted.Reachable t) :
    t.engine.Faithful t.received := by
  induction h with
  | init h =>
    rw [h.2]
    exact .of_init h.1
  | next _ ha ih => exact ih.next ha

instance (p : Info) : Decidable p.Dissected :=
  decidable_of_iff ((p.hdrs.ipProto = 4 ∨ p.hdrs.ipProto = 6) ∧
      (p.hdrs.transProto = protoTcp ∨ p.hdrs.transProto = protoUdp) ∧
      p.fragDesc.data.length < 65536 ∧ p.hlen ≤ p.fragDesc.data.length ∧
      p.payloadLen = UInt16.ofNat p.fragDesc.data.length - p.hdrs.ipLen - p.hdrs.transLen ∧
      (p.hdrs.transProto = protoTcp → p.hdrs.transLen.toNat = p.doff * 4) ∧
      (p.hdrs.transProto = protoUdp → p.hdrs.transLen = 8))
    ⟨fun h => ⟨h.1, h.2.1, h.2.2.1, h.2.2.2.1, h.2.2.2.2.1, h.2.2.2.2.2.1, h.2.2.2.2.2.2⟩,
      fun h => ⟨h.version, h.proto, h.length, h.fits, h.payloadLen, h.tcp, h.udp⟩⟩

instance (e : Engine) (pkt : Info) : Decidable (e.Admits pkt) :=
  decidable_of_iff (pkt.Dissected ∧
      (∀ i < numFlows, ∀ q ∈ (e.pool i).pkts, q.hashKey = pkt.hashKey ↔ q.key = pkt.key) ∧
      (∀ i ∈ e.lookup pkt, (e.pool i).pkts ≠ [] → (e.pool i).hdrs.ipProto = pkt.hdrs.ipProto) ∧
      ∀ i ∈ e.lookup pkt, e.Joins pkt i → (e.pool i).pkts ≠ [] →
        (e.pool i).Agrees pkt ∧ (e.pool i).pkts.length < 255)
    ⟨fun h => ⟨h.1, h.2.1, h.2.2.1, h.2.2.2⟩, fun h => ⟨h.dissected, h.hash, h.version, h.joins⟩⟩

instance (t : Trace) : ∀ a : Event, Decidable (admitted.guard t a)
  | .ingress pkt => inferInstanceAs (Decidable (_ = _ → t.engine.Admits pkt))
  | .chainEnd | .dlHeader | .dlTrailer | .tcpByteLimit _ | .udpByteLimit _ | .engineMode _ =>
    isTrue trivial

/-- A TCP segment with two bytes of payload. -/
def tcpSegment (seq ack : UInt8) : Info where
  fragDesc :=
    { data := [0x45, 0, 0, 42, 0, 0, 0x40, 0, 64, 6, 0, 0, 10, 0, 0, 1, 10, 0, 0, 2,
        0x13, 0x88, 0x17, 0x70, 0, 0, 0, seq, 0, 0, 0, ack, 0x50, 0x10, 0, 0, 0, 0, 0, 0, 0x41, 0x42]
      hash := 0
      gsoSize := 0
      gsoSegs := 0
      coalBytes := 0
      coalBufsize := 0
      tcpFlagsSet := false
      tcpFlags := 0
      csumValid := true }
  hdrs := { datagram.hdrs with tcpSeq := seq.toUInt32, transLen := 20, transProto := protoTcp }
  hashKey := 9
  payloadLen := 2
  firstPkt := false
  skipHash := false
  lenMismatch := false

/-- Two segments that are merged, one behind a gap, and a datagram. -/
def segmentRun : List Event :=
  [.ingress (tcpSegment 1 5), .ingress (tcpSegment 3 6), .ingress datagram,
    .ingress (tcpSegment 9 6), .chainEnd]

end Rmnet.Offload
