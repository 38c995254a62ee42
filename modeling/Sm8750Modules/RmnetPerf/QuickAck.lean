import Mathlib

/-!
# Quick ACKs — sequence numbers that start elsewhere

Each flow has a node with the sequence number and the acknowledgement number that were seen last, and an ACK
is forced where they are too far apart. Some of the comparisons are made modulo 2^32 and one is not.
-/

namespace RmnetPerf

open List

/-- `after`: the signed difference is positive. -/
def after (a b : UInt32) : Bool := 2 ^ 31 ≤ (b - a).toNat

structure Node where
  ts : UInt64
  tcpSeq : UInt32
  tcpAck : UInt32
  offloadHash : UInt32
  byteThreshold : UInt32
  quickackCount : UInt32 := 0
  noSock : Bool := false
deriving DecidableEq, Repr

/-- What `rmnet_perf_quickack_force` finds. -/
inductive Sock where
  | own (ready : Bool)
  | none
  | found (ready : Bool)
deriving DecidableEq, Repr

/-- The fields of `struct rmnet_skb_cb` that are reported. -/
structure Cb where
  tethered : Bool := false
  bytesInFlight : UInt32 := 0
  ackThresh : UInt32 := 0
  ackForced : UInt32 := 0
deriving DecidableEq, Repr

/-- A packet with the flow it belongs to, the time, and the answers of the system for it. -/
structure Skb (κ : Type*) where
  flow : κ
  headerSet : Bool := true
  csumNone : Bool := false
  syn : Bool := false
  ack : Bool := true
  seq : UInt32
  ackSeq : UInt32
  payloadLen : UInt32
  hash : UInt32
  cb : Cb := {}
  sk : Sock
  kzalloc : Bool := true
  jiffies : UInt64

/-- What a packet leads to: what is reported with it, and whether an ACK is forced. -/
structure Out where
  cb : Cb
  forced : Bool := false
deriving DecidableEq, Repr

def quickackThresh : UInt32 := 192000

/-- The nodes with their tuples, `rmnet_perf_quickack_hash_size_param` and the timeout in jiffies. -/
structure Table (κ : Type*) where
  hash : List (κ × Node)
  hashSizeParam : ℕ
  timeout : UInt64

variable {κ : Type*} [DecidableEq κ]

def Table.expired (t : Table κ) (node : Node) (ts : UInt64) : Bool := t.timeout < ts - node.ts

variable (node : Node)

def quickackForce (cb : Cb) : Sock → Node × Cb
  | .own ready | .found ready =>
    (if ready then { node with quickackCount := node.quickackCount + 1 } else node, cb)
  | .none => ({ node with noSock := true }, { cb with tethered := true })

variable (skb : Skb κ)

/-- `rmnet_perf_quickack_node_add` and `rmnet_perf_quickack_node_init` -/
def newNode (isTx : Bool) : Node × Cb :=
  if isTx then (⟨skb.jiffies, skb.ackSeq, skb.ackSeq, skb.hash, quickackThresh, 0, false⟩, skb.cb)
  else (⟨skb.jiffies, skb.seq, skb.seq - 1, skb.hash, quickackThresh, 0, false⟩,
    { skb.cb with bytesInFlight := 0, ackThresh := quickackThresh })

def Table.tupleFind (t : Table κ) (skb : Skb κ) (isTx : Bool) : Table κ × Option Node × Cb :=
  match t.hash.lookup skb.flow with
  | some node => (t, some node, skb.cb)
  | none =>
    if t.hashSizeParam ≤ t.hash.length ∨ skb.kzalloc = false then (t, none, skb.cb)
    else
      let (node, cb) := newNode skb isTx
      ({ t with hash := (skb.flow, node) :: t.hash }, some node, cb)

def ackUnacked (tcpSeq ackSeq : UInt32) : UInt32 := if tcpSeq < ackSeq then ackSeq - tcpSeq else 0

def nodeUpdate (skb : Skb κ) (isTx : Bool) (cb : Cb) : Node × Out :=
  let poked := { node with ts := skb.jiffies }
  if node.noSock then (poked, { cb := cb })
  else if isTx then
    if after skb.ackSeq node.tcpAck then
      let forced := decide (node.byteThreshold < ackUnacked node.tcpSeq skb.ackSeq)
      let (node, cb) := if forced then quickackForce poked cb skb.sk else (poked, cb)
      ({ node with tcpAck := skb.ackSeq }, ⟨cb, forced⟩)
    else (poked, { cb := cb })
  else if after skb.seq node.tcpSeq then
    let unacked := skb.seq - node.tcpAck + skb.payloadLen
    let forced := decide (node.byteThreshold < unacked)
    let (node, cb) := if forced then quickackForce poked cb skb.sk else (poked, cb)
    ({ node with tcpSeq := skb.seq }, ⟨cb, forced⟩)
  else (poked, { cb := cb })

def Table.store (t : Table κ) (flow : κ) (node : Node) : Table κ :=
  { t with hash := t.hash.map fun p => if p.1 = flow then (p.1, node) else p }

/-- `rmnet_perf_ingress_handle_tcp_common` -/
def Skb.isData : Bool :=
  skb.headerSet && !skb.csumNone && !skb.syn && !(skb.payloadLen == 0 && skb.ack)

/-- The tests of `rmnet_perf_egress_handle_tcp` -/
def Skb.isAck : Bool := skb.headerSet && !skb.syn && (skb.payloadLen == 0 && skb.ack)

/-- `rmnet_perf_ingress_handle_tcp` -/
def Table.report (t : Table κ) (skb : Skb κ) : Table κ × Out :=
  if skb.isData = false then (t, { cb := skb.cb })
  else
    match t.tupleFind skb false with
    | (t, none, cb) => (t, { cb := cb })
    | (t, some node, cb) =>
      if t.expired node skb.jiffies then (t, { cb := cb })
      else if node.noSock then (t, { cb := { cb with tethered := true } })
      else
        (t, { cb := { cb with
          bytesInFlight := node.tcpSeq - node.tcpAck
          ackThresh := node.byteThreshold
          ackForced := node.quickackCount } })

/-- `rmnet_perf_ingress_rx_handler_tcp` and `rmnet_perf_egress_handle_tcp` -/
def Table.track (t : Table κ) (skb : Skb κ) (isTx : Bool) : Table κ × Out :=
  if (if isTx then skb.isAck else skb.isData) = false then (t, { cb := skb.cb })
  else
    match t.tupleFind skb isTx with
    | (t, none, cb) => (t, { cb := cb })
    | (t, some node, cb) =>
      if t.expired node skb.jiffies then (t, { cb := cb })
      else (t.store skb.flow (nodeUpdate node skb isTx cb).1, (nodeUpdate node skb isTx cb).2)

/-- What happens to the table: a packet at one of the three hooks, the cleaning work, and a new
threshold. -/
inductive Event (κ : Type*) where
  | report (skb : Skb κ)
  | track (skb : Skb κ) (isTx : Bool)
  | clean (force : Bool) (jiffies : UInt64)
  | updateThresh (hashKey byteThresh : UInt32)

def Table.clean (t : Table κ) (force : Bool) (jiffies : UInt64) : Table κ :=
  { t with hash := t.hash.filter fun p => !(force || t.expired p.2 jiffies) }

/-- `rmnet_perf_tcp_update_quickack_thresh`. -/
def Table.updateThresh (t : Table κ) (hashKey byteThresh : UInt32) : Table κ :=
  if hashKey = 0 then t
  else
    { t with hash := t.hash.map fun p =>
        (p.1, if p.2.offloadHash = hashKey then { p.2 with byteThreshold := byteThresh } else p.2) }

def Table.step (t : Table κ) : Event κ → Table κ × Option Out
  | .report skb => ((t.report skb).1, some (t.report skb).2)
  | .track skb isTx => ((t.track skb isTx).1, some (t.track skb isTx).2)
  | .clean force jiffies => (t.clean force jiffies, none)
  | .updateThresh hashKey byteThresh => (t.updateThresh hashKey byteThresh, none)

/-- What the packets of a run lead to. -/
def Table.outputs (t : Table κ) : List (Event κ) → List (Option Out)
  | [] => []
  | e :: rest => (t.step e).2 :: (t.step e).1.outputs rest

/-! ## Other initial sequence numbers -/

def Node.shift (c : UInt32) : Node :=
  { node with tcpSeq := node.tcpSeq + c, tcpAck := node.tcpAck + c }

def Skb.shift (c : κ → UInt32) : Skb κ :=
  { skb with seq := skb.seq + c skb.flow, ackSeq := skb.ackSeq + c skb.flow }

def Event.shift (c : κ → UInt32) : Event κ → Event κ
  | .report skb => .report (skb.shift c)
  | .track skb isTx => .track (skb.shift c) isTx
  | .clean force jiffies => .clean force jiffies
  | .updateThresh hashKey byteThresh => .updateThresh hashKey byteThresh

def Table.shift (t : Table κ) (c : κ → UInt32) : Table κ :=
  { t with hash := t.hash.map fun p => (p.1, p.2.shift (c p.1)) }

/-- An ACK that is new for its flow, more than the threshold ahead of the last data modulo 2^32, and above
it in plain numbers on one side of the shift only. -/
def Node.Crosses (skb : Skb κ) (c : UInt32) : Prop :=
  node.noSock = false ∧ after skb.ackSeq node.tcpAck = true ∧
    node.byteThreshold < skb.ackSeq - node.tcpSeq ∧
    ¬(node.tcpSeq < skb.ackSeq ↔ node.tcpSeq + c < skb.ackSeq + c)

def Table.Crosses (t : Table κ) (c : κ → UInt32) : Event κ → Prop
  | .track skb true => skb.isAck = true ∧ ∃ node, t.hash.lookup skb.flow = some node ∧
      t.expired node skb.jiffies = false ∧ node.Crosses skb (c skb.flow)
  | _ => False

/-- No ACK of a run crosses. -/
def Table.NeverCrosses (t : Table κ) (c : κ → UInt32) : List (Event κ) → Prop
  | [] => True
  | e :: rest => ¬t.Crosses c e ∧ (t.step e).1.NeverCrosses c rest

variable {t : Table κ} {c : κ → UInt32} {skb : Skb κ} {node : Node} {isTx : Bool}
  {cb : Cb} {e : Event κ}

theorem after_add (a b d : UInt32) : after (a + d) (b + d) = after a b := by
  rw [after, after, add_sub_add_right_eq_sub]

theorem after_self (a : UInt32) : after a a = false := by
  simp [after]

theorem lookup_shift (t : Table κ) (c : κ → UInt32) (flow : κ) :
    (t.shift c).hash.lookup flow = (t.hash.lookup flow).map fun node => node.shift (c flow) := by
  obtain ⟨hash, _, _⟩ := t
  simp only [Table.shift]
  induction hash with
  | nil => rfl
  | cons p rest ih =>
    rw [map_cons, lookup_cons, lookup_cons]
    cases hp : flow == p.1 with
    | false => exact ih
    | true =>
      rw [eq_of_beq hp]
      rfl

omit [DecidableEq κ] in
theorem newNode_shift (skb : Skb κ) (c : κ → UInt32) (isTx : Bool) :
    newNode (skb.shift c) isTx = ((newNode skb isTx).1.shift (c skb.flow), (newNode skb isTx).2) := by
  cases isTx with
  | true => rfl
  | false =>
    have hack : skb.seq + c skb.flow - 1 = skb.seq - 1 + c skb.flow := sub_add_eq_add_sub ..  |>.symm
    simp [newNode, Skb.shift, Node.shift, hack]

theorem tupleFind_shift (t : Table κ) (c : κ → UInt32) (skb : Skb κ) (isTx : Bool) :
    (t.shift c).tupleFind (skb.shift c) isTx =
      ((t.tupleFind skb isTx).1.shift c, (t.tupleFind skb isTx).2.1.map fun node => node.shift (c skb.flow),
        (t.tupleFind skb isTx).2.2) := by
  have hlookup := lookup_shift t c skb.flow
  have hlength : (t.shift c).hash.length = t.hash.length := by simp [Table.shift]
  cases hnode : t.hash.lookup skb.flow with
  | some node =>
    rw [hnode] at hlookup
    simp [Table.tupleFind, Skb.shift, hnode, hlookup]
  | none =>
    rw [hnode] at hlookup
    by_cases hfull : t.hashSizeParam ≤ t.hash.length ∨ skb.kzalloc = false
    · have hfull' : (t.shift c).hashSizeParam ≤ (t.shift c).hash.length ∨ skb.kzalloc = false := by
        rw [hlength]
        exact hfull
      simp [Table.tupleFind, Skb.shift, hnode, hlookup, hfull, hfull']
    · have hfull' : ¬((t.shift c).hashSizeParam ≤ (t.shift c).hash.length ∨ skb.kzalloc = false) := by
        rw [hlength]
        exact hfull
      have hnew := newNode_shift skb c isTx
      simp only [Table.tupleFind, hnode, if_neg hfull]
      have hflow : (skb.shift c).flow = skb.flow := rfl
      have halloc : (skb.shift c).kzalloc = skb.kzalloc := rfl
      rw [hflow, hlookup]
      simp only [Option.map_none, halloc, if_neg hfull', hnew]
      simp [Table.shift]

theorem store_shift (t : Table κ) (c : κ → UInt32) (flow : κ) (node : Node) :
    (t.shift c).store flow (node.shift (c flow)) = (t.store flow node).shift c := by
  simp only [Table.store, Table.shift, map_map]
  congr 1
  refine map_congr_left fun p _ => ?_
  by_cases hp : p.1 = flow
  · simp [hp]
  · simp [hp]

theorem quickackForce_shift (node : Node) (cb : Cb) (sk : Sock) (d : UInt32) :
    quickackForce (node.shift d) cb sk = ((quickackForce node cb sk).1.shift d, (quickackForce node cb sk).2) := by
  cases sk with
  | own ready => cases ready <;> rfl
  | found ready => cases ready <;> rfl
  | none => rfl

theorem lt_ackUnacked_iff (thresh tcpSeq ackSeq : UInt32) :
    thresh < ackUnacked tcpSeq ackSeq ↔ tcpSeq < ackSeq ∧ thresh < ackSeq - tcpSeq := by
  by_cases hlt : tcpSeq < ackSeq
  · simp [ackUnacked, hlt]
  · simp [ackUnacked, hlt]

theorem ackUnacked_shift_iff (node : Node) (ackSeq d : UInt32) :
    (node.byteThreshold < ackUnacked (node.tcpSeq + d) (ackSeq + d) ↔
      node.byteThreshold < ackUnacked node.tcpSeq ackSeq) ↔
      ¬(node.byteThreshold < ackSeq - node.tcpSeq ∧
        ¬(node.tcpSeq < ackSeq ↔ node.tcpSeq + d < ackSeq + d)) := by
  rw [lt_ackUnacked_iff, lt_ackUnacked_iff, add_sub_add_right_eq_sub]
  tauto

omit [DecidableEq κ] in
theorem nodeUpdate_shift (h : isTx = true → ¬node.Crosses skb (c skb.flow)) :
    nodeUpdate (node.shift (c skb.flow)) (skb.shift c) isTx cb =
      ((nodeUpdate node skb isTx cb).1.shift (c skb.flow), (nodeUpdate node skb isTx cb).2) := by
  have hforce := quickackForce_shift { node with ts := skb.jiffies } cb skb.sk (c skb.flow)
  unfold nodeUpdate
  cases hsock : node.noSock with
  | true => simp [Node.shift, Skb.shift, hsock]
  | false =>
    cases isTx with
    | false =>
      have hsub : skb.seq + c skb.flow - (node.tcpAck + c skb.flow) = skb.seq - node.tcpAck :=
        add_sub_add_right_eq_sub ..
      by_cases hafter : after skb.seq node.tcpSeq = true
      · by_cases hthresh : node.byteThreshold < skb.seq - node.tcpAck + skb.payloadLen
        · simp [Node.shift, Skb.shift, hsock, after_add, hafter, hsub, hthresh] at hforce ⊢
          simp [hforce]
        · simp [Node.shift, Skb.shift, hsock, after_add, hafter, hsub, hthresh]
      · simp [Node.shift, Skb.shift, hsock, after_add, hafter]
    | true =>
      by_cases hafter : after skb.ackSeq node.tcpAck = true
      · have hsame := (ackUnacked_shift_iff node skb.ackSeq (c skb.flow)).mpr fun hcross =>
          h rfl ⟨hsock, hafter, hcross.1, hcross.2⟩
        by_cases hthresh : node.byteThreshold < ackUnacked node.tcpSeq skb.ackSeq
        · have hthresh' := hsame.mpr hthresh
          simp [Node.shift, Skb.shift, hsock, after_add, hafter, hthresh, hthresh'] at hforce ⊢
          simp [hforce]
        · have hthresh' := mt hsame.mp hthresh
          simp [Node.shift, Skb.shift, hsock, after_add, hafter, hthresh, hthresh']
      · simp [Node.shift, Skb.shift, hsock, after_add, hafter]

omit [DecidableEq κ] in
theorem forced_ne_of_crosses (h : node.Crosses skb (c skb.flow)) :
    (nodeUpdate (node.shift (c skb.flow)) (skb.shift c) true cb).2.forced ≠
      (nodeUpdate node skb true cb).2.forced := by
  obtain ⟨hsock, hafter, hcross⟩ := h
  have hdiffer := mt (ackUnacked_shift_iff node skb.ackSeq (c skb.flow)).mp (not_not.mpr hcross)
  have hforced : ∀ (n : Node) (s : Skb κ), n.noSock = false → after s.ackSeq n.tcpAck = true →
      (nodeUpdate n s true cb).2.forced = decide (n.byteThreshold < ackUnacked n.tcpSeq s.ackSeq) := by
    intro n s hn hs
    simp [nodeUpdate, hn, hs]
  rw [hforced node skb hsock hafter,
    hforced (node.shift (c skb.flow)) (skb.shift c) hsock (by simpa [Node.shift, Skb.shift, after_add])]
  intro heq
  exact hdiffer (decide_eq_decide.mp heq)

/-! ## Runs -/

omit [DecidableEq κ] in
theorem expired_shift (t : Table κ) (c : κ → UInt32) (node : Node) (d : UInt32) (ts : UInt64) :
    (t.shift c).expired (node.shift d) ts = t.expired node ts := rfl

theorem report_shift (t : Table κ) (c : κ → UInt32) (skb : Skb κ) :
    (t.shift c).report (skb.shift c) = ((t.report skb).1.shift c, (t.report skb).2) := by
  by_cases hdata : skb.isData = false
  · have hdata' : (skb.shift c).isData = false := hdata
    simp only [Table.report, if_pos hdata, if_pos hdata']
    rfl
  · have hdata' : ¬(skb.shift c).isData = false := hdata
    have hfind := tupleFind_shift t c skb false
    rcases hres : t.tupleFind skb false with ⟨t', node, cb⟩
    rw [hres] at hfind
    simp only [Table.report, if_neg hdata, if_neg hdata', hfind, hres]
    cases node with
    | none => rfl
    | some node =>
      have hunacked : (node.shift (c skb.flow)).tcpSeq - (node.shift (c skb.flow)).tcpAck =
          node.tcpSeq - node.tcpAck := add_sub_add_right_eq_sub ..
      have hjiffies : (skb.shift c).jiffies = skb.jiffies := rfl
      simp only [Option.map_some, expired_shift, hjiffies, hunacked]
      split
      · rfl
      · have hsock : (node.shift (c skb.flow)).noSock = node.noSock := rfl
        rw [hsock]
        split <;> rfl

theorem not_crosses_new (h : t.hash.lookup skb.flow = none) {t' : Table κ}
    (hfind : t.tupleFind skb true = (t', some node, cb)) (d : UInt32) : ¬node.Crosses skb d := by
  simp only [Table.tupleFind, h] at hfind
  split at hfind
  · cases hfind
  · cases hfind
    intro hcross
    have hafter := hcross.2.1
    rw [newNode, if_pos rfl, after_self] at hafter
    cases hafter

theorem tupleFind_of_lookup (h : t.hash.lookup skb.flow = some node) :
    t.tupleFind skb isTx = (t, some node, skb.cb) := by
  simp [Table.tupleFind, h]

theorem track_shift (h : ¬t.Crosses c (.track skb isTx)) :
    (t.shift c).track (skb.shift c) isTx = ((t.track skb isTx).1.shift c, (t.track skb isTx).2) := by
  have hdata : (if isTx then (skb.shift c).isAck else (skb.shift c).isData) =
      if isTx then skb.isAck else skb.isData := rfl
  unfold Table.track
  rw [hdata]
  by_cases hskip : (if isTx then skb.isAck else skb.isData) = false
  · simp only [if_pos hskip]
    rfl
  · have hfind := tupleFind_shift t c skb isTx
    rcases hres : t.tupleFind skb isTx with ⟨t', node, cb⟩
    rw [hres] at hfind
    simp only [if_neg hskip, hfind]
    cases node with
    | none => rfl
    | some node =>
      have hjiffies : (skb.shift c).jiffies = skb.jiffies := rfl
      simp only [Option.map_some, expired_shift, hjiffies]
      by_cases hexpired : t'.expired node skb.jiffies = true
      · simp only [if_pos hexpired]
      · have hnot : isTx = true → ¬node.Crosses skb (c skb.flow) := by
          intro htx hcross
          subst htx
          cases hnode : t.hash.lookup skb.flow with
          | none => exact not_crosses_new hnode hres _ hcross
          | some node' =>
            rw [tupleFind_of_lookup hnode] at hres
            cases hres
            exact h ⟨by simpa using hskip, node, hnode, by simpa using hexpired, hcross⟩
        have hflow : (skb.shift c).flow = skb.flow := rfl
        simp only [if_neg hexpired, nodeUpdate_shift hnot, hflow, store_shift]

theorem track_ne (h : t.Crosses c (.track skb true)) :
    ((t.shift c).track (skb.shift c) true).2 ≠ (t.track skb true).2 := by
  obtain ⟨hack, node, hnode, hexpired, hcross⟩ := h
  have hack' : (skb.shift c).isAck = true := hack
  have hfind := tupleFind_shift t c skb true
  rw [tupleFind_of_lookup hnode] at hfind
  have hjiffies : (skb.shift c).jiffies = skb.jiffies := rfl
  intro heq
  simp only [Table.track, hack, hack', hfind, tupleFind_of_lookup hnode, Option.map_some, expired_shift,
    hjiffies, hexpired] at heq
  exact forced_ne_of_crosses hcross (congrArg Out.forced heq)

omit [DecidableEq κ] in
theorem clean_shift (t : Table κ) (c : κ → UInt32) (force : Bool) (jiffies : UInt64) :
    (t.shift c).clean force jiffies = (t.clean force jiffies).shift c := by
  simp only [Table.clean, Table.shift, filter_map]
  rfl

omit [DecidableEq κ] in
theorem updateThresh_shift (t : Table κ) (c : κ → UInt32) (hashKey byteThresh : UInt32) :
    (t.shift c).updateThresh hashKey byteThresh = (t.updateThresh hashKey byteThresh).shift c := by
  by_cases hkey : hashKey = 0
  · simp [Table.updateThresh, hkey]
  · simp only [Table.updateThresh, if_neg hkey, Table.shift, map_map]
    congr 1
    refine map_congr_left fun p _ => ?_
    by_cases hhash : p.2.offloadHash = hashKey
    · simp [Node.shift, hhash]
    · simp [Node.shift, hhash]

/-- **A step** on shifted numbers leads to the same exactly if no ACK crosses, and then to the shifted
table. -/
theorem step_shift (h : ¬t.Crosses c e) :
    (t.shift c).step (e.shift c) = ((t.step e).1.shift c, (t.step e).2) := by
  cases e with
  | report skb => simp [Table.step, Event.shift, report_shift]
  | track skb isTx => simp [Table.step, Event.shift, track_shift h]
  | clean force jiffies => simp [Table.step, Event.shift, clean_shift]
  | updateThresh hashKey byteThresh => simp [Table.step, Event.shift, updateThresh_shift]

theorem step_ne (h : t.Crosses c e) : ((t.shift c).step (e.shift c)).2 ≠ (t.step e).2 := by
  cases e with
  | track skb isTx =>
    cases isTx with
    | true =>
      intro heq
      exact track_ne h (Option.some_inj.mp heq)
    | false => exact h.elim
  | report skb => exact h.elim
  | clean force jiffies => exact h.elim
  | updateThresh hashKey byteThresh => exact h.elim

/-- **The run does not depend on the initial sequence numbers iff** no ACK crosses: with all numbers of
each flow moved by a constant, the same is reported and the same ACKs are forced. -/
theorem outputs_shift_iff (t : Table κ) (c : κ → UInt32) (es : List (Event κ)) :
    (t.shift c).outputs (es.map (Event.shift c)) = t.outputs es ↔ t.NeverCrosses c es := by
  induction es generalizing t with
  | nil => simp [Table.outputs, Table.NeverCrosses]
  | cons e rest ih =>
    rw [map_cons, Table.outputs, Table.outputs, List.cons.injEq, Table.NeverCrosses]
    by_cases hcross : t.Crosses c e
    · exact iff_of_false (fun heq => step_ne hcross heq.1) fun hnot => hnot.1 hcross
    · rw [step_shift hcross, ih]
      simp [hcross]

/-- Two data packets, and an ACK for the first. -/
def lateAck : List (Event Unit) :=
  [.track ⟨(), true, false, false, true, 10, 1, 100, 7, {}, .found true, true, 0⟩ false,
    .track ⟨(), true, false, false, true, 1000, 1, 100, 7, {}, .found true, true, 0⟩ false,
    .track ⟨(), true, false, false, true, 1, 500, 0, 7, {}, .own true, true, 0⟩ true]

/-- With the data just behind the wraparound, the ACK in front of it is forced. -/
theorem not_outputs_shift : ¬∀ (t : Table Unit) (c : Unit → UInt32) (es : List (Event Unit)),
    (t.shift c).outputs (es.map (Event.shift c)) = t.outputs es := by
  intro hall
  have hsame := hall ⟨[], 100, 500⟩ (fun _ => 0xfffffce0) lateAck
  revert hsame
  decide

end RmnetPerf
