import Sm8750Modules.CamSync.Effects

/-!
# Camera sync — the links between the rows

What ties the parent lists, the child lists and the counters of the rows together in every state that
calls lead to, whatever they destroy.
-/

namespace Sm8750Modules.CamSync

open Function List

def SyncDev.IsGroup (s : SyncDev) (g : ℕ) : Prop := s.Live g ∧ (s.table g).type = .group

def SyncDev.Waits (s : SyncDev) (c : ℕ) : Prop :=
  (s.table c).state = .active ∧ (s.table c).type = .indv

/-- The group in row `g` was merged out of the object that lives in row `c`, among others. -/
def SyncDev.Member (s : SyncDev) (c g : ℕ) : Prop :=
  ∃ M, s.hist.members (s.hist.birth g) = some M ∧ s.hist.birth c ∈ M

def waiting (signaledAs : ℕ → Option SyncState) (M : List ℕ) : List ℕ :=
  M.filter fun b => signaledAs b = none

structure GroupState (signaledAs : ℕ → Option SyncState) (M : List ℕ) (state : SyncState) : Prop where
  failed : ∀ b ∈ M, ∀ st, signaledAs b = some st → st.Failed → state.Failed
  fromMember : state.Failed → ∃ b ∈ M, signaledAs b = some state
  settled : (∀ b ∈ M, signaledAs b ≠ none) → state ≠ .active

structure GroupOk (signaledAs : ℕ → Option SyncState) (M : List ℕ) (row : Row) : Prop where
  nodup : M.Nodup
  remaining : row.remaining.toNat = (waiting signaledAs M).length
  state : GroupState signaledAs M row.state

/-- An individual object's row, against its history. -/
structure IndvOk (h : History) (b : ℕ) (row : Row) : Prop where
  members : h.members b = none
  remaining : row.remaining = 0
  state : h.signaledAs b = if row.state = .active then none else some row.state

/-- A row in use: its place, its lock, and the number of its object. -/
structure LiveOk (s : SyncDev) (i : ℕ) : Prop where
  pos : 0 < i
  lt : i < camSyncMaxObjs
  bit : s.bitmap i = true
  lock : s.locked i = false
  birth : s.hist.birth i < s.hist.objects

/-- **The invariant of the links.** -/
structure Linked (s : SyncDev) : Prop where
  zero : s.bitmap 0 = true
  live : ∀ i, s.Live i → LiveOk s i
  inj : ∀ i j, s.Live i → s.Live j → s.hist.birth i = s.hist.birth j → i = j
  indv : ∀ i, s.Live i → (s.table i).type = .indv → IndvOk s.hist (s.hist.birth i) (s.table i)
  group : ∀ g, s.IsGroup g → ∃ M, s.hist.members (s.hist.birth g) = some M ∧
    GroupOk s.hist.signaledAs M (s.table g)
  nodup : ∀ c, (s.table c).parentsList.Nodup
  parent : ∀ c g, g ∈ (s.table c).parentsList ↔ s.Waits c ∧ s.IsGroup g ∧ s.Member c g
  child : ∀ c g, g ∈ (s.table c).parentsList → c ∈ (s.table g).childrenList
  signaled : ∀ b st, s.hist.signaledAs b = some st → st.Signaled ∧ b < s.hist.objects
  memberLt : ∀ b M, s.hist.members b = some M → b < s.hist.objects ∧ ∀ m ∈ M, m < s.hist.objects

variable {s : SyncDev}

theorem SyncDev.Waits.live {c : ℕ} (h : s.Waits c) : s.Live c := by
  rw [SyncDev.Live, h.1]
  decide

theorem linked_probe : Linked SyncDev.probe where
  zero := rfl
  live := fun _ h => absurd rfl h
  inj := fun _ _ h => absurd rfl h
  indv := fun _ h => absurd rfl h
  group := fun _ h => absurd rfl h.1
  nodup := fun _ => nodup_nil
  parent := fun c g => ⟨fun h => absurd h not_mem_nil, fun h => absurd rfl h.1.live⟩
  child := fun _ _ h => absurd h not_mem_nil
  signaled := fun _ _ h => by cases h
  memberLt := fun _ _ h => by cases h

def SyncDev.links (s : SyncDev) : SyncDev where
  table := fun i => { s.table i with refCnt := 0, callbackList := [], userPayloadList := [] }
  bitmap := s.bitmap
  locked := s.locked
  hist := { s.hist with tickets := 0, owner := fun _ => 0, withdrawn := [], delivered := [] }

theorem linked_links : Linked s.links ↔ Linked s :=
  ⟨fun ⟨h1, h2, h3, h4, h5, h6, h7, h8, h9, h10⟩ => ⟨h1,
      fun i hi => ⟨(h2 i hi).pos, (h2 i hi).lt, (h2 i hi).bit, (h2 i hi).lock, (h2 i hi).birth⟩, h3,
      fun i hi ht => ⟨(h4 i hi ht).members, (h4 i hi ht).remaining, (h4 i hi ht).state⟩,
      fun g hg => (h5 g hg).imp fun _ h => ⟨h.1, h.2.nodup, h.2.remaining, h.2.state⟩,
      h6, h7, h8, h9, h10⟩,
    fun ⟨h1, h2, h3, h4, h5, h6, h7, h8, h9, h10⟩ => ⟨h1,
      fun i hi => ⟨(h2 i hi).pos, (h2 i hi).lt, (h2 i hi).bit, (h2 i hi).lock, (h2 i hi).birth⟩, h3,
      fun i hi ht => ⟨(h4 i hi ht).members, (h4 i hi ht).remaining, (h4 i hi ht).state⟩,
      fun g hg => (h5 g hg).imp fun _ h => ⟨h.1, h.2.nodup, h.2.remaining, h.2.state⟩,
      h6, h7, h8, h9, h10⟩⟩

theorem Linked.congr {s' : SyncDev} (hs : Linked s) (h : s'.links = s.links) : Linked s' :=
  linked_links.mp (h ▸ linked_links.mpr hs)

theorem links_setRow {i : ℕ} {row : Row} {hist : History}
    (hrow : { row with refCnt := 0, callbackList := [], userPayloadList := [] } =
      { s.table i with refCnt := 0, callbackList := [], userPayloadList := [] })
    (hhist : { hist with tickets := 0, owner := fun _ => 0, withdrawn := [], delivered := [] } =
      { s.hist with tickets := 0, owner := fun _ => 0, withdrawn := [], delivered := [] }) :
    ({ s.setRow i row with hist := hist } : SyncDev).links = s.links := by
  simp only [SyncDev.links, hhist]
  congr 1
  funext j
  rcases eq_or_ne j i with rfl | hj
  · simp only [SyncDev.setRow, update_self]
    exact hrow
  · simp only [SyncDev.setRow, update_of_ne hj]

/-! ### Signalling -/

variable {sig : ℕ → Option SyncState} {M : List ℕ} {b : ℕ}

variable (st : SyncState)

theorem waiting_of_notMem (h : b ∉ M) : waiting (update sig b (some st)) M = waiting sig M := by
  apply filter_congr
  intro m hm
  have hne : m ≠ b := fun heq => h (heq ▸ hm)
  rw [update_of_ne hne]

theorem length_waiting_of_mem
    (hnodup : M.Nodup) (h : b ∈ M) (hb : sig b = none) :
    (waiting (update sig b (some st)) M).length + 1 = (waiting sig M).length := by
  have hmem : b ∈ waiting sig M := mem_filter.mpr ⟨h, by simpa using hb⟩
  have heq : waiting (update sig b (some st)) M = (waiting sig M).erase b := by
    rw [waiting, waiting, (hnodup.filter _).erase_eq_filter, filter_filter]
    apply filter_congr
    intro m _
    rcases eq_or_ne m b with rfl | hne
    · simp
    · rw [update_of_ne hne]
      simp [hne]
  rw [heq, length_erase_of_mem hmem]
  have hpos : 0 < (waiting sig M).length := length_pos_of_mem hmem
  omega

theorem GroupState.of_notMem {state : SyncState}
    (h : GroupState sig M state) (st : SyncState) (hb : b ∉ M) :
    GroupState (update sig b (some st)) M state := by
  have hne : ∀ m ∈ M, update sig b (some st) m = sig m := by
    intro m hm
    apply update_of_ne
    rintro rfl
    exact hb hm
  refine ⟨fun m hm st' heq => ?_, fun hfailed => ?_, fun hall => ?_⟩
  · rw [hne m hm] at heq
    exact h.failed m hm st' heq
  · obtain ⟨m, hm, heq⟩ := h.fromMember hfailed
    exact ⟨m, hm, (hne m hm).trans heq⟩
  · exact h.settled fun m hm => (hne m hm) ▸ hall m hm

variable {st : SyncState}

theorem GroupState.of_mem {state : SyncState}
    (h : GroupState sig M state) (hb : b ∈ M) (hnone : sig b = none) (hst : st.Signaled) :
    GroupState (update sig b (some st)) M (parentState st state) := by
  refine ⟨fun m hm st' heq hfailed => ?_, fun hfailed => ?_, fun _ => ?_⟩
  · rw [parentState]
    split
    · assumption
    · rename_i hstate
      rcases eq_or_ne m b with rfl | hne
      · rw [update_self] at heq
        cases heq
        exact hfailed
      · rw [update_of_ne hne] at heq
        exact absurd (h.failed m hm st' heq hfailed) hstate
  · rw [parentState] at hfailed ⊢
    split at hfailed
    · rename_i hstate
      obtain ⟨m, hm, heq⟩ := h.fromMember hstate
      have hne : m ≠ b := by
        rintro rfl
        rw [hnone] at heq
        cases heq
      rw [if_pos hstate]
      exact ⟨m, hm, (update_of_ne hne ..).trans heq⟩
    · rename_i hstate
      rw [if_neg hstate]
      exact ⟨b, hb, update_self ..⟩
  · rw [parentState]
    split
    · rename_i hstate
      rintro rfl
      exact absurd hstate (by decide)
    · rintro rfl
      exact absurd hst (by decide)

/-- What happens to the links when the object in row `c` is signalled. -/
structure SignaledStep (s : SyncDev) (c : ℕ) (st : SyncState) (s' : SyncDev) : Prop where
  bitmap : s'.bitmap = s.bitmap
  locked : s'.locked = s.locked
  objects : s'.hist.objects = s.hist.objects
  birth : s'.hist.birth = s.hist.birth
  members : s'.hist.members = s.hist.members
  signaledAs : s'.hist.signaledAs =
    Function.update s.hist.signaledAs (s.hist.birth c) (some st)
  type : (s'.table c).type = .indv
  state : (s'.table c).state = st
  remaining : (s'.table c).remaining = (s.table c).remaining
  parentsList : (s'.table c).parentsList = []
  others : ∀ i, i ≠ c → s'.table i =
    if i ∈ (s.table c).parentsList then parentSignaled st (s.table i) else s.table i
  noTickets : (s'.table c).tickets = []
  tickets : s'.hist.tickets = s.hist.tickets
  owner : s'.hist.owner = s.hist.owner
  withdrawn : s'.hist.withdrawn = s.hist.withdrawn
  delivered : s'.hist.delivered = s.hist.delivered ++
    ((s.table c).tickets.map fun t => ⟨t, c, st⟩) ++
    (s.table c).parentsList.flatMap fun p => parentDeliveries st p (s.table p)

theorem parentSignaled_type (row : Row) : (parentSignaled st row).type = row.type := by
  simp only [parentSignaled]
  split <;> rfl

theorem parentSignaled_state (row : Row) :
    (parentSignaled st row).state = parentState st row.state := by
  simp only [parentSignaled]
  split <;> rfl

theorem parentSignaled_remaining (row : Row) :
    (parentSignaled st row).remaining = row.remaining - 1 := by
  simp only [parentSignaled]
  split <;> rfl

theorem parentSignaled_parentsList (row : Row) :
    (parentSignaled st row).parentsList = row.parentsList := by
  simp only [parentSignaled]
  split <;> rfl

theorem parentSignaled_childrenList (row : Row) :
    (parentSignaled st row).childrenList = row.childrenList := by
  simp only [parentSignaled]
  split <;> rfl

theorem SyncState.Signaled.ne_invalid (h : st.Signaled) : st ≠ .invalid := by
  rintro rfl
  exact absurd h (by decide)

theorem SyncState.Signaled.ne_active (h : st.Signaled) : st ≠ .active := by
  rintro rfl
  exact absurd h (by decide)

namespace SignaledStep

variable {s s' : SyncDev} {c : ℕ} {st : SyncState}

theorem type_eq (h : SignaledStep s c st s') (hc : s.Waits c) (i : ℕ) :
    (s'.table i).type = (s.table i).type := by
  rcases eq_or_ne i c with rfl | hi
  · rw [h.type, hc.2]
  · rw [h.others i hi]
    split
    · exact parentSignaled_type ..
    · rfl

theorem live_iff (hs : Linked s) (h : SignaledStep s c st s') (hc : s.Waits c) (hst : st.Signaled)
    (i : ℕ) : s'.Live i ↔ s.Live i := by
  rcases eq_or_ne i c with rfl | hi
  · rw [SyncDev.Live, h.state]
    exact ⟨fun _ => hc.live, fun _ => hst.ne_invalid⟩
  · rw [SyncDev.Live, h.others i hi]
    split
    · rename_i hp
      rw [parentSignaled_state]
      have hlive : s.Live i := ((hs.parent c i).mp hp).2.1.1
      exact ⟨fun _ => hlive, fun _ => parentState_ne_invalid hst.ne_invalid hlive⟩
    · rfl

theorem isGroup_iff (hs : Linked s) (h : SignaledStep s c st s') (hc : s.Waits c)
    (hst : st.Signaled) (g : ℕ) : s'.IsGroup g ↔ s.IsGroup g := by
  rw [SyncDev.IsGroup, SyncDev.IsGroup, h.live_iff hs hc hst, h.type_eq hc]

theorem member_iff (h : SignaledStep s c st s') (d g : ℕ) : s'.Member d g ↔ s.Member d g := by
  rw [SyncDev.Member, SyncDev.Member, h.members, h.birth]

theorem row_eq_of_indv (hs : Linked s) (h : SignaledStep s c st s') {i : ℕ} (hi : i ≠ c)
    (htype : (s.table i).type = .indv) : s'.table i = s.table i := by
  rw [h.others i hi, if_neg]
  intro hp
  have hgroup := ((hs.parent c i).mp hp).2.1.2
  rw [htype] at hgroup
  cases hgroup

theorem waits_iff (hs : Linked s) (h : SignaledStep s c st s') (hc : s.Waits c) (hst : st.Signaled)
    (i : ℕ) : s'.Waits i ↔ s.Waits i ∧ i ≠ c := by
  rcases eq_or_ne i c with rfl | hi
  · rw [SyncDev.Waits, h.state]
    exact ⟨fun hw => absurd hw.1 hst.ne_active, fun hw => absurd rfl hw.2⟩
  · rw [SyncDev.Waits, h.type_eq hc]
    constructor
    · rintro ⟨hstate, htype⟩
      rw [h.row_eq_of_indv hs hi htype] at hstate
      exact ⟨⟨hstate, htype⟩, hi⟩
    · rintro ⟨⟨hstate, htype⟩, -⟩
      rw [h.row_eq_of_indv hs hi htype]
      exact ⟨hstate, htype⟩

theorem parentsList_eq (h : SignaledStep s c st s') {i : ℕ} (hi : i ≠ c) :
    (s'.table i).parentsList = (s.table i).parentsList := by
  rw [h.others i hi]
  split
  · exact parentSignaled_parentsList ..
  · rfl

theorem groupOk (hs : Linked s) (h : SignaledStep s c st s') (hc : s.Waits c) (hst : st.Signaled)
    {g : ℕ} (hg : s.IsGroup g) (hM : s.hist.members (s.hist.birth g) = some M)
    (hok : GroupOk s.hist.signaledAs M (s.table g)) :
    GroupOk s'.hist.signaledAs M (s'.table g) := by
  have hgc : g ≠ c := by
    rintro rfl
    have hgroup := hg.2
    rw [hc.2] at hgroup
    cases hgroup
  have hnone : s.hist.signaledAs (s.hist.birth c) = none := by
    rw [(hs.indv c hc.live hc.2).state, if_pos hc.1]
  rw [h.signaledAs, h.others g hgc]
  by_cases hmem : s.hist.birth c ∈ M
  · rw [if_pos ((hs.parent c g).mpr ⟨hc, hg, M, hM, hmem⟩)]
    refine ⟨hok.nodup, ?_, ?_⟩
    · have hlen := length_waiting_of_mem st hok.nodup hmem hnone
      have hrem := hok.remaining
      have hone : (1 : BitVec 32).toNat = 1 := rfl
      have hlt := (s.table g).remaining.isLt
      rw [parentSignaled_remaining, BitVec.toNat_sub, hone]
      omega
    · rw [parentSignaled_state]
      exact hok.state.of_mem hmem hnone hst
  · rw [if_neg]
    · exact ⟨hok.nodup, by rw [waiting_of_notMem st hmem]; exact hok.remaining,
        hok.state.of_notMem st hmem⟩
    · intro hp
      obtain ⟨-, -, M', hM', hmem'⟩ := (hs.parent c g).mp hp
      rw [hM] at hM'
      cases hM'
      exact hmem hmem'

end SignaledStep

theorem Linked.signaledStep {s' : SyncDev} {c : ℕ} (hs : Linked s)
    (h : SignaledStep s c st s') (hc : s.Waits c) (hst : st.Signaled) : Linked s' where
  zero := h.bitmap ▸ hs.zero
  live := by
    intro i hi
    have hlive := hs.live i ((h.live_iff hs hc hst i).mp hi)
    exact ⟨hlive.pos, hlive.lt, h.bitmap ▸ hlive.bit, h.locked ▸ hlive.lock,
      by rw [h.birth, h.objects]; exact hlive.birth⟩
  inj := by
    intro i j hi hj heq
    rw [h.birth] at heq
    exact hs.inj i j ((h.live_iff hs hc hst i).mp hi) ((h.live_iff hs hc hst j).mp hj) heq
  indv := by
    intro i hi htype
    rw [h.type_eq hc] at htype
    have hlive := (h.live_iff hs hc hst i).mp hi
    have hok := hs.indv i hlive htype
    rw [h.birth]
    rcases eq_or_ne i c with rfl | hne
    · refine ⟨h.members ▸ hok.members, h.remaining ▸ hok.remaining, ?_⟩
      rw [h.state, h.signaledAs, update_self, if_neg hst.ne_active]
    · rw [h.row_eq_of_indv hs hne htype]
      refine ⟨h.members ▸ hok.members, hok.remaining, ?_⟩
      rw [h.signaledAs, update_of_ne fun heq => hne (hs.inj i c hlive hc.live heq)]
      exact hok.state
  group := by
    intro g hg
    have hg' := (h.isGroup_iff hs hc hst g).mp hg
    obtain ⟨M, hM, hok⟩ := hs.group g hg'
    rw [h.members, h.birth]
    exact ⟨M, hM, h.groupOk hs hc hst hg' hM hok⟩
  nodup := by
    intro i
    rcases eq_or_ne i c with rfl | hi
    · rw [h.parentsList]
      exact nodup_nil
    · rw [h.parentsList_eq hi]
      exact hs.nodup i
  parent := by
    intro i g
    rw [h.waits_iff hs hc hst, h.isGroup_iff hs hc hst, h.member_iff]
    rcases eq_or_ne i c with rfl | hi
    · rw [h.parentsList]
      exact ⟨fun hg => absurd hg not_mem_nil, fun hw => absurd rfl hw.1.2⟩
    · rw [h.parentsList_eq hi, hs.parent i g]
      exact ⟨fun ⟨hw, hrest⟩ => ⟨⟨hw, hi⟩, hrest⟩, fun ⟨hw, hrest⟩ => ⟨hw.1, hrest⟩⟩
  child := by
    intro i g hg
    rcases eq_or_ne i c with rfl | hi
    · rw [h.parentsList] at hg
      exact absurd hg not_mem_nil
    · rw [h.parentsList_eq hi] at hg
      have hgc : g ≠ c := by
        rintro rfl
        have hgroup := ((hs.parent i g).mp hg).2.1.2
        rw [hc.2] at hgroup
        cases hgroup
      have hchild := hs.child i g hg
      rw [h.others g hgc]
      split
      · rw [parentSignaled_childrenList]
        exact hchild
      · exact hchild
  signaled := by
    intro b st' hb
    rw [h.signaledAs] at hb
    rw [h.objects]
    rcases eq_or_ne b (s.hist.birth c) with rfl | hne
    · rw [update_self] at hb
      cases hb
      exact ⟨hst, (hs.live c hc.live).birth⟩
    · rw [update_of_ne hne] at hb
      exact hs.signaled b st' hb
  memberLt := by
    intro b M hM
    rw [h.members] at hM
    rw [h.objects]
    exact hs.memberLt b M hM

end Sm8750Modules.CamSync
