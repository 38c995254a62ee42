import Sm8750Modules.CamSync.Rows
import Mathlib.Data.Finset.Card

/-!
# Camera sync — creating and merging

The calls that take a row into use. Both are a `NewRowStep` of the links when they take one.
-/

namespace Sm8750Modules.CamSync

open Function List

variable {s s' : SyncDev} {rc : Int}

theorem Linked.members_fresh (hs : Linked s) : s.hist.members s.hist.objects = none := by
  cases hM : s.hist.members s.hist.objects with
  | none => rfl
  | some M => exact absurd (hs.memberLt _ M hM).1 (Nat.lt_irrefl _)

variable {idx : ℕ}

theorem newRowStep_create (hs : Linked s) (hlock : s.locked idx = false) :
    NewRowStep s idx none [] { (s.setBit idx true).setRow idx (initRow .indv) with
      hist := s.hist.newObject idx } where
  bitmap := fun i hi => update_of_ne hi ..
  locked := fun _ _ => rfl
  objects := rfl
  birth := rfl
  members := by
    rw [← hs.members_fresh, update_eq_self]
    rfl
  signaledAs := rfl
  others := by
    intro i hi
    rw [linkedRows_of_notMem not_mem_nil]
    exact update_of_ne hi ..
  parentsList := by
    show ((s.setRow idx (initRow .indv)).table idx).parentsList = []
    rw [setRow_same]
    rfl
  live := fun _ => ⟨update_self .., hlock⟩
  unused := fun _ => rfl
  indv := by
    intro _ _
    show _ ∧ ((s.setRow idx (initRow .indv)).table idx).remaining = 0 ∧
      ((s.setRow idx (initRow .indv)).table idx).state = .active ∧ _
    rw [setRow_same]
    exact ⟨rfl, rfl, rfl, rfl⟩
  group := by
    rintro ⟨-, htype⟩
    have hindv : ((s.setRow idx (initRow .indv)).table idx).type = .indv := by
      rw [setRow_same]
      rfl
    exact absurd (hindv.symm.trans htype) (by decide)
  child := fun _ hc => absurd hc not_mem_nil
  childIndv := fun _ hc => absurd hc not_mem_nil
  memberLt := fun _ hM => by cases hM
  noTickets := by
    intro _
    show ((s.setRow idx (initRow .indv)).table idx).tickets = []
    rw [setRow_same]
    rfl
  tickets := rfl
  owner := rfl
  withdrawn := rfl
  delivered := rfl

theorem create_cases (hs : Linked s) (h : create s = some (rc, s')) :
    s' = s ∨ ∃ idx, s.bitmap idx = false ∧ idx < camSyncMaxObjs ∧ NewRowStep s idx none [] s' := by
  rw [create] at h
  split at h
  · cases h
    exact .inl rfl
  · rename_i idx hfind
    obtain ⟨hbit, hlt⟩ := findFirstZeroBit_some hfind
    simp only at h
    split at h
    · cases h
    · rename_i hlock
      cases h
      exact .inr ⟨idx, hbit, by omega, newRowStep_create hs (by simpa using hlock)⟩

/-! ### Merging -/

variable {objs : List Int}

theorem checkAllValid_zero (h : checkAllValid s objs = some 0) :
    ∀ obj ∈ objs, InRange obj ∧ s.bitmap obj.toNat = true ∧ s.Live obj.toNat := by
  induction objs with
  | nil =>
    intro obj hobj
    cases hobj
  | cons first rest ih =>
    rw [checkAllValid] at h
    have hfirst : checkValid s first = some 0 ∧ checkAllValid s rest = some 0 := by
      cases hvalid : checkValid s first with
      | none =>
        rw [hvalid] at h
        cases h
      | some rc =>
        rw [hvalid] at h
        simp only at h
        split at h
        · rename_i hrc
          exact absurd (Option.some.inj h) hrc
        · rename_i hrc
          rw [not_ne_iff] at hrc
          exact ⟨by rw [hrc], h⟩
    intro obj hobj
    rcases mem_cons.mp hobj with rfl | hobj
    · have hvalid := hfirst.1
      rw [checkValid] at hvalid
      split at hvalid
      · cases hvalid
      · rename_i hrange
        split at hvalid
        · cases hvalid
        · split at hvalid
          · cases hvalid
          · rename_i hbit
            split at hvalid
            · cases hvalid
            · rename_i hlive
              exact ⟨by simpa using hrange, by simpa using hbit, hlive⟩
    · exact ih hfirst.2 obj hobj

theorem nodup_map_toNat (hnodup : objs.Nodup) (hrange : ∀ obj ∈ objs, InRange obj) :
    (objs.map Int.toNat).Nodup := by
  apply hnodup.map_on
  intro i hi j hj heq
  have hi' := (hrange i hi).1
  have hj' := (hrange j hj).1
  omega

variable {l : List ℕ}

theorem length_le_max (hnodup : l.Nodup) (hlt : ∀ i ∈ l, i < camSyncMaxObjs) :
    l.length ≤ camSyncMaxObjs := by
  have hsub : l.toFinset ⊆ Finset.range camSyncMaxObjs := by
    intro i hi
    exact Finset.mem_range.mpr (hlt i (mem_toFinset.mp hi))
  have hcard := Finset.card_le_card hsub
  rw [toFinset_card_of_nodup hnodup, Finset.card_range] at hcard
  exact hcard

/-- The device in which `cam_sync_init_group_object` starts its loop. -/
def groupStart (s : SyncDev) (idx : ℕ) (objs : List ℕ) : SyncDev :=
  { ((s.setBit idx true).setLock idx true).setRow idx (initRow .group) with
    hist := s.hist.newGroup idx objs }

theorem groupStart_table_of_ne {i : ℕ} (objs : List ℕ) (h : i ≠ idx) :
    (groupStart s idx objs).table i = s.table i :=
  update_of_ne h ..

theorem groupStart_table_same (idx : ℕ) (objs : List ℕ) :
    (groupStart s idx objs).table idx = initRow .group :=
  update_self ..

theorem linking_groupStart (idx : ℕ) (objs : List ℕ) :
    Linking s.table idx [] (groupStart s idx objs) (groupStart s idx objs) where
  same := .refl _
  rows := by
    intro i hi
    rw [linkedRows_of_notMem not_mem_nil, groupStart_table_of_ne objs hi]
  type := by
    rw [groupStart_table_same]
    rfl
  parentsList := by
    rw [groupStart_table_same]
    rfl

theorem gathered_initRow (t : ℕ → Row) : Gathered t [] (initRow .group) where
  type := rfl
  parentsList := rfl
  tickets := rfl
  remaining := rfl
  child := fun _ => ⟨fun hc => absurd hc not_mem_nil, fun hc => absurd hc.1 not_mem_nil⟩
  indv := fun _ hc => absurd hc not_mem_nil
  state := .inl rfl
  failed := fun _ hc => absurd hc not_mem_nil
  fromChild := by
    intro h
    exact absurd h (by decide)

variable {row : Row}

theorem Gathered.reverse {t : ℕ → Row} (h : Gathered t l.reverse row) : Gathered t l row where
  type := h.type
  parentsList := h.parentsList
  tickets := h.tickets
  remaining := by rw [h.remaining, filter_reverse, length_reverse]
  child := fun c => by rw [h.child c, mem_reverse]
  indv := fun c hc => h.indv c (mem_reverse.mpr hc)
  state := h.state
  failed := fun c hc => h.failed c (mem_reverse.mpr hc)
  fromChild := by
    intro hfailed
    obtain ⟨c, hc, heq⟩ := h.fromChild hfailed
    exact ⟨c, mem_reverse.mp hc, heq⟩

theorem linkedRows_reverse (t : ℕ → Row) (idx : ℕ) (l : List ℕ) :
    linkedRows t idx l.reverse = linkedRows t idx l := by
  funext i
  simp only [linkedRows, mem_reverse]

theorem settleGroup_remaining (row : Row) : (settleGroup row).remaining = row.remaining := by
  rw [settleGroup]
  split <;> rfl

theorem settleGroup_type (row : Row) : (settleGroup row).type = row.type := by
  rw [settleGroup]
  split <;> rfl

theorem settleGroup_parentsList (row : Row) : (settleGroup row).parentsList = row.parentsList := by
  rw [settleGroup]
  split <;> rfl

theorem settleGroup_childrenList (row : Row) : (settleGroup row).childrenList = row.childrenList := by
  rw [settleGroup]
  split <;> rfl

theorem settleGroup_tickets (row : Row) : (settleGroup row).tickets = row.tickets := by
  rw [settleGroup]
  split <;> rfl

theorem settleGroup_failed : (settleGroup row).state.Failed ↔ row.state.Failed := by
  rw [settleGroup]
  split
  · rename_i h
    show SyncState.signaledSuccess.Failed ↔ _
    exact ⟨fun hf => absurd hf (by decide), fun hf => absurd hf h.2⟩
  · rfl

theorem settleGroup_state_of_failed (h : row.state.Failed) : (settleGroup row).state = row.state := by
  rw [settleGroup, if_neg fun h' => h'.2 h]

/-- **A new group counts its active members, and its state is that of the others.** -/
theorem Gathered.groupOk (hs : Linked s) (h : Gathered s.table l row)
    (hnodup : l.Nodup) :
    GroupOk s.hist.signaledAs (l.map s.hist.birth) (settleGroup row) := by
  have hlive : ∀ c ∈ l, s.Live c := fun c hc => (h.indv c hc).2
  have hsig : ∀ c ∈ l, s.hist.signaledAs (s.hist.birth c) =
      if (s.table c).state = .active then none else some (s.table c).state := fun c hc =>
    (hs.indv c (hlive c hc) (h.indv c hc).1).state
  refine ⟨?_, ?_, ⟨?_, ?_, ?_⟩⟩
  · apply hnodup.map_on
    intro i hi j hj heq
    exact hs.inj i j (hlive i hi) (hlive j hj) heq
  · rw [settleGroup_remaining, h.remaining, waiting, filter_map, length_map]
    congr 1
    apply filter_congr
    intro c hc
    simp only [Function.comp_apply, hsig c hc]
    split <;> simp [*]
  · intro b hb st heq hfailed
    obtain ⟨c, hc, rfl⟩ := mem_map.mp hb
    rw [hsig c hc] at heq
    split at heq
    · cases heq
    · cases heq
      exact settleGroup_failed.mpr (h.failed c hc hfailed)
  · intro hfailed
    have hfailed' := settleGroup_failed.mp hfailed
    obtain ⟨c, hc, heq⟩ := h.fromChild hfailed'
    refine ⟨_, mem_map.mpr ⟨c, hc, rfl⟩, ?_⟩
    rw [hsig c hc, settleGroup_state_of_failed hfailed', heq, if_neg]
    intro hactive
    rw [hactive] at hfailed'
    exact absurd hfailed' (by decide)
  · intro hall hactive
    have hnone : l.filter (fun c => (s.table c).state = .active) = [] := by
      apply filter_eq_nil_iff.mpr
      intro c hc hstate
      apply hall _ (mem_map.mpr ⟨c, hc, rfl⟩)
      rw [hsig c hc, if_pos (by simpa using hstate)]
    have hzero : row.remaining = 0 := by
      apply BitVec.eq_of_toNat_eq
      rw [h.remaining, hnone]
      rfl
    rw [settleGroup] at hactive
    split at hactive
    · cases hactive
    · rename_i hneg
      rcases h.state with hstate | hfailed
      · apply hneg
        rw [hstate]
        exact ⟨hzero, by decide⟩
      · rw [hactive] at hfailed
        exact absurd hfailed (by decide)

/-- What `cam_sync_merge` knows about its children when it takes a row. -/
structure Mergeable (s : SyncDev) (l : List ℕ) (idx : ℕ) : Prop where
  bit : s.bitmap idx = false
  lt : idx < camSyncMaxObjs
  nodup : l.Nodup
  live : ∀ c ∈ l, s.Live c

theorem Mergeable.notMem (hs : Linked s) (h : Mergeable s l idx) : idx ∉ l := by
  intro hmem
  have hbit := (hs.live idx (h.live idx hmem)).bit
  rw [h.bit] at hbit
  cases hbit

theorem Mergeable.not_parent (hs : Linked s) (h : Mergeable s l idx) (i : ℕ) :
    idx ∉ (s.table i).parentsList := by
  intro hmem
  have hbit := (hs.live idx ((hs.parent i idx).mp hmem).2.1.1).bit
  rw [h.bit] at hbit
  cases hbit

variable {s₁ : SyncDev}

theorem newRowStep_merge (hs : Linked s) {done : List ℕ} (hm : Mergeable s l idx)
    (hlink : Linking s.table idx done (groupStart s idx l) s₁)
    (hdone : done = l.reverse ++ []) (hg : Gathered s.table done (s₁.table idx)) :
    NewRowStep s idx (some (l.map s.hist.birth)) l
      ((s₁.setRow idx (settleGroup (s₁.table idx))).setLock idx false) := by
  rw [append_nil] at hdone
  subst hdone
  have hg' := hg.reverse
  have hsame := hlink.same
  have hhist : ((s₁.setRow idx (settleGroup (s₁.table idx))).setLock idx false).hist =
      (groupStart s idx l).hist := hsame.hist
  constructor
  case bitmap =>
    intro i hi
    show s₁.bitmap i = _
    rw [hsame.bitmap]
    exact update_of_ne hi ..
  case locked =>
    intro i hi
    show update s₁.locked idx false i = _
    rw [update_of_ne hi, hsame.locked]
    exact update_of_ne hi ..
  case objects | birth | members | signaledAs | tickets | owner | withdrawn | delivered =>
    rw [hhist]
    rfl
  case others =>
    intro i hi
    rw [setLock_table, setRow_other _ _ hi, hlink.rows i hi, linkedRows_reverse]
  case parentsList =>
    rw [setLock_table, setRow_same, settleGroup_parentsList]
    exact hg.parentsList
  case live =>
    intro _
    refine ⟨?_, update_self ..⟩
    show s₁.bitmap idx = true
    rw [hsame.bitmap]
    exact update_self ..
  case unused =>
    intro hdead
    exfalso
    apply hdead
    rw [SyncDev.Live, setLock_table, setRow_same, settleGroup]
    split
    · simp
    · rcases hg.state with hstate | hstate | hstate
      · simp [hstate]
      · simp [hstate]
      · simp [hstate]
  case indv =>
    intro _ htype
    rw [setLock_table, setRow_same, settleGroup_type, hg.type] at htype
    cases htype
  case group =>
    intro _
    refine ⟨rfl, ?_⟩
    rw [setLock_table, setRow_same]
    exact hg'.groupOk hs hm.nodup
  case child =>
    intro c hc hactive
    rw [setLock_table, setRow_same, settleGroup_childrenList]
    exact (hg'.child c).mpr ⟨hc, hactive⟩
  case childIndv =>
    intro c hc
    exact ⟨hm.live c hc, (hg'.indv c hc).1⟩
  case memberLt =>
    intro M hM m hmem
    cases hM
    obtain ⟨c, hc, rfl⟩ := mem_map.mp hmem
    exact (hs.live c (hm.live c hc)).birth
  case noTickets =>
    intro _
    rw [setLock_table, setRow_same, settleGroup_tickets]
    exact hg.tickets

theorem newRowStep_merge_fail (hs : Linked s) (hm : Mergeable s l idx)
    (hsame : SameButRows (groupStart s idx l) s₁)
    (hrows : ∀ i, i ≠ idx → s₁.table i = s.table i)
    (hdead : (s₁.table idx).state = .invalid) (hparents : (s₁.table idx).parentsList = []) :
    NewRowStep s idx (some (l.map s.hist.birth)) []
      ((s₁.setRow idx { s₁.table idx with childrenList := [] }).setBit idx false) := by
  have hunused : ¬((s₁.setRow idx { s₁.table idx with childrenList := [] }).setBit idx false).Live
      idx := by
    rw [SyncDev.Live, setBit_table, setRow_same]
    exact fun hlive => hlive hdead
  have hhist : ((s₁.setRow idx { s₁.table idx with childrenList := [] }).setBit idx false).hist =
      (groupStart s idx l).hist := hsame.hist
  constructor
  case bitmap =>
    intro i hi
    show update s₁.bitmap idx false i = _
    rw [update_of_ne hi, hsame.bitmap]
    exact update_of_ne hi ..
  case locked =>
    intro i hi
    show s₁.locked i = _
    rw [hsame.locked]
    exact update_of_ne hi ..
  case objects | birth | members | signaledAs | tickets | owner | withdrawn | delivered =>
    rw [hhist]
    rfl
  case others =>
    intro i hi
    rw [setBit_table, setRow_other _ _ hi, hrows i hi, linkedRows_of_notMem not_mem_nil]
  case parentsList =>
    rw [setBit_table, setRow_same]
    exact hparents
  case live => exact fun hlive => absurd hlive hunused
  case unused => exact fun _ => rfl
  case indv => exact fun hlive => absurd hlive hunused
  case group => exact fun hlive => absurd hlive.1 hunused
  case child => exact fun _ hc => absurd hc not_mem_nil
  case childIndv => exact fun _ hc => absurd hc not_mem_nil
  case memberLt =>
    intro M hM m hmem
    cases hM
    obtain ⟨c, hc, rfl⟩ := mem_map.mp hmem
    exact (hs.live c (hm.live c hc)).birth
  case noTickets => exact fun hlive => absurd hlive hunused

theorem initGroupObject_cases (hs : Linked s) {mem : Mem}
    (hm : Mergeable s l idx)
    (h : initGroupObject mem idx l ((s.setBit idx true).setLock idx true) = some (rc, s₁)) :
    (rc < 0 → NewRowStep s idx (some (l.map s.hist.birth)) [] (s₁.setBit idx false)) ∧
      (¬rc < 0 → NewRowStep s idx (some (l.map s.hist.birth)) l (s₁.setLock idx false)) := by
  have hidx := hm.notMem hs
  have hlen : l.length ≤ camSyncMaxObjs :=
    length_le_max hm.nodup fun i hi => (hs.live i (hm.live i hi)).lt
  simp only [initGroupObject] at h
  rcases hloop : addChildren mem idx [] l (groupStart s idx l) with _ | ⟨rc', done, s₂⟩
  · erw [hloop] at h
    cases h
  · erw [hloop] at h
    obtain ⟨hlink, hnodup, hsub, hok⟩ := addChildren_spec hloop (linking_groupStart idx l)
      (by rw [groupStart_table_same]; exact gathered_initRow _) hidx
      (by rw [append_nil]; exact nodup_reverse.mpr hm.nodup)
      (by rw [length_nil, Nat.add_zero]; exact hlen)
    simp only at h
    split at h
    · rename_i hrc
      split at h
      · cases h
      · rename_i s₃ hclean
        cases h
        have hdone : idx ∉ done := by
          intro hmem
          rcases hsub idx hmem with hmem | hmem
          · exact hidx hmem
          · cases hmem
        obtain ⟨hsame, hrows, hrow⟩ := cleanChildrenInfo_spec hclean (t := s.table)
          (fun i hi => by rw [setRow_other _ _ hi]; exact hlink.rows i hi) hnodup hdone
          (fun i _ => hm.not_parent hs i)
        rw [setRow_same] at hrow
        refine ⟨fun _ => ?_, fun hrc' => absurd hrc hrc'⟩
        apply newRowStep_merge_fail hs hm ((hlink.same.trans (.setRow ..)).trans hsame) hrows
        · rw [hrow]
        · rw [hrow]
          exact hlink.parentsList
    · rename_i hrc
      cases h
      obtain ⟨hdone, hg⟩ := hok hrc
      exact ⟨fun hrc' => absurd hrc' (by decide), fun _ => newRowStep_merge hs hm hlink hdone hg⟩

theorem merge_cases (hs : Linked s) {mem : Mem}
    (h : merge mem objs s = some (rc, s')) :
    s' = s ∨ ∃ idx l, s.bitmap idx = false ∧ idx < camSyncMaxObjs ∧
      NewRowStep s idx (some ((objs.map Int.toNat).map s.hist.birth)) l s' := by
  rw [merge] at h
  split at h
  · cases h
    exact .inl rfl
  · split at h
    · cases h
      exact .inl rfl
    · rename_i hnodup
      rw [not_not] at hnodup
      split at h
      · cases h
      · rename_i rc' hvalid
        split at h
        · cases h
          exact .inl rfl
        · rename_i hrc
          rw [not_ne_iff] at hrc
          subst hrc
          have hall := checkAllValid_zero hvalid
          split at h
          · cases h
            exact .inl rfl
          · rename_i idx hfind
            obtain ⟨hbit, hlt⟩ := findFirstZeroBit_some hfind
            have hm : Mergeable s (objs.map Int.toNat) idx := by
              refine ⟨hbit, by omega, nodup_map_toNat hnodup fun obj hobj => (hall obj hobj).1, ?_⟩
              intro c hc
              obtain ⟨obj, hobj, rfl⟩ := mem_map.mp hc
              exact (hall obj hobj).2.2
            simp only at h
            split at h
            · cases h
            · split at h
              · cases h
              · rename_i rc'' s₁ hinit
                obtain ⟨hfail, hok⟩ := initGroupObject_cases hs hm hinit
                split at h
                · rename_i hneg
                  cases h
                  exact .inr ⟨idx, [], hbit, hm.lt, hfail hneg⟩
                · rename_i hneg
                  cases h
                  exact .inr ⟨idx, _, hbit, hm.lt, hok hneg⟩

end Sm8750Modules.CamSync
