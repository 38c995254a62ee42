import Sm8750Modules.CamSync.Table
import Mathlib.Data.Fintype.Basic

/-!
# Camera sync — what the loops do to the rows

The loops over children and parents touch one row at a time. Each of them is summed up here by the
table that it leaves, so that no later proof goes through a loop again.
-/

namespace Sm8750Modules.CamSync

open Function List

def SyncDev.Live (s : SyncDev) (i : ℕ) : Prop := (s.table i).state ≠ .invalid
deriving Decidable

variable {i : ℕ}

@[simp] theorem setRow_same (s : SyncDev) (i : ℕ) (row : Row) : (s.setRow i row).table i = row :=
  update_self ..

@[simp] theorem setRow_other (s : SyncDev) {j : ℕ} (row : Row) (h : j ≠ i) :
    (s.setRow i row).table j = s.table j :=
  update_of_ne h ..

@[simp] theorem setRow_bitmap (s : SyncDev) (i : ℕ) (row : Row) :
    (s.setRow i row).bitmap = s.bitmap := rfl

@[simp] theorem setRow_locked (s : SyncDev) (i : ℕ) (row : Row) :
    (s.setRow i row).locked = s.locked := rfl

@[simp] theorem setRow_hist (s : SyncDev) (i : ℕ) (row : Row) : (s.setRow i row).hist = s.hist := rfl

@[simp] theorem setBit_table (s : SyncDev) (i : ℕ) (b : Bool) : (s.setBit i b).table = s.table := rfl

@[simp] theorem setBit_locked (s : SyncDev) (i : ℕ) (b : Bool) :
    (s.setBit i b).locked = s.locked := rfl

@[simp] theorem setBit_hist (s : SyncDev) (i : ℕ) (b : Bool) : (s.setBit i b).hist = s.hist := rfl

@[simp] theorem setBit_bitmap (s : SyncDev) (i : ℕ) (b : Bool) :
    (s.setBit i b).bitmap = update s.bitmap i b := rfl

@[simp] theorem setLock_table (s : SyncDev) (i : ℕ) (b : Bool) : (s.setLock i b).table = s.table := rfl

@[simp] theorem setLock_bitmap (s : SyncDev) (i : ℕ) (b : Bool) :
    (s.setLock i b).bitmap = s.bitmap := rfl

@[simp] theorem setLock_hist (s : SyncDev) (i : ℕ) (b : Bool) : (s.setLock i b).hist = s.hist := rfl

@[simp] theorem setLock_locked (s : SyncDev) (i : ℕ) (b : Bool) :
    (s.setLock i b).locked = update s.locked i b := rfl

theorem findFirstZeroBit_some {bitmap : ℕ → Bool} {n k : ℕ}
    (h : findFirstZeroBit bitmap n i = some k) : bitmap k = false ∧ k < i + n := by
  induction n generalizing i with
  | zero => cases h
  | succ n ih =>
    rw [findFirstZeroBit] at h
    split at h
    · obtain ⟨hk, hlt⟩ := ih h
      exact ⟨hk, by omega⟩
    · rename_i hi
      cases h
      exact ⟨by simpa using hi, by omega⟩

def parentState (status state : SyncState) : SyncState := if state.Failed then state else status

def parentSignaled (status : SyncState) (row : Row) : Row :=
  let row := { row with remaining := row.remaining - 1, state := parentState status row.state }
  if row.remaining = 0 then { row with callbackList := [], userPayloadList := [] } else row

/-- What is delivered when a child of the group in a row is signalled. -/
def parentDeliveries (status : SyncState) (idx : ℕ) (row : Row) : List Delivery :=
  if row.remaining - 1 = 0 then row.tickets.map fun t => ⟨t, idx, parentState status row.state⟩
  else []

theorem updateParentState_eq {state : SyncState} (status : SyncState) (h : state ≠ .invalid) :
    updateParentState state status = some (parentState status state) := by
  cases state with
  | invalid => exact absurd rfl h
  | active => rfl
  | signaledSuccess => rfl
  | signaledError => rfl
  | signaledCancel => rfl

variable {status : SyncState}

theorem parentState_ne_invalid {state : SyncState} (hstatus : status ≠ .invalid)
    (h : state ≠ .invalid) : parentState status state ≠ .invalid := by
  rw [parentState]
  split
  · exact h
  · exact hstatus

theorem deliver_append (h : History) (l l' : List Delivery) :
    { { h with delivered := h.delivered ++ l } with
      delivered := ({ h with delivered := h.delivered ++ l } : History).delivered ++ l' } =
      { h with delivered := h.delivered ++ (l ++ l') } := by
  simp only [append_assoc]

theorem dispatchSignaledCb_setRow (s : SyncDev) (i : ℕ) (row : Row) (hist : History)
    (st : SyncState) (h : row.state ≠ .invalid) :
    dispatchSignaledCb i st { s.setRow i row with hist := hist } =
      { s.setRow i { row with callbackList := [], userPayloadList := [] } with
        hist := hist.deliver i st row.tickets } := by
  simp only [dispatchSignaledCb, setRow_same, if_neg h]
  simp only [SyncDev.setRow, update_idem]

variable {s : SyncDev}

theorem signalParentUtil_cons {p : ℕ} (rest : List ℕ)
    (hstatus : status ≠ .invalid) (hlive : s.Live p) (hlock : s.locked p = false) :
    signalParentUtil status (p :: rest) s = signalParentUtil status rest
      { s.setRow p (parentSignaled status (s.table p)) with hist := { s.hist with
        delivered := s.hist.delivered ++ parentDeliveries status p (s.table p) } } := by
  have hnew : parentState status (s.table p).state ≠ .invalid := parentState_ne_invalid hstatus hlive
  rw [signalParentUtil, if_neg (by simp [hlock])]
  simp only [updateParentState_eq status hlive]
  by_cases hzero : (s.table p).remaining - 1 = 0
  · simp only [hzero, if_true, parentSignaled, parentDeliveries]
    have hdispatch := dispatchSignaledCb_setRow s p
      { s.table p with remaining := 0, state := parentState status (s.table p).state } s.hist
      (parentState status (s.table p).state) hnew
    exact congrArg _ hdispatch
  · simp only [hzero, if_false, parentSignaled, parentDeliveries, SyncDev.setRow, append_nil]

theorem signalParentUtil_eq {parents : List ℕ}
    (hstatus : status ≠ .invalid) (hnodup : parents.Nodup) (hlive : ∀ p ∈ parents, s.Live p)
    (hlock : ∀ p ∈ parents, s.locked p = false) :
    signalParentUtil status parents s = some { s with
      table := fun i => if i ∈ parents then parentSignaled status (s.table i) else s.table i
      hist := { s.hist with
        delivered := s.hist.delivered ++
          parents.flatMap fun p => parentDeliveries status p (s.table p) } } := by
  induction parents generalizing s with
  | nil => simp [signalParentUtil]
  | cons p rest ih =>
    obtain ⟨hp, hrest⟩ := nodup_cons.mp hnodup
    have hother : ∀ q ∈ rest, q ≠ p := fun q hq h => hp (h ▸ hq)
    rw [signalParentUtil_cons rest hstatus (hlive p mem_cons_self) (hlock p mem_cons_self), ih hrest]
    · congr 2
      · funext i
        by_cases hi : i = p
        · subst hi
          simp only [hp, if_false, setRow_same, mem_cons_self, if_true]
        · simp only [setRow_other _ _ hi, mem_cons, hi, false_or]
      · rw [deliver_append, flatMap_cons]
        congr 3
        apply flatMap_congr
        intro q hq
        rw [setRow_other _ _ (hother q hq)]
    · intro q hq
      show ((s.setRow p _).table q).state ≠ _
      rw [setRow_other _ _ (hother q hq)]
      exact hlive q (mem_cons_of_mem _ hq)
    · intro q hq
      exact hlock q (mem_cons_of_mem _ hq)

/-- A device that differs in its rows alone. -/
structure SameButRows (s s' : SyncDev) : Prop where
  bitmap : s'.bitmap = s.bitmap
  locked : s'.locked = s.locked
  hist : s'.hist = s.hist

theorem SameButRows.refl (s : SyncDev) : SameButRows s s := ⟨rfl, rfl, rfl⟩

variable {s' : SyncDev}

theorem SameButRows.trans {s'' : SyncDev} (h : SameButRows s s') (h' : SameButRows s' s'') :
    SameButRows s s'' :=
  ⟨h'.bitmap.trans h.bitmap, h'.locked.trans h.locked, h'.hist.trans h.hist⟩

theorem SameButRows.setRow (s : SyncDev) (i : ℕ) (row : Row) : SameButRows s (s.setRow i row) :=
  ⟨rfl, rfl, rfl⟩

def withoutParent (idx : ℕ) (row : Row) : Row :=
  { row with parentsList := row.parentsList.filter (· ≠ idx) }

variable {idx : ℕ} {row : Row}

theorem withoutParent_eq_self (h : idx ∉ row.parentsList) : withoutParent idx row = row := by
  have hfilter : row.parentsList.filter (· ≠ idx) = row.parentsList := by
    apply filter_eq_self.mpr
    intro p hp
    have hne : p ≠ idx := fun heq => h (heq ▸ hp)
    simpa using hne
  rw [withoutParent, hfilter]

theorem cleanupParentsList_eq (h : row.parentsList.Nodup) :
    cleanupParentsList row idx = withoutParent idx row := by
  rw [cleanupParentsList, withoutParent, h.erase_eq_filter]
  congr 1
  apply filter_congr
  intro p _
  by_cases hp : p = idx
  · simp [hp]
  · simp [hp]

theorem withoutParent_nodup (h : row.parentsList.Nodup) : (withoutParent idx row).parentsList.Nodup :=
  h.filter _

theorem withoutParent_idem (idx : ℕ) (row : Row) :
    withoutParent idx (withoutParent idx row) = withoutParent idx row := by
  simp [withoutParent]

theorem unlinkChildren_spec {children : List ℕ}
    (h : unlinkChildren idx children s = some s') (hnodup : ∀ i, (s.table i).parentsList.Nodup) :
    SameButRows s s' ∧ ∀ i, s'.table i =
      if i ∈ children ∧ s.Live i then withoutParent idx (s.table i) else s.table i := by
  induction children generalizing s with
  | nil =>
    cases h
    exact ⟨.refl _, fun i => by simp⟩
  | cons child rest ih =>
    rw [unlinkChildren] at h
    split at h
    · cases h
    · split at h
      · rename_i hdead
        obtain ⟨hsame, htable⟩ := ih h hnodup
        refine ⟨hsame, fun i => ?_⟩
        have hiff : (i ∈ child :: rest ∧ s.Live i) ↔ (i ∈ rest ∧ s.Live i) := by
          constructor
          · rintro ⟨hi, hlive⟩
            rcases mem_cons.mp hi with rfl | hi
            · exact absurd hdead hlive
            · exact ⟨hi, hlive⟩
          · rintro ⟨hi, hlive⟩
            exact ⟨mem_cons_of_mem _ hi, hlive⟩
        rw [htable i]
        simp only [hiff]
      · rename_i hlive
        rw [cleanupParentsList_eq (hnodup child)] at h
        obtain ⟨hsame, htable⟩ := ih h (fun i => by
          rcases eq_or_ne i child with rfl | hi
          · rw [setRow_same]
            exact withoutParent_nodup (hnodup i)
          · rw [setRow_other _ _ hi]
            exact hnodup i)
        refine ⟨(SameButRows.setRow s _ _).trans hsame, fun i => ?_⟩
        rw [htable i]
        rcases eq_or_ne i child with rfl | hi
        · rw [setRow_same, if_pos (⟨mem_cons_self, hlive⟩ : i ∈ i :: rest ∧ s.Live i),
            withoutParent_idem, ite_self]
        · simp only [setRow_other _ _ hi, SyncDev.Live, mem_cons, hi, false_or]

theorem unlinkParents_spec {parents : List ℕ}
    (h : unlinkParents idx parents s = some s') :
    SameButRows s s' ∧ ∀ i, ∃ children, s'.table i = { s.table i with childrenList := children } ∧
      ∀ c, c ≠ idx → (c ∈ children ↔ c ∈ (s.table i).childrenList) := by
  induction parents generalizing s with
  | nil =>
    cases h
    exact ⟨.refl _, fun i => ⟨_, rfl, fun c _ => Iff.rfl⟩⟩
  | cons parent rest ih =>
    rw [unlinkParents] at h
    split at h
    · cases h
    · split at h
      · exact ih h
      · obtain ⟨hsame, htable⟩ := ih h
        refine ⟨(SameButRows.setRow s _ _).trans hsame, fun i => ?_⟩
        obtain ⟨children, hi, hmem⟩ := htable i
        refine ⟨children, ?_, fun c hc => ?_⟩
        · rw [hi]
          rcases eq_or_ne i parent with rfl | hne
          · rw [setRow_same]
            rfl
          · rw [setRow_other _ _ hne]
        · rw [hmem c hc]
          rcases eq_or_ne i parent with rfl | hne
          · rw [setRow_same]
            exact mem_erase_of_ne hc
          · rw [setRow_other _ _ hne]

/-! ### Setting up a group -/

def withParent (idx : ℕ) (row : Row) : Row := { row with parentsList := row.parentsList ++ [idx] }

def linkedRows (t : ℕ → Row) (idx : ℕ) (l : List ℕ) (i : ℕ) : Row :=
  if i ∈ l ∧ (t i).state = .active then withParent idx (t i) else t i

structure Gathered (t : ℕ → Row) (l : List ℕ) (row : Row) : Prop where
  type : row.type = .group
  parentsList : row.parentsList = []
  tickets : row.tickets = []
  remaining : row.remaining.toNat = (l.filter fun c => (t c).state = .active).length
  child : ∀ c, c ∈ row.childrenList ↔ c ∈ l ∧ (t c).state = .active
  indv : ∀ c ∈ l, (t c).type = .indv ∧ (t c).state ≠ .invalid
  state : row.state = .active ∨ row.state.Failed
  failed : ∀ c ∈ l, (t c).state.Failed → row.state.Failed
  fromChild : row.state.Failed → ∃ c ∈ l, (t c).state = row.state

variable {l : List ℕ} {child : ℕ} {t : ℕ → Row}

theorem linkedRows_cons_same
    (h : (t child).state = .active) :
    linkedRows t idx (child :: l) child = withParent idx (t child) := by
  rw [linkedRows, if_pos ⟨mem_cons_self, h⟩]

theorem linkedRows_cons_other (l : List ℕ) (h : i ≠ child) :
    linkedRows t idx (child :: l) i = linkedRows t idx l i := by
  simp only [linkedRows, mem_cons, h, false_or]

theorem linkedRows_cons_done (l : List ℕ)
    (h : (t child).state ≠ .active) (i : ℕ) :
    linkedRows t idx (child :: l) i = linkedRows t idx l i := by
  rcases eq_or_ne i child with rfl | hi
  · simp only [linkedRows, h, and_false]
  · exact linkedRows_cons_other l hi

theorem linkedRows_of_notMem (h : i ∉ l) : linkedRows t idx l i = t i := by
  simp only [linkedRows, h, false_and, if_false]

/-- The rows of the group's children are as they were, up to the new parent. -/
structure Linking (t : ℕ → Row) (idx : ℕ) (l : List ℕ) (s s' : SyncDev) : Prop where
  same : SameButRows s s'
  rows : ∀ i, i ≠ idx → s'.table i = linkedRows t idx l i
  type : (s'.table idx).type = .group
  parentsList : (s'.table idx).parentsList = []

section AddChildren

variable {t : ℕ → Row} {mem : Mem} {idx : ℕ} {s₀ : SyncDev}

theorem Gathered.addFailed (h : Gathered t l row)
    (hindv : (t child).type = .indv) (hfailed : (t child).state.Failed) :
    Gathered t (child :: l) { row with state := (t child).state } where
  type := h.type
  parentsList := h.parentsList
  tickets := h.tickets
  remaining := by
    have hne : (t child).state ≠ .active := by
      rcases hfailed with heq | heq
      · simp [heq]
      · simp [heq]
    rw [h.remaining, filter_cons_of_neg (by simpa using hne)]
  child := by
    intro c
    rw [h.child c, mem_cons]
    constructor
    · rintro ⟨hc, hactive⟩
      exact ⟨.inr hc, hactive⟩
    · rintro ⟨rfl | hc, hactive⟩
      · rcases hfailed with heq | heq
        · exact absurd (heq.symm.trans hactive) (by decide)
        · exact absurd (heq.symm.trans hactive) (by decide)
      · exact ⟨hc, hactive⟩
  indv := by
    intro c hc
    rcases mem_cons.mp hc with rfl | hc
    · refine ⟨hindv, ?_⟩
      rcases hfailed with heq | heq
      · simp [heq]
      · simp [heq]
    · exact h.indv c hc
  state := .inr hfailed
  failed := fun _ _ _ => hfailed
  fromChild := fun _ => ⟨child, mem_cons_self, rfl⟩

theorem Gathered.addSuccess (h : Gathered t l row)
    (hindv : (t child).type = .indv) (hsuccess : (t child).state = .signaledSuccess) :
    Gathered t (child :: l) row where
  type := h.type
  parentsList := h.parentsList
  tickets := h.tickets
  remaining := by rw [h.remaining, filter_cons_of_neg (by simp [hsuccess])]
  child := by
    intro c
    rw [h.child c, mem_cons]
    constructor
    · rintro ⟨hc, hactive⟩
      exact ⟨.inr hc, hactive⟩
    · rintro ⟨rfl | hc, hactive⟩
      · exact absurd (hsuccess.symm.trans hactive) (by decide)
      · exact ⟨hc, hactive⟩
  indv := by
    intro c hc
    rcases mem_cons.mp hc with rfl | hc
    · exact ⟨hindv, by simp [hsuccess]⟩
    · exact h.indv c hc
  state := h.state
  failed := by
    intro c hc hfailed
    rcases mem_cons.mp hc with rfl | hc
    · rw [hsuccess] at hfailed
      exact absurd hfailed (by decide)
    · exact h.failed c hc hfailed
  fromChild := by
    intro hfailed
    obtain ⟨c, hc, heq⟩ := h.fromChild hfailed
    exact ⟨c, mem_cons_of_mem _ hc, heq⟩

theorem Gathered.addActive (h : Gathered t l row)
    (hlen : l.length < camSyncMaxObjs) (hindv : (t child).type = .indv)
    (hactive : (t child).state = .active) :
    Gathered t (child :: l) { row with
      remaining := row.remaining + 1, childrenList := row.childrenList ++ [child] } where
  type := h.type
  parentsList := h.parentsList
  tickets := h.tickets
  remaining := by
    have hle : (l.filter fun c => (t c).state = .active).length ≤ l.length := length_filter_le ..
    rw [filter_cons_of_pos (by simpa using hactive), length_cons, ← h.remaining]
    rw [← h.remaining] at hle
    simp only [camSyncMaxObjs] at hlen
    show (row.remaining + 1).toNat = _
    have hone : (1 : BitVec 32).toNat = 1 := rfl
    rw [BitVec.toNat_add, hone]
    omega
  child := by
    intro c
    rw [mem_append, mem_singleton, h.child c, mem_cons]
    constructor
    · rintro (⟨hc, hc'⟩ | rfl)
      · exact ⟨.inr hc, hc'⟩
      · exact ⟨.inl rfl, hactive⟩
    · rintro ⟨rfl | hc, hc'⟩
      · exact .inr rfl
      · exact .inl ⟨hc, hc'⟩
  indv := by
    intro c hc
    rcases mem_cons.mp hc with rfl | hc
    · exact ⟨hindv, by simp [hactive]⟩
    · exact h.indv c hc
  state := h.state
  failed := by
    intro c hc hfailed
    rcases mem_cons.mp hc with rfl | hc
    · rw [hactive] at hfailed
      exact absurd hfailed (by decide)
    · exact h.failed c hc hfailed
  fromChild := by
    intro hfailed
    obtain ⟨c, hc, heq⟩ := h.fromChild hfailed
    exact ⟨c, mem_cons_of_mem _ hc, heq⟩

theorem addChild_ok {rc : Int}
    (h : addChild mem idx child s = (rc, s')) (hrc : ¬rc < 0) (hl : Linking t idx l s₀ s)
    (hg : Gathered t l (s.table idx)) (hchild : child ≠ idx) (hnew : child ∉ l)
    (hlen : l.length < camSyncMaxObjs) :
    Linking t idx (child :: l) s₀ s' ∧ Gathered t (child :: l) (s'.table idx) := by
  have hrow : s.table child = t child := by rw [hl.rows child hchild, linkedRows_of_notMem hnew]
  rw [addChild, hrow] at h
  split at h
  · cases h
    exact absurd (by decide) hrc
  · rename_i hkind
    push Not at hkind
    have hindv : (t child).type = .indv := by
      cases htype : (t child).type with
      | indv => rfl
      | group => exact absurd htype hkind.1
    split at h
    · rename_i hfailed
      cases h
      have hne : (t child).state ≠ .active := by
        rcases hfailed with heq | heq
        · simp [heq]
        · simp [heq]
      refine ⟨⟨hl.same.trans (.setRow ..), fun i hi => ?_, ?_, ?_⟩, ?_⟩
      · rw [setRow_other _ _ hi, hl.rows i hi, linkedRows_cons_done l hne]
      · rw [setRow_same]
        exact hl.type
      · rw [setRow_same]
        exact hl.parentsList
      · rw [setRow_same]
        exact hg.addFailed hindv hfailed
    · rename_i hfailed
      split at h
      · rename_i hne
        cases h
        have hsuccess : (t child).state = .signaledSuccess := by
          cases hstate : (t child).state with
          | invalid => exact absurd hstate hkind.2
          | active => exact absurd hstate hne
          | signaledSuccess => rfl
          | signaledError => exact absurd (.inl hstate) hfailed
          | signaledCancel => exact absurd (.inr hstate) hfailed
        refine ⟨⟨hl.same, fun i hi => ?_, hl.type, hl.parentsList⟩, hg.addSuccess hindv hsuccess⟩
        rw [hl.rows i hi, linkedRows_cons_done l hne]
      · rename_i hactive
        have hactive : (t child).state = .active := by simpa using hactive
        split at h
        · cases h
          exact absurd (by decide) hrc
        · split at h
          · cases h
            exact absurd (by decide) hrc
          · cases h
            refine ⟨⟨hl.same.trans ((SameButRows.setRow ..).trans (.setRow ..)), fun i hi => ?_, ?_, ?_⟩, ?_⟩
            · rcases eq_or_ne i child with rfl | hne
              · rw [setRow_same, linkedRows_cons_same hactive]
                rfl
              · rw [setRow_other _ _ hne, setRow_other _ _ hi, hl.rows i hi,
                  linkedRows_cons_other l hne]
            · rw [setRow_other _ _ hchild.symm, setRow_same]
              exact hl.type
            · rw [setRow_other _ _ hchild.symm, setRow_same]
              exact hl.parentsList
            · rw [setRow_other _ _ hchild.symm, setRow_same]
              exact hg.addActive hlen hindv hactive

theorem addChild_fail {rc : Int}
    (h : addChild mem idx child s = (rc, s')) (hrc : rc < 0) (hl : Linking t idx l s₀ s) :
    Linking t idx l s₀ s' := by
  have hrow : ∀ row : Row, row.type = (s.table idx).type → row.parentsList = (s.table idx).parentsList →
      Linking t idx l s₀ (s.setRow idx row) := by
    intro row htype hparents
    refine ⟨hl.same.trans (.setRow ..), fun i hi => ?_, ?_, ?_⟩
    · rw [setRow_other _ _ hi]
      exact hl.rows i hi
    · rw [setRow_same, htype]
      exact hl.type
    · rw [setRow_same, hparents]
      exact hl.parentsList
  rw [addChild] at h
  split at h
  · cases h
    exact hl
  · split at h
    · cases h
      exact absurd hrc (by decide)
    · split at h
      · cases h
        exact absurd hrc (by decide)
      · split at h
        · cases h
          exact hrow _ rfl rfl
        · split at h
          · cases h
            exact hrow _ rfl rfl
          · cases h
            exact absurd hrc (by decide)

theorem addChildren_spec {todo done : List ℕ} {rc : Int}
    (h : addChildren mem idx l todo s = some (rc, done, s')) (hl : Linking t idx l s₀ s)
    (hg : Gathered t l (s.table idx)) (hidx : idx ∉ todo) (hnodup : (todo.reverse ++ l).Nodup)
    (hlen : todo.length + l.length ≤ camSyncMaxObjs) :
    Linking t idx done s₀ s' ∧ done.Nodup ∧ (∀ c ∈ done, c ∈ todo ∨ c ∈ l) ∧
      (¬rc < 0 → done = todo.reverse ++ l ∧ Gathered t done (s'.table idx)) := by
  induction todo generalizing l s with
  | nil =>
    cases h
    exact ⟨hl, hnodup, fun c hc => .inr hc, fun _ => ⟨rfl, hg⟩⟩
  | cons child rest ih =>
    have hne : child ≠ idx := fun heq => hidx (heq ▸ mem_cons_self)
    rw [reverse_cons, append_assoc] at hnodup
    have hnodup' : (child :: l).Nodup := (nodup_append'.mp hnodup).2.1
    rw [addChildren] at h
    split at h
    · cases h
    · rcases hout : addChild mem idx child s with ⟨rc', s''⟩
      rw [hout] at h
      simp only at h
      split at h
      · rename_i hrc
        cases h
        exact ⟨addChild_fail hout hrc hl, (nodup_cons.mp hnodup').2, fun c hc => .inr hc,
          fun hrc' => absurd hrc hrc'⟩
      · rename_i hrc
        rw [length_cons] at hlen
        obtain ⟨hl', hg'⟩ := addChild_ok hout hrc hl hg hne (nodup_cons.mp hnodup').1 (by omega)
        obtain ⟨hlink, hdone, hsub, hok⟩ := ih h hl' hg' (fun hi => hidx (mem_cons_of_mem _ hi))
          hnodup (by rw [length_cons]; omega)
        refine ⟨hlink, hdone, fun c hc => ?_, fun hrc => ?_⟩
        · rcases hsub c hc with hc | hc
          · exact .inl (mem_cons_of_mem _ hc)
          · rcases mem_cons.mp hc with rfl | hc
            · exact .inl mem_cons_self
            · exact .inr hc
        · obtain ⟨heq, hgath⟩ := hok hrc
          refine ⟨?_, hgath⟩
          rw [heq, reverse_cons, append_assoc]
          rfl

theorem cleanChildrenInfo_spec
    (h : cleanChildrenInfo idx l s = some s') (hrows : ∀ i, i ≠ idx → s.table i = linkedRows t idx l i)
    (hnodup : l.Nodup) (hidx : idx ∉ l) (hnew : ∀ i, i ≠ idx → idx ∉ (t i).parentsList) :
    SameButRows s s' ∧ (∀ i, i ≠ idx → s'.table i = t i) ∧ s'.table idx = s.table idx := by
  induction l generalizing s with
  | nil =>
    cases h
    exact ⟨.refl _, fun i hi => by rw [hrows i hi, linkedRows_of_notMem not_mem_nil], rfl⟩
  | cons child rest ih =>
    obtain ⟨hnotin, hrest⟩ := nodup_cons.mp hnodup
    have hne : child ≠ idx := fun heq => hidx (heq ▸ mem_cons_self)
    rw [cleanChildrenInfo] at h
    split at h
    · cases h
    · obtain ⟨hsame, htable, hrow⟩ := ih h (fun i hi => by
        rcases eq_or_ne i child with rfl | hi'
        · rw [setRow_same, hrows i hi, linkedRows_of_notMem hnotin, linkedRows]
          split
          · rw [cleanupParentsList, withParent]
            simp only
            rw [erase_append_right _ (hnew i hi), erase_cons_head, append_nil]
          · rw [cleanupParentsList, erase_of_not_mem (hnew i hi)]
        · rw [setRow_other _ _ hi', hrows i hi, linkedRows_cons_other rest hi']) hrest
        (fun hi => hidx (mem_cons_of_mem _ hi))
      refine ⟨(SameButRows.setRow ..).trans hsame, htable, ?_⟩
      rw [hrow, setRow_other _ _ hne.symm]

end AddChildren

end Sm8750Modules.CamSync
