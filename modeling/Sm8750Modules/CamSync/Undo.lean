import Sm8750Modules.CamSync.Groups

/-!
# Camera sync — what failed requests leave behind

A signal from user space first takes a reference on its object, which the signal itself drops again;
a merge takes a row and its lock before it links the row to its children. Both can still fail after
that.
-/

namespace Sm8750Modules.CamSync

open List

/-- `cam_sync_handle_signal`, after its arguments are copied. -/
def handleSignal (syncObj : Int) (status : ℕ) (s : SyncDev) : Option (Int × SyncDev) :=
  match getObjRef syncObj s with
  | none => none
  | some (rc, s) => if rc ≠ 0 then some (rc, s) else signal syncObj status s

/-- The requests that can fail half way. -/
inductive Request where
  | signal (syncObj : Int) (status : ℕ)
  | merge (mem : Mem) (syncObj : List Int)

/-- A request: its return code and the device, or `none` where it does not return. -/
def SyncDev.request (s : SyncDev) : Request → Option (Int × SyncDev)
  | .signal syncObj status => handleSignal syncObj status s
  | .merge mem syncObj => merge mem syncObj s

/-- What a request that fails should leave as it was. -/
def Unchanged (s s' : SyncDev) : Request → Prop
  | .signal _ _ => s'.table = s.table
  | .merge _ _ => s'.bitmap = s.bitmap ∧ s'.locked = s.locked ∧ ∀ i,
      (s'.table i).parentsList = (s.table i).parentsList ∧
      (s'.table i).childrenList = (s.table i).childrenList ∧
      (s'.table i).remaining = (s.table i).remaining ∧ (s'.table i).refCnt = (s.table i).refCnt

def LeavesAlone (s : SyncDev) (r : Request) : Prop :=
  ∀ rc s', s.request r = some (rc, s') → rc ≠ 0 → Unchanged s s' r

/-- An object that `cam_sync_init_group_object` cannot link to a group. -/
def Unlinkable (mem : Mem) (row : Row) (child : ℕ) : Prop :=
  row.type = .group ∨
    row.state = .active ∧ ¬(mem.childInfo child = true ∧ mem.parentInfo child = true)
deriving Decidable

/-- A merge passes its checks and gets the lock of a free row. -/
structure TakesRow (s : SyncDev) (syncObj : List Int) : Prop where
  two : 1 < syncObj.length
  nodup : syncObj.Nodup
  valid : checkAllValid s syncObj = some 0
  free : ∃ idx, findFirstZeroBit s.bitmap camSyncMaxObjs 0 = some idx ∧ s.locked idx = false

/-- A request fails after it has taken a reference or a row. -/
def FailsLate (s : SyncDev) : Request → Prop
  | .signal syncObj status => InRange syncObj ∧ s.locked syncObj.toNat = false ∧
      (s.table syncObj.toNat).state = .active ∧
      ((s.table syncObj.toNat).type = .group ∨ SyncState.ofStatus status = none)
  | .merge mem syncObj => TakesRow s syncObj ∧
      ∃ obj ∈ syncObj, Unlinkable mem (s.table obj.toNat) obj.toNat

variable {s s' : SyncDev} {rc : Int} {mem : Mem} {idx : ℕ}

theorem getObjRef_active {obj : Int} (hrange : InRange obj) (hlock : s.locked obj.toNat = false)
    (hactive : (s.table obj.toNat).state = .active) : getObjRef obj s = some (0, s.setRow obj.toNat
      { s.table obj.toNat with refCnt := (s.table obj.toNat).refCnt + 1 }) := by
  rw [getObjRef, if_neg (not_not_intro hrange)]
  show (if s.locked obj.toNat then none else if (s.table obj.toNat).state ≠ .active then _ else _) = _
  rw [hlock, if_neg Bool.false_ne_true, if_neg (not_not_intro hactive)]

theorem getObjRef_cases {obj : Int} (h : getObjRef obj s = some (rc, s')) :
    (rc ≠ 0 ∧ s' = s) ∨ (rc = 0 ∧ InRange obj ∧ s.locked obj.toNat = false ∧
      (s.table obj.toNat).state = .active ∧ s' = s.setRow obj.toNat
        { s.table obj.toNat with refCnt := (s.table obj.toNat).refCnt + 1 }) := by
  by_cases hrange : InRange obj
  · rcases hlock : s.locked obj.toNat with _ | _
    · by_cases hactive : (s.table obj.toNat).state = .active
      · rw [getObjRef_active hrange hlock hactive] at h
        cases h
        exact .inr ⟨rfl, hrange, rfl, hactive, rfl⟩
      · rw [getObjRef, if_neg (not_not_intro hrange)] at h
        simp only [hlock, hactive, Bool.false_eq_true, if_false, ne_eq, not_false_eq_true, if_true] at h
        cases h
        exact .inl ⟨by decide, rfl⟩
    · rw [getObjRef, if_neg (not_not_intro hrange)] at h
      simp only [hlock, if_true] at h
      cases h
  · rw [getObjRef, if_pos hrange] at h
    cases h
    exact .inl ⟨by decide, rfl⟩

theorem signalValidateUtil_active {row : Row} (hactive : row.state = .active) (status : ℕ) :
    (∃ e, e ≠ 0 ∧ signalValidateUtil row status = .error e) ↔
      row.type = .group ∨ SyncState.ofStatus status = none := by
  have hlive : row.state ≠ .invalid := by
    rw [hactive]
    exact SyncState.noConfusion
  rw [signalValidateUtil, if_neg hlive]
  by_cases hgroup : row.type = .group
  · rw [if_pos hgroup]
    exact iff_of_true ⟨einval, by decide, rfl⟩ (.inl hgroup)
  · rw [if_neg hgroup, if_neg (not_not_intro hactive)]
    rcases hst : SyncState.ofStatus status with _ | st
    · exact iff_of_true ⟨einval, by decide, rfl⟩ (.inr rfl)
    · refine iff_of_false ?_ ?_
      · rintro ⟨e, -, he⟩
        cases he
      · rintro (h | h)
        · exact hgroup h
        · cases h

theorem signal_eq {obj : Int} {status : ℕ} (hrange : InRange obj)
    (hlock : s.locked obj.toNat = false) (h : signal obj status s = some (rc, s')) :
    (rc ≠ 0 → s' = s ∧ signalValidateUtil (s.table obj.toNat) status = .error rc) ∧
      ∀ e, signalValidateUtil (s.table obj.toNat) status = .error e → rc = e ∧ s' = s := by
  rw [signal, if_neg (not_not_intro hrange)] at h
  simp only [hlock, Bool.false_eq_true, if_false] at h
  rcases hv : signalValidateUtil (s.table obj.toNat) status with e | st
  · rw [hv] at h
    cases h
    refine ⟨fun _ => ⟨rfl, rfl⟩, fun e' he => ?_⟩
    cases he
    exact ⟨rfl, rfl⟩
  · rw [hv] at h
    simp only at h
    refine ⟨fun hrc => ?_, fun e he => by cases he⟩
    split at h
    · cases h
      exact absurd rfl hrc
    · obtain ⟨s₁, -, heq⟩ := Option.map_eq_some_iff.mp h
      cases heq
      exact absurd rfl hrc

theorem refCnt_succ_ne (r : BitVec 32) : r + 1 ≠ r := by
  bv_omega

/-- **A signal that fails leaves the rows alone exactly if its object is not active, or it is one that
can be signalled with that status.** -/
theorem leavesAlone_signal {obj : Int} {status : ℕ} :
    LeavesAlone s (.signal obj status) ↔ ¬FailsLate s (.signal obj status) := by
  constructor
  · rintro hleaves ⟨hrange, hlock, hactive, hbad⟩
    obtain ⟨e, he, hv⟩ := (signalValidateUtil_active hactive status).mpr hbad
    have hcall : s.request (.signal obj status) = some (e, s.setRow obj.toNat
        { s.table obj.toNat with refCnt := (s.table obj.toNat).refCnt + 1 }) := by
      show handleSignal obj status s = _
      rw [handleSignal, getObjRef_active hrange hlock hactive]
      show signal obj status _ = _
      rw [signal, if_neg (not_not_intro hrange)]
      simp only [setRow_locked, hlock, Bool.false_eq_true, if_false, setRow_same]
      have hv' : signalValidateUtil
          { s.table obj.toNat with refCnt := (s.table obj.toNat).refCnt + 1 } status = .error e := hv
      rw [hv']
    have hrow := congrFun (hleaves e _ hcall he) obj.toNat
    rw [setRow_same] at hrow
    exact refCnt_succ_ne _ (congrArg Row.refCnt hrow)
  · intro hnot rc s' hreq hrc
    have hreq : handleSignal obj status s = some (rc, s') := hreq
    rw [handleSignal] at hreq
    rcases hget : getObjRef obj s with _ | ⟨rc₁, s₁⟩
    · rw [hget] at hreq
      cases hreq
    · rw [hget] at hreq
      have hcall : (if rc₁ ≠ 0 then some (rc₁, s₁) else signal obj status s₁) = some (rc, s') := hreq
      clear hreq
      rcases getObjRef_cases hget with ⟨hne, rfl⟩ | ⟨rfl, hrange, hlock, hactive, rfl⟩
      · rw [if_pos hne] at hcall
        cases hcall
        rfl
      · rw [if_neg (not_not_intro rfl)] at hcall
        have hlock₁ : (s.setRow obj.toNat { s.table obj.toNat with
            refCnt := (s.table obj.toNat).refCnt + 1 }).locked obj.toNat = false := hlock
        obtain ⟨-, hv⟩ := (signal_eq hrange hlock₁ hcall).1 hrc
        rw [setRow_same] at hv
        exact absurd ⟨hrange, hlock, hactive,
          (signalValidateUtil_active hactive status).mp ⟨rc, hrc, hv⟩⟩ hnot

theorem addChild_total {child : ℕ} (hlive : (s.table child).state ≠ .invalid)
    (h : addChild mem idx child s = (rc, s')) : s'.locked = s.locked ∧
      (∀ i, i ≠ idx → i ≠ child → s'.table i = s.table i) ∧
      (rc < 0 ↔ Unlinkable mem (s.table child) child) := by
  rw [addChild] at h
  have hrow : ∀ row i, i ≠ idx → (s.setRow idx row).table i = s.table i :=
    fun row i hi => setRow_other _ _ hi
  simp only [hlive, or_false] at h
  by_cases hgroup : (s.table child).type = .group
  · simp only [hgroup, if_true] at h
    cases h
    exact ⟨rfl, fun i _ _ => rfl, iff_of_true (by decide) (.inl hgroup)⟩
  · simp only [hgroup, if_false] at h
    by_cases hactive : (s.table child).state = .active
    · have hfailed : ¬(s.table child).state.Failed := by
        rw [hactive]
        decide
      rw [if_neg hfailed] at h
      simp only [hactive, ne_eq, not_true_eq_false, if_false] at h
      rcases hc : mem.childInfo child with _ | _
      · simp only [hc, Bool.false_eq_true, not_false_eq_true, if_true] at h
        cases h
        refine ⟨rfl, fun i hi _ => hrow _ i hi, iff_of_true (by decide) (.inr ⟨hactive, fun hm => ?_⟩)⟩
        rw [hc] at hm
        cases hm.1
      · simp only [hc, not_true_eq_false, if_false] at h
        rcases hp : mem.parentInfo child with _ | _
        · simp only [hp, Bool.false_eq_true, not_false_eq_true, if_true] at h
          cases h
          refine ⟨rfl, fun i hi _ => hrow _ i hi,
            iff_of_true (by decide) (.inr ⟨hactive, fun hm => ?_⟩)⟩
          rw [hp] at hm
          cases hm.2
        · simp only [hp, not_true_eq_false, if_false] at h
          cases h
          refine ⟨rfl, fun i hi hic => ?_, iff_of_false (by decide) ?_⟩
          · rw [setRow_other _ _ hic]
            exact hrow _ i hi
          · rintro (hg | ⟨-, hm⟩)
            · exact hgroup hg
            · exact hm ⟨hc, hp⟩
    · have hok : ¬Unlinkable mem (s.table child) child := by
        rintro (hg | ⟨ha, -⟩)
        · exact hgroup hg
        · exact hactive ha
      by_cases hfailed : (s.table child).state.Failed
      · simp only [hfailed, if_true] at h
        cases h
        exact ⟨rfl, fun i hi _ => hrow _ i hi, iff_of_false (by decide) hok⟩
      · simp only [hfailed, if_false, ne_eq, hactive, not_false_eq_true, if_true] at h
        cases h
        exact ⟨rfl, fun i _ _ => rfl, iff_of_false (by decide) hok⟩

/-- **The loop of a merge returns, and fails exactly if it meets an object that cannot be linked.** -/
theorem addChildren_total (mem : Mem) {t : ℕ → Row} {todo : List ℕ} (done : List ℕ) (hnodup : todo.Nodup)
    (hrows : ∀ c ∈ todo, s.locked c = false ∧ c ≠ idx ∧ s.table c = t c ∧ (t c).state ≠ .invalid) :
    ∃ rc done' s', addChildren mem idx done todo s = some (rc, done', s') ∧ s'.locked = s.locked ∧
      (∀ c ∈ done', c ∈ todo ∨ c ∈ done) ∧ (rc < 0 ↔ ∃ c ∈ todo, Unlinkable mem (t c) c) := by
  induction todo generalizing s done with
  | nil =>
    refine ⟨0, done, s, rfl, rfl, fun c hc => .inr hc, iff_of_false (by decide) ?_⟩
    rintro ⟨c, hc, -⟩
    cases hc
  | cons child rest ih =>
    obtain ⟨hlock, hne, hrow, hlive⟩ := hrows child mem_cons_self
    rw [← hrow] at hlive
    rcases hout : addChild mem idx child s with ⟨rc, s₁⟩
    obtain ⟨hlocked, hother, hiff⟩ := addChild_total hlive hout
    rw [hrow] at hiff
    rw [addChildren]
    simp only [hlock, Bool.false_eq_true, if_false, hout]
    by_cases hrc : rc < 0
    · rw [if_pos hrc]
      exact ⟨rc, done, s₁, rfl, hlocked, fun c hc => .inr hc,
        iff_of_true hrc ⟨child, mem_cons_self, hiff.mp hrc⟩⟩
    · rw [if_neg hrc]
      obtain ⟨hnot, hnodup⟩ := nodup_cons.mp hnodup
      obtain ⟨rc', done', s₂, hloop, hlocked', hsub, hiff'⟩ := ih (s := s₁) (child :: done)
        hnodup fun c hc => by
          obtain ⟨hl, hi, ht, hs⟩ := hrows c (mem_cons_of_mem _ hc)
          refine ⟨by rw [hlocked]; exact hl, hi, ?_, hs⟩
          rw [hother c hi fun heq => hnot (heq ▸ hc)]
          exact ht
      refine ⟨rc', done', s₂, hloop, hlocked'.trans hlocked, fun c hc => ?_, ?_⟩
      · rcases hsub c hc with hc | hc
        · exact .inl (mem_cons_of_mem _ hc)
        · rcases mem_cons.mp hc with rfl | hc
          · exact .inl mem_cons_self
          · exact .inr hc
      · rw [hiff']
        constructor
        · rintro ⟨c, hc, hu⟩
          exact ⟨c, mem_cons_of_mem _ hc, hu⟩
        · rintro ⟨c, hc, hu⟩
          rcases mem_cons.mp hc with rfl | hc
          · exact absurd (hiff.mpr hu) hrc
          · exact ⟨c, hc, hu⟩

theorem cleanChildrenInfo_total (idx : ℕ) {l : List ℕ} (hl : ∀ c ∈ l, s.locked c = false) :
    ∃ s', cleanChildrenInfo idx l s = some s' ∧ s'.locked = s.locked := by
  induction l generalizing s with
  | nil => exact ⟨s, rfl, rfl⟩
  | cons child rest ih =>
    rw [cleanChildrenInfo]
    simp only [hl child mem_cons_self, Bool.false_eq_true, if_false]
    exact ih fun c hc => hl c (mem_cons_of_mem _ hc)

theorem checkAllValid_unlocked {objs : List Int} (h : checkAllValid s objs = some 0) :
    ∀ obj ∈ objs, s.locked obj.toNat = false := by
  induction objs with
  | nil =>
    intro obj hobj
    cases hobj
  | cons first rest ih =>
    rw [checkAllValid] at h
    rcases hvalid : checkValid s first with _ | rc
    · rw [hvalid] at h
      cases h
    · rw [hvalid] at h
      have h : (if rc ≠ 0 then some rc else checkAllValid s rest) = some 0 := h
      by_cases hrc : rc = 0
      · rw [if_neg (not_not_intro hrc)] at h
        intro obj hobj
        rcases mem_cons.mp hobj with rfl | hobj
        · rcases hlock : s.locked obj.toNat with _ | _
          · rfl
          · rw [checkValid] at hvalid
            simp only [hlock, if_true] at hvalid
            split at hvalid
            · cases hvalid
              exact absurd hrc (by decide)
            · cases hvalid
        · exact ih h obj hobj
      · rw [if_pos hrc] at h
        exact absurd (Option.some.inj h) hrc

/-- **The set-up of a group returns, and fails exactly if an object cannot be linked**. -/
theorem initGroupObject_total (mem : Mem) (idx : ℕ) {l : List ℕ} (hnodup : l.Nodup)
    (hrows : ∀ c ∈ l, s.locked c = false ∧ c ≠ idx ∧ (s.table c).state ≠ .invalid) :
    ∃ rc s', initGroupObject mem idx l s = some (rc, s') ∧ s'.locked = s.locked ∧
      (rc < 0 ↔ ∃ c ∈ l, Unlinkable mem (s.table c) c) := by
  obtain ⟨rc, done, s₁, hloop, hlocked, hsub, hiff⟩ := addChildren_total
    (s := { s.setRow idx (initRow .group) with hist := s.hist.newGroup idx l }) (t := s.table)
    mem [] hnodup fun c hc => by
      obtain ⟨hl, hi, hs⟩ := hrows c hc
      exact ⟨hl, hi, setRow_other s _ hi, hs⟩
  have hloop : addChildren mem idx [] l
      { s.setRow idx (initRow .group) with hist := s.hist.newGroup idx l } = some (rc, done, s₁) := hloop
  rw [initGroupObject]
  simp only [hloop]
  by_cases hrc : rc < 0
  · rw [if_pos hrc]
    obtain ⟨s₂, hclean, hlocked₂⟩ := cleanChildrenInfo_total idx (l := done)
      (s := s₁.setRow idx { s₁.table idx with state := .invalid }) fun c hc => by
        rw [setRow_locked, hlocked]
        rcases hsub c hc with hc | hc
        · exact (hrows c hc).1
        · cases hc
    simp only [hclean]
    exact ⟨rc, _, rfl, hlocked₂.trans hlocked, hiff⟩
  · rw [if_neg hrc]
    exact ⟨0, _, rfl, hlocked, iff_of_false (by decide) fun hu => hrc (hiff.mpr hu)⟩

theorem merge_takesRow (mem : Mem) {objs : List Int} (h : TakesRow s objs) :
    ∃ rc s', merge mem objs s = some (rc, s') ∧
      (rc ≠ 0 ↔ ∃ obj ∈ objs, Unlinkable mem (s.table obj.toNat) obj.toNat) ∧
      (rc ≠ 0 → s'.locked ≠ s.locked) := by
  obtain ⟨idx, hfind, hlock⟩ := h.free
  obtain ⟨hbit, -⟩ := findFirstZeroBit_some hfind
  have hall := checkAllValid_zero h.valid
  have hunlocked := checkAllValid_unlocked h.valid
  obtain ⟨rc, s₁, hinit, hlocked, hiff⟩ := initGroupObject_total mem idx
    (s := (s.setBit idx true).setLock idx true)
    (nodup_map_toNat h.nodup fun obj hobj => (hall obj hobj).1) fun c hc => by
      obtain ⟨obj, hobj, rfl⟩ := mem_map.mp hc
      have hne : obj.toNat ≠ idx := by
        intro heq
        have hset := (hall obj hobj).2.1
        rw [heq, hbit] at hset
        cases hset
      exact ⟨(Function.update_of_ne hne ..).trans (hunlocked obj hobj), hne, (hall obj hobj).2.2⟩
  have hiff : rc < 0 ↔ ∃ obj ∈ objs, Unlinkable mem (s.table obj.toNat) obj.toNat := by
    rw [hiff]
    exact ⟨fun ⟨c, hc, hu⟩ => by
      obtain ⟨obj, hobj, rfl⟩ := mem_map.mp hc
      exact ⟨obj, hobj, hu⟩, fun ⟨obj, hobj, hu⟩ => ⟨_, mem_map_of_mem hobj, hu⟩⟩
  have hmerge : merge mem objs s =
      if rc < 0 then some (einval, s₁.setBit idx false) else some (0, s₁.setLock idx false) := by
    rw [merge, if_neg (Nat.not_le_of_lt h.two), if_neg (not_not_intro h.nodup), h.valid]
    simp only [ne_eq, not_true_eq_false, if_false, hfind, setBit_locked, hlock, Bool.false_eq_true,
      hinit]
  rw [hmerge]
  by_cases hrc : rc < 0
  · rw [if_pos hrc]
    refine ⟨einval, _, rfl, iff_of_true (by decide) (hiff.mp hrc), fun _ hsame => ?_⟩
    have hidx := congrFun hsame idx
    rw [setBit_locked, hlocked, setLock_locked, Function.update_self, hlock] at hidx
    cases hidx
  · rw [if_neg hrc]
    exact ⟨0, _, rfl, iff_of_false (not_not_intro rfl) fun hu => hrc (hiff.mpr hu),
      fun hne => absurd rfl hne⟩

theorem merge_early {objs : List Int} (hnot : ¬TakesRow s objs) (h : merge mem objs s = some (rc, s')) :
    s' = s := by
  rw [merge] at h
  split at h
  · cases h
    rfl
  · rename_i htwo
    split at h
    · cases h
      rfl
    · rename_i hnodup
      rw [not_not] at hnodup
      split at h
      · cases h
      · rename_i rc' hvalid
        split at h
        · cases h
          rfl
        · rename_i hrc
          rw [not_ne_iff] at hrc
          subst hrc
          split at h
          · cases h
            rfl
          · rename_i idx hfind
            by_cases hlock : s.locked idx = true
            · simp only [setBit_locked, hlock, if_true] at h
              cases h
            · rw [Bool.not_eq_true] at hlock
              exact absurd ⟨Nat.lt_of_not_le htwo, hnodup, hvalid, idx, hfind, hlock⟩ hnot

/-- **A merge that fails leaves things alone exactly if it fails before it takes a row.** -/
theorem leavesAlone_merge {objs : List Int} :
    LeavesAlone s (.merge mem objs) ↔ ¬FailsLate s (.merge mem objs) := by
  constructor
  · rintro hleaves ⟨htakes, hbad⟩
    obtain ⟨rc, s', hmerge, hiff, hlocked⟩ := merge_takesRow mem htakes
    have hrc := hiff.mpr hbad
    exact hlocked hrc (hleaves rc s' hmerge hrc).2.1
  · intro hnot rc s' hreq hrc
    have hmerge : merge mem objs s = some (rc, s') := hreq
    by_cases htakes : TakesRow s objs
    · obtain ⟨rc', s'', hmerge', hiff, -⟩ := merge_takesRow mem htakes
      rw [hmerge] at hmerge'
      cases hmerge'
      exact absurd ⟨htakes, hiff.mp hrc⟩ hnot
    · rw [merge_early htakes hmerge]
      exact ⟨rfl, rfl, fun i => ⟨rfl, rfl, rfl, rfl⟩⟩

/-- **A request that fails leaves things alone, in every state of the table, exactly if it does not fail
after it has taken a reference or a row.** -/
theorem leavesAlone_iff (s : SyncDev) (r : Request) : LeavesAlone s r ↔ ¬FailsLate s r := by
  cases r with
  | signal obj status => exact leavesAlone_signal
  | merge mem objs => exact leavesAlone_merge

/-- **Failed requests leave traces.**  An object is signalled with a status that does not exist, and keeps
the reference; two objects are merged while no record can be had, and the row lock stays held. -/
theorem not_leavesAlone :
    ∃ s, (machine fun _ _ => True).Reachable s ∧ ¬LeavesAlone s (.signal 1 0) ∧
      ¬LeavesAlone s (.merge ⟨fun _ => false, fun _ => false⟩ [1, 2]) := by
  refine ⟨SyncDev.probe.run [.create, .create], reachable_run (.init rfl) (by decide), ?_, ?_⟩
  · rw [leavesAlone_signal, not_not]
    exact ⟨by decide, by decide, by decide, .inr rfl⟩
  · rw [leavesAlone_merge, not_not]
    exact ⟨⟨by decide, by decide, by decide, ⟨3, by decide, by decide⟩⟩, 1, by decide, by decide⟩

end Sm8750Modules.CamSync
