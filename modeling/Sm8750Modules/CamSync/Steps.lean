import Sm8750Modules.CamSync.Merging

/-!
# Camera sync — what a call does to the links
-/

namespace Sm8750Modules.CamSync

open Function

variable {s s' : SyncDev} {rc : Int}

theorem ofStatus_signaled {status : ℕ} {st : SyncState} (h : SyncState.ofStatus status = some st) :
    st.Signaled := by
  unfold SyncState.ofStatus at h
  split at h
  · cases h
    exact .inl rfl
  · cases h
    exact .inr (.inl rfl)
  · cases h
    exact .inr (.inr rfl)
  · cases h

theorem signalValidateUtil_ok {row : Row} {status : ℕ} {st : SyncState}
    (h : signalValidateUtil row status = .ok st) :
    row.state = .active ∧ row.type = .indv ∧ st.Signaled := by
  rw [signalValidateUtil] at h
  split at h
  · cases h
  · split at h
    · cases h
    · rename_i htype
      split at h
      · cases h
      · rename_i hactive
        split at h
        · cases h
        · rename_i st' hst
          cases h
          refine ⟨by simpa using hactive, ?_, ofStatus_signaled hst⟩
          cases htype' : row.type with
          | indv => rfl
          | group => exact absurd htype' htype

/-- The device after the last reference of the object in row `c` was signalled. -/
def signaledDev (s : SyncDev) (c : ℕ) (st : SyncState) (refCnt : BitVec 32) : SyncDev where
  table := fun i =>
    if i ∈ (s.table c).parentsList then parentSignaled st (s.table i)
    else if i = c then { s.table c with
      state := st, refCnt := refCnt, parentsList := [], callbackList := [], userPayloadList := [] }
    else s.table i
  bitmap := s.bitmap
  locked := s.locked
  hist := { s.hist.signal c st with
    delivered := s.hist.delivered ++ ((s.table c).tickets.map fun t => ⟨t, c, st⟩) ++
      (s.table c).parentsList.flatMap fun p => parentDeliveries st p (s.table p) }

theorem Linked.self_notMem (hs : Linked s) {c : ℕ} (hc : s.Waits c) : c ∉ (s.table c).parentsList := by
  intro hmem
  have hgroup := ((hs.parent c c).mp hmem).2.1.2
  rw [hc.2] at hgroup
  cases hgroup

theorem signaledStep_signaledDev (hs : Linked s) {c : ℕ} (hc : s.Waits c) (st : SyncState)
    (refCnt : BitVec 32) : SignaledStep s c st (signaledDev s c st refCnt) := by
  have hrow : (signaledDev s c st refCnt).table c = { s.table c with
      state := st, refCnt := refCnt, parentsList := [], callbackList := [],
      userPayloadList := [] } := by
    simp only [signaledDev, if_neg (hs.self_notMem hc), if_true]
  constructor
  case bitmap => rfl
  case locked => rfl
  case objects => rfl
  case birth => rfl
  case members => rfl
  case signaledAs => rfl
  case type =>
    rw [hrow]
    exact hc.2
  case state => rw [hrow]
  case remaining => rw [hrow]
  case parentsList => rw [hrow]
  case others =>
    intro i hi
    simp only [signaledDev, if_neg hi]
  case noTickets =>
    rw [hrow]
    rfl
  case tickets => rfl
  case owner => rfl
  case withdrawn => rfl
  case delivered => rfl

theorem signal_cases (hs : Linked s) {obj : Int} {status : ℕ}
    (h : signal obj status s = some (rc, s')) :
    s' = s ∨
      (∃ idx, s' = s.setRow idx { s.table idx with refCnt := (s.table idx).refCnt - 1 }) ∨
      ∃ c st, s.Waits c ∧ st.Signaled ∧ SignaledStep s c st s' := by
  rw [signal] at h
  split at h
  · cases h
    exact .inl rfl
  · simp only at h
    split at h
    · cases h
    · split at h
      · cases h
        exact .inl rfl
      · rename_i st hvalid
        split at h
        · cases h
          exact .inr (.inl ⟨_, rfl⟩)
        · obtain ⟨hactive, htype, hst⟩ := signalValidateUtil_ok hvalid
          have hc : s.Waits obj.toNat := ⟨hactive, htype⟩
          refine .inr (.inr ⟨obj.toNat, st, hc, hst, ?_⟩)
          obtain ⟨s₁, hpar, heq⟩ := Option.map_eq_some_iff.mp h
          cases heq
          rw [dispatchSignaledCb_setRow s obj.toNat _ _ _ hst.ne_invalid] at hpar
          simp only [SyncDev.setRow, update_self, update_idem] at hpar
          have hmem := fun p hp => (hs.parent obj.toNat p).mp hp
          have hne : ∀ p ∈ (s.table obj.toNat).parentsList, p ≠ obj.toNat := by
            rintro p hp rfl
            exact hs.self_notMem hc hp
          rw [signalParentUtil_eq hst.ne_invalid (hs.nodup _)] at hpar
          · have hdev : s' = signaledDev s obj.toNat st ((s.table obj.toNat).refCnt - 1) := by
              rw [← Option.some.inj hpar]
              simp only [signaledDev, SyncDev.mk.injEq, true_and]
              refine ⟨?_, ?_⟩
              · funext i
                by_cases hi : i ∈ (s.table obj.toNat).parentsList
                · rw [if_pos hi, if_pos hi, update_of_ne (hne i hi)]
                · rw [if_neg hi, if_neg hi]
                  rcases eq_or_ne i obj.toNat with rfl | hic
                  · rw [update_self, if_pos rfl]
                  · rw [update_of_ne hic, if_neg hic]
              · simp only [History.deliver, History.signal, History.mk.injEq, true_and]
                congr 1
                apply List.flatMap_congr
                intro p hp
                rw [update_of_ne (hne p hp)]
            rw [hdev]
            exact signaledStep_signaledDev hs hc st _
          · intro p hp
            show (update s.table obj.toNat _ p).state ≠ _
            rw [update_of_ne (hne p hp)]
            exact (hmem p hp).2.1.1
          · intro p hp
            exact (hs.live p (hmem p hp).2.1.1).lock

theorem destroy_cases (hs : Linked s) {obj : Int} (h : destroy obj s = some (rc, s')) :
    s' = s ∨ (s.Live obj.toNat ∧ DestroyedStep s obj.toNat s') := by
  rw [destroy] at h
  split at h
  · cases h
    exact .inl rfl
  · simp only at h
    split at h
    · cases h
    · split at h
      · cases h
        exact .inl rfl
      · rename_i hlive
        refine .inr ⟨hlive, ?_⟩
        generalize hd : obj.toNat = d at *
        split at h
        · cases h
        · rename_i s₁ hchildren
          split at h
          · cases h
          · rename_i s₂ hparents
            cases h
            obtain ⟨hsame₁, hrows₁⟩ := unlinkChildren_spec hchildren (by
              intro i
              rcases eq_or_ne i d with rfl | hi
              · rw [setRow_same]
                exact List.nodup_nil
              · rw [setRow_other _ _ hi]
                exact hs.nodup i)
            obtain ⟨hsame₂, hrows₂⟩ := unlinkParents_spec hparents
            have hsame : SameButRows s s₂ := ((SameButRows.setRow ..).trans hsame₁).trans hsame₂
            have hother : ∀ i, i ≠ d → s₁.table i = withoutParent d (s.table i) := by
              intro i hi
              rw [hrows₁ i, setRow_other _ _ hi]
              split
              · rfl
              · rename_i hneg
                rw [withoutParent_eq_self]
                intro hmem
                apply hneg
                refine ⟨hs.child i d hmem, ?_⟩
                rw [SyncDev.Live, setRow_other _ _ hi]
                exact ((hs.parent i d).mp hmem).1.live
            have htickets : (s₂.table d).tickets = (s.table d).tickets := by
              obtain ⟨children, hrow, -⟩ := hrows₂ d
              rw [hrow, hrows₁ d, if_neg (fun hneg => hneg.2 (by rw [setRow_same])), setRow_same]
              rfl
            constructor
            case bitmap =>
              show update s₂.bitmap d false = _
              rw [hsame.bitmap]
            case locked => exact hsame.locked
            case objects =>
              show s₂.hist.objects = _
              rw [hsame.hist]
            case birth =>
              show s₂.hist.birth = _
              rw [hsame.hist]
            case members =>
              show s₂.hist.members = _
              rw [hsame.hist]
            case signaledAs =>
              show s₂.hist.signaledAs = _
              rw [hsame.hist]
            case row => exact setRow_same ..
            case others =>
              intro i hi
              obtain ⟨children, hrow, hmem⟩ := hrows₂ i
              refine ⟨children, ?_, fun c hc => ?_⟩
              · show ((s₂.setRow d {}).table i) = _
                rw [setRow_other _ _ hi, hrow, hother i hi]
              · rw [hmem c hc, hother i hi]
                rfl
            case tickets =>
              show s₂.hist.tickets = _
              rw [hsame.hist]
            case owner =>
              show s₂.hist.owner = _
              rw [hsame.hist]
            case withdrawn =>
              show s₂.hist.withdrawn ++ (s₂.table d).tickets = _
              rw [hsame.hist, htickets]
            case delivered =>
              show s₂.hist.delivered = _
              rw [hsame.hist]

section LinksAlone

theorem links_refCnt (idx : ℕ) (refCnt : BitVec 32) :
    (s.setRow idx { s.table idx with refCnt := refCnt }).links = s.links := by
  show ({ s.setRow idx { s.table idx with refCnt := refCnt } with hist := s.hist } :
    SyncDev).links = _
  exact links_setRow rfl rfl

theorem links_getObjRef {obj : Int} (h : getObjRef obj s = some (rc, s')) : s'.links = s.links := by
  rw [getObjRef] at h
  split at h
  · cases h
    rfl
  · simp only at h
    split at h
    · cases h
    · split at h
      · cases h
        rfl
      · cases h
        exact links_refCnt ..

theorem links_putObjRef {obj : Int} (h : putObjRef obj s = some (rc, s')) : s'.links = s.links := by
  rw [putObjRef] at h
  split at h
  · cases h
    rfl
  · cases h
    exact links_refCnt ..

theorem links_registerCallback {mem : Bool} {f d : ℕ} {obj : Int}
    (h : registerCallback mem f d obj s = some (rc, s')) : s'.links = s.links := by
  rw [registerCallback] at h
  split at h
  · cases h
    rfl
  · simp only at h
    split at h
    · cases h
    · split at h
      · cases h
        rfl
      · split at h
        · cases h
          rfl
        · split at h
          · cases h
            rfl
          · cases h
            exact links_setRow rfl rfl

theorem links_deregisterCallback {f d : ℕ} {obj : Int}
    (h : deregisterCallback f d obj s = some (rc, s')) : s'.links = s.links := by
  rw [deregisterCallback] at h
  split at h
  · cases h
    rfl
  · simp only at h
    split at h
    · cases h
    · split at h
      · cases h
        rfl
      · cases h
        exact links_setRow rfl rfl

theorem links_handleRegisterUserPayload {mem : Bool} {payload : BitVec 64 × BitVec 64} {obj : Int}
    (h : handleRegisterUserPayload mem payload obj s = some (rc, s')) : s'.links = s.links := by
  rw [handleRegisterUserPayload] at h
  split at h
  · cases h
    rfl
  · split at h
    · cases h
      rfl
    · simp only at h
      split at h
      · cases h
      · split at h
        · cases h
          rfl
        · split at h
          · cases h
            rfl
          · split at h
            · cases h
              rfl
            · cases h
              exact links_setRow rfl rfl

theorem links_handleDeregisterUserPayload {payload : BitVec 64 × BitVec 64} {obj : Int}
    (h : handleDeregisterUserPayload payload obj s = some (rc, s')) : s'.links = s.links := by
  rw [handleDeregisterUserPayload] at h
  split at h
  · cases h
    rfl
  · simp only at h
    split at h
    · cases h
    · split at h
      · cases h
        rfl
      · cases h
        exact links_setRow rfl rfl

end LinksAlone

theorem Linked.call (hs : Linked s) {a : Call} (h : s.call a = some (rc, s')) : Linked s' := by
  cases a with
  | create =>
    rcases create_cases hs h with rfl | ⟨idx, hbit, hlt, hstep⟩
    · exact hs
    · exact hs.newRowStep hstep hbit hlt
  | merge mem objs =>
    rcases merge_cases hs h with rfl | ⟨idx, l, hbit, hlt, hstep⟩
    · exact hs
    · exact hs.newRowStep hstep hbit hlt
  | getObjRef obj => exact hs.congr (links_getObjRef h)
  | putObjRef obj => exact hs.congr (links_putObjRef h)
  | signal obj status =>
    rcases signal_cases hs h with rfl | ⟨idx, rfl⟩ | ⟨c, st, hc, hst, hstep⟩
    · exact hs
    · exact hs.congr (links_refCnt ..)
    · exact hs.signaledStep hstep hc hst
  | destroy obj =>
    rcases destroy_cases hs h with rfl | ⟨hlive, hstep⟩
    · exact hs
    · exact hs.destroyedStep hstep hlive
  | registerCallback mem f d obj => exact hs.congr (links_registerCallback h)
  | deregisterCallback f d obj => exact hs.congr (links_deregisterCallback h)
  | registerPayload mem payload obj => exact hs.congr (links_handleRegisterUserPayload h)
  | deregisterPayload payload obj => exact hs.congr (links_handleDeregisterUserPayload h)

end Sm8750Modules.CamSync
