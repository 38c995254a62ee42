import Sm8750Modules.CamSync.Deliveries

/-!
# Camera sync — notifications over whole runs

A group takes the state of its first signalled child long before it completes, and a payload that is
registered in between is delivered at once.
-/

namespace Sm8750Modules.CamSync

open List

variable {s s' : SyncDev} {rc : Int}

/-! ### All calls -/

def NotifiesEarly (s : SyncDev) : Call → Prop
  | .registerPayload mem _ obj => InRange obj ∧ mem = true ∧
    (s.table obj.toNat).state.Signaled ∧ (s.table obj.toNat).remaining ≠ 0
  | _ => False

instance (s : SyncDev) : (a : Call) → Decidable (NotifiesEarly s a)
  | .registerPayload .. => inferInstanceAs (Decidable (_ ∧ _))
  | .create | .merge .. | .getObjRef .. | .putObjRef .. | .signal .. | .registerCallback ..
  | .deregisterCallback .. | .destroy .. | .deregisterPayload .. =>
    inferInstanceAs (Decidable False)

theorem Notified.refCnt (hn : Notified s) (idx : ℕ) (refCnt : BitVec 32) :
    Notified (s.setRow idx { s.table idx with refCnt := refCnt }) := by
  have hobj : SameObjects s (s.setRow idx { s.table idx with refCnt := refCnt }) := by
    show SameObjects s { s.setRow idx { s.table idx with refCnt := refCnt } with hist := s.hist }
    exact sameObjects_setRow rfl rfl rfl rfl rfl rfl
  have hpend : ∀ i, (s.setRow idx { s.table idx with refCnt := refCnt }).pending i =
      s.pending i := by
    intro i
    apply pending_congr (hobj.live_iff i)
    rcases eq_or_ne i idx with rfl | hi
    · rw [setRow_same]
      rfl
    · rw [setRow_other _ _ hi]
  refine { owner := hn.owner, pending := ?_, pendingNodup := ?_, notDone := ?_, somewhere := ?_,
           once := hn.once, apart := hn.apart, withdrawnLt := hn.withdrawnLt,
           deliveredLt := hn.deliveredLt, final := hn.final, row := ?_ }
  · intro i t ht
    rw [hpend] at ht
    exact hn.pending i t ht
  · intro i
    rw [hpend]
    exact hn.pendingNodup i
  · intro i hne
    rw [hpend] at hne
    rw [hobj.done_iff]
    exact hn.notDone i hne
  · intro t ht
    simp only [hpend]
    exact hn.somewhere t ht
  · intro d hd i hi hbirth
    rw [hobj.state i]
    exact hn.row d hd i ((hobj.live_iff i).mp hi) hbirth

theorem Notified.getObjRef (hn : Notified s) {obj : Int} (h : getObjRef obj s = some (rc, s')) :
    Notified s' := by
  rw [CamSync.getObjRef] at h
  split at h
  · cases h
    exact hn
  · simp only at h
    split at h
    · cases h
    · split at h
      · cases h
        exact hn
      · cases h
        exact hn.refCnt ..

theorem Notified.putObjRef (hn : Notified s) {obj : Int} (h : putObjRef obj s = some (rc, s')) :
    Notified s' := by
  rw [CamSync.putObjRef] at h
  split at h
  · cases h
    exact hn
  · cases h
    exact hn.refCnt ..

theorem tickets_addCallback (row : Row) (cb : CallbackInfo) :
    ({ row with callbackList := row.callbackList ++ [cb] } : Row).tickets.Perm
      (cb.ticket :: row.tickets) := by
  simp only [Row.tickets, map_append, map_singleton, append_assoc]
  exact perm_middle

theorem tickets_addPayload (row : Row) (p : UserPayload) :
    ({ row with userPayloadList := row.userPayloadList ++ [p] } : Row).tickets.Perm
      (p.ticket :: row.tickets) := by
  simp only [Row.tickets, map_append, map_singleton, ← append_assoc]
  exact perm_append_singleton ..

theorem tickets_dropCallbacks (row : Row) (p : CallbackInfo → Bool) :
    row.tickets.Perm ((row.callbackList.filter p).map (·.ticket) ++
      ({ row with callbackList := row.callbackList.filter (not ∘ p) } : Row).tickets) := by
  simp only [Row.tickets, ← append_assoc, ← map_append]
  exact ((filter_append_perm p row.callbackList).symm.map _).append_right _

theorem tickets_dropPayloads (row : Row) (p : UserPayload → Bool) :
    row.tickets.Perm ((row.userPayloadList.filter p).map (·.ticket) ++
      ({ row with userPayloadList := row.userPayloadList.filter (not ∘ p) } : Row).tickets) := by
  have hsplit := (filter_append_perm p row.userPayloadList).symm.map (·.ticket)
  rw [map_append] at hsplit
  refine (hsplit.append_left _).trans ?_
  simp only [Row.tickets, ← append_assoc]
  exact perm_append_comm.append_right _

theorem Notified.registerCallback (hn : Notified s) (hs : Linked s) {mem : Bool} {f d : ℕ} {obj : Int}
    (h : registerCallback mem f d obj s = some (rc, s')) : Notified s' := by
  rw [CamSync.registerCallback] at h
  split at h
  · cases h
    exact hn
  · simp only at h
    split at h
    · cases h
    · split at h
      · cases h
        exact hn
      · rename_i hlive
        split at h
        · cases h
          exact hn
        · split at h
          · rename_i hdone
            cases h
            exact hn.registerDone hs hlive hdone
          · rename_i hdone
            cases h
            exact hn.registerPending hs hlive rfl rfl hdone (tickets_addCallback ..)

theorem Notified.deregisterCallback (hn : Notified s) (hs : Linked s) {f d : ℕ} {obj : Int}
    (h : deregisterCallback f d obj s = some (rc, s')) : Notified s' := by
  rw [CamSync.deregisterCallback] at h
  split at h
  · cases h
    exact hn
  · simp only at h
    split at h
    · cases h
    · split at h
      · cases h
        exact hn
      · rename_i hlive
        cases h
        rw [partition_eq_filter_filter]
        exact hn.withdraw hs hlive rfl rfl (tickets_dropCallbacks ..)

theorem Notified.registerPayload (hn : Notified s) (hs : Linked s) {mem : Bool}
    {payload : BitVec 64 × BitVec 64} {obj : Int}
    (h : handleRegisterUserPayload mem payload obj s = some (rc, s'))
    (ha : ¬NotifiesEarly s (.registerPayload mem payload obj)) : Notified s' := by
  rw [handleRegisterUserPayload] at h
  split at h
  · cases h
    exact hn
  · rename_i hrange
    split at h
    · cases h
      exact hn
    · rename_i hmem
      simp only at h
      split at h
      · cases h
      · split at h
        · cases h
          exact hn
        · rename_i hlive
          split at h
          · rename_i hsignaled
            cases h
            apply hn.registerDone hs hlive
            refine ⟨hsignaled, ?_⟩
            by_contra hne
            exact ha ⟨not_not.mp hrange, by simpa using hmem, hsignaled, hne⟩
          · rename_i hsignaled
            split at h
            · cases h
              exact hn
            · cases h
              exact hn.registerPending hs hlive rfl rfl (fun hdone => hsignaled hdone.1)
                (tickets_addPayload ..)

theorem Notified.deregisterPayload (hn : Notified s) (hs : Linked s)
    {payload : BitVec 64 × BitVec 64} {obj : Int}
    (h : handleDeregisterUserPayload payload obj s = some (rc, s')) : Notified s' := by
  rw [handleDeregisterUserPayload] at h
  split at h
  · cases h
    exact hn
  · simp only at h
    split at h
    · cases h
    · split at h
      · cases h
        exact hn
      · rename_i hlive
        cases h
        rw [partition_eq_filter_filter]
        exact hn.withdraw hs hlive rfl rfl (tickets_dropPayloads ..)

/-- **No call breaks the notifications**, unless it registers a payload too early. -/
theorem Notified.call (hn : Notified s) (hs : Linked s) {a : Call} (h : s.call a = some (rc, s'))
    (ha : ¬NotifiesEarly s a) : Notified s' := by
  cases a with
  | create =>
    rcases create_cases hs h with rfl | ⟨idx, hbit, -, hstep⟩
    · exact hn
    · exact hn.newRowStep hs hstep hbit
  | merge mem objs =>
    rcases merge_cases hs h with rfl | ⟨idx, l, hbit, -, hstep⟩
    · exact hn
    · exact hn.newRowStep hs hstep hbit
  | getObjRef obj => exact hn.getObjRef h
  | putObjRef obj => exact hn.putObjRef h
  | signal obj status =>
    rcases signal_cases hs h with rfl | ⟨idx, rfl⟩ | ⟨c, st, hc, hst, hstep⟩
    · exact hn
    · exact hn.refCnt ..
    · exact hn.signaledStep hs hstep hc hst
  | destroy obj =>
    rcases destroy_cases hs h with rfl | ⟨hlive, hstep⟩
    · exact hn
    · exact hn.destroyedStep hs hstep hlive
  | registerCallback mem f d obj => exact hn.registerCallback hs h
  | deregisterCallback f d obj => exact hn.deregisterCallback hs h
  | registerPayload mem payload obj => exact hn.registerPayload hs h ha
  | deregisterPayload payload obj => exact hn.deregisterPayload hs h

theorem notified_of_reachable (h : (machine fun s a => ¬NotifiesEarly s a).Reachable s) :
    Notified s := by
  have hboth : Linked s ∧ Notified s := by
    apply h.invariant
    · rintro _ rfl
      exact ⟨linked_probe, notified_probe⟩
    · rintro s a ⟨hs, hn⟩ ha
      obtain ⟨rc, hcall⟩ := machine_next ha
      exact ⟨hs.call hcall, hn.call hs hcall ha.2⟩
  exact hboth.2

/-- **Notifications.**  In every state of every run that registers no payload on a signalled group
which is not complete: each registration was delivered at most once, its object was complete then and
the delivery carries its final state, and a registration whose object has completed was delivered
unless it had been withdrawn. -/
theorem notifyOk_of_reachable (h : (machine fun s a => ¬NotifiesEarly s a).Reachable s) : NotifyOk s :=
  (notified_of_reachable h).notifyOk (linked_of_reachable h)

/-- A callback waits for a group of two, and is called when the second one is signalled. -/
theorem notifyOk_of_reachable_group :
    NotifyOk (SyncDev.probe.run [.create, .create, .merge ⟨fun _ => true, fun _ => true⟩ [1, 2],
      .getObjRef 1, .getObjRef 2, .signal 1 2, .registerCallback true 7 0 3, .signal 2 3]) :=
  notifyOk_of_reachable (reachable_run (.init rfl) (by decide))

/-- **A payload that is registered on half a group is sent at once.**  Two objects are merged and the
first one is signalled: a payload on the group is delivered as a success, although the second object
has not been signalled. -/
theorem not_notifyOk : ¬∀ s, (machine fun _ _ => True).Reachable s → NotifyOk s := by
  intro hall
  have hreach : (machine fun _ _ => True).Reachable (SyncDev.probe.run [.create, .create,
      .merge ⟨fun _ => true, fun _ => true⟩ [1, 2], .getObjRef 1, .signal 1 2,
      .registerPayload true (1, 2) 3]) :=
    reachable_run (.init rfl) (by decide)
  have hfinal := ((hall _ hreach).final ⟨0, 3, .signaledSuccess⟩ (by decide)).1
  exact absurd (hfinal 1 (by decide)) (by decide)

end Sm8750Modules.CamSync
