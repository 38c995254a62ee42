import Sm8750Modules.UfcsPe.Handlers

/-!
# UFCS policy engine — what a call returns

The handler of a request leaves its error in the state and completes the request; the requester reads the
error when it runs again. In between the task goes on with the next event, and the idle state clears the
error.
-/

namespace Sm8750Modules.UfcsPe

open Function List

variable {c : UfcsClass} {l : Local} {e : Event} {rest : List Event} {rc : ℤ} {served : Option ℕ}

namespace UfcsClass

/-- What the request under way must find. -/
def Reported (c : UfcsClass) : Prop :=
  ∀ r ∈ c.request,
    (r.woken = true → 0 ≤ result r c → c.outcome r.id = some .success) ∧
      ∀ rc, c.outcome r.id = some (.failure rc) →
        result r c = if r.type = .handshake then -eio else rc

/-- The error that a request has ended with and that its requester has still to read. -/
def unreadError (c : UfcsClass) : Option ℤ :=
  match c.request with
  | none => none
  | some r =>
    if r.type = .handshake then none
    else
      match c.outcome r.id with
      | some (.failure rc) => some rc
      | _ => none

end UfcsClass

/-- The condition of a step: while there is an error to read, neither the idle state nor the soft reset
takes up an event, and the engine is not left with another error. -/
def ReadFirst (c : UfcsClass) : Action → Prop
  | .take => c.pc = .next → c.curr = .idle ∨ c.curr = .softReset → c.unreadError = none
  | .exit => ∀ rc ∈ c.unreadError, rc = -eio
  | _ => True

instance (c : UfcsClass) : ∀ a, Decidable (ReadFirst c a)
  | .take => inferInstanceAs
      (Decidable (c.pc = .next → c.curr = .idle ∨ c.curr = .softReset → c.unreadError = none))
  | .exit => inferInstanceAs (Decidable (∀ rc ∈ c.unreadError, rc = -eio))
  | .push _ | .fire _ | .call _ | .wake | .read | .refuse | .sent _ => isTrue trivial

namespace UfcsClass

def tokens (served : Option ℕ) (c : UfcsClass) : List ℕ := served.toList ++ c.events.filterMap (·.request)

end UfcsClass

/-- What holds within a handler that serves a request. -/
structure Core (c : UfcsClass) (served : Option ℕ) : Prop where
  fresh : ∀ k, c.nextId ≤ k → c.outcome k = none
  known : ∀ r ∈ c.request, r.id < c.nextId
  tokens : c.tokens served = [] ∨ ∃ k, c.pending = some k ∧ c.tokens served = [k]
  requested : ∀ e ∈ c.events, e.request.isSome = true ↔ e.type ∈ requestTypes
  waits : c.pending ≠ none → c.done = 0 ∧ c.doneAll = false
  ended : ∀ r ∈ c.request, r.woken = true → c.outcome r.id ≠ none
  failed : ∀ rc, c.unreadError = some rc → rc < 0 ∧ c.err = rc
  shaken : ∀ r ∈ c.request, r.type = .handshake → c.outcome r.id ≠ some .success →
    c.handshakeSuccess = false

def PeState.serves : PeState → Bool
  | .handshake | .outputCap | .request | .getSourceInfo | .getCableInfo | .getDeviceInfo | .getErrorInfo
  | .configWd | .verifyRequest | .getEmarkInfo | .getPowerInfo => true
  | _ => false

/-- Where a request under way must be. The state after an exit message is kept, under the lock. -/
def Place (c : UfcsClass) : Prop :=
  match c.pc with
  | .next =>
    (c.curr = .sendExit → c.peLock = true ∧
      ∀ k, c.pending = some k → ∃ e ∈ c.events.head?, e.request = some k) ∧
      (c.curr.serves = true → ∃ e ∈ c.events.head?, e.request.isSome = true)
  | .sendExit served =>
    c.peLock = true ∧ c.curr = .sendExit ∧ ∀ k, c.pending = some k → served = some k
  | .handshake _ served | .ping _ served | .endCable false served => served.isSome = true
  | .send l | .recv l | .devInfo l => l.served.isSome = true
  | .idleRefuse => c.curr = .idle
  | .endCable true _ | .reply => True

/-- The invariant. With an error to read, the task is between two handlers. -/
structure Sound (c : UfcsClass) : Prop where
  core : Core c c.pc.served
  place : Place c
  rest : c.unreadError = none ∨ (c.pc = .next ∧ (c.curr = .idle ∨ c.curr = .softReset))

namespace UfcsClass

theorem pending_eq_some {k : ℕ} (h : c.pending = some k) :
    ∃ r, c.request = some r ∧ r.id = k ∧ c.outcome r.id = none := by
  rw [pending] at h
  split at h
  · exact absurd h (by simp)
  · rename_i r hr
    split at h
    · exact absurd h (by simp)
    · rename_i hnone
      rw [Option.some.injEq] at h
      exact ⟨r, hr, h, by simpa using hnone⟩

theorem pending_eq_none {r : Request} (h : c.pending = none) (hr : c.request = some r) :
    c.outcome r.id ≠ none := by
  intro hnone
  simp [pending, hr, hnone] at h

theorem unreadError_of_pending {k : ℕ} (h : c.pending = some k) : c.unreadError = none := by
  obtain ⟨r, hr, -, hnone⟩ := pending_eq_some h
  simp [unreadError, hr, hnone]

theorem unreadError_eq_some (h : c.unreadError = some rc) :
    ∃ r, c.request = some r ∧ r.type ≠ .handshake ∧ c.outcome r.id = some (.failure rc) := by
  rw [unreadError] at h
  split at h
  · exact absurd h (by simp)
  · rename_i r hr
    split at h
    · exact absurd h (by simp)
    · rename_i htype
      split at h
      · rename_i rc' hout
        rw [Option.some.injEq] at h
        exact ⟨r, hr, htype, by rw [hout, h]⟩
      · exact absurd h (by simp)

end UfcsClass

theorem Core.pending {k : ℕ} (h : Core c (some k)) :
    c.pending = some k ∧ c.events.filterMap (·.request) = [] := by
  rcases h.tokens with ht | ⟨k', hk', ht⟩
  · exact absurd ht (by simp [UfcsClass.tokens])
  · have ht : k :: c.events.filterMap (·.request) = [k'] := ht
    rw [List.cons.injEq] at ht
    exact ⟨ht.1 ▸ hk', ht.2⟩

theorem Core.quiet (h : Core c served) (hs : served.isSome = true) : c.unreadError = none := by
  obtain ⟨k, rfl⟩ := Option.isSome_iff_exists.mp hs
  exact UfcsClass.unreadError_of_pending h.pending.1

/-! ### What the small steps keep -/

theorem Core.sublist {served' : Option ℕ} {events : List Event} (h : Core c served)
    (hev : events.Sublist c.events)
    (ht : ({ c with events := events } : UfcsClass).tokens served' = [] ∨
      ({ c with events := events } : UfcsClass).tokens served' = c.tokens served) :
    Core { c with events := events } served' where
  fresh := h.fresh
  known := h.known
  tokens := by
    rcases ht with ht | ht
    · exact .inl ht
    · rw [ht]
      exact h.tokens
  requested e he := h.requested e (hev.subset he)
  waits := h.waits
  ended := h.ended
  failed := h.failed
  shaken := h.shaken

theorem tokens_of_sublist {served' : Option ℕ} {events : List Event} (h : Core c served)
    (hsub : (({ c with events := events } : UfcsClass).tokens served').Sublist (c.tokens served)) :
    ({ c with events := events } : UfcsClass).tokens served' = [] ∨
      ({ c with events := events } : UfcsClass).tokens served' = c.tokens served := by
  rcases h.tokens with ht | ⟨k, -, ht⟩
  · rw [ht] at hsub
    exact .inl (sublist_nil.mp hsub)
  · rw [ht] at hsub ⊢
    exact sublist_singleton.mp hsub

theorem Core.drop (h : Core c served) : Core c none := by
  have hsub : (c.tokens none).Sublist (c.tokens served) := sublist_append_right _ _
  exact h.sublist (List.Sublist.refl _) (tokens_of_sublist h hsub)

theorem Core.freeEvent (h : Core c served) : Core (c.freeEvent) served := by
  have hsub : (c.freeEvent.tokens served).Sublist (c.tokens served) :=
    List.Sublist.append_left ((tail_sublist _).filterMap _) _
  exact h.sublist (tail_sublist _) (tokens_of_sublist h hsub)

theorem Core.takeUp (h : Core c none) (hev : c.events = e :: rest) : Core (c.freeEvent) e.request := by
  refine h.sublist (tail_sublist _) (.inr ?_)
  show e.request.toList ++ c.events.tail.filterMap (·.request) = c.events.filterMap (·.request)
  rw [hev]
  cases hr : e.request <;> simp [hr]

section

variable (h : Core c served)
include h

theorem Core.cleared : Core { c with events := [] } c.pending := by
  refine ⟨h.fresh, h.known, ?_, fun e he => absurd he not_mem_nil, h.waits, h.ended, h.failed,
    h.shaken⟩
  cases hp : c.pending with
  | none => exact .inl rfl
  | some k => exact .inr ⟨k, hp, rfl⟩

theorem Core.start (t : Timer) : Core (c.start t) served :=
  ⟨h.fresh, h.known, h.tokens, h.requested, h.waits, h.ended, h.failed, h.shaken⟩

theorem Core.stop (t : Timer) : Core (c.stop t) served :=
  ⟨h.fresh, h.known, h.tokens, h.requested, h.waits, h.ended, h.failed, h.shaken⟩

theorem Core.stopAll (ts : Finset Timer) : Core (c.stopAll ts) served :=
  ⟨h.fresh, h.known, h.tokens, h.requested, h.waits, h.ended, h.failed, h.shaken⟩

theorem Core.setCurr (s : PeState) : Core (c.setCurr s) served :=
  ⟨h.fresh, h.known, h.tokens, h.requested, h.waits, h.ended, h.failed, h.shaken⟩

theorem Core.goto (pc : Pc) : Core (c.goto pc) served :=
  ⟨h.fresh, h.known, h.tokens, h.requested, h.waits, h.ended, h.failed, h.shaken⟩

theorem Core.ret : Core c.ret served :=
  ⟨h.fresh, h.known, h.tokens, h.requested, h.waits, h.ended, h.failed, h.shaken⟩

theorem Core.setErr (hq : c.unreadError = none) (err : ℤ) : Core { c with err := err } served := by
  refine ⟨h.fresh, h.known, h.tokens, h.requested, h.waits, h.ended, fun rc hrc => ?_, h.shaken⟩
  have hrc : c.unreadError = some rc := hrc
  rw [hq] at hrc
  exact absurd hrc (by simp)

section

variable (hs : served.isSome = true)
include hs

/-- **The request of a handler ends**, with its error in the state where it failed. -/
theorem Core.record (o : Outcome) {err : ℤ} {done : ℕ}
    {doneAll shaken : Bool} (ho : ∀ rc, o = .failure rc → rc < 0 ∧ err = rc)
    (hshaken : o = .success ∨ (c.handshakeSuccess = false → shaken = false)) :
    Core (UfcsClass.record served o
      { c with err := err, done := done, doneAll := doneAll, handshakeSuccess := shaken }) none := by
  obtain ⟨k, rfl⟩ := Option.isSome_iff_exists.mp hs
  obtain ⟨hpending, hrest⟩ := h.pending
  obtain ⟨r, hr, rfl, hnone⟩ := UfcsClass.pending_eq_some hpending
  have hlt := h.known r hr
  have hout : (UfcsClass.record (some r.id) o
      { c with err := err, done := done, doneAll := doneAll, handshakeSuccess := shaken }).outcome r.id =
        some o := update_self ..
  have hreq : (UfcsClass.record (some r.id) o
      { c with err := err, done := done, doneAll := doneAll, handshakeSuccess := shaken }).request =
        some r := hr
  refine ⟨fun k hk => ?_, h.known, .inl hrest, h.requested, fun hp => ?_, fun r' hr' _ => ?_,
    fun rc hrc => ?_, fun r' hr' htype hne => ?_⟩
  · have hk : c.nextId ≤ k := hk
    show update c.outcome r.id (some o) k = none
    rw [update_of_ne (by omega)]
    exact h.fresh k hk
  · exact absurd (by simp [UfcsClass.pending, hreq, hout]) hp
  · rw [hreq, Option.mem_some_iff] at hr'
    rw [← hr', hout]
    simp
  · obtain ⟨r', hr', -, hfail⟩ := UfcsClass.unreadError_eq_some hrc
    rw [hreq, Option.some.injEq] at hr'
    rw [← hr', hout, Option.some.injEq] at hfail
    exact ho rc hfail
  · rw [hreq, Option.mem_some_iff] at hr'
    rw [← hr', hout] at hne
    rcases hshaken with hsucc | hshaken
    · exact absurd (by rw [hsucc]) hne
    · exact hshaken (h.shaken r hr (hr' ▸ htype) (by rw [hnone]; simp))

theorem Core.succeed : Core (c.succeed served) none :=
  h.record hs .success (fun _ h => absurd h (by simp)) (.inl rfl)

theorem Core.shake : Core (UfcsClass.succeed served { c with handshakeSuccess := true }) none :=
  h.record hs .success (fun _ h => absurd h (by simp)) (.inl rfl)

theorem Core.unreadError_succeed : (c.succeed served).unreadError = none := by
  obtain ⟨k, rfl⟩ := Option.isSome_iff_exists.mp hs
  obtain ⟨r, hr, rfl, -⟩ := UfcsClass.pending_eq_some h.pending.1
  simp [UfcsClass.unreadError, UfcsClass.succeed, UfcsClass.record, hr]

theorem Core.pending_succeed : (c.succeed served).pending = none := by
  obtain ⟨k, rfl⟩ := Option.isSome_iff_exists.mp hs
  obtain ⟨r, hr, rfl, -⟩ := UfcsClass.pending_eq_some h.pending.1
  simp [UfcsClass.pending, UfcsClass.succeed, UfcsClass.record, hr]

theorem Core.fail (hrc : rc < 0) : Core (c.fail served rc) none :=
  h.record hs (.failure rc)
    (fun _ h => by rw [Outcome.failure.injEq] at h; exact ⟨h ▸ hrc, h⟩) (.inr id)

end

theorem Core.reset (hrc : rc < 0) (hq : ∀ rc' ∈ c.unreadError, rc' = rc)
    {shaken : Bool} (hshaken : c.handshakeSuccess = false → shaken = false) :
    Core (UfcsClass.failPending rc
      { c with events := [], handshakeSuccess := shaken, curr := .idle, err := rc, doneAll := true })
      none := by
  show Core (UfcsClass.record c.pending (.failure rc) _) none
  have hcleared := h.cleared
  cases hp : c.pending with
  | some k =>
    rw [hp] at hcleared
    exact (hcleared.setCurr .idle).record rfl (.failure rc)
      (fun _ h => by rw [Outcome.failure.injEq] at h; exact ⟨h ▸ hrc, h⟩) (.inr hshaken)
  | none =>
    refine ⟨h.fresh, h.known, .inl rfl, fun e he => absurd he not_mem_nil, fun hne => absurd hp hne,
      h.ended, fun rc' hrc' => ?_, fun r hr htype hne => hshaken (h.shaken r hr htype hne)⟩
    have heq : rc' = rc := hq rc' hrc'
    exact ⟨heq ▸ hrc, heq.symm⟩

theorem Core.exitSmWork (hq : ∀ rc ∈ c.unreadError, rc = -eio) :
    Core c.exitSmWork none := h.reset (by decide) hq fun _ => rfl

theorem Core.resetSmWork (hq : c.unreadError = none) : Core c.resetSmWork none :=
  h.reset (by decide) (by simp [hq]) id

end

theorem Core.sound_ret (h : Core c none) (hcurr : c.curr = .idle ∨ c.curr = .softReset) :
    Sound c.ret where
  core := h.ret
  place := by
    show (c.curr = .sendExit → _) ∧ (c.curr.serves = true → _)
    rcases hcurr with hcurr | hcurr
    · rw [hcurr]
      exact ⟨fun h => absurd h (by decide), fun h => absurd h (by decide)⟩
    · rw [hcurr]
      exact ⟨fun h => absurd h (by decide), fun h => absurd h (by decide)⟩
  rest := .inr ⟨rfl, hcurr⟩

theorem Core.sound_goto (pc : Pc) (h : Core c pc.served) (hq : c.unreadError = none)
    (hplace : Place (c.goto pc)) : Sound (c.goto pc) := ⟨h.goto pc, hplace, .inl hq⟩

theorem Core.sound_send (h : Core c l.served) (hs : l.served.isSome = true) : Sound (c.goto (.send l)) :=
  Core.sound_goto (.send l) h (h.quiet hs) hs

theorem Core.sound_recv (h : Core c l.served) (hs : l.served.isSome = true) : Sound (c.goto (.recv l)) :=
  Core.sound_goto (.recv l) h (h.quiet hs) hs

namespace UfcsClass

theorem sound_hardReset (h : Core c served) (hq : c.unreadError = none) :
    Sound (ret (sourceHardReset c)) :=
  (h.exitSmWork (by simp [hq])).sound_ret (.inl rfl)

section

variable (h : Core c l.served)
include h

section

variable (hs : l.served.isSome = true)
include hs

theorem sound_ignore : Sound (ignore l c) :=
  h.freeEvent.sound_recv hs

theorem sound_errPath : Sound (errPath l c) :=
  sound_hardReset (h.stopAll _).freeEvent (h.quiet hs)

theorem sound_exitPath : Sound (exitPath l c) :=
  ((((h.stopAll _).freeEvent).setCurr .idle).fail hs (by decide)).sound_ret (.inl rfl)

theorem sound_answered : Sound (answered l c) :=
  (((h.succeed hs).setCurr .idle).freeEvent).sound_ret (.inl rfl)

theorem sound_refusedRecv : Sound (refusedRecv l e c) := by
  rw [refusedRecv]
  split
  · exact sound_ignore h hs
  · simp only
    split
    · exact sound_ignore h hs
    · split
      · exact sound_exitPath h hs
      · split
        · exact sound_errPath h hs
        · exact Core.sound_send (h.stop _).freeEvent hs

end

end

theorem sound_softResetRecv (h : Core c served) (ts : Finset Timer) : Sound (softResetRecv ts c) :=
  ((h.stopAll ts).setCurr .softReset).drop.sound_ret (.inr rfl)

theorem sound_unsupportedRecv (h : Core c l.served) (hs : l.served.isSome = true) :
    Sound (unsupportedRecv l e c) := by
  rw [unsupportedRecv]
  split
  · exact sound_errPath h hs
  · exact sound_ignore h hs

theorem sound_answerRecv (h : Core c l.served) (hs : l.served.isSome = true) (answer : EventType)
    (needsMsg : Bool) : Sound (answerRecv answer needsMsg l e c) := by
  rw [answerRecv]
  split
  · exact sound_refusedRecv h hs
  · split
    · exact sound_exitPath h hs
    · split
      · split
        · exact sound_ignore h hs
        · exact sound_answered (h.stop _) hs
      · split
        · exact sound_softResetRecv h _
        · exact sound_unsupportedRecv h hs

theorem sound_requestRecv (h : Core c l.served) (hs : l.served.isSome = true) :
    Sound (requestRecv l e c) := by
  rw [requestRecv]
  split
  · exact sound_refusedRecv h hs
  · exact sound_exitPath h hs
  · exact Core.sound_recv ((h.stop _).start _).freeEvent hs
  · exact sound_answered (h.stop _) hs
  · exact sound_softResetRecv h _
  · exact sound_unsupportedRecv h hs

theorem sound_verifyRecv (h : Core c l.served) (hs : l.served.isSome = true) :
    Sound (verifyRecv l e c) := by
  rw [verifyRecv]
  split
  · exact sound_refusedRecv h hs
  · exact sound_exitPath h hs
  · exact Core.sound_recv ((h.stop _).start _).freeEvent hs
  · exact Core.sound_goto (.devInfo l) (h.stop _) (h.quiet hs) hs
  · split
    · exact sound_ignore h hs
    · exact sound_answered ((h.stop _).setErr (h.quiet hs) 0) hs
  · exact sound_softResetRecv h _
  · exact sound_unsupportedRecv h hs

section

variable (h : Core c l.served)
include h

section

variable (hs : l.served.isSome = true)
include hs

theorem sound_peFailed
    (hcurr : rc = -eproto → c.curr = .idle ∨ c.curr = .softReset) : Sound (peFailed l rc c) := by
  rw [peFailed]
  split
  · rename_i hrc
    exact (h.fail hs (by rw [hrc]; decide)).sound_ret (hcurr hrc)
  · split
    · exact Core.sound_goto (.endCable false l.served) h (h.quiet hs) hs
    · exact sound_hardReset h (h.quiet hs)

theorem sound_peOut (hrc : rc ≠ -eproto) : Sound (peOut l rc c) :=
  sound_peFailed (h.stopAll _).freeEvent hs fun h => absurd h hrc

theorem sound_peTimeout (ts : Finset Timer) : Sound (peTimeout ts l c) :=
  sound_peFailed ((h.stopAll ts).freeEvent.setCurr .idle) hs fun _ => .inl rfl

theorem sound_peSoftReset (ts : Finset Timer) : Sound (peSoftReset ts l c) :=
  sound_peFailed ((h.stopAll ts).setCurr .softReset) hs fun _ => .inr rfl

theorem sound_peUnsupported : Sound (peUnsupported l e c) := by
  rw [peUnsupported]
  split
  · exact sound_peOut h hs (by decide)
  · exact sound_ignore h hs

theorem sound_peRefusedRecv (ts : Finset Timer) : Sound (peRefusedRecv (peTimeout ts l) l e c) := by
  rw [peRefusedRecv]
  split
  · exact sound_ignore h hs
  · simp only
    split
    · exact sound_ignore h hs
    · split
      · rename_i hrc
        split
        · exact sound_peOut (h.stop _) hs (by rw [hrc]; decide)
        · exact Core.sound_send (h.stop _).freeEvent hs
      · exact sound_peTimeout (h.stop _) hs ts

theorem sound_startCableRecv : Sound (startCableRecv l e c) := by
  rw [startCableRecv]
  split
  · exact sound_peRefusedRecv h hs _
  · exact sound_peTimeout h hs _
  · exact Core.sound_send (l := .start .getCable l.served) (h.stop _).freeEvent hs
  · exact sound_peSoftReset h hs _
  · exact sound_peUnsupported h hs

theorem sound_getCableRecv : Sound (getCableRecv l e c) := by
  rw [getCableRecv]
  split
  · exact sound_peRefusedRecv h hs _
  · exact sound_peTimeout h hs _
  · split
    · exact sound_ignore h hs
    · have hended := ((h.stop .senderResponse).freeEvent).succeed hs
      exact Core.sound_goto (.endCable true none) hended
        (((h.stop .senderResponse).freeEvent).unreadError_succeed hs) trivial
  · exact sound_peSoftReset h hs _
  · exact sound_peUnsupported h hs

theorem sound_detectCableRecv : Sound (detectCableRecv l e c) := by
  rw [detectCableRecv]
  split
  · exact sound_peRefusedRecv h hs _
  · exact sound_peTimeout h hs _
  · exact sound_ignore (l := { l with waitStart := true }) ((h.stop _).start _) hs
  · exact sound_ignore (l := { l with waitStart := false, waitEnd := true }) (h.start _) hs
  · exact sound_ignore (l := { l with waitEnd := false, waitCableInfo := true }) (h.stop _) hs
  · split
    · exact sound_ignore h hs
    · exact (((h.stopAll _).freeEvent.setCurr .idle).succeed hs).sound_ret (.inl rfl)
  · exact sound_peSoftReset h hs _
  · exact sound_peUnsupported h hs

theorem sound_vendorRecv (answer : EventType) : Sound (vendorRecv answer l e c) := by
  rw [vendorRecv]
  split
  · exact sound_peRefusedRecv h hs _
  · split
    · exact sound_peTimeout h hs _
    · split
      · split
        · exact sound_ignore h hs
        · exact (((h.stop _).freeEvent.setCurr .idle).succeed hs).sound_ret (.inl rfl)
      · split
        · exact sound_peSoftReset h hs _
        · exact sound_peUnsupported h hs

theorem sound_recvEvent : Sound (recvEvent l e c) := by
  rw [recvEvent]
  split
  · exact sound_answerRecv h hs _ _
  · exact sound_requestRecv h hs
  · exact sound_answerRecv h hs _ _
  · exact sound_answerRecv h hs _ _
  · exact sound_answerRecv h hs _ _
  · exact sound_answerRecv h hs _ _
  · exact sound_verifyRecv h hs
  · exact sound_startCableRecv h hs
  · exact sound_getCableRecv h hs
  · exact sound_detectCableRecv h hs
  · exact sound_vendorRecv h hs _
  · exact sound_vendorRecv h hs _

end

end

/-! ### The handshake and the states -/

theorem sound_handshakeErr (h : Core c served) (hq : c.unreadError = none) : Sound (handshakeErr c) :=
  sound_hardReset h.freeEvent hq

theorem sound_handshakeRetry (h : Core c served) (hs : served.isSome = true) (retryCount : ℕ) :
    Sound (handshakeRetry retryCount served c) :=
  Core.sound_goto (.handshake retryCount served) (h.start _) (h.quiet hs) hs

theorem sound_handshakeAgain (h : Core c served) (hs : served.isSome = true) (retryCount : ℕ) :
    Sound (handshakeAgain retryCount served c) := by
  rw [handshakeAgain]
  split
  · exact sound_handshakeRetry h.freeEvent hs _
  · exact sound_handshakeErr h (h.quiet hs)

theorem sound_handshakeRecv (h : Core c served) (hs : served.isSome = true) (retryCount : ℕ) :
    Sound (handshakeRecv retryCount served e c) := by
  rw [handshakeRecv]
  split
  · exact Core.sound_goto (.ping 0 served) (h.stop _) (h.quiet hs) hs
  · exact sound_handshakeAgain (h.stop _) hs _
  · exact sound_handshakeAgain h hs _
  · exact ((h.stop _).setCurr .softReset).drop.sound_ret (.inr rfl)
  · split
    · exact sound_handshakeErr h (h.quiet hs)
    · exact Core.sound_goto (.handshake retryCount served) h.freeEvent (h.quiet hs) hs

theorem sound_pingSent (h : Core c served) (hs : served.isSome = true) (baudRate : ℕ) :
    Sound (pingSent baudRate served rc c) := by
  rw [pingSent]
  split
  · exact sound_handshakeErr h (h.quiet hs)
  · split
    · exact ((h.shake hs).setCurr .idle).freeEvent.sound_ret (.inl rfl)
    · split
      · exact Core.sound_goto (.ping (baudRate + 1) served) h (h.quiet hs) hs
      · exact sound_handshakeErr h (h.quiet hs)

theorem sound_exchangeHandle (h : Core c none) (hev : c.events = e :: rest)
    (hs : e.request.isSome = true) (x : Exchange) : Sound (exchangeHandle x e c) :=
  Core.sound_send (l := .start x e.request) (h.takeUp hev) hs

theorem sound_dataHandle (h : Core c none) (hev : c.events = e :: rest)
    (hs : e.request.isSome = true) (x : Exchange) : Sound (dataHandle x e c) := by
  rw [dataHandle]
  split
  · exact sound_exchangeHandle h hev hs x
  · show Sound (ret (setCurr .idle (fail e.request (-einval) (freeEvent c))))
    exact (((h.takeUp hev).fail hs (by decide)).setCurr .idle).sound_ret (.inl rfl)

theorem sound_exchangeSent (h : Core c l.served) (hs : l.served.isSome = true) (hrc : rc ≠ -eproto) :
    Sound (exchangeSent l rc c) := by
  have hfailed : Sound (peFailed l rc (stopAll l.exchange.errTimers c)) :=
    sound_peFailed (h.stopAll _) hs fun h => absurd h hrc
  rw [exchangeSent]
  split
  · exact Core.sound_recv (h.start _) hs
  · split
    · exact hfailed
    · exact hfailed
    · exact hfailed
    · exact hfailed
    · exact hfailed
    · exact sound_hardReset (h.stopAll _) (h.quiet hs)

theorem mem_requestTypes_of_idleState (type : EventType)
    (h : ((idleState type).any fun s => s.serves || s = .sendExit) = true) : type ∈ requestTypes := by
  revert h
  cases type <;> decide

theorem sound_idleHandle (h : Core c none) (hq : c.unreadError = none) (hev : c.events = e :: rest)
    (hcurr : c.curr = .idle) : Sound (idleHandle e c) := by
  have hcleared : Core { c with peLock := true, err := 0 } none := by
    have herr := h.setErr hq 0
    exact ⟨herr.fresh, herr.known, herr.tokens, herr.requested, herr.waits, herr.ended, herr.failed,
      herr.shaken⟩
  have hrequested := h.requested e (by rw [hev]; exact mem_cons_self)
  simp only [idleHandle]
  split
  · rename_i s hs
    have hsome (hserves : (s.serves || s = .sendExit) = true) : e.request.isSome = true :=
      hrequested.mpr (mem_requestTypes_of_idleState e.type (by rw [hs]; exact hserves))
    refine ⟨(hcleared.setCurr s).ret, ⟨?_, ?_⟩, .inl hq⟩
    · intro hexit
      have hexit : s = .sendExit := hexit
      obtain ⟨k, hk⟩ := Option.isSome_iff_exists.mp (hsome (by rw [hexit]; rfl))
      have htaken := h.takeUp hev
      rw [hk] at htaken
      refine ⟨?_, fun k' hk' => ⟨e, by show e ∈ c.events.head?; rw [hev]; rfl, ?_⟩⟩
      · show (if s = .idle then false else true) = true
        rw [hexit]
        rfl
      · rw [hk, ← htaken.pending.1]
        exact hk'
    · intro hserves
      have hserves : s.serves = true := hserves
      exact ⟨e, by show e ∈ c.events.head?; rw [hev]; rfl, hsome (by rw [hserves]; rfl)⟩
  · split
    · exact Core.sound_goto .idleRefuse hcleared hq hcurr
    · exact hcleared.freeEvent.sound_ret (.inl hcurr)

theorem sound_handle (h : Core c none) (hq : c.unreadError = none) (hev : c.events = e :: rest)
    (hplace : Place c) (hpc : c.pc = .next) : Sound (handle e c) := by
  rw [Place, hpc] at hplace
  obtain ⟨hexit, hserves⟩ := hplace
  have hfirst (hs : c.curr.serves = true) : e.request.isSome = true := by
    obtain ⟨e', he', hsome⟩ := hserves hs
    rw [hev, List.head?_cons, Option.mem_some_iff] at he'
    rw [he']
    exact hsome
  have hquiet : (freeEvent c).unreadError = none := hq
  rw [handle]
  cases hcurr : c.curr with
  | idle => exact sound_idleHandle h hq hev hcurr
  | softReset => exact (h.freeEvent.resetSmWork hq).sound_ret (.inl rfl)
  | hwReset => exact (h.freeEvent.exitSmWork (by simp [hquiet])).sound_ret (.inl rfl)
  | sendExit =>
    obtain ⟨hlock, hpending⟩ := hexit hcurr
    refine Core.sound_goto (.sendExit e.request) (h.takeUp hev) hq ⟨hlock, hcurr, fun k hk => ?_⟩
    obtain ⟨e', he', hrequest⟩ := hpending k hk
    rw [hev, List.head?_cons, Option.mem_some_iff] at he'
    rw [he']
    exact hrequest
  | recvExit =>
    have hfree := h.freeEvent
    have hleft : Core { freeEvent c with handshakeSuccess := false } none :=
      ⟨hfree.fresh, hfree.known, hfree.tokens, hfree.requested, hfree.waits, hfree.ended, hfree.failed,
        fun _ _ _ _ => rfl⟩
    refine ⟨hleft.ret, ⟨fun hexit => ?_, fun hserves => ?_⟩, .inl hq⟩
    · have hexit : c.curr = .sendExit := hexit
      rw [hcurr] at hexit
      exact absurd hexit (by decide)
    · have hserves : c.curr.serves = true := hserves
      rw [hcurr] at hserves
      exact absurd hserves (by decide)
  | sendSinkInfo | sendDeviceInfo | sendErrorInfo => exact Core.sound_goto .reply h hq trivial
  | powerChange | testRequest => exact (h.setCurr .idle).freeEvent.sound_ret (.inl rfl)
  | handshake => exact sound_handshakeRetry (h.takeUp hev) (hfirst (by rw [hcurr]; rfl)) 1
  | request | configWd | verifyRequest => exact sound_dataHandle h hev (hfirst (by rw [hcurr]; rfl)) _
  | outputCap | getSourceInfo | getCableInfo | getDeviceInfo | getErrorInfo | getEmarkInfo
  | getPowerInfo => exact sound_exchangeHandle h hev (hfirst (by rw [hcurr]; rfl)) _

theorem sound_exitSent (h : Core c served) (hq : c.unreadError = none)
    (hplace : c.peLock = true ∧ c.curr = .sendExit ∧ ∀ k, c.pending = some k → served = some k) :
    Sound (ret (succeed served c)) := by
  obtain ⟨hlock, hcurr, hpending⟩ := hplace
  have hended : Core (succeed served c) none ∧ (succeed served c).pending = none ∧
      (succeed served c).unreadError = none := by
    cases served with
    | some k => exact ⟨h.succeed rfl, h.pending_succeed rfl, h.unreadError_succeed rfl⟩
    | none =>
      have hnone : c.pending = none := by
        cases hp : c.pending with
        | none => rfl
        | some k => exact absurd (hpending k hp) (by simp)
      refine ⟨⟨h.fresh, h.known, h.tokens, h.requested, fun hne => absurd hnone hne, h.ended, h.failed,
        h.shaken⟩, hnone, hq⟩
  obtain ⟨hcore, hnone, hread⟩ := hended
  refine ⟨hcore.ret, ⟨fun _ => ⟨?_, fun k hk => ?_⟩, fun hserves => ?_⟩, .inl hread⟩
  · show (if c.curr = .idle then false else c.peLock) = true
    rw [hcurr, hlock]
    rfl
  · have hk : (succeed served c).pending = some k := hk
    rw [hnone] at hk
    exact absurd hk (by simp)
  · have hserves : c.curr.serves = true := hserves
    rw [hcurr] at hserves
    exact absurd hserves (by decide)

theorem sound_sent (h : Sound c) (hgets : c.gets = false) (hnext : c.pc ≠ .next)
    (hrc : rc ∈ sendResults) : Sound (sent rc c) := by
  have hq : c.unreadError = none := h.rest.resolve_right fun hr => hnext hr.1
  have hcore := h.core
  have hplace := h.place
  rw [Place] at hplace
  rw [sent]
  cases hpc : c.pc with
  | next => exact absurd hpc hnext
  | recv l => simp [gets, hpc] at hgets
  | handshake retryCount served => simp [gets, hpc] at hgets
  | send l =>
    rw [hpc] at hcore hplace
    refine sound_exchangeSent hcore hplace ?_
    rintro rfl
    exact absurd hrc (by decide)
  | devInfo l =>
    rw [hpc] at hcore hplace
    show Sound (if rc < 0 then _ else _)
    split
    · exact sound_errPath hcore hplace
    · exact Core.sound_recv (hcore.start _).freeEvent hplace
  | endCable last served =>
    rw [hpc] at hcore hplace
    cases last with
    | false => exact Core.sound_send (l := .start .detectCable served) hcore hplace
    | true => exact (hcore.setCurr .idle).drop.sound_ret (.inl rfl)
  | idleRefuse =>
    rw [hpc] at hcore hplace
    show Sound (if rc < 0 ∧ rc ≠ -eagain then _ else _)
    split
    · exact sound_hardReset hcore.freeEvent hq
    · exact hcore.freeEvent.sound_ret (.inl hplace)
  | sendExit served =>
    rw [hpc] at hcore hplace
    show Sound (if rc < 0 then _ else _)
    split
    · exact sound_hardReset hcore hq
    · exact sound_exitSent hcore hq hplace
  | reply =>
    rw [hpc] at hcore
    exact (hcore.setCurr .idle).freeEvent.sound_ret (.inl rfl)
  | ping baudRate served =>
    rw [hpc] at hcore hplace
    exact sound_pingSent hcore hplace baudRate

theorem sound_take (h : Sound c) (hgets : c.gets = true) (hne : c.events ≠ [])
    (hread : ReadFirst c .take) : Sound (take c) := by
  have hcore := h.core
  have hplace := h.place
  rw [take]
  cases hev : c.events with
  | nil => exact absurd hev hne
  | cons e rest =>
    cases hpc : c.pc with
    | next =>
      rw [hpc] at hcore
      have hq : c.unreadError = none := by
        rcases h.rest with hq | hr
        · exact hq
        · exact hread hr.1 hr.2
      exact sound_handle hcore hq hev hplace hpc
    | recv l =>
      rw [Place, hpc] at hplace
      rw [hpc] at hcore
      exact sound_recvEvent hcore hplace
    | handshake retryCount served =>
      rw [Place, hpc] at hplace
      rw [hpc] at hcore
      exact sound_handshakeRecv hcore hplace retryCount
    | idleRefuse | sendExit | reply | ping | send | devInfo | endCable => simp [gets, hpc] at hgets

end UfcsClass

/-! ### Runs -/

theorem Place.keep (h : Place c) {c' : UfcsClass} (hpc : c'.pc = c.pc) (hcurr : c'.curr = c.curr)
    (hlock : c'.peLock = c.peLock)
    (hpending : c.peLock = true → ∀ k, c'.pending = some k → c.pending = some k)
    (hhead : ∀ e ∈ c.events.head?, e.request.isSome = true → e ∈ c'.events.head?) : Place c' := by
  rw [Place] at h ⊢
  rw [hpc]
  cases hp : c.pc with
  | next =>
    rw [hp] at h
    obtain ⟨hexit, hserves⟩ := h
    refine ⟨fun hs => ?_, fun hs => ?_⟩
    · obtain ⟨hl, hfirst⟩ := hexit (hcurr ▸ hs)
      refine ⟨hlock.trans hl, fun k hk => ?_⟩
      obtain ⟨e, he, hrequest⟩ := hfirst k (hpending hl k hk)
      exact ⟨e, hhead e he (by rw [hrequest]; rfl), hrequest⟩
    · obtain ⟨e, he, hsome⟩ := hserves (hcurr ▸ hs)
      exact ⟨e, hhead e he hsome, hsome⟩
  | sendExit served =>
    rw [hp] at h
    exact ⟨hlock.trans h.1, hcurr.trans h.2.1, fun k hk => h.2.2 k (hpending h.1 k hk)⟩
  | idleRefuse =>
    rw [hp] at h
    exact hcurr.trans h
  | endCable last served =>
    rw [hp] at h
    cases last with
    | false => exact h
    | true => trivial
  | handshake | ping | send | recv | devInfo | reply =>
    rw [hp] at h
    exact h

theorem head?_append {events : List Event} (he : e ∈ events.head?) (new : List Event) :
    e ∈ (events ++ new).head? := by
  cases events with
  | nil => exact absurd he (by simp)
  | cons e' rest => exact he

theorem Sound.pushEvent (h : Sound c) (hr : e.request = none) (ht : e.type ∉ requestTypes) :
    Sound (c.pushEvent e) := by
  have hcore := h.core
  have htokens : (c.pushEvent e).tokens c.pc.served = c.tokens c.pc.served := by
    simp [UfcsClass.tokens, UfcsClass.pushEvent, hr]
  refine ⟨⟨hcore.fresh, hcore.known, ?_, fun e' he' => ?_, hcore.waits, hcore.ended, hcore.failed,
    hcore.shaken⟩, h.place.keep rfl rfl rfl (fun _ _ => id) fun e' he' _ => ?_, h.rest⟩
  · have ht := hcore.tokens
    rw [← htokens] at ht
    exact ht
  · rcases mem_append.mp he' with he' | he'
    · exact hcore.requested e' he'
    · rw [mem_singleton.mp he', hr]
      exact ⟨fun hs => absurd hs (by simp), fun hs => absurd hs ht⟩
  · exact head?_append he' [e]

theorem Core.tokens_nil (h : Core c served) (hp : c.pending = none) : c.tokens served = [] := by
  rcases h.tokens with ht | ⟨k, hk, -⟩
  · exact ht
  · rw [hp] at hk
    exact absurd hk (by simp)

section

variable (h : Sound c)
include h

theorem Sound.pushRequest (hreq : c.request = none) (hlock : c.peLock = false)
    {type : EventType} (ht : type ∈ requestTypes) {awake shaken : Bool}
    (hshaken : type = .handshake → shaken = false) :
    Sound
      { c.pushEvent ⟨type, none, UfcsClass.withData type, none, some c.nextId⟩ with
        done := 0
        doneAll := false
        request := some ⟨c.nextId, type, false⟩
        nextId := c.nextId + 1
        awake := awake
        handshakeSuccess := shaken } := by
  have hcore := h.core
  have hnil := hcore.tokens_nil (by simp [UfcsClass.pending, hreq])
  have hfresh := hcore.fresh c.nextId le_rfl
  refine ⟨⟨fun k hk => ?_, fun r hr => ?_, .inr ⟨c.nextId, ?_, ?_⟩, fun e he => ?_, fun _ => ⟨rfl, rfl⟩,
    fun r hr hwoken => ?_, fun rc hrc => ?_, fun r hr htype _ => ?_⟩,
    h.place.keep rfl rfl rfl (fun hl => ?_) fun e he _ => head?_append he _, .inl ?_⟩
  · exact hcore.fresh k (Nat.le_of_succ_le hk)
  · rw [← Option.mem_some_iff.mp hr]
    exact Nat.lt_succ_self _
  · simp [UfcsClass.pending, UfcsClass.pushEvent, hfresh]
  · show c.pc.served.toList ++ (c.events ++ [_]).filterMap Event.request = [c.nextId]
    rw [filterMap_append, ← append_assoc]
    show c.tokens c.pc.served ++ _ = _
    rw [hnil]
    rfl
  · rcases mem_append.mp he with he | he
    · exact hcore.requested e he
    · rw [mem_singleton.mp he]
      exact ⟨fun _ => ht, fun _ => rfl⟩
  · rw [← Option.mem_some_iff.mp hr] at hwoken
    exact absurd hwoken (by simp)
  · exact absurd hrc (by simp [UfcsClass.unreadError, UfcsClass.pushEvent, hfresh])
  · rw [← Option.mem_some_iff.mp hr] at htype
    exact hshaken htype
  · rw [hlock] at hl
    exact absurd hl (by simp)
  · simp [UfcsClass.unreadError, UfcsClass.pushEvent, hfresh]

theorem Sound.call {type : EventType} (ha : c.Enabled (.call type)) : Sound (c.next (.call type)) := by
  obtain ⟨hreq, hlock, ht⟩ := ha
  show Sound (UfcsClass.call type c)
  simp only [UfcsClass.call]
  split
  · exact h.pushRequest hreq hlock ht fun _ => rfl
  · rename_i htype
    split
    · exact h.pushRequest hreq hlock ht fun h => absurd h htype
    · -- the call is refused: only the completion has been initialised
      have hcore := h.core
      exact ⟨⟨hcore.fresh, hcore.known, hcore.tokens, hcore.requested, fun _ => ⟨rfl, rfl⟩, hcore.ended,
        hcore.failed, hcore.shaken⟩, h.place, h.rest⟩

theorem Sound.wake (ha : c.Enabled .wake) : Sound (c.next .wake) := by
  obtain ⟨⟨r, hr, -⟩, hdone⟩ := ha
  have hcore := h.core
  have hnone : c.pending = none := by
    cases hp : c.pending with
    | none => rfl
    | some k =>
      obtain ⟨hzero, hfalse⟩ := hcore.waits (by rw [hp]; simp)
      rcases hdone with hdone | hdone
      · omega
      · rw [hfalse] at hdone
        exact absurd hdone (by simp)
  have hended := UfcsClass.pending_eq_none hnone hr
  have hwake : c.next .wake =
      { c with
        request := some { r with woken := true }
        done := if c.doneAll then c.done else c.done - 1
        handshakeSuccess := if r.type = .sendExitUfcsMode then false else c.handshakeSuccess } := by
    simp only [UfcsClass.next, UfcsClass.wake, hr]
  have hpending : (c.next .wake).pending = none := by
    rw [← hnone, hwake]
    simp only [UfcsClass.pending, hr]
  have hread : (c.next .wake).unreadError = c.unreadError := by
    rw [hwake]
    simp only [UfcsClass.unreadError, hr]
  rw [hwake] at hpending hread ⊢
  refine ⟨⟨hcore.fresh, fun r' hr' => ?_, .inl (hcore.tokens_nil hnone), hcore.requested,
    fun hne => absurd hpending hne, fun r' hr' _ => ?_, fun rc hrc => hcore.failed rc (hread ▸ hrc),
    fun r' hr' htype hne => ?_⟩,
    h.place.keep rfl rfl rfl (fun _ k hk => ?_) fun _ he _ => he, ?_⟩
  · rw [← Option.mem_some_iff.mp hr']
    exact hcore.known r hr
  · rw [← Option.mem_some_iff.mp hr']
    exact hended
  · rw [← Option.mem_some_iff.mp hr'] at htype hne
    have hshaken := hcore.shaken r hr htype hne
    show (if r.type = .sendExitUfcsMode then false else c.handshakeSuccess) = false
    rw [hshaken]
    exact ite_self false
  · rw [hpending] at hk
    exact absurd hk (by simp)
  · rw [hread]
    exact h.rest

theorem Sound.read (ha : c.Enabled .read) : Sound (c.next .read) := by
  obtain ⟨r, hr, hwoken⟩ := ha
  have hcore := h.core
  have hended := hcore.ended r hr hwoken
  have hnone : c.pending = none := by
    simp only [UfcsClass.pending, hr]
    rw [if_pos (Option.isSome_iff_ne_none.mpr hended)]
  exact ⟨⟨hcore.fresh, fun r hr => absurd hr (by simp [UfcsClass.next]), .inl (hcore.tokens_nil hnone),
    hcore.requested, fun hp => absurd rfl hp, fun r hr => absurd hr (by simp [UfcsClass.next]),
    fun rc hrc => absurd hrc (by simp [UfcsClass.unreadError, UfcsClass.next]),
    fun r hr => absurd hr (by simp [UfcsClass.next])⟩,
    h.place.keep rfl rfl rfl (fun _ k hk => absurd hk (by simp [UfcsClass.pending, UfcsClass.next]))
      fun _ he _ => he, .inl rfl⟩

theorem Sound.refuse (ha : c.Enabled .refuse) : Sound (c.next .refuse) := by
  refine ⟨h.core.freeEvent, h.place.keep rfl rfl rfl (fun _ _ => id) fun e he hsome => ?_, h.rest⟩
  have hrefuses := ha.2
  cases hev : c.events with
  | nil =>
    rw [hev] at he
    exact absurd he (by simp)
  | cons e' rest =>
    rw [hev, List.head?_cons, Option.mem_some_iff] at he
    have htype : e.type = .sendRefuse := by simpa [UfcsClass.refuses, hev, he] using hrefuses
    have hmem := (h.core.requested e (by rw [hev, he]; exact mem_cons_self)).mp hsome
    rw [htype] at hmem
    exact absurd hmem (by decide)

theorem Sound.exit (hread : ReadFirst c .exit) : Sound (c.next .exit) := by
  have hcore := h.core.exitSmWork hread
  exact ⟨⟨hcore.fresh, hcore.known, hcore.tokens, hcore.requested, hcore.waits, hcore.ended, hcore.failed,
    hcore.shaken⟩, ⟨fun hexit => absurd hexit (show PeState.idle ≠ .sendExit by decide),
      fun hserves => absurd hserves (show ¬PeState.idle.serves = true by decide)⟩,
    .inr ⟨rfl, .inl rfl⟩⟩

theorem sound_next {a : Action} (ha : c.Enabled a) (hread : ReadFirst c a) : Sound (c.next a) := by
  cases a with
  | push e => exact h.pushEvent ha.1 ha.2.2.1
  | fire t =>
    have hcore := h.core
    have herased : Sound { c with armed := c.armed.erase t } :=
      ⟨⟨hcore.fresh, hcore.known, hcore.tokens, hcore.requested, hcore.waits, hcore.ended, hcore.failed,
        hcore.shaken⟩, h.place, h.rest⟩
    exact herased.pushEvent rfl (show EventType.timeout ∉ requestTypes by decide)
  | call type => exact h.call ha
  | wake => exact h.wake ha
  | read => exact h.read ha
  | take => exact UfcsClass.sound_take h ha.1 ha.2.1 hread
  | refuse => exact h.refuse ha
  | sent rc => exact UfcsClass.sound_sent h ha.1 ha.2.1 ha.2.2
  | exit => exact h.exit hread

end

theorem sound_init (handshakeHardRetry : Bool) : Sound (.init handshakeHardRetry) :=
  ⟨⟨fun _ _ => rfl, fun _ hr => absurd hr (by simp [UfcsClass.init]), .inl rfl,
    fun _ he => absurd he not_mem_nil, fun hp => absurd rfl hp,
    fun _ hr => absurd hr (by simp [UfcsClass.init]),
    fun _ hrc => absurd hrc (by simp [UfcsClass.unreadError, UfcsClass.init]),
    fun _ hr => absurd hr (by simp [UfcsClass.init])⟩,
    ⟨fun hexit => absurd hexit (show PeState.idle ≠ .sendExit by decide),
      fun hserves => absurd hserves (show ¬PeState.idle.serves = true by decide)⟩, .inl rfl⟩

theorem sound_of_reachable (h : (machine ReadFirst).Reachable c) : Sound c := by
  apply h.invariant
  · rintro s ⟨handshakeHardRetry, rfl⟩
    exact sound_init handshakeHardRetry
  · exact fun s a hs ha => sound_next hs ha.1 ha.2

/-- **A call only succeeds if the handler of its request did**, and the error of the handler is still there
when it is read, in all runs whose steps meet the condition. -/
theorem reported_of_reachable (h : (machine ReadFirst).Reachable c) : c.Reported := by
  have hcore := (sound_of_reachable h).core
  intro r hr
  have hfailure (rc : ℤ) (hrc : c.outcome r.id = some (.failure rc)) :
      c.result r = (if r.type = .handshake then -eio else rc) ∧ c.result r < 0 := by
    by_cases htype : r.type = .handshake
    · have hfalse := hcore.shaken r hr htype (by rw [hrc]; simp)
      have hres : c.result r = -eio := by
        simp only [UfcsClass.result, htype, if_true, hfalse, Bool.false_eq_true, if_false]
      rw [hres, if_pos htype]
      exact ⟨rfl, by decide⟩
    · have hunread : c.unreadError = some rc := by
        have hr : c.request = some r := hr
        simp only [UfcsClass.unreadError, hr, if_neg htype, hrc]
      obtain ⟨hneg, herr⟩ := hcore.failed rc hunread
      rw [if_neg htype, UfcsClass.result, if_neg htype, herr]
      exact ⟨rfl, hneg⟩
  refine ⟨fun hwoken hres => ?_, fun rc hrc => (hfailure rc hrc).1⟩
  cases hout : c.outcome r.id with
  | none => exact absurd hout (hcore.ended r hr hwoken)
  | some o =>
    cases o with
    | success => rfl
    | failure rc =>
      have hneg := (hfailure rc hout).2
      omega

/-- A request that the adapter refuses; the ping behind the refusal waits until the error is read. -/
def refusedRun : List Action :=
  handshakeRun ++ requestRun ++
    [.push ⟨.recvRefuse, some ⟨1, 2, 1⟩, false, none, none⟩, .push (.received .recvPing), .take, .wake]

theorem reported_refused : ((machine ReadFirst).exec (.init false) refusedRun).Reported :=
  reported_of_reachable (reachable_exec false refusedRun (by decide))

def pingRun : List Action :=
  handshakeRun ++ requestRun ++ [.fire .senderResponse, .take, .push (.received .recvPing), .take, .wake]

/-- Its call succeeds. -/
theorem not_reported : ¬∀ c, (machine fun _ _ => True).Reachable c → c.Reported := by
  intro h
  have hreach := @reachable_exec (fun _ _ => True) false pingRun (by decide)
  have hresult := (h _ hreach ⟨1, .sendRequest, true⟩ (by decide)).1 (by decide) (by decide)
  exact absurd hresult (by decide)

end Sm8750Modules.UfcsPe
