import Sm8750Modules.UfcsPe.Handlers

/-!
# UFCS policy engine — stray timers

A handler starts the timer of an answer and stops it on its way out.
-/

namespace Sm8750Modules.UfcsPe

open List

variable {c : UfcsClass} {ts us : Finset Timer} {l : Local} {e : Event} {rest : List Event} {rc : ℤ}

def responseTimers : Finset Timer := {.senderResponse, .powerSupply, .waitMsg}

def Event.IsResponse (e : Event) : Prop := ∃ t ∈ responseTimers, e.timer = some t

instance (e : Event) : Decidable e.IsResponse :=
  decidable_of_iff (∃ t ∈ e.timer, t ∈ responseTimers) (by
    simp only [Event.IsResponse, Option.mem_def, and_comm])

namespace UfcsClass

def NoStray (c : UfcsClass) : Prop :=
  c.pc = .next → c.curr = .idle →
    (∀ t ∈ responseTimers, t ∉ c.armed) ∧ ∀ e ∈ c.events, ¬e.IsResponse

def Fits (ts : Finset Timer) (c : UfcsClass) : Prop := ∀ t ∈ c.armed, t ∈ responseTimers → t ∈ ts

def Clear (c : UfcsClass) : Prop := ∀ e ∈ c.events, ¬e.IsResponse

end UfcsClass

/-- The timers that may be armed where the task waits. -/
def Pc.timers : Pc → Finset Timer
  | .send l | .recv l | .devInfo l => l.exchange.errTimers
  | _ => ∅

/-- Where the task is within an exchange. -/
def Pc.InExchange : Pc → Prop
  | .send _ | .recv _ | .endCable false _ => True
  | .devInfo l => l.exchange = .verify
  | _ => False

/-- Only the verification is asked for the device info. -/
def Pc.WellFormed : Pc → Prop
  | .devInfo l => l.exchange = .verify
  | _ => True

theorem Pc.InExchange.wellFormed : ∀ {pc : Pc}, pc.InExchange → pc.WellFormed
  | .devInfo _, h => h
  | .send _, _ | .recv _, _ | .endCable _ _, _ => trivial

/-- The invariant: the armed timers are those of the exchange, and outside of one, unless a soft reset is
about to free all events, no timeout is pending. -/
structure Settled (c : UfcsClass) : Prop where
  wellFormed : c.pc.WellFormed
  fits : c.Fits c.pc.timers
  clear : c.pc.InExchange ∨ (c.pc = .next ∧ c.curr = .softReset) ∨ c.Clear

theorem Pc.inExchange_of_mem {t : Timer} : ∀ {pc : Pc}, pc.WellFormed → t ∈ pc.timers → pc.InExchange
  | .devInfo _, h, _ => h
  | .send _, _, _ | .recv _, _, _ => trivial

theorem Settled.clear_of (h : Settled c) (hpc : ¬c.pc.InExchange) (hnext : c.pc ≠ .next) : c.Clear := by
  rcases h.clear with hc | hc | hc
  · exact absurd hc hpc
  · exact absurd hc.1 hnext
  · exact hc

def Refused (l : Local) (e : Event) : Prop :=
  ∃ msg ∈ e.msg, checkRefuseMsg msg l.exchange.message.1 l.exchange.message.2 ≠ -eagain
deriving Decidable

def Exchange.answer : Exchange → EventType
  | .outputCap => .recvOutputCap
  | .request => .recvPowerReady
  | .srcInfo => .recvSourceInfo
  | .devInfo => .recvDeviceInfo
  | .errorInfo => .recvErrorInfo
  | .configWd => .recvAccept
  | .verify => .recvVerifyResponse
  | .startCable => .recvAccept
  | .getCable => .recvCableInfo
  | .detectCable => .recvCableInfo
  | .emark => .oplusRecvEmarkInfo
  | .power => .oplusRecvPowerInfo

/-- An event ends an exchange, and the engine returns to the idle state with the events that are left. -/
def Ends (l : Local) (e : Event) : Prop :=
  e.type = .timeout ∨ (e.type = .recvRefuse ∧ Refused l e) ∨
    (e.type = l.exchange.answer ∧ l.exchange ≠ .startCable)
deriving Decidable

def LeavesSender (l : Local) (e : Event) : Prop :=
  (l.exchange = .request ∧ e.type = .recvPowerReady) ∨
    (l.exchange = .verify ∧ e.type = .recvVerifyResponse) ∨
      ((l.exchange = .detectCable ∨ l.exchange = .power) ∧ e.type = .timeout)
deriving Decidable

/-- The condition of an event that is taken up in an exchange. -/
def RecvSettles (c : UfcsClass) (l : Local) (e : Event) (rest : List Event) : Prop :=
  (Ends l e → ∀ e' ∈ rest, ¬e'.IsResponse) ∧
    (LeavesSender l e → .senderResponse ∉ c.armed) ∧
      (l.exchange = .verify → e.type = .recvSoftReset → .waitMsg ∉ c.armed)
deriving Decidable

/-- The condition of the first event where the task waits. -/
def TakeSettles (c : UfcsClass) : Pc → List Event → Prop
  | .recv l, e :: rest => RecvSettles c l e rest
  | _, _ => True

instance (c : UfcsClass) : ∀ pc events, Decidable (TakeSettles c pc events)
  | .recv l, e :: rest => inferInstanceAs (Decidable (RecvSettles c l e rest))
  | .recv _, [] => isTrue trivial
  | .next, _ | .idleRefuse, _ | .sendExit _, _ | .reply, _ | .handshake _ _, _ | .ping _ _, _
  | .send _, _ | .devInfo _, _ | .endCable _ _, _ => isTrue trivial

/-- The condition of a step. -/
def Settles (c : UfcsClass) : Action → Prop
  | .take => TakeSettles c c.pc c.events
  | .exit => ∀ t ∈ responseTimers, t ∉ c.armed
  | _ => True

instance (c : UfcsClass) : ∀ a, Decidable (Settles c a)
  | .take => inferInstanceAs (Decidable (TakeSettles c c.pc c.events))
  | .exit => inferInstanceAs (Decidable (∀ t ∈ responseTimers, t ∉ c.armed))
  | .push _ | .fire _ | .call _ | .wake | .read | .refuse | .sent _ => isTrue trivial

/-! ### What the small steps do to the timers -/

namespace UfcsClass

theorem Fits.mono (h : c.Fits ts) (hts : ts ⊆ us) : c.Fits us := fun t ht hr => hts (h t ht hr)

theorem fits_stopAll (h : c.Fits ts) : (stopAll us c).Fits (ts \ us) := by
  intro t ht hr
  have ht := Finset.mem_sdiff.mp ht
  exact Finset.mem_sdiff.mpr ⟨h t ht.1 hr, ht.2⟩

theorem fits_stop (h : c.Fits ts) (t : Timer) : (stop t c).Fits (ts.erase t) := by
  intro u hu hr
  have hu := Finset.mem_erase.mp hu
  exact Finset.mem_erase.mpr ⟨hu.1, h u hu.2 hr⟩

theorem fits_stopAll_self (h : c.Fits us) : (stopAll us c).Fits ∅ :=
  (fits_stopAll h).mono (by rw [Finset.sdiff_self])

theorem fits_stop_self (h : c.Fits ts) (t : Timer) : (stop t c).Fits ts :=
  (fits_stop h t).mono (Finset.erase_subset _ _)

theorem fits_start (h : c.Fits ts) {t : Timer} (ht : t ∈ ts) : (start t c).Fits ts := by
  intro u hu hr
  rcases Finset.mem_insert.mp hu with rfl | hu
  · exact ht
  · exact h u hu hr

theorem clear_freeEvent (h : c.Clear) : (freeEvent c).Clear := fun e he => h e (mem_of_mem_tail he)

theorem clear_of_events (h : c.events = []) : c.Clear := by
  intro e he
  rw [h] at he
  exact absurd he not_mem_nil

theorem settled_ret (hf : c.Fits ∅) (hc : c.curr = .softReset ∨ c.Clear) : Settled (ret c) where
  wellFormed := trivial
  fits := hf
  clear := by
    rcases hc with hsoft | hc
    · exact .inr (.inl ⟨rfl, hsoft⟩)
    · exact .inr (.inr hc)

theorem settled_exchange (pc : Pc) (hpc : pc.InExchange) (hf : c.Fits pc.timers) :
    Settled (goto pc c) := ⟨hpc.wellFormed, hf, .inl hpc⟩

theorem settled_goto {pc : Pc} (hpc : pc.WellFormed) (hf : c.Fits ∅) (hc : c.Clear) :
    Settled (goto pc c) := ⟨hpc, hf.mono (Finset.empty_subset _), .inr (.inr hc)⟩

theorem settled_sourceHardReset (hf : c.Fits ∅) : Settled (ret (sourceHardReset c)) :=
  settled_ret hf (.inr (clear_of_events rfl))

theorem settled_errPath (hf : c.Fits l.exchange.errTimers) : Settled (errPath l c) := by
  apply settled_sourceHardReset
  exact fits_stopAll_self hf

theorem settled_ignore {l' : Local} (hf : c.Fits l'.exchange.errTimers) : Settled (ignore l' c) :=
  settled_exchange (.recv _) trivial hf

theorem settled_exitPath (hf : c.Fits l.exchange.errTimers) (hc : (freeEvent c).Clear) :
    Settled (exitPath l c) :=
  settled_ret (fits_stopAll_self hf) (.inr hc)

theorem settled_answered (hf : c.Fits ∅) (hc : (freeEvent c).Clear) : Settled (answered l c) :=
  settled_ret hf (.inr hc)

theorem settled_softResetRecv (hf : c.Fits ts) : Settled (softResetRecv ts c) :=
  settled_ret (fits_stopAll_self hf) (.inl rfl)

theorem settled_unsupportedRecv (hf : c.Fits l.exchange.errTimers) : Settled (unsupportedRecv l e c) := by
  rw [unsupportedRecv]
  split
  · exact settled_errPath hf
  · exact settled_ignore hf

theorem settled_refusedRecv (hf : c.Fits l.exchange.errTimers) (hc : Refused l e → (freeEvent c).Clear) :
    Settled (refusedRecv l e c) := by
  rw [refusedRecv]
  split
  · exact settled_ignore hf
  · rename_i msg hmsg
    simp only
    split
    · exact settled_ignore hf
    · split
      · rename_i hne
        exact settled_exitPath hf (hc ⟨msg, hmsg, hne⟩)
      · split
        · exact settled_errPath hf
        · exact settled_exchange (.send _) trivial
            (fits_stop_self hf _)

structure Taken (c : UfcsClass) (l : Local) (e : Event) : Prop where
  fits : c.Fits l.exchange.errTimers
  clear : Ends l e → (freeEvent c).Clear
  sender : LeavesSender l e → .senderResponse ∉ c.armed
  waitMsg : l.exchange = .verify → e.type = .recvSoftReset → .waitMsg ∉ c.armed

theorem Fits.of_notMem (h : c.Fits ts) {t : Timer} (ht : t ∉ c.armed) : c.Fits (ts.erase t) := by
  intro u hu hr
  refine Finset.mem_erase.mpr ⟨?_, h u hu hr⟩
  rintro rfl
  exact ht hu

section

variable (h : Taken c l e)
include h

theorem Taken.refused (he : e.type = .recvRefuse) : Settled (refusedRecv l e c) :=
  settled_refusedRecv h.fits fun hr => h.clear (.inr (.inl ⟨he, hr⟩))

theorem Taken.timeout (he : e.type = .timeout) : Settled (exitPath l c) :=
  settled_exitPath h.fits (h.clear (.inl he))

theorem Taken.answer (he : e.type = l.exchange.answer) (hx : l.exchange ≠ .startCable) :
    (freeEvent c).Clear := h.clear (.inr (.inr ⟨he, hx⟩))

theorem settled_answerRecv (hx : l.exchange.errTimers = {.senderResponse})
    (hs : l.exchange ≠ .startCable) {needsMsg : Bool} :
    Settled (answerRecv l.exchange.answer needsMsg l e c) := by
  have hf := h.fits
  rw [hx] at hf
  rw [answerRecv]
  split
  · rename_i he
    exact h.refused he
  · split
    · rename_i he
      exact h.timeout he
    · split
      · rename_i he
        split
        · exact settled_ignore h.fits
        · exact settled_answered ((fits_stop hf _).mono (by decide)) (h.answer he hs)
      · split
        · exact settled_softResetRecv hf
        · exact settled_unsupportedRecv h.fits

theorem settled_requestRecv (hx : l.exchange = .request) : Settled (requestRecv l e c) := by
  have hf := h.fits
  rw [hx] at hf
  rw [requestRecv]
  split
  · rename_i he
    exact h.refused he
  · rename_i he
    exact h.timeout he
  · apply settled_exchange (.recv l) trivial
    show Fits l.exchange.errTimers (freeEvent _)
    rw [hx]
    exact fits_start (fits_stop_self hf _) (by decide)
  · rename_i he
    -- the sender response timer is not stopped here
    have hsender := h.sender (.inl ⟨hx, he⟩)
    exact settled_answered ((fits_stop (hf.of_notMem hsender) _).mono (by decide))
      (h.answer (by rw [hx]; exact he) (by rw [hx]; decide))
  · exact settled_softResetRecv hf
  · exact settled_unsupportedRecv h.fits

theorem settled_verifyRecv (hx : l.exchange = .verify) : Settled (verifyRecv l e c) := by
  have hf := h.fits
  rw [hx] at hf
  rw [verifyRecv]
  split
  · rename_i he
    exact h.refused he
  · rename_i he
    exact h.timeout he
  · apply settled_exchange (.recv l) trivial
    show Fits l.exchange.errTimers (freeEvent _)
    rw [hx]
    exact fits_start (fits_stop_self hf _) (by decide)
  · apply settled_exchange (.devInfo l) hx
    exact fits_stop_self h.fits _
  · rename_i he
    split
    · exact settled_ignore h.fits
    · have hsender := h.sender (.inr (.inl ⟨hx, he⟩))
      apply settled_answered
      · exact (fits_stop (hf.of_notMem hsender) .waitMsg).mono (by decide)
      · exact h.answer (by rw [hx]; exact he) (by rw [hx]; decide)
  · rename_i he
    -- the timer of the next message is not stopped here
    exact settled_ret ((fits_stopAll (hf.of_notMem (h.waitMsg hx he))).mono (by decide)) (.inl rfl)
  · exact settled_unsupportedRecv h.fits

end

theorem settled_peFailed (hf : c.Fits ∅) (hc : rc = -eproto → c.curr = .softReset ∨ c.Clear) :
    Settled (peFailed l rc c) := by
  rw [peFailed]
  split
  · rename_i hrc
    exact settled_ret hf (hc hrc)
  · split
    · exact settled_exchange (.endCable false l.served) trivial hf
    · exact settled_sourceHardReset hf

theorem settled_peOut (hf : c.Fits l.exchange.errTimers) (hrc : rc ≠ -eproto) :
    Settled (peOut l rc c) :=
  settled_peFailed (fits_stopAll_self hf) fun h => absurd h hrc

theorem settled_peTimeout (hf : c.Fits ts) (hc : (freeEvent c).Clear) : Settled (peTimeout ts l c) :=
  settled_peFailed (fits_stopAll_self hf) fun _ => .inr hc

theorem settled_peSoftReset (hf : c.Fits ts) : Settled (peSoftReset ts l c) :=
  settled_peFailed (fits_stopAll_self hf) fun _ => .inl rfl

theorem settled_peUnsupported (hf : c.Fits l.exchange.errTimers) : Settled (peUnsupported l e c) := by
  rw [peUnsupported]
  split
  · exact settled_peOut hf (by decide)
  · exact settled_ignore hf

section

variable (h : Taken c l e)
include h

theorem settled_peRefusedRecv (he : e.type = .recvRefuse)
    {timedOut : UfcsClass → UfcsClass}
    (htimedOut : (freeEvent c).Clear → Settled (timedOut (stop l.exchange.timer c))) :
    Settled (peRefusedRecv timedOut l e c) := by
  rw [peRefusedRecv]
  split
  · exact settled_ignore h.fits
  · rename_i msg hmsg
    simp only
    split
    · exact settled_ignore h.fits
    · split
      · rename_i hrc
        split
        · exact settled_peOut (fits_stop_self h.fits _)
            (by rw [hrc]; decide)
        · exact settled_exchange (.send _) trivial
            (fits_stop_self h.fits _)
      · rename_i hrc
        exact htimedOut (h.clear (.inr (.inl ⟨he, msg, hmsg, hrc⟩)))

theorem settled_startCableRecv (hx : l.exchange = .startCable) : Settled (startCableRecv l e c) := by
  have hf := h.fits
  rw [hx] at hf
  rw [startCableRecv]
  split
  · rename_i he
    exact settled_peRefusedRecv h he fun hc =>
      settled_peTimeout (fits_stop_self hf _) hc
  · rename_i he
    exact settled_peTimeout hf (h.clear (.inl he))
  · exact settled_exchange (.send _) trivial (fits_stop_self hf _)
  · exact settled_peSoftReset hf
  · exact settled_peUnsupported h.fits

theorem settled_getCableRecv (hx : l.exchange = .getCable) : Settled (getCableRecv l e c) := by
  have hf := h.fits
  rw [hx] at hf
  rw [getCableRecv]
  split
  · rename_i he
    exact settled_peRefusedRecv h he fun hc =>
      settled_peTimeout (fits_stop_self hf _) hc
  · rename_i he
    exact settled_peTimeout hf (h.clear (.inl he))
  · rename_i he
    split
    · exact settled_ignore h.fits
    · exact settled_goto trivial ((fits_stop hf .senderResponse).mono (by decide))
        (h.answer (by rw [hx]; exact he) (by rw [hx]; decide))
  · exact settled_peSoftReset hf
  · exact settled_peUnsupported h.fits

theorem settled_detectCableRecv (hx : l.exchange = .detectCable) : Settled (detectCableRecv l e c) := by
  have hf := h.fits
  rw [hx] at hf
  -- of the timers of the detection only the sender response timer is one of those that count
  have hsender : c.Fits {.senderResponse} := by
    intro t ht hr
    have hmem := hf t ht hr
    revert hr hmem
    cases t <;> decide
  rw [detectCableRecv]
  split
  · rename_i he
    refine settled_peRefusedRecv h he fun hc => settled_peTimeout ?_ hc
    rw [hx]
    exact (fits_stop hsender .senderResponse).mono (by
      rw [Finset.erase_singleton]
      exact Finset.empty_subset _)
  · rename_i he
    have hnot := h.sender (.inr (.inr ⟨.inl hx, he⟩))
    refine settled_peTimeout ((hsender.of_notMem hnot).mono ?_) (h.clear (.inl he))
    rw [Finset.erase_singleton]
    exact Finset.empty_subset _
  · apply settled_ignore
    show Fits l.exchange.errTimers _
    rw [hx]
    exact fits_start (fits_stop_self hf _) (by decide)
  · apply settled_ignore
    show Fits l.exchange.errTimers _
    rw [hx]
    exact fits_start hf (by decide)
  · apply settled_ignore
    show Fits l.exchange.errTimers _
    exact fits_stop_self h.fits _
  · rename_i he
    split
    · exact settled_ignore h.fits
    · exact settled_ret (fits_stopAll_self h.fits)
        (.inr (h.answer (by rw [hx]; exact he) (by rw [hx]; decide)))
  · exact settled_peSoftReset h.fits
  · exact settled_peUnsupported h.fits

theorem settled_vendorRecv (hx : l.exchange.errTimers = {l.exchange.timer})
    (hs : l.exchange ≠ .startCable) (hnot : e.type = .timeout → c.Fits ∅) :
    Settled (vendorRecv l.exchange.answer l e c) := by
  have hf := h.fits
  rw [hx] at hf
  have hstop : (stop l.exchange.timer c).Fits ∅ := (fits_stop hf _).mono (by
    rw [Finset.erase_singleton])
  rw [vendorRecv]
  split
  · rename_i he
    exact settled_peRefusedRecv h he fun hc => settled_peTimeout hstop hc
  · split
    · rename_i he
      exact settled_peTimeout (hnot he) (h.clear (.inl he))
    · split
      · rename_i he
        split
        · exact settled_ignore h.fits
        · exact settled_ret hstop (.inr (h.answer he hs))
      · split
        · exact settled_peSoftReset hf
        · exact settled_peUnsupported h.fits

theorem settled_recvEvent : Settled (recvEvent l e c) := by
  rw [recvEvent]
  cases hx : l.exchange with
  | outputCap | srcInfo | devInfo | errorInfo | configWd =>
    have hanswer := @settled_answerRecv c l e h (by rw [hx]; rfl) (by rw [hx]; decide)
    rw [hx] at hanswer
    exact hanswer
  | request => exact settled_requestRecv h hx
  | verify => exact settled_verifyRecv h hx
  | startCable => exact settled_startCableRecv h hx
  | getCable => exact settled_getCableRecv h hx
  | detectCable => exact settled_detectCableRecv h hx
  | emark =>
    have hf := h.fits
    rw [hx] at hf
    have hvendor := settled_vendorRecv h (by rw [hx]; rfl) (by rw [hx]; decide) fun _ t ht hr => by
      have hmem := hf t ht hr
      revert hr hmem
      cases t <;> decide
    rw [hx] at hvendor
    exact hvendor
  | power =>
    have hf := h.fits
    rw [hx] at hf
    have hvendor := settled_vendorRecv h (by rw [hx]; rfl) (by rw [hx]; decide) fun he =>
      (hf.of_notMem (h.sender (.inr (.inr ⟨.inr hx, he⟩)))).mono (by decide)
    rw [hx] at hvendor
    exact hvendor

end

section

variable (hf : c.Fits ∅)
include hf

theorem settled_handshakeErr : Settled (handshakeErr c) := settled_sourceHardReset hf

theorem fits_start_handshake : (start .handshake c).Fits ∅ := by
  intro t ht hr
  rcases Finset.mem_insert.mp ht with rfl | ht
  · exact absurd hr (by decide)
  · exact hf t ht hr

theorem settled_handshakeAgain (hc : c.Clear) (retryCount : ℕ) (served : Option ℕ) :
    Settled (handshakeAgain retryCount served c) := by
  rw [handshakeAgain]
  split
  · exact settled_goto trivial (fits_start_handshake hf) (clear_freeEvent hc)
  · exact settled_handshakeErr hf

theorem settled_handshakeRecv (hc : c.Clear) (retryCount : ℕ) (served : Option ℕ) :
    Settled (handshakeRecv retryCount served e c) := by
  have hstop : (stop .handshake c).Fits ∅ := fits_stop_self hf _
  rw [handshakeRecv]
  split
  · exact settled_goto trivial hstop hc
  · exact settled_handshakeAgain hstop hc _ _
  · exact settled_handshakeAgain hf hc _ _
  · exact settled_ret hstop (.inl rfl)
  · split
    · exact settled_handshakeErr hf
    · exact settled_goto trivial hf (clear_freeEvent hc)

theorem settled_pingSent (hc : c.Clear) (baudRate : ℕ) (served : Option ℕ) :
    Settled (pingSent baudRate served rc c) := by
  rw [pingSent]
  split
  · exact settled_handshakeErr hf
  · split
    · exact settled_ret hf (.inr (clear_freeEvent (c := c) hc))
    · split
      · exact settled_goto trivial hf hc
      · exact settled_handshakeErr hf

theorem settled_idleHandle (hc : c.Clear) : Settled (idleHandle e c) := by
  simp only [idleHandle]
  split
  · exact settled_ret hf (.inr hc)
  · split
    · exact settled_goto trivial hf hc
    · exact settled_ret hf (.inr (clear_freeEvent (c := c) hc))

theorem settled_exchangeHandle (x : Exchange) : Settled (exchangeHandle x e c) :=
  settled_exchange (.send _) trivial (hf.mono (Finset.empty_subset _))

theorem settled_dataHandle (hc : c.Clear) (x : Exchange) : Settled (dataHandle x e c) := by
  rw [dataHandle]
  split
  · exact settled_exchangeHandle hf x
  · exact settled_ret hf (.inr (clear_freeEvent (c := c) hc))

theorem settled_handle (hc : c.curr ≠ .softReset → c.Clear) : Settled (handle e c) := by
  rw [handle]
  cases hs : c.curr with
  | softReset => exact settled_ret hf (.inr (clear_of_events rfl))
  | hwReset => exact settled_ret hf (.inr (clear_of_events rfl))
  | idle => exact settled_idleHandle hf (hc (by rw [hs]; decide))
  | sendExit => exact settled_goto trivial hf (clear_freeEvent (hc (by rw [hs]; decide)))
  | recvExit => exact settled_ret hf (.inr (clear_freeEvent (hc (by rw [hs]; decide))))
  | handshake =>
    exact settled_goto trivial (fits_start_handshake hf) (clear_freeEvent (hc (by rw [hs]; decide)))
  | request | configWd | verifyRequest => exact settled_dataHandle hf (hc (by rw [hs]; decide)) _
  | sendSinkInfo | sendDeviceInfo | sendErrorInfo => exact settled_goto trivial hf (hc (by rw [hs]; decide))
  | powerChange | testRequest => exact settled_ret hf (.inr (clear_freeEvent (hc (by rw [hs]; decide))))
  | outputCap | getSourceInfo | getCableInfo | getDeviceInfo | getErrorInfo | getEmarkInfo
  | getPowerInfo => exact settled_exchangeHandle hf _

end

theorem settled_exchangeSent (hf : c.Fits l.exchange.errTimers) (hrc : rc ≠ -eproto) :
    Settled (exchangeSent l rc c) := by
  have hstop : (stopAll l.exchange.errTimers c).Fits ∅ :=
    fits_stopAll_self hf
  rw [exchangeSent]
  split
  · apply settled_exchange (.recv l) trivial
    refine fits_start hf ?_
    cases l.exchange <;> decide
  · split
    · exact settled_peFailed hstop fun h => absurd h hrc
    · exact settled_peFailed hstop fun h => absurd h hrc
    · exact settled_peFailed hstop fun h => absurd h hrc
    · exact settled_peFailed hstop fun h => absurd h hrc
    · exact settled_peFailed hstop fun h => absurd h hrc
    · exact settled_sourceHardReset hstop

theorem settled_sent (h : Settled c) (hgets : c.gets = false) (hnext : c.pc ≠ .next)
    (hrc : rc ∈ sendResults) : Settled (sent rc c) := by
  have hf := h.fits
  have hwf := h.wellFormed
  have hclear := h.clear_of
  rw [sent]
  cases hpc : c.pc with
  | next => exact absurd hpc hnext
  | recv l => simp [gets, hpc] at hgets
  | handshake retryCount served => simp [gets, hpc] at hgets
  | send l =>
    rw [hpc] at hf
    refine settled_exchangeSent hf ?_
    rintro rfl
    exact absurd hrc (by decide)
  | devInfo l =>
    rw [hpc] at hf hwf
    have hx : l.exchange = .verify := hwf
    show Settled (if rc < 0 then errPath l c else goto (.recv l) (freeEvent (start .waitMsg c)))
    split
    · exact settled_errPath hf
    · refine settled_exchange (.recv l) trivial (fits_start hf ?_)
      show Timer.waitMsg ∈ l.exchange.errTimers
      rw [hx]
      decide
  | endCable last served =>
    rw [hpc] at hf hclear
    cases last with
    | false => exact settled_exchange (.send _) trivial (hf.mono (Finset.empty_subset _))
    | true => exact settled_ret hf (.inr (hclear id (by simp)))
  | idleRefuse =>
    rw [hpc] at hf hclear
    show Settled (if rc < 0 ∧ rc ≠ -eagain then _ else _)
    split
    · exact settled_sourceHardReset hf
    · exact settled_ret hf (.inr (clear_freeEvent (hclear id (by simp))))
  | sendExit served =>
    rw [hpc] at hf hclear
    show Settled (if rc < 0 then _ else _)
    split
    · exact settled_sourceHardReset hf
    · exact settled_ret hf (.inr (hclear id (by simp)))
  | reply =>
    rw [hpc] at hf hclear
    exact settled_ret hf (.inr (clear_freeEvent (c := setCurr .idle c) (hclear id (by simp))))
  | ping baudRate served =>
    rw [hpc] at hf hclear
    exact settled_pingSent hf (hclear id (by simp)) baudRate served

theorem settled_take (h : Settled c) (hgets : c.gets = true) (hne : c.events ≠ [])
    (ht : TakeSettles c c.pc c.events) : Settled (take c) := by
  have hf := h.fits
  have hclear := h.clear_of
  rw [take]
  cases hev : c.events with
  | nil => exact absurd hev hne
  | cons e rest =>
    rw [hev] at ht
    cases hpc : c.pc with
    | next =>
      rw [hpc] at hf
      refine settled_handle hf fun hsoft => ?_
      rcases h.clear with hc | hc | hc
      · rw [hpc] at hc
        exact hc.elim
      · exact absurd hc.2 hsoft
      · exact hc
    | recv l =>
      rw [hpc] at hf ht
      refine settled_recvEvent ⟨hf, fun hends e' he' => ht.1 hends e' ?_, ht.2.1, ht.2.2⟩
      rw [freeEvent, hev] at he'
      exact he'
    | handshake retryCount served =>
      rw [hpc] at hf hclear
      exact settled_handshakeRecv hf (hclear id (by simp)) retryCount served
    | idleRefuse | sendExit | reply | ping | send | devInfo | endCable => simp [gets, hpc] at hgets

end UfcsClass

/-! ### Runs -/

theorem Settled.of_same (h : Settled c) {c' : UfcsClass} (hpc : c'.pc = c.pc) (hcurr : c'.curr = c.curr)
    (harmed : c'.armed = c.armed) (hev : ∀ e ∈ c'.events, e ∈ c.events ∨ ¬e.IsResponse) : Settled c' where
  wellFormed := by rw [hpc]; exact h.wellFormed
  fits := by
    rw [hpc]
    intro t ht
    rw [harmed] at ht
    exact h.fits t ht
  clear := by
    rw [hpc, hcurr]
    refine h.clear.imp_right (Or.imp_right fun hc e he => ?_)
    exact (hev e he).elim (hc e) id

theorem Settled.fire (h : Settled c) {t : Timer} (ht : t ∈ c.armed) : Settled (c.next (.fire t)) where
  wellFormed := h.wellFormed
  fits u hu hr := h.fits u (Finset.mem_of_mem_erase hu) hr
  clear := by
    by_cases hr : t ∈ responseTimers
    · exact .inl (Pc.inExchange_of_mem h.wellFormed (h.fits t ht hr))
    · refine h.clear.imp_right (Or.imp_right fun hc e he => ?_)
      rcases mem_append.mp he with he | he
      · exact hc e he
      · rw [mem_singleton] at he
        rintro ⟨u, hu, hetimer⟩
        rw [he, Option.some.injEq] at hetimer
        exact hr (hetimer ▸ hu)

theorem Settled.pushEvent (h : Settled c) (he : e.timer = none) : Settled (c.pushEvent e) :=
  h.of_same rfl rfl rfl fun e' he' => by
    rcases mem_append.mp he' with he' | he'
    · exact .inl he'
    · refine .inr fun ⟨t, _, htimer⟩ => ?_
      rw [mem_singleton.mp he', he] at htimer
      exact absurd htimer (by simp)

theorem Settled.call (h : Settled c) (type : EventType) : Settled (c.next (.call type)) := by
  show Settled (UfcsClass.call type c)
  simp only [UfcsClass.call]
  split
  · exact (Settled.pushEvent (h.of_same rfl rfl rfl fun _ => .inl) rfl).of_same rfl rfl rfl fun _ => .inl
  · split
    · exact (Settled.pushEvent (h.of_same rfl rfl rfl fun _ => .inl) rfl).of_same rfl rfl rfl fun _ => .inl
    · exact h.of_same rfl rfl rfl fun _ => .inl

theorem Settled.wake (h : Settled c) : Settled (c.next .wake) := by
  show Settled (UfcsClass.wake c)
  rw [UfcsClass.wake]
  split
  · exact h
  · exact h.of_same rfl rfl rfl fun _ => .inl

theorem Settled.exit (ht : ∀ t ∈ responseTimers, t ∉ c.armed) : Settled (c.next .exit) where
  wellFormed := trivial
  fits t hmem hr := absurd hmem (ht t hr)
  clear := .inr (.inr (UfcsClass.clear_of_events rfl))

theorem settled_next (h : Settled c) {a : Action} (ha : c.Enabled a) (hs : Settles c a) :
    Settled (c.next a) := by
  cases a with
  | push e => exact h.pushEvent ha.2.1
  | fire t => exact h.fire ha
  | call type => exact h.call type
  | wake => exact h.wake
  | read => exact h.of_same rfl rfl rfl fun _ => .inl
  | take => exact UfcsClass.settled_take h ha.1 ha.2.1 hs
  | refuse => exact h.of_same rfl rfl rfl fun e he => .inl (mem_of_mem_tail he)
  | sent rc => exact UfcsClass.settled_sent h ha.1 ha.2.1 ha.2.2
  | exit => exact .exit hs

theorem settled_init (handshakeHardRetry : Bool) : Settled (.init handshakeHardRetry) where
  wellFormed := trivial
  fits t ht := absurd ht (Finset.notMem_empty t)
  clear := .inr (.inr (UfcsClass.clear_of_events rfl))

theorem settled_of_reachable (h : (machine Settles).Reachable c) : Settled c := by
  apply h.invariant
  · rintro s ⟨handshakeHardRetry, rfl⟩
    exact settled_init handshakeHardRetry
  · exact fun s a hs ha => settled_next hs ha.1 ha.2

def acceptedRun : List Action :=
  handshakeRun ++ requestRun ++
    [.push (.received .recvAccept), .take, .push (.received .recvPowerReady), .take, .wake, .read]

def readyRun : List Action :=
  handshakeRun ++ requestRun ++ [.push (.received .recvPowerReady), .take]

end Sm8750Modules.UfcsPe
