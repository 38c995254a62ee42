import Sm8750Modules.UfcsSender.Worker

/-!
# UFCS sender — deadlocks

A thread that waits for the end of its message is woken by a work of the worker. So the worker must not
wait itself: neither for the end of a message of its own, nor for the lock of a thread that waits.
-/

namespace Sm8750Modules.UfcsSender

open Function List

variable {c c' c'' : UfcsClass} {t : Thread} {s : Send}

/-- The steps of the works, of the calls under way and of the timers. -/
def Action.Internal : Action → Prop
  | .work _ | .recv _ _ | .recvLock | .replied | .thread _ | .fire _ => True
  | _ => False

/-- What the sender must not lose. -/
structure NoDeadlock (c : UfcsClass) : Prop where
  /-- no work waits for the completion that only another work of the worker brings about -/
  notSelf : ∀ s, c.pc .worker = some s → s.stage = .wait → c.canStep .worker = true
  progress : ∀ t, c.pc t ≠ none → ∃ a : Action, a.Internal ∧ c.Enabled a

/-- `ufcs_recv_work` has found the sender idle and is about to take its lock. -/
def Running.AtLock : Running → Prop
  | .recvLock _ _ => True
  | _ => False

instance : ∀ r : Running, Decidable r.AtLock
  | .recvLock _ _ => isTrue trivial
  | .idle | .recv | .reply => isFalse id

def UfcsClass.waits (c : UfcsClass) : Bool :=
  c.lock.any fun t => (c.pc t).any fun s => s.stage = .wait

/-- The condition of a step: the event work sends nothing itself, no thread takes the lock of the sender
between the look of the receive work at it and its own taking, and no handshake starts while a message
waits for a timer. -/
def Avoids (c : UfcsClass) : Action → Prop
  | .work _ => c.queue.head? = some .eventWork → c.eventReply = none
  | .thread t => c.running.AtLock → ∀ s ∈ c.pc t, s.stage ≠ .lock
  | .reset => c.waits = true → c.status ≠ .pending ∧ c.status ≠ .waitAck
  | _ => True

instance (c : UfcsClass) : ∀ a, Decidable (Avoids c a)
  | .work _ => inferInstanceAs (Decidable (c.queue.head? = some .eventWork → c.eventReply = none))
  | .thread t => inferInstanceAs (Decidable (c.running.AtLock → ∀ s ∈ c.pc t, s.stage ≠ .lock))
  | .reset =>
    inferInstanceAs (Decidable (c.waits = true → c.status ≠ .pending ∧ c.status ≠ .waitAck))
  | .irq | .recv _ _ | .recvLock | .replied | .send _ _ _ | .fire _ | .exit => isTrue trivial

def Fed (c : UfcsClass) : Prop :=
  0 < c.ack ∨ c.ackAll = true ∨ .msgSendWork ∈ c.queue ∨ c.status = .pending ∨ c.status = .waitAck

/-- The steps of a call between which the sender has its message. -/
def Stage.HasMsg : Stage → Prop
  | .reinit | .queue | .wait | .cancel => True
  | _ => False

/-- The invariant. -/
structure Inv (c : UfcsClass) : Prop where
  worker : c.pc .worker = none
  running : c.running ≠ .reply
  atLock : c.running.AtLock → c.lock = none
  holder : ∀ t s, c.pc t = some s → (s.stage ≠ .lock ↔ c.lock = some t)
  held : ∀ t, c.lock = some t → c.pc t ≠ none
  msg : ∀ t s, c.pc t = some s → s.stage.HasMsg → c.msg ≠ none
  pending : c.status = .pending → c.msgTransDelayTimer = true
  waitAck : c.status = .waitAck → c.ackReceiveTimer = true
  fed : ∀ t s, c.pc t = some s → s.stage = .wait → Fed c

/-- What the steps of the works and of the timers keep. -/
structure Keeps (c c' : UfcsClass) : Prop where
  pc : c'.pc = c.pc
  lock : c'.lock = c.lock
  msg : c'.msg = c.msg
  pending : (c.status = .pending → c.msgTransDelayTimer = true) → c'.status = .pending →
    c'.msgTransDelayTimer = true
  waitAck : (c.status = .waitAck → c.ackReceiveTimer = true) → c'.status = .waitAck →
    c'.ackReceiveTimer = true
  fed : c.msg ≠ none → Fed c → Fed c'

theorem Keeps.refl (c : UfcsClass) : Keeps c c := ⟨rfl, rfl, rfl, id, id, fun _ => id⟩

theorem Keeps.trans (h : Keeps c c') (h' : Keeps c' c'') : Keeps c c'' where
  pc := h'.pc.trans h.pc
  lock := h'.lock.trans h.lock
  msg := h'.msg.trans h.msg
  pending hp := h'.pending (h.pending hp)
  waitAck hw := h'.waitAck (h.waitAck hw)
  fed hm hf := h'.fed (by rw [h.msg]; exact hm) (h.fed hm hf)

theorem Inv.keep (h : Inv c) (hk : Keeps c c') (hrun : c'.running ≠ .reply)
    (hlock : c'.running.AtLock → c'.lock = none) : Inv c' where
  worker := by rw [hk.pc]; exact h.worker
  running := hrun
  atLock := hlock
  holder t s hs := by
    rw [hk.pc] at hs
    rw [hk.lock]
    exact h.holder t s hs
  held t ht := by
    rw [hk.lock] at ht
    rw [hk.pc]
    exact h.held t ht
  msg t s hs hm := by
    rw [hk.pc] at hs
    rw [hk.msg]
    exact h.msg t s hs hm
  pending := hk.pending h.pending
  waitAck := hk.waitAck h.waitAck
  fed t s hs hw := by
    rw [hk.pc] at hs
    exact hk.fed (h.msg t s hs (by rw [hw]; trivial)) (h.fed t s hs hw)

namespace UfcsClass

/-! ### The works -/

theorem mem_queueWork (w : Work) (c : UfcsClass) : w ∈ (queueWork w c).queue := by
  rw [queueWork]
  split
  · assumption
  · exact mem_append_right _ mem_cons_self

theorem queueWork_queue_subset {w w' : Work} (h : w' ∈ c.queue) : w' ∈ (queueWork w c).queue := by
  rw [queueWork]
  split
  · exact h
  · exact mem_append_left _ h

theorem queueWork_eq (w : Work) (c : UfcsClass) :
    queueWork w c = { c with queue := (queueWork w c).queue } := by
  rw [queueWork]
  split <;> rfl

theorem keeps_queueWork (w : Work) (c : UfcsClass) : Keeps c (queueWork w c) := by
  rw [queueWork_eq]
  refine ⟨rfl, rfl, rfl, id, id, fun _ hf => ?_⟩
  exact hf.imp_right (Or.imp_right (Or.imp_left queueWork_queue_subset))

theorem keeps_complete {status : MsgSendStatus} (hp : status ≠ .pending) (hw : status ≠ .waitAck)
    (c : UfcsClass) : Keeps c (complete status c) :=
  ⟨rfl, rfl, rfl, fun _ h => absurd h hp, fun _ h => absurd h hw, fun _ _ => .inl (Nat.succ_pos _)⟩

theorem keeps_complete_stop {status : MsgSendStatus} (hp : status ≠ .pending) (hw : status ≠ .waitAck)
    (c : UfcsClass) : Keeps c (complete status (stopAckReceiveTimer c)) :=
  ⟨rfl, rfl, rfl, fun _ h => absurd h hp, fun _ h => absurd h hw, fun _ _ => .inl (Nat.succ_pos _)⟩

theorem keeps_writeMsg (m : MsgKind) (written : Bool) (c : UfcsClass) :
    Keeps c (writeMsg m written c) ∧ Fed (writeMsg m written c) := by
  rw [writeMsg]
  split
  · exact ⟨keeps_complete_stop (by decide) (by decide) c, .inl (Nat.succ_pos _)⟩
  · split
    · exact ⟨keeps_complete (by decide) (by decide) c, .inl (Nat.succ_pos _)⟩
    · split
      · exact ⟨keeps_complete (by decide) (by decide) c, .inl (Nat.succ_pos _)⟩
      · have hfed : Fed { c with status := .waitAck, ackReceiveTimer := true } :=
          .inr (.inr (.inr (.inr rfl)))
        exact ⟨⟨rfl, rfl, rfl, fun _ h => absurd h (by simp), fun _ _ => rfl, fun _ _ => hfed⟩, hfed⟩

theorem keeps_msgSendWork (written : Bool) (c : UfcsClass) :
    Keeps c (msgSendWork written c) ∧ (c.msg ≠ none → Fed (msgSendWork written c)) := by
  rw [msgSendWork]
  split
  · rename_i hnone
    exact ⟨.refl c, fun h => absurd hnone h⟩
  · rename_i m hm
    have hwrite := keeps_writeMsg m written c
    have hretry := keeps_writeMsg m written { c with msgRetryCount := c.msgRetryCount + 1 }
    have hcount : Keeps c { c with msgRetryCount := c.msgRetryCount + 1 } :=
      ⟨rfl, rfl, rfl, id, id, fun _ => id⟩
    split
    · exact ⟨hwrite.1, fun _ => hwrite.2⟩
    · split
      · exact ⟨hcount.trans hretry.1, fun _ => hretry.2⟩
      · exact ⟨hcount.trans hretry.1, fun _ => hretry.2⟩
      · exact ⟨keeps_complete (by decide) (by decide) c, fun _ => .inl (Nat.succ_pos _)⟩
      · exact ⟨keeps_complete (by decide) (by decide) c, fun _ => .inl (Nat.succ_pos _)⟩
      · exact ⟨keeps_complete (by decide) (by decide) c, fun _ => .inl (Nat.succ_pos _)⟩
      · rename_i hstatus
        exact ⟨.refl c, fun _ => .inr (.inr (.inr (.inl hstatus)))⟩
      · rename_i hstatus
        exact ⟨.refl c, fun _ => .inr (.inr (.inr (.inr hstatus)))⟩
      · exact ⟨hwrite.1, fun _ => hwrite.2⟩

theorem writeMsg_running (m : MsgKind) (written : Bool) (c : UfcsClass) :
    (writeMsg m written c).running = c.running := by
  rw [writeMsg]
  split
  · rfl
  · split
    · rfl
    · split <;> rfl

theorem msgSendWork_running (written : Bool) (c : UfcsClass) :
    (msgSendWork written c).running = c.running := by
  rw [msgSendWork]
  split
  · rfl
  · split
    · exact writeMsg_running ..
    · split
      · exact writeMsg_running ..
      · exact writeMsg_running ..
      · rfl
      · rfl
      · rfl
      · rfl
      · rfl
      · exact writeMsg_running ..

theorem keeps_tail {w : Work} {rest : List Work} (hq : c.queue = w :: rest) (hw : w ≠ .msgSendWork) :
    Keeps c { c with queue := rest } := by
  refine ⟨rfl, rfl, rfl, id, id, fun _ hf => ?_⟩
  refine hf.imp_right (Or.imp_right (Or.imp_left fun hmem => ?_))
  rw [hq] at hmem
  exact (mem_cons.mp hmem).resolve_left hw.symm

theorem keeps_checkErrorInfo (f : ErrFlags) (c : UfcsClass) : Keeps c (checkErrorInfo f c).1 := by
  rw [checkErrorInfo]
  split
  · exact .refl c
  · split
    · exact keeps_complete (by decide) (by decide) c
    · split
      · exact keeps_complete_stop (by decide) (by decide) c
      · split
        · split
          · split
            · exact keeps_complete_stop (by decide) (by decide) c
            · exact .refl c
          · split
            · exact .refl c
            · split
              · exact ⟨rfl, rfl, rfl, fun _ h => absurd h (by simp [complete]),
                  fun _ h => absurd h (by simp [complete]), fun _ _ => .inl (Nat.succ_pos _)⟩
              · exact .refl c
        · exact .refl c

theorem keeps_recvAckNckMsg (kind : MsgKind) (c : UfcsClass) : Keeps c (recvAckNckMsg kind c).1 := by
  simp only [recvAckNckMsg]
  split
  · split
    · exact keeps_complete_stop (by decide) (by decide) c
    · have hqueue := mem_queueWork .msgSendWork { stopAckReceiveTimer c with status := .nck }
      rw [queueWork_eq]
      exact ⟨rfl, rfl, rfl, fun _ h => absurd h (by simp), fun _ h => absurd h (by simp),
        fun _ _ => .inr (.inr (.inl hqueue))⟩
  · rename_i hstatus
    exact ⟨rfl, rfl, rfl, id, fun _ h => absurd h hstatus, fun _ => id⟩

theorem keeps_recvDone (again : Bool) (c : UfcsClass) : Keeps c (recvDone again c) :=
  ⟨rfl, rfl, rfl, id, id, fun _ => id⟩

theorem recvDone_running (again : Bool) (c : UfcsClass) :
    (recvDone again c).running ≠ .reply ∧ ¬(recvDone again c).running.AtLock := by
  cases again
  · exact ⟨by simp [recvDone], by simp [recvDone, Running.AtLock]⟩
  · exact ⟨by simp [recvDone], by simp [recvDone, Running.AtLock]⟩

end UfcsClass

theorem Inv.recvDone (h : Inv c) (hk : Keeps c c') (again : Bool) : Inv (c'.recvDone again) := by
  have hrun := UfcsClass.recvDone_running again c'
  exact h.keep (hk.trans (UfcsClass.keeps_recvDone again c')) hrun.1 fun hl => absurd hl hrun.2

theorem Inv.recvEvent (h : Inv c) (hk : Keeps c c') (frame : Frame) (again : Bool) :
    Inv (c'.recvEvent frame again) := by
  have hframe : Keeps c' { c' with recvMsg := some frame } := ⟨rfl, rfl, rfl, id, id, fun _ => id⟩
  exact h.recvDone (hk.trans (hframe.trans (UfcsClass.keeps_queueWork _ _))) again

theorem Inv.recvWork (h : Inv c) (input : RecvInput) (again : Bool) : Inv (c.recvWork input again) := by
  cases input with
  | failed =>
    have hidle : (UfcsClass.recvWork .failed again c).running = .idle := rfl
    exact h.keep ⟨rfl, rfl, rfl, id, id, fun _ => id⟩ (by rw [hidle]; simp) fun hl => hl.elim
  | handshake => exact h.recvDone (.refl c) again
  | flags f frame =>
    have hcheck := UfcsClass.keeps_checkErrorInfo f c
    simp only [UfcsClass.recvWork]
    split
    · exact h.recvDone hcheck again
    · split
      · exact h.recvDone hcheck again
      · rename_i received
        split
        · have htaken := hcheck.trans (UfcsClass.keeps_recvAckNckMsg received.kind _)
          split
          · exact h.recvDone htaken again
          · exact h.recvEvent htaken received again
        · split
          · rename_i hlock
            refine h.keep (hcheck.trans ⟨rfl, rfl, rfl, id, id, fun _ => id⟩) (by simp) fun _ => hlock.2
          · exact h.recvEvent hcheck received again

theorem Inv.work (h : Inv c) (hidle : c.running = .idle) (written : Bool)
    (havoid : Avoids c (.work written)) : Inv (c.work written) := by
  rw [UfcsClass.work]
  split
  · exact h
  · rename_i rest hq
    have htail := UfcsClass.keeps_tail hq (by decide)
    exact h.keep (htail.trans ⟨rfl, rfl, rfl, id, id, fun _ => id⟩) (by simp) fun hl => hl.elim
  · rename_i rest hq
    have hnone : ({ c with queue := rest } : UfcsClass).eventReply = none := havoid (by rw [hq]; rfl)
    have htail := UfcsClass.keeps_tail hq (by decide)
    simp only [UfcsClass.eventWork, hnone]
    exact h.keep (htail.trans ⟨rfl, rfl, rfl, id, id, fun _ => id⟩) (by simp) fun hl => hl.elim
  · rename_i rest hq
    obtain ⟨hk, hfed⟩ := UfcsClass.keeps_msgSendWork written { c with queue := rest }
    have hrun := UfcsClass.msgSendWork_running written { c with queue := rest }
    refine h.keep ⟨hk.pc, hk.lock, hk.msg, hk.pending, hk.waitAck, fun hm _ => hfed hm⟩ ?_ ?_
    · rw [hrun, hidle]
      simp
    · rw [hrun, hidle]
      exact fun hl => hl.elim

theorem UfcsClass.keeps_fire (t : Timer) (c : UfcsClass) : Keeps c (c.fire t) := by
  cases t with
  | ackReceive =>
    have hqueue := mem_queueWork .msgSendWork { c with ackReceiveTimer := false, status := .ackTimeout }
    rw [fire, queueWork_eq]
    exact ⟨rfl, rfl, rfl, fun _ h => absurd h (by simp), fun _ h => absurd h (by simp),
      fun _ _ => .inr (.inr (.inl hqueue))⟩
  | msgTransDelay =>
    simp only [fire]
    split
    · rename_i hstatus
      exact ⟨rfl, rfl, rfl, fun _ h => absurd h hstatus, id, fun _ => id⟩
    · split
      · have hqueue := mem_queueWork .msgSendWork
          { c with msgTransDelayTimer := false, status := .start }
        rw [queueWork_eq]
        exact ⟨rfl, rfl, rfl, fun _ h => absurd h (by simp), fun _ h => absurd h (by simp),
          fun _ _ => .inr (.inr (.inl hqueue))⟩
      · rename_i hnone
        exact ⟨rfl, rfl, rfl, fun _ h => absurd h (by simp), fun _ h => absurd h (by simp),
          fun hm _ => absurd (Option.isSome_iff_ne_none.mpr hm) hnone⟩

theorem UfcsClass.fire_running (t : Timer) (c : UfcsClass) : (c.fire t).running = c.running := by
  cases t with
  | ackReceive => rw [fire, queueWork_eq]
  | msgTransDelay =>
    simp only [fire]
    split
    · rfl
    · split
      · rw [queueWork_eq]
      · rfl

theorem Inv.holds (h : Inv c) (hs : c.pc t = some s) (hstage : s.stage ≠ .lock) : c.lock = some t :=
  (h.holder t s hs).mp hstage

theorem Inv.others (h : Inv c) (hlock : c.lock = some t ∨ c.lock = none) {t' : Thread} {s' : Send}
    (hne : t' ≠ t) (hs' : c.pc t' = some s') : s'.stage = .lock := by
  by_contra hstage
  have hl := h.holds hs' hstage
  rcases hlock with hlock | hlock
  · rw [hl, Option.some.injEq] at hlock
    exact hne hlock
  · rw [hl] at hlock
    exact absurd hlock (by simp)

theorem Inv.move (h : Inv c) (ht : t ≠ .worker) (hlock : c.lock = some t ∨ c.lock = none)
    {new : Option Send} (hpc : c'.pc = update c.pc t new) (hrun : c'.running = c.running)
    (hlock' : c'.lock = some t ∨ c'.lock = none) (hatLock : c.running.AtLock → c'.lock = none)
    (hnew : ∀ s, new = some s → (s.stage ≠ .lock ↔ c'.lock = some t))
    (hheld : c'.lock = some t → new ≠ none)
    (hmsg : ∀ s, new = some s → s.stage.HasMsg → c'.msg ≠ none)
    (hpending : c'.status = .pending → c'.msgTransDelayTimer = true)
    (hwaitAck : c'.status = .waitAck → c'.ackReceiveTimer = true)
    (hfed : ∀ s, new = some s → s.stage = .wait → Fed c') : Inv c' := by
  have hsame : c'.pc t = new := by rw [hpc, update_self]
  have hother (t' : Thread) (hne : t' ≠ t) : c'.pc t' = c.pc t' := by
    rw [hpc, update_of_ne hne]
  have hstage (t' : Thread) (s' : Send) (hne : t' ≠ t) (hs' : c'.pc t' = some s') : s'.stage = .lock :=
    h.others hlock hne (hother t' hne ▸ hs')
  refine ⟨?_, ?_, ?_, fun t' s' hs' => ?_, fun t' ht' => ?_, fun t' s' hs' hm => ?_, hpending, hwaitAck,
    fun t' s' hs' hw => ?_⟩
  · rw [hother _ (Ne.symm ht)]
    exact h.worker
  · rw [hrun]
    exact h.running
  · rw [hrun]
    exact hatLock
  · by_cases hne : t' = t
    · subst hne
      exact hnew s' (hsame ▸ hs')
    · have hl := hstage t' s' hne hs'
      refine ⟨fun hn => absurd hl hn, fun hl' => ?_⟩
      rcases hlock' with hlock' | hlock'
      · rw [hl', Option.some.injEq] at hlock'
        exact absurd hlock' hne
      · rw [hl'] at hlock'
        exact absurd hlock' (by simp)
  · have heq : t' = t := by
      rcases hlock' with hlock' | hlock'
      · rw [ht', Option.some.injEq] at hlock'
        exact hlock'
      · rw [ht'] at hlock'
        exact absurd hlock' (by simp)
    rw [heq, hsame]
    exact hheld (heq ▸ ht')
  · by_cases hne : t' = t
    · subst hne
      exact hmsg s' (hsame ▸ hs') hm
    · rw [hstage t' s' hne hs'] at hm
      exact hm.elim
  · by_cases hne : t' = t
    · subst hne
      exact hfed s' (hsame ▸ hs') hw
    · rw [hstage t' s' hne hs'] at hw
      exact absurd hw (by decide)

theorem Inv.send (h : Inv c) {n : ℕ} (hn : c.pc (.task n) = none) (msg : MsgKind) (retry : Bool) :
    Inv (c.next (.send n msg retry)) := by
  have hfree : c.lock ≠ some (.task n) := fun hl => h.held _ hl hn
  have hsame : (c.next (.send n msg retry)).pc (.task n) = some ⟨msg, retry, false, none, .lock⟩ :=
    update_self ..
  have hother (t : Thread) (hne : t ≠ .task n) : (c.next (.send n msg retry)).pc t = c.pc t :=
    update_of_ne hne ..
  refine ⟨?_, h.running, h.atLock, fun t s hs => ?_, fun t ht => ?_, fun t s hs hm => ?_, h.pending,
    h.waitAck, fun t s hs hw => ?_⟩
  · rw [hother _ (by simp)]
    exact h.worker
  · by_cases hne : t = .task n
    · rw [hne, hsame, Option.some.injEq] at hs
      rw [← hs, hne]
      exact ⟨fun hl => absurd rfl hl, fun hl => absurd hl hfree⟩
    · rw [hother t hne] at hs
      exact h.holder t s hs
  · have hne : t ≠ .task n := fun heq => hfree (heq ▸ ht)
    rw [hother t hne]
    exact h.held t ht
  · by_cases hne : t = .task n
    · rw [hne, hsame, Option.some.injEq] at hs
      rw [← hs] at hm
      exact hm.elim
    · rw [hother t hne] at hs
      exact h.msg t s hs hm
  · by_cases hne : t = .task n
    · rw [hne, hsame, Option.some.injEq] at hs
      rw [← hs] at hw
      exact absurd hw (by simp)
    · rw [hother t hne] at hs
      exact h.fed t s hs hw

theorem UfcsClass.finish_eq (t : Thread) (s : Send) (c : UfcsClass) :
    ∃ new : Option Send, (∀ s', new = some s' → s'.stage = .lock) ∧
      c.finish t s =
        { c with
          status := .pending
          msgTransDelayTimer := true
          lock := none
          pc := update c.pc t new } := by
  simp only [finish]
  split
  · exact ⟨_, fun s' hs' => by rw [← Option.some.inj hs'], rfl⟩
  · rw [returns]
    split
    · exact ⟨none, fun s' hs' => absurd hs' (by simp), rfl⟩
    · split
      · exact ⟨_, fun s' hs' => by rw [← Option.some.inj hs'], rfl⟩
      · exact ⟨none, fun s' hs' => absurd hs' (by simp), rfl⟩

theorem Inv.ne_worker (h : Inv c) (hs : c.pc t = some s) : t ≠ .worker := by
  intro heq
  rw [heq, h.worker] at hs
  exact absurd hs (by simp)

theorem Inv.not_atLock (h : Inv c) (hl : c.lock = some t) : ¬c.running.AtLock := by
  intro hat
  rw [h.atLock hat] at hl
  exact absurd hl (by simp)

theorem Inv.goOn (h : Inv c) (hs : c.pc t = some s) (hstage : s.stage ≠ .lock) {stage : Stage}
    (hnext : stage ≠ .lock) (hpc : c'.pc = update c.pc t (some { s with stage := stage }))
    (hrun : c'.running = c.running) (hlock : c'.lock = c.lock) (hmsg : stage.HasMsg → c'.msg ≠ none)
    (hpending : c'.status = .pending → c'.msgTransDelayTimer = true)
    (hwaitAck : c'.status = .waitAck → c'.ackReceiveTimer = true) (hfed : stage = .wait → Fed c') :
    Inv c' := by
  have hl := h.holds hs hstage
  have hl' : c'.lock = some t := hlock.trans hl
  refine h.move (h.ne_worker hs) (.inl hl) hpc hrun (.inl hl') (fun hat => absurd hat (h.not_atLock hl))
    (fun s' hs' => ?_) (fun _ => by simp) (fun s' hs' hm => ?_) hpending hwaitAck fun s' hs' hw => ?_
  · rw [← Option.some.inj hs']
    exact ⟨fun _ => hl', fun _ => hnext⟩
  · rw [← Option.some.inj hs'] at hm
    exact hmsg hm
  · rw [← Option.some.inj hs'] at hw
    exact hfed hw

theorem Inv.thread (h : Inv c) (ht : c.canStep t = true) (havoid : Avoids c (.thread t)) :
    Inv (c.thread t) := by
  cases hs : c.pc t with
  | none => simp [UfcsClass.canStep, hs] at ht
  | some s =>
    simp only [UfcsClass.thread, hs]
    cases hstage : s.stage with
    | lock =>
      have hfree : c.lock = none := by simpa [UfcsClass.canStep, hs, hstage] using ht
      refine h.move (h.ne_worker hs) (.inr hfree) rfl rfl (.inl rfl)
        (fun hat => absurd hstage (havoid hat s hs)) (fun s' hs' => ?_) (fun _ => by simp)
        (fun s' hs' hm => ?_) h.pending h.waitAck fun s' hs' hw => ?_
      · rw [← Option.some.inj hs']
        exact ⟨fun _ => rfl, fun _ => by simp⟩
      · rw [← Option.some.inj hs'] at hm
        exact hm.elim
      · rw [← Option.some.inj hs'] at hw
        exact absurd hw (by simp)
    | setMsg =>
      exact h.goOn hs (by rw [hstage]; decide) (show Stage.reinit ≠ .lock by decide) rfl rfl rfl
        (fun _ => by simp [UfcsClass.atSend]) h.pending h.waitAck fun hw => absurd hw (by decide)
    | reinit =>
      exact h.goOn hs (by rw [hstage]; decide) (show Stage.queue ≠ .lock by decide) rfl rfl rfl
        (fun _ => h.msg t s hs (by rw [hstage]; trivial)) h.pending h.waitAck
        fun hw => absurd hw (by decide)
    | queue =>
      have hmem := UfcsClass.mem_queueWork .msgSendWork c
      simp only
      rw [UfcsClass.queueWork_eq]
      exact h.goOn hs (by rw [hstage]; decide) (show Stage.wait ≠ .lock by decide) rfl rfl rfl
        (fun _ => h.msg t s hs (by rw [hstage]; trivial)) h.pending h.waitAck
        fun _ => .inr (.inr (.inl hmem))
    | wait =>
      exact h.goOn hs (by rw [hstage]; decide) (show Stage.cancel ≠ .lock by decide) rfl rfl rfl
        (fun _ => h.msg t s hs (by rw [hstage]; trivial)) h.pending h.waitAck
        fun hw => absurd hw (by decide)
    | cancel =>
      exact h.goOn hs (by rw [hstage]; decide) (show Stage.finish ≠ .lock by decide) rfl rfl rfl
        (fun hm => hm.elim) h.pending h.waitAck fun hw => absurd hw (by decide)
    | finish =>
      obtain ⟨new, hnew, heq⟩ := UfcsClass.finish_eq t s c
      have hl := h.holds hs (by rw [hstage]; decide)
      simp only
      rw [heq]
      refine h.move (h.ne_worker hs) (.inl hl) rfl rfl (.inr rfl) (fun _ => rfl) (fun s' hs' => ?_)
        (fun hl' => absurd hl' (by simp)) (fun s' hs' hm => ?_) (fun _ => rfl)
        (fun hw => absurd hw (by simp)) fun s' hs' hw => ?_
      · exact ⟨fun hn => absurd (hnew s' hs') hn, fun hl' => absurd hl' (by simp)⟩
      · rw [hnew s' hs'] at hm
        exact hm.elim
      · rw [hnew s' hs'] at hw
        exact absurd hw (by decide)

theorem Inv.recvLock (h : Inv c) (ha : c.canRecvLock = true) : Inv (c.next .recvLock) := by
  rw [UfcsClass.canRecvLock] at ha
  split at ha
  · rename_i frame again hrun
    have hk : Keeps c { c with status := .pending, msgTransDelayTimer := true } :=
      ⟨rfl, rfl, rfl, fun _ _ => rfl, fun _ hw => absurd hw (by simp),
        fun _ _ => .inr (.inr (.inr (.inl rfl)))⟩
    simp only [UfcsClass.next, hrun]
    exact h.recvEvent hk frame again
  · exact absurd ha (by simp)

theorem Inv.exit (h : Inv c) : Inv (c.next .exit) := by
  refine h.keep ⟨rfl, rfl, rfl, ?_, ?_, fun _ _ => .inr (.inl rfl)⟩ h.running h.atLock
  · exact fun _ hp => absurd hp (by simp [UfcsClass.next])
  · exact fun _ hw => absurd hw (by simp [UfcsClass.next])

theorem Inv.reset (h : Inv c) (havoid : Avoids c .reset) : Inv (c.next .reset) := by
  refine ⟨h.worker, h.running, h.atLock, h.holder, h.held, h.msg, fun hp => absurd hp (by simp [UfcsClass.next]),
    fun hw => absurd hw (by simp [UfcsClass.next]), fun t s hs hw => ?_⟩
  have hs : c.pc t = some s := hs
  have hl := h.holds hs (by rw [hw]; decide)
  obtain ⟨hp, ha⟩ := havoid (by simp [UfcsClass.waits, hl, hs, hw])
  rcases h.fed t s hs hw with hack | hall | hmem | hstatus | hstatus
  · exact .inl hack
  · exact .inr (.inl hall)
  · exact .inr (.inr (.inl hmem))
  · exact absurd hstatus hp
  · exact absurd hstatus ha

theorem inv_next (h : Inv c) {a : Action} (ha : c.Enabled a) (havoid : Avoids c a) : Inv (c.next a) := by
  cases a with
  | irq =>
    have hk := UfcsClass.keeps_queueWork .recvWork c
    have hrun : (UfcsClass.queueWork .recvWork c).running = c.running := by
      rw [UfcsClass.queueWork_eq]
    refine h.keep hk ?_ fun hl => ?_
    · show (UfcsClass.queueWork .recvWork c).running ≠ .reply
      rw [hrun]
      exact h.running
    · exact hk.lock.trans (h.atLock (hrun ▸ hl))
  | work written => exact h.work ha.1 written havoid
  | recv input again => exact h.recvWork input again
  | recvLock => exact h.recvLock ha
  | replied => exact absurd ha.1 h.running
  | send n msg retry => exact h.send ha msg retry
  | thread t => exact h.thread ha havoid
  | fire t =>
    refine h.keep (UfcsClass.keeps_fire t c) ?_ fun hl => ?_
    · rw [show (c.next (.fire t)).running = c.running from UfcsClass.fire_running t c]
      exact h.running
    · have hrun : c.running.AtLock := UfcsClass.fire_running t c ▸ hl
      rw [show (c.next (.fire t)).lock = c.lock from (UfcsClass.keeps_fire t c).lock]
      exact h.atLock hrun
  | exit => exact h.exit
  | reset => exact h.reset havoid

theorem inv_init (config : UfcsConfig) : Inv (.init config) where
  worker := rfl
  running := by simp [UfcsClass.init]
  atLock := fun h => h.elim
  holder t s hs := absurd hs (by simp [UfcsClass.init])
  held t ht := absurd ht (by simp [UfcsClass.init])
  msg t s hs := absurd hs (by simp [UfcsClass.init])
  pending hp := absurd hp (by simp [UfcsClass.init])
  waitAck hw := absurd hw (by simp [UfcsClass.init])
  fed t s hs := absurd hs (by simp [UfcsClass.init])

theorem inv_of_reachable (h : (machine Avoids).Reachable c) : Inv c := by
  apply h.invariant
  · rintro s ⟨config, rfl⟩
    exact inv_init config
  · exact fun s a hs ha => inv_next hs ha.1 ha.2

theorem Inv.progress_holder (h : Inv c) (ht : c.lock = some t) :
    ∃ a : Action, a.Internal ∧ c.Enabled a := by
  obtain ⟨s, hs⟩ := Option.ne_none_iff_exists'.mp (h.held t ht)
  have hnot := (h.holder t s hs).mpr ht
  by_cases hstep : c.canStep t = true
  · exact ⟨.thread t, trivial, hstep⟩
  · -- the thread can only be at its wait, with nothing completed
    have hwait : s.stage = .wait ∧ c.ack = 0 ∧ c.ackAll = false := by
      cases hstage : s.stage with
      | lock => exact absurd hstage hnot
      | wait => simpa [UfcsClass.canStep, hs, hstage] using hstep
      | setMsg | reinit | queue | cancel | finish => simp [UfcsClass.canStep, hs, hstage] at hstep
    obtain ⟨hstage, hack, hall⟩ := hwait
    rcases h.fed t s hs hstage with hfed | hfed | hmem | hstatus | hstatus
    · omega
    · rw [hall] at hfed
      exact absurd hfed (by simp)
    · cases hrun : c.running with
      | idle => exact ⟨.work true, trivial, hrun, ne_nil_of_mem hmem⟩
      | recv => exact ⟨.recv .failed false, trivial, hrun⟩
      | recvLock frame again => exact absurd (by rw [hrun]; trivial) (h.not_atLock ht)
      | reply => exact absurd hrun h.running
    · exact ⟨.fire .msgTransDelay, trivial, h.pending hstatus⟩
    · exact ⟨.fire .ackReceive, trivial, h.waitAck hstatus⟩

/-- **The sender never deadlocks** in all runs whose steps meet the condition: no work waits for another
one of the same worker, and every message that is being sent has a step ahead. -/
theorem noDeadlock_of_reachable (h : (machine Avoids).Reachable c) : NoDeadlock c := by
  have hinv := inv_of_reachable h
  refine ⟨fun s hs => absurd hs (by rw [hinv.worker]; simp), fun t hsend => ?_⟩
  obtain ⟨s, hs⟩ := Option.ne_none_iff_exists'.mp hsend
  cases hlock : c.lock with
  | some t' => exact hinv.progress_holder hlock
  | none =>
    have hstage : s.stage = .lock := hinv.others (.inr hlock) (hinv.ne_worker hs) hs
    exact ⟨.thread t, trivial, by simp [UfcsClass.Enabled, UfcsClass.canStep, hs, hstage, hlock]⟩

/-- A message that is written by the worker and acknowledged by the port. -/
def ackedRun : List Action :=
  [.send 0 .other true, .thread (.task 0), .thread (.task 0), .thread (.task 0), .thread (.task 0),
    .work true, .irq, .work true, .recv (.flags ⟨false, false, true, false, false, false⟩ none) false]

theorem noDeadlock_acked : NoDeadlock ((machine Avoids).exec (.init ⟨false, false, false⟩) ackedRun) :=
  noDeadlock_of_reachable (reachable_exec _ ackedRun (by decide))

/-- A message is received by a port that is to acknowledge it in software. -/
def replyRun : List Action :=
  [.irq, .work true, .recv (.flags ⟨false, false, false, false, false, true⟩ (some ⟨.other, true⟩)) false,
    .work true, .thread .worker, .thread .worker, .thread .worker, .thread .worker]

/-- The worker waits for a work of its own. -/
theorem not_noDeadlock : ¬∀ c, (machine fun _ _ => True).Reachable c → NoDeadlock c := by
  intro h
  have hreach := @reachable_exec (fun _ _ => True) ⟨false, true, false⟩ replyRun (by decide)
  have hself := (h _ hreach).notSelf ⟨.ack, false, false, none, .wait⟩ (by decide) rfl
  exact absurd hself (by decide)

end Sm8750Modules.UfcsSender
