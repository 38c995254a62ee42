import Sm8750Modules.Lib.Custody
import Sm8750Modules.Lib.Runs

/-!
# Camera work queue

A pool of tasks. A caller takes a free task and enqueues it; the worker takes pending tasks, the higher
priority first, calls their handlers and puts them back to the free ones. A flush sets a flag, waits for
the worker, and clears the flag. Every section under the lock of the queue, and every access to the flag,
is one step.
-/

namespace CamWorkq

open Function List

/-! ### The queue -/

inductive CrmTaskPriority
  | p0
  | p1
  deriving DecidableEq

def taskPriority (prio : ℤ) : CrmTaskPriority := if prio = 1 then .p1 else .p0

/-- Where the worker stands in `cam_req_mgr_process_workq`. -/
inductive Worker
  | idle
  | scanning (i : CrmTaskPriority)
  | taken (i : CrmTaskPriority) (t : ℕ)
  | executing (i : CrmTaskPriority) (t : ℕ)
  | executed (i : CrmTaskPriority) (t : ℕ)
  deriving DecidableEq

/-- What a task has been through since it was free. -/
inductive Life
  | free
  | held
  | enqueued
  | executed
  deriving DecidableEq

/-- What happens to a task: it is handed out, enqueued, executed, returned. -/
inductive Event
  | get
  | enqueue
  | execute
  | put
  deriving DecidableEq

/-- A task is handed out and enqueued, then executed and returned or only returned. -/
def advance : Option Life → Event → Option Life
  | some .free, .get => some .held
  | some .held, .enqueue => some .enqueued
  | some .enqueued, .execute => some .executed
  | some .enqueued, .put => some .free
  | some .executed, .put => some .free
  | _, _ => none

/-- What does not change: whether the queue has a thread of its own, whether there is a workqueue to run
the work on, and the size of the pool. -/
structure Config where
  thread : Bool
  job : Bool
  numTask : ℕ

/-- `struct cam_req_mgr_core_workq`, and the parties. `held` are the tasks that callers have got, `admitted`
those whose enqueue has passed the check, `aborting` those that an enqueue puts back; `queued` says that the
work is queued, `flushers` counts the flushes between setting and clearing `flush`. `life` is history. -/
structure CrmWorkq where
  emptyHead : List ℕ
  processHead : CrmTaskPriority → List ℕ
  freeCnt : ℤ
  pendingCnt : ℤ
  flush : Bool
  held : List ℕ
  admitted : CrmTaskPriority → List ℕ
  aborting : List ℕ
  worker : Worker
  queued : Bool
  flushers : ℕ
  life : ℕ → Option Life

/-- The queue that `cam_req_mgr_workq_create` makes. -/
def created (cfg : Config) : CrmWorkq where
  emptyHead := List.range cfg.numTask
  processHead _ := []
  freeCnt := cfg.numTask
  pendingCnt := 0
  flush := false
  held := []
  admitted _ := []
  aborting := []
  worker := .idle
  queued := false
  flushers := 0
  life _ := some .free

/-- `cam_req_mgr_workq_get_task`; `cam_req_mgr_workq_enqueue_task`, which is the check, the locked section
and the abort; an iteration of the worker; `cam_req_mgr_workq_flush`. -/
inductive Action
  | get
  | check (t : ℕ) (prio : ℤ) (cancel : Bool)
  | append (t : ℕ) (p : CrmTaskPriority)
  | abort (t : ℕ)
  | start
  | scan
  | readFlush
  | finish
  | putBack
  | flushBegin
  | flushEnd
  deriving DecidableEq

def record (life : ℕ → Option Life) (t : ℕ) (e : Event) : ℕ → Option Life :=
  Function.update life t (advance (life t) e)

/-- The locked section of `cam_req_mgr_workq_put_task`. -/
def putTask (s : CrmWorkq) (t : ℕ) : CrmWorkq :=
  { s with emptyHead := s.emptyHead ++ [t], freeCnt := s.freeCnt + 1, life := record s.life t .put }

def nextList : CrmTaskPriority → Worker
  | .p0 => .scanning .p1
  | .p1 => .idle

/-- One step; an action that nobody can take changes nothing. -/
def next (cfg : Config) (s : CrmWorkq) : Action → CrmWorkq
  | .get =>
    match s.emptyHead with
    | [] => s
    | t :: rest =>
      { s with emptyHead := rest, freeCnt := s.freeCnt - 1, held := s.held ++ [t]
               life := record s.life t .get }
  | .check t prio cancel =>
    if t ∈ s.held then
      let s := { s with held := s.held.erase t, life := record s.life t .enqueue }
      if cancel || s.flush then { s with aborting := s.aborting ++ [t] }
      else
        let p := taskPriority prio
        { s with admitted := Function.update s.admitted p (s.admitted p ++ [t]) }
    else s
  | .append t p =>
    if t ∈ s.admitted p then
      let s := { s with admitted := Function.update s.admitted p ((s.admitted p).erase t) }
      if ¬ cfg.job then { s with aborting := s.aborting ++ [t] }
      else
        { s with processHead := Function.update s.processHead p (s.processHead p ++ [t])
                 pendingCnt := s.pendingCnt + 1, queued := s.queued || !cfg.thread }
    else s
  | .abort t => if t ∈ s.aborting then putTask { s with aborting := s.aborting.erase t } t else s
  | .start =>
    if s.worker = .idle ∧ (cfg.thread ∨ s.queued) then
      { s with worker := .scanning .p0, queued := false }
    else s
  | .scan =>
    match s.worker with
    | .scanning i =>
      match s.processHead i with
      | [] => { s with worker := nextList i }
      | t :: rest =>
        { s with processHead := Function.update s.processHead i rest, pendingCnt := s.pendingCnt - 1
                 worker := .taken i t }
    | _ => s
  | .readFlush =>
    match s.worker with
    | .taken i t => if s.flush then { s with worker := .scanning i } else { s with worker := .executing i t }
    | _ => s
  | .finish =>
    match s.worker with
    | .executing i t => { s with worker := .executed i t, life := record s.life t .execute }
    | _ => s
  | .putBack =>
    match s.worker with
    | .executed i t => putTask { s with worker := .scanning i } t
    | _ => s
  | .flushBegin => { s with flush := true, flushers := s.flushers + 1 }
  | .flushEnd =>
    if 0 < s.flushers ∧ (cfg.thread ∨ s.worker = .idle) then
      { s with flush := false, flushers := s.flushers - 1, queued := false }
    else s

/-- Who can have a task. -/
inductive Party
  | pool
  | caller
  | admitted (p : CrmTaskPriority)
  | aborting
  | pending (p : CrmTaskPriority)
  | taken
  | executing
  | executed
  deriving DecidableEq

instance : Fintype Party where
  elems := {.pool, .caller, .admitted .p0, .admitted .p1, .aborting, .pending .p0, .pending .p1, .taken,
    .executing, .executed}
  complete p := by
    cases p with
    | admitted p => cases p <;> simp
    | pending p => cases p <;> simp
    | _ => simp

def Worker.takenTasks : Worker → List ℕ
  | .taken _ t => [t]
  | _ => []

def Worker.executingTasks : Worker → List ℕ
  | .executing _ t => [t]
  | _ => []

/-- The executed task that is not yet put back. -/
def Worker.executedTasks : Worker → List ℕ
  | .executed _ t => [t]
  | _ => []

def CrmWorkq.tasks (s : CrmWorkq) : Custody.Contents Party ℕ
  | .pool => s.emptyHead
  | .caller => s.held
  | .admitted p => s.admitted p
  | .aborting => s.aborting
  | .pending p => s.processHead p
  | .taken => s.worker.takenTasks
  | .executing => s.worker.executingTasks
  | .executed => s.worker.executedTasks

/-- What a task has been through when the party has it. -/
def Party.life : Party → Option Life
  | .pool => some .free
  | .caller => some .held
  | .executed => some .executed
  | _ => some .enqueued

/-- Every task of the pool is with one party, once, and no other is. -/
structure Conserves (cfg : Config) (s : CrmWorkq) : Prop where
  exclusive : Custody.Exclusive (· < cfg.numTask) s.tasks
  freeCnt : s.freeCnt = s.emptyHead.length
  pendingCnt : s.pendingCnt = (s.processHead .p0).length + (s.processHead .p1).length
  lives : Custody.Staged Party.life s.life s.tasks

def NotDropped (s : CrmWorkq) : Action → Prop
  | .readFlush => s.worker.takenTasks = [] ∨ s.flush = false
  | _ => True

/-- The queue under actions in any order. -/
def machine (cfg : Config) : Runs.Machine CrmWorkq Action where
  init s := s = created cfg
  guard := NotDropped
  next := next cfg

/-! ### What a step does -/

/-- The history of a task after an event, or without one. -/
def recordOpt (life : ℕ → Option Life) (t : ℕ) : Option Event → ℕ → Option Life
  | none => life
  | some e => record life t e

/-- The stage after an event, or without one. -/
def advanceOpt (l : Option Life) : Option Event → Option Life
  | none => l
  | some e => advance l e

/-- A step leaves the tasks alone, or moves one to another party with an event that fits. -/
inductive Effect (s s' : CrmWorkq) : Prop
  | idle (htasks : s'.tasks = s.tasks) (hlife : s'.life = s.life)
  | moved (t : ℕ) (a b : Party) (e : Option Event) (hmoves : Custody.Moves s.tasks s'.tasks t a b)
      (hlife : s'.life = recordOpt s.life t e) (hstage : advanceOpt a.life e = b.life)

section Effects

variable (cfg : Config) (s : CrmWorkq)

theorem effect_get : Effect s (next cfg s .get) := by
  rw [next]
  cases hpool : s.emptyHead with
  | nil => exact .idle rfl rfl
  | cons t rest =>
    refine .moved t .pool .caller (some .get) ⟨by decide, ?_, ?_, ?_, ?_⟩ rfl rfl
    · simp [CrmWorkq.tasks, hpool]
    · simp [CrmWorkq.tasks, hpool]
    · exact perm_append_comm
    · intro p ha hb
      cases p <;> first | rfl | contradiction

theorem effect_check (t : ℕ) (prio : ℤ) (cancel : Bool) : Effect s (next cfg s (.check t prio cancel)) := by
  rw [next]
  by_cases ht : t ∈ s.held
  · rw [if_pos ht]
    dsimp only
    split
    · refine .moved t .caller .aborting (some .enqueue) ⟨by decide, ht, .refl _, ?_, ?_⟩ rfl rfl
      · exact perm_append_comm
      · intro p ha hb
        cases p <;> first | rfl | contradiction
    · refine .moved t .caller (.admitted (taskPriority prio)) (some .enqueue)
        ⟨by simp, ht, .refl _, ?_, ?_⟩ rfl rfl
      · simp only [CrmWorkq.tasks, update_self]
        exact perm_append_comm
      · intro p ha hb
        cases p with
        | admitted q =>
          have hq : q ≠ taskPriority prio := fun h => hb (congrArg _ h)
          simp [CrmWorkq.tasks, hq]
        | caller => contradiction
        | _ => rfl
  · rw [if_neg ht]
    exact .idle rfl rfl

theorem effect_append (t : ℕ) (q : CrmTaskPriority) : Effect s (next cfg s (.append t q)) := by
  rw [next]
  by_cases ht : t ∈ s.admitted q
  · rw [if_pos ht]
    dsimp only
    split
    · refine .moved t (.admitted q) .aborting none ⟨by simp, ht, ?_, ?_, ?_⟩ rfl rfl
      · simp [CrmWorkq.tasks]
      · exact perm_append_comm
      · intro p ha hb
        cases p with
        | admitted r =>
          have hr : r ≠ q := fun h => ha (congrArg _ h)
          simp [CrmWorkq.tasks, hr]
        | aborting => contradiction
        | _ => rfl
    · refine .moved t (.admitted q) (.pending q) none ⟨by simp, ht, ?_, ?_, ?_⟩ rfl rfl
      · simp [CrmWorkq.tasks]
      · simp only [CrmWorkq.tasks, update_self]
        exact perm_append_comm
      · intro p ha hb
        cases p with
        | admitted r =>
          have hr : r ≠ q := fun h => ha (congrArg _ h)
          simp [CrmWorkq.tasks, hr]
        | pending r =>
          have hr : r ≠ q := fun h => hb (congrArg _ h)
          simp [CrmWorkq.tasks, hr]
        | _ => rfl
  · rw [if_neg ht]
    exact .idle rfl rfl

theorem effect_abort (t : ℕ) : Effect s (next cfg s (.abort t)) := by
  rw [next]
  by_cases ht : t ∈ s.aborting
  · rw [if_pos ht]
    refine .moved t .aborting .pool (some .put) ⟨by decide, ht, .refl _, ?_, ?_⟩ rfl rfl
    · exact perm_append_comm
    · intro p ha hb
      cases p <;> first | rfl | contradiction
  · rw [if_neg ht]
    exact .idle rfl rfl

theorem effect_worker {s : CrmWorkq} {w : Worker} (h : s.worker.takenTasks = [] ∧
      s.worker.executingTasks = [] ∧ s.worker.executedTasks = [])
    (hw : w.takenTasks = [] ∧ w.executingTasks = [] ∧ w.executedTasks = []) (queued : Bool) :
    Effect s { s with worker := w, queued := queued } := by
  refine .idle ?_ rfl
  funext p
  cases p with
  | taken => exact hw.1.trans h.1.symm
  | executing => exact hw.2.1.trans h.2.1.symm
  | executed => exact hw.2.2.trans h.2.2.symm
  | _ => rfl

theorem effect_start : Effect s (next cfg s .start) := by
  rw [next]
  split
  · next h => exact effect_worker (by rw [h.1]; exact ⟨rfl, rfl, rfl⟩) ⟨rfl, rfl, rfl⟩ false
  · exact .idle rfl rfl

theorem effect_scan : Effect s (next cfg s .scan) := by
  rw [next]
  cases hw : s.worker with
  | scanning i =>
    dsimp only
    have hnone : s.worker.takenTasks = [] ∧ s.worker.executingTasks = [] ∧ s.worker.executedTasks = [] := by
      rw [hw]
      exact ⟨rfl, rfl, rfl⟩
    cases hlist : s.processHead i with
    | nil => exact effect_worker hnone (by cases i <;> exact ⟨rfl, rfl, rfl⟩) s.queued
    | cons t rest =>
      refine .moved t (.pending i) .taken none ⟨by simp, ?_, ?_, ?_, ?_⟩ rfl rfl
      · simp [CrmWorkq.tasks, hlist]
      · simp [CrmWorkq.tasks, hlist]
      · simp [CrmWorkq.tasks, hw, Worker.takenTasks]
      · intro p ha hb
        cases p with
        | pending r =>
          have hr : r ≠ i := fun h => ha (congrArg _ h)
          simp [CrmWorkq.tasks, hr]
        | taken => contradiction
        | executing => simp [CrmWorkq.tasks, hw, Worker.executingTasks]
        | executed => simp [CrmWorkq.tasks, hw, Worker.executedTasks]
        | _ => rfl
  | _ => exact .idle rfl rfl

theorem effect_readFlush (hflush : NotDropped s .readFlush) : Effect s (next cfg s .readFlush) := by
  rw [next]
  cases hw : s.worker with
  | taken i t =>
    have hclear : ¬ s.flush = true := by
      rw [NotDropped, hw] at hflush
      simpa [Worker.takenTasks] using hflush
    simp only [if_neg hclear]
    refine .moved t .taken .executing none ⟨by decide, ?_, ?_, ?_, ?_⟩ rfl rfl
    · simp [CrmWorkq.tasks, hw, Worker.takenTasks]
    · simp [CrmWorkq.tasks, hw, Worker.takenTasks]
    · simp [CrmWorkq.tasks, hw, Worker.executingTasks]
    · intro p ha hb
      cases p with
      | taken => contradiction
      | executing => contradiction
      | executed => simp [CrmWorkq.tasks, hw, Worker.executedTasks]
      | _ => rfl
  | _ => exact .idle rfl rfl

theorem loses_readFlush (hflush : ¬ NotDropped s .readFlush) :
    ∃ t, Custody.Loses s.tasks (next cfg s .readFlush).tasks t .taken := by
  rw [NotDropped, not_or] at hflush
  rw [next]
  cases hw : s.worker with
  | taken i t =>
    have hset : s.flush = true := by simpa using hflush.2
    simp only [if_pos hset]
    refine ⟨t, ⟨?_, ?_, ?_⟩⟩
    · simp [CrmWorkq.tasks, hw, Worker.takenTasks]
    · simp [CrmWorkq.tasks, hw, Worker.takenTasks]
    · intro p ha
      cases p with
      | taken => contradiction
      | executing => simp [CrmWorkq.tasks, hw, Worker.executingTasks]
      | executed => simp [CrmWorkq.tasks, hw, Worker.executedTasks]
      | _ => rfl
  | _ => simp [hw, Worker.takenTasks] at hflush

theorem effect_finish : Effect s (next cfg s .finish) := by
  rw [next]
  cases hw : s.worker with
  | executing i t =>
    refine .moved t .executing .executed (some .execute) ⟨by decide, ?_, ?_, ?_, ?_⟩ rfl rfl
    · simp [CrmWorkq.tasks, hw, Worker.executingTasks]
    · simp [CrmWorkq.tasks, hw, Worker.executingTasks]
    · simp [CrmWorkq.tasks, hw, Worker.executedTasks]
    · intro p ha hb
      cases p with
      | executing => contradiction
      | executed => contradiction
      | taken => simp [CrmWorkq.tasks, hw, Worker.takenTasks]
      | _ => rfl
  | _ => exact .idle rfl rfl

theorem effect_putBack : Effect s (next cfg s .putBack) := by
  rw [next]
  cases hw : s.worker with
  | executed i t =>
    refine .moved t .executed .pool (some .put) ⟨by decide, ?_, ?_, ?_, ?_⟩ rfl rfl
    · simp [CrmWorkq.tasks, hw, Worker.executedTasks]
    · simp [CrmWorkq.tasks, putTask, hw, Worker.executedTasks]
    · exact perm_append_comm
    · intro p ha hb
      cases p with
      | executed => contradiction
      | pool => contradiction
      | taken => simp [CrmWorkq.tasks, putTask, hw, Worker.takenTasks]
      | executing => simp [CrmWorkq.tasks, putTask, hw, Worker.executingTasks]
      | _ => rfl
  | _ => exact .idle rfl rfl

theorem next_cases (a : Action) (h : NotDropped s a) : Effect s (next cfg s a) := by
  cases a with
  | get => exact effect_get cfg s
  | check t prio cancel => exact effect_check cfg s t prio cancel
  | append t p => exact effect_append cfg s t p
  | abort t => exact effect_abort cfg s t
  | start => exact effect_start cfg s
  | scan => exact effect_scan cfg s
  | readFlush => exact effect_readFlush cfg s h
  | finish => exact effect_finish cfg s
  | putBack => exact effect_putBack cfg s
  | flushBegin => exact .idle rfl rfl
  | flushEnd =>
    rw [next]
    split
    · exact .idle rfl rfl
    · exact .idle rfl rfl

end Effects

structure Counted (s : CrmWorkq) : Prop where
  freeCnt : s.freeCnt = s.emptyHead.length
  pendingCnt : s.pendingCnt = (s.processHead .p0).length + (s.processHead .p1).length

theorem Counted.putTask {s : CrmWorkq} (h : Counted s) (t : ℕ) : Counted (putTask s t) where
  freeCnt := by
    show s.freeCnt + 1 = ((s.emptyHead ++ [t]).length : ℤ)
    rw [h.freeCnt, length_append]
    simp
  pendingCnt := h.pendingCnt

theorem Counted.next {s : CrmWorkq} (h : Counted s) (cfg : Config) (a : Action) : Counted (next cfg s a) := by
  have hfree := h.freeCnt
  have hpending := h.pendingCnt
  cases a with
  | get =>
    rw [CamWorkq.next]
    cases hpool : s.emptyHead with
    | nil => exact h
    | cons t rest =>
      refine ⟨?_, hpending⟩
      show s.freeCnt - 1 = rest.length
      rw [hfree, hpool, length_cons]
      omega
  | check t prio cancel =>
    rw [CamWorkq.next]
    split
    · dsimp only
      split <;> exact ⟨hfree, hpending⟩
    · exact h
  | append t p =>
    rw [CamWorkq.next]
    split
    · dsimp only
      split
      · exact ⟨hfree, hpending⟩
      · refine ⟨hfree, ?_⟩
        show s.pendingCnt + 1 = _
        rw [hpending]
        cases p with
        | p0 =>
          simp
          omega
        | p1 =>
          simp
          omega
    · exact h
  | abort t =>
    rw [CamWorkq.next]
    split
    · exact Counted.putTask (s := { s with aborting := s.aborting.erase t }) ⟨hfree, hpending⟩ t
    · exact h
  | start =>
    rw [CamWorkq.next]
    split
    · exact ⟨hfree, hpending⟩
    · exact h
  | scan =>
    rw [CamWorkq.next]
    cases s.worker with
    | scanning i =>
      dsimp only
      cases hlist : s.processHead i with
      | nil => exact ⟨hfree, hpending⟩
      | cons t rest =>
        refine ⟨hfree, ?_⟩
        show s.pendingCnt - 1 = _
        rw [hpending]
        cases i with
        | p0 =>
          simp [hlist]
          omega
        | p1 =>
          simp [hlist]
          omega
    | _ => exact h
  | readFlush =>
    rw [CamWorkq.next]
    cases s.worker with
    | taken i t =>
      dsimp only
      split <;> exact ⟨hfree, hpending⟩
    | _ => exact h
  | finish =>
    rw [CamWorkq.next]
    cases s.worker with
    | executing i t => exact ⟨hfree, hpending⟩
    | _ => exact h
  | putBack =>
    rw [CamWorkq.next]
    cases s.worker with
    | executed i t => exact Counted.putTask (s := { s with worker := .scanning i }) ⟨hfree, hpending⟩ t
    | _ => exact h
  | flushBegin => exact ⟨hfree, hpending⟩
  | flushEnd =>
    rw [CamWorkq.next]
    split
    · exact ⟨hfree, hpending⟩
    · exact h

theorem recordOpt_eq {s : CrmWorkq} {t : ℕ} {a b : Party} {e : Option Event} (ht : t ∈ s.tasks a)
    (hlives : Custody.Staged Party.life s.life s.tasks) (hstage : advanceOpt a.life e = b.life) :
    recordOpt s.life t e = update s.life t b.life := by
  have ha : s.life t = a.life := hlives a t ht
  rw [← hstage]
  cases e with
  | none =>
    show s.life = update s.life t a.life
    rw [← ha, update_eq_self]
  | some e =>
    show update s.life t (advance (s.life t) e) = _
    rw [ha]
    rfl

theorem conserves_next {cfg : Config} {s : CrmWorkq} (h : Conserves cfg s) (a : Action) :
    Conserves cfg (next cfg s a) ↔ NotDropped s a := by
  have hcounted := (Counted.mk h.freeCnt h.pendingCnt).next cfg a
  constructor
  · intro hnext
    cases a with
    | readFlush =>
      by_contra hdrop
      obtain ⟨t, hloses⟩ := loses_readFlush cfg s hdrop
      exact hloses.not_exclusive h.exclusive hnext.exclusive
    | _ => trivial
  · intro hkeep
    cases next_cases cfg s a hkeep with
    | idle htasks hlife =>
      refine ⟨?_, hcounted.freeCnt, hcounted.pendingCnt, ?_⟩
      · rw [htasks]
        exact h.exclusive
      · rw [htasks, hlife]
        exact h.lives
    | moved t a b e hmoves hlife hstage =>
      refine ⟨hmoves.exclusive h.exclusive, hcounted.freeCnt, hcounted.pendingCnt, ?_⟩
      rw [hlife, recordOpt_eq hmoves.present h.lives hstage]
      exact hmoves.staged h.exclusive h.lives

theorem conserves_created (cfg : Config) : Conserves cfg (created cfg) where
  exclusive := by
    intro t
    have hcopies : Custody.copies (created cfg).tasks t = (List.range cfg.numTask).count t := by
      rw [Custody.copies, Finset.sum_eq_single Party.pool]
      · rfl
      · intro p _ hp
        cases p <;> first | rfl | contradiction
      · simp
    rw [hcopies, nodup_range.count]
    by_cases ht : t < cfg.numTask <;> simp [ht]
  freeCnt := by simp [created]
  pendingCnt := rfl
  lives := by
    intro p t ht
    cases p <;> first | rfl | simp [CrmWorkq.tasks, created, Worker.takenTasks, Worker.executingTasks, Worker.executedTasks] at ht

/-- **The runs that keep every task.** For every pool size and every interleaving the statement holds all
along exactly if no worker finds a flush under way once it has taken a task. -/
theorem pool_conserves_iff (cfg : Config) (actions : List Action) :
    (∀ n, Conserves cfg ((machine cfg).exec (created cfg) (actions.take n))) ↔
      (machine cfg).Allows (created cfg) actions := by
  apply Runs.Machine.exact _ (conserves_created cfg)
  intro s a h
  exact conserves_next h a

def flushedTask : List Action :=
  [.get, .check 0 0 false, .append 0 .p0, .start, .scan, .flushBegin, .readFlush]

theorem not_conserves_flushedTask : ¬ ∀ (cfg : Config) (actions : List Action) (n : ℕ),
    Conserves cfg ((machine cfg).exec (created cfg) (actions.take n)) := by
  intro h
  have hone := ((h ⟨false, true, 1⟩ flushedTask 7).exclusive 0).2.mpr Nat.zero_lt_one
  exact absurd hone (by decide)

end CamWorkq
