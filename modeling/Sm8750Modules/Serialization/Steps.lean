import Sm8750Modules.Serialization.Removals

/-!
# WLAN serialization — the steps of a thread

Between two releases of the lock a thread does one of a few things, whatever call it belongs to.
-/

namespace Sm8750Modules.Serialization

variable {cfg : Cfg} {q q' : Queue} {acting : List ℕ} {held : List Command} {n : ℕ} {hist : History}

/-! ### What a step does -/

namespace Frame

def activating : Frame → Option ℕ
  | .activate n | .settle n _ => some n
  | _ => none

def starting : Frame → Option ℕ
  | .activate n => some n
  | _ => none

/-- The command whose bit a cancel has still to clear. -/
def holding : Frame → Option Command
  | .cancelResume _ true c _ _ => some c
  | _ => none

/-- The request whose release callback is due. -/
def releasing : Frame → Option ℕ
  | .release c => some c.ticket
  | _ => none

/-- Frames of calls for this queue. -/
def Ok (cfg : Cfg) : Frame → Prop
  | .enqueue c => c.vdev ∈ cfg.vdevs
  | .moveResume _ => cfg.comp = .nonScan
  | _ => True

/-- A frame that no count speaks about. -/
structure Plain (cfg : Cfg) (f : Frame) : Prop where
  activating : f.activating = none
  starting : f.starting = none
  holding : f.holding = none
  releasing : f.releasing = none
  ok : f.Ok cfg

/-- A cancel that goes on after its callbacks goes on from a node of the list it goes over. -/
def KeepsCursor (cfg : Cfg) (q : Queue) : Frame → Prop
  | .cancelResume a active _ pnode qsize =>
    ¬(cfg.comp = .nonScan ∧ a.vdev = 0 ∧ a.pdev = false) → 0 < qsize → OnList q active pnode
  | _ => True

def moveQueue (q : Queue) : Frame → Option Owner
  | .move v blockingCmdRemoved => some (q.movePendingQueue v blockingCmdRemoved)
  | .moveResume o => if o ≠ .pdev ∨ q.blockingCmdActive then none else some o
  | _ => none

end Frame

inductive Step (cfg : Cfg) (q : Queue) (hist : History) :
    Frame → Queue → History → List Frame → Prop where
  | plain {f : Frame} {q' : Queue} {hist' : History} {new : List Frame} (e : SameLists q q')
    (hf : f.Plain cfg) (hnew : ∀ g ∈ new, g.Plain cfg)
    (hh : hist'.accepted = hist.accepted ∧ hist'.activated = hist.activated ∧
      hist'.released = hist.released) : Step cfg q hist f q' hist' new
  | taken {c : Command} {q' : Queue} {n : ℕ} {active : Bool}
    (e : Taken cfg q q' n { c with ticket := hist.accepted } active) :
    Step cfg q hist (.enqueue c) q' { hist with accepted := hist.accepted + 1 }
      (if active then [.activate n] else [])
  | start {n : ℕ} : Step cfg q hist (.activate n) (q.startTimer n)
      { hist with activated := hist.activated ++ [(q.cmd n).ticket] } [.settle n true]
  | noTimer {n : ℕ} : Step cfg q hist (.activate n) q hist [.settle n false]
  | settle {n : ℕ} {started : Bool} {g : Frame} (hg : g.Plain cfg) :
    Step cfg q hist (.settle n started) (q.settleNode n) hist [g]
  | dequeue {r : CmdRef} {q' : Queue} {n : ℕ} (e : Freed cfg q q' n true)
    (hbits : cfg.comp = .nonScan → q'.vdevActiveCmdBitmap = q.vdevActiveCmdBitmap.erase (q.cmd n).vdev ∧
      q'.blockingCmdActive = (q.blockingCmdActive && !(q.cmd n).isBlocking)) :
    Step cfg q hist (.dequeue r) q' hist
      [.move (q.cmd n).vdev (q.cmd n).isBlocking, .release (q.cmd n)]
  | move {f : Frame} {q₁ q' : Queue} {n : ℕ} {new : List Frame} (hf : f.Plain cfg)
    (hnew : ∀ g ∈ new, g.Plain cfg) (e : SameLists q q₁) (hm : Moved cfg q₁ q' n)
    (hpick : cfg.comp = .nonScan → ∃ o, f.moveQueue q = some o ∧ (q.pickPending o).2 = some n ∧
      (o = .pdev → (q.cmd n).isBlocking = true → q.vdevActiveCmdBitmap = ∅)) :
    Step cfg q hist f q' hist (.activate n :: new)
  | release {c : Command} :
    Step cfg q hist (.release c) q { hist with released := hist.released ++ [c.ticket] } []
  | cancel {a : CancelArgs} {active : Bool} {q' : Queue} {out : CancelOutcome}
    (hd : CancelDone cfg q q' active out) :
    Step cfg q hist (.cancel a active) q' hist (afterCancel cfg a active out)
  | resume {a : CancelArgs} {active : Bool} {c : Command} {pnode : Option ℕ} {qsize : ℕ} {q' : Queue}
    {out : CancelOutcome} (hd : CancelDone cfg (q.cancelSettle cfg active c) q' active out) :
    Step cfg q hist (.cancelResume a active c pnode qsize) q' hist (afterCancel cfg a active out)

theorem sameLists_of_mark_acting (h : Wf cfg q acting held) (hn : n ∈ acting) :
    SameLists q (q.setNode n { q.node n with activeMarkedForRemoval := true }) :=
  sameLists_mark h ((h.marked n).mpr hn) rfl ((h.marked n).mpr hn)

theorem Wf.cancelSettle (active : Bool) {c : Command}
    (h : Wf cfg q acting (if active then c :: held else held)) :
    Wf cfg (q.cancelSettle cfg active c) acting held := by
  rcases hcomp : cfg.comp with _ | _
  · have hq : q.cancelSettle cfg active c = q := by rw [Queue.cancelSettle, hcomp]
    rw [hq]
    exact { h with bits := fun hc => by rw [hcomp] at hc; cases hc }
  · cases active with
    | true =>
      have h : Wf cfg q acting (c :: held) := h
      have hq : q.cancelSettle cfg true c = { q with
          blockingCmdActive := q.blockingCmdActive && !c.isBlocking
          vdevActiveCmdBitmap := q.vdevActiveCmdBitmap.erase c.vdev } := by
        rw [Queue.cancelSettle, hcomp]
        rfl
      rw [hq]
      exact h.settleHeld rfl
    | false =>
      have h : Wf cfg q acting held := h
      have hsame : SameLists q (q.cancelSettle cfg false c) := by
        rw [Queue.cancelSettle, hcomp]
        show SameLists q (if c.isBlocking = true then _ else q)
        split
        · exact { SameLists.refl h with }
        · exact .refl h
      exact h.sameLists hsame

theorem list_cancelSettle (cfg : Cfg) (q : Queue) (active : Bool) (c : Command) :
    (q.cancelSettle cfg active c).activeList = q.activeList ∧
      (q.cancelSettle cfg active c).pendingList = q.pendingList ∧
      (q.cancelSettle cfg active c).node = q.node := by
  unfold Queue.cancelSettle
  split
  · exact ⟨rfl, rfl, rfl⟩
  · split
    · exact ⟨rfl, rfl, rfl⟩
    · split
      · exact ⟨rfl, rfl, rfl⟩
      · exact ⟨rfl, rfl, rfl⟩

theorem cancelResume_cases {a : CancelArgs} {active : Bool} {c : Command} {pnode : Option ℕ} {qsize : ℕ}
    {out : CancelOutcome} {held' : List Command} (h : Wf cfg q acting held)
    (hheld : ∀ d, (Frame.cancelResume a active c pnode qsize).holding = some d → held = d :: held')
    (hcur : (Frame.cancelResume a active c pnode qsize).KeepsCursor cfg q)
    (hr : q.cancelResume cfg a active c pnode qsize = (q', out)) :
    (∃ held', Wf cfg (q.cancelSettle cfg active c) acting held') ∧
      CancelDone cfg (q.cancelSettle cfg active c) q' active out := by
  have hwf : ∃ held', Wf cfg (q.cancelSettle cfg active c) acting held' := by
    cases active with
    | true =>
      refine ⟨held', Wf.cancelSettle true ?_⟩
      show Wf cfg q acting (c :: held')
      rw [← hheld c rfl]
      exact h
    | false => exact ⟨held, Wf.cancelSettle false h⟩
  refine ⟨hwf, ?_⟩
  obtain ⟨held', hwf⟩ := hwf
  rw [Queue.cancelResume] at hr
  split at hr
  · cases hr
    exact SameLists.refl hwf
  · rename_i hgo
    refine cancelLoop_cases hwf (fun hpos => ?_) hr
    have hon := hcur (by simpa using hgo) hpos
    have hlist : (q.cancelSettle cfg active c).list active .pdev = q.list active .pdev := by
      obtain ⟨hact, hpend, -⟩ := list_cancelSettle cfg q active c
      cases active
      · exact hpend
      · exact hact
    rw [OnList, hlist]
    exact hon

theorem mem_ite_singleton {p : Prop} [Decidable p] {f g : Frame} (hg : g ∈ if p then [f] else []) :
    g = f := by
  split at hg
  · exact List.mem_singleton.mp hg
  · cases hg

/-- **What the steps of a thread do**, as long as its cancels keep their cursor. -/
theorem step_advance {f : Frame} {o : Outcome} (held' : List Command)
    (h : Wf cfg q acting held) (hheld : ∀ c, f.holding = some c → held = c :: held')
    (hok : f.Ok cfg) (hcur : f.KeepsCursor cfg q) {hist' : History} {new : List Frame}
    (ha : advance cfg o q hist f = (q', hist', new)) : Step cfg q hist f q' hist' new := by
  cases f with
  | enqueue c =>
    rcases he : q.enqueueCmd cfg o.others { c with ticket := hist.accepted } with ⟨r, status⟩
    have hdone := enqueueCmd_cases h he
    simp only [advance, he] at ha
    cases status with
    | active n =>
      cases ha
      have e : Taken cfg q q' n { c with ticket := hist.accepted } true := hdone
      exact .taken e
    | pending =>
      cases ha
      obtain ⟨n, hdone⟩ := hdone
      have e : Taken cfg q q' n { c with ticket := hist.accepted } false := hdone
      exact .taken e
    | deniedUnspecified =>
      cases ha
      exact .plain hdone ⟨rfl, rfl, rfl, rfl, hok⟩ (fun g hg => by cases hg) ⟨rfl, rfl, rfl⟩
    | deniedListFull =>
      cases ha
      exact .plain hdone ⟨rfl, rfl, rfl, rfl, hok⟩ (fun g hg => by cases hg) ⟨rfl, rfl, rfl⟩
    | queueDisabled =>
      cases ha
      exact .plain hdone ⟨rfl, rfl, rfl, rfl, hok⟩ (fun g hg => by cases hg) ⟨rfl, rfl, rfl⟩
  | activate n =>
    rw [advance] at ha
    split at ha
    · cases ha
      exact .start
    · cases ha
      exact .noTimer
  | settle n started =>
    rw [advance] at ha
    cases ha
    split
    · exact .settle ⟨rfl, rfl, rfl, rfl, trivial⟩
    · exact .settle ⟨rfl, rfl, rfl, rfl, trivial⟩
  | checkRemoval n =>
    rw [advance] at ha
    cases ha
    refine .plain (.refl h) ⟨rfl, rfl, rfl, rfl, trivial⟩ (fun g hg => ?_) ⟨rfl, rfl, rfl⟩
    split at hg <;> (rw [List.mem_singleton] at hg; subst hg; exact ⟨rfl, rfl, rfl, rfl, trivial⟩)
  | checkCancel n =>
    rw [advance] at ha
    cases ha
    refine .plain (.refl h) ⟨rfl, rfl, rfl, rfl, trivial⟩ (fun g hg => ?_) ⟨rfl, rfl, rfl⟩
    rw [mem_ite_singleton hg]
    exact ⟨rfl, rfl, rfl, rfl, trivial⟩
  | timeout k =>
    rw [advance] at ha
    cases ha
    refine .plain (.refl h) ⟨rfl, rfl, rfl, rfl, trivial⟩ (fun g hg => ?_) ⟨rfl, rfl, rfl⟩
    rw [mem_ite_singleton hg]
    exact ⟨rfl, rfl, rfl, rfl, trivial⟩
  | dequeue r =>
    rcases hd : q.dequeueCmd cfg (q.deref r) with ⟨t, out⟩
    simp only [advance, hd] at ha
    rcases dequeueCmd_cases h _ hd with ⟨rfl, hq⟩ | ⟨n, -, -, rfl, hfreed, hbits⟩
    · cases ha
      refine .plain ?_ ⟨rfl, rfl, rfl, rfl, trivial⟩ (fun g hg => by cases hg) ⟨rfl, rfl, rfl⟩
      rcases hq with rfl | ⟨n, hn, rfl⟩
      · exact .refl h
      · exact sameLists_of_mark_acting h hn
    · cases ha
      exact .dequeue hfreed hbits
  | move v b =>
    rcases hcomp : cfg.comp with _ | _
    · rcases hm : q.moveScan cfg o.others with ⟨t, picked⟩
      simp only [advance, hcomp, hm] at ha
      cases ha
      rcases moveScan_cases h hcomp hm with ⟨rfl, rfl, -⟩ | ⟨n, rfl, hmoved, -⟩
      · exact .plain (.refl h) ⟨rfl, rfl, rfl, rfl, trivial⟩ (fun g hg => by cases hg)
          ⟨rfl, rfl, rfl⟩
      · rw [afterMove, hcomp]
        exact .move ⟨rfl, rfl, rfl, rfl, trivial⟩ (fun g hg => by cases hg) (.refl h) hmoved
          fun hc => by rw [hcomp] at hc; cases hc
    · rcases hm : q.moveNonScan cfg (q.movePendingQueue v b) with ⟨t, picked⟩
      simp only [advance, hcomp, hm] at ha
      cases ha
      obtain ⟨hpick, q₁, -, hsame, hnone, hsome⟩ := moveNonScan_cases h hcomp hm
      cases picked with
      | none =>
        rw [hnone rfl]
        exact .plain hsame ⟨rfl, rfl, rfl, rfl, trivial⟩ (fun g hg => by cases hg) ⟨rfl, rfl, rfl⟩
      | some n =>
        rw [afterMove, hcomp]
        refine .move ⟨rfl, rfl, rfl, rfl, trivial⟩ (fun g hg => ?_) hsame (hsome n rfl).1
          fun _ => ⟨_, rfl, hpick.symm, (hsome n rfl).2⟩
        rw [List.mem_singleton] at hg
        subst hg
        exact ⟨rfl, rfl, rfl, rfl, hcomp⟩
  | moveResume from_ =>
    have hcomp : cfg.comp = .nonScan := hok
    simp only [advance] at ha
    split at ha
    · cases ha
      exact .plain (.refl h) ⟨rfl, rfl, rfl, rfl, hok⟩ (fun g hg => by cases hg) ⟨rfl, rfl, rfl⟩
    · rename_i hgo
      rcases hm : q.moveNonScan cfg from_ with ⟨t, picked⟩
      simp only [hm] at ha
      cases ha
      obtain ⟨hpick, q₁, -, hsame, hnone, hsome⟩ := moveNonScan_cases h hcomp hm
      cases picked with
      | none =>
        rw [hnone rfl]
        exact .plain hsame ⟨rfl, rfl, rfl, rfl, hok⟩ (fun g hg => by cases hg) ⟨rfl, rfl, rfl⟩
      | some n =>
        rw [afterMove, hcomp]
        refine .move ⟨rfl, rfl, rfl, rfl, hok⟩ (fun g hg => ?_) hsame (hsome n rfl).1
          fun _ => ⟨_, if_neg hgo, hpick.symm, (hsome n rfl).2⟩
        rw [List.mem_singleton] at hg
        subst hg
        exact ⟨rfl, rfl, rfl, rfl, hcomp⟩
  | release c =>
    rw [advance] at ha
    cases ha
    exact .release
  | cancel a active =>
    rcases hl : q.cancelLoop cfg a active (q.list active .pdev).length none none with ⟨t, out⟩
    simp only [advance, hl] at ha
    cases ha
    exact .cancel (cancelLoop_cases h (fun _ _ p hp => by cases hp) hl)
  | cancelCallback c =>
    rw [advance] at ha
    cases ha
    exact .plain (.refl h) ⟨rfl, rfl, rfl, rfl, trivial⟩ (fun g hg => by cases hg) ⟨rfl, rfl, rfl⟩
  | cancelResume a active c pnode qsize =>
    rcases hr : q.cancelResume cfg a active c pnode qsize with ⟨t, out⟩
    simp only [advance, hr] at ha
    cases ha
    exact .resume (cancelResume_cases h hheld hcur hr).2
  | tailList =>
    rw [advance] at ha
    cases ha
    refine .plain (.refl h) ⟨rfl, rfl, rfl, rfl, trivial⟩ (fun g hg => ?_) ⟨rfl, rfl, rfl⟩
    rw [mem_ite_singleton hg]
    exact ⟨rfl, rfl, rfl, rfl, trivial⟩
  | tailBitmap =>
    rw [advance] at ha
    cases ha
    refine .plain (.refl h) ⟨rfl, rfl, rfl, rfl, trivial⟩ (fun g hg => ?_) ⟨rfl, rfl, rfl⟩
    rw [mem_ite_singleton hg]
    exact ⟨rfl, rfl, rfl, rfl, trivial⟩

end Sm8750Modules.Serialization
