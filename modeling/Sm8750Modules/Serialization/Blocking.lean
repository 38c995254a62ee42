import Sm8750Modules.Serialization.Exclusive

/-!
# WLAN serialization — the counter of waiting blocking commands

`blocking_cmd_waiting` is raised by the test that decides whether a blocking request may become
active, and lowered when a pending blocking command is moved or cancelled.
-/

namespace Sm8750Modules.Serialization

open List

variable {cfg : Cfg} {q q' : Queue} {acting : List ℕ} {held : List Command} {n : ℕ}
variable {hist hist' : History} {f : Frame} {R new : List Frame}

def Queue.blockingPending (q : Queue) : ℕ := q.pendingList.countP fun n => (q.cmd n).isBlocking

/-- A cancel has taken a blocking command out of the pending list and has still to count it down. -/
def Frame.owing : Frame → Bool
  | .cancelResume _ false c _ _ => c.isBlocking
  | _ => false

def Serializer.owed (s : Serializer) : ℕ := s.frames.countP Frame.owing

/-- **The counter is exact**: it is the number of blocking commands in the pending list, apart from those that
a cancel is just taking out. -/
structure BlockingCounted (s : Serializer) : Prop where
  counted : s.queue.blockingCmdWaiting.toNat = (s.queue.blockingPending + s.owed) % 65536
  settled : s.owed = 0 → s.queue.blockingCmdWaiting.toNat = s.queue.blockingPending

/-- A request finds room to wait. -/
def Queue.Admits (cfg : Cfg) (q : Queue) (c : Command) : Prop :=
  q.isCmdPresentQueue cfg c false = false ∧ q.cmdPoolList ≠ [] ∧
    (q.vdevPending c.vdev).length ≠ cfg.maxVdevPending c.vdev ∧ q.pendingList.length ≠ cfg.maxPending
deriving Decidable

/-- The admission test counts a blocking request that will wait, and no other: while a bit is set the request
finds room to wait, and while none is set it does not wait behind requests of its vdev. -/
def Queue.CountsRight (cfg : Cfg) (q : Queue) (c : Command) : Prop :=
  c.isBlocking = true → q.queueDisable c.vdev = false →
    (q.vdevActiveCmdBitmap ≠ ∅ → q.Admits cfg c) ∧
    (q.vdevActiveCmdBitmap = ∅ → q.vdevPending c.vdev ≠ [] → ¬ q.Admits cfg c)
deriving Decidable

/-- The condition of a step: a request that it makes is counted right. -/
def RequestCounted (cfg : Cfg) (s : Serializer) : Event → Prop
  | .call _ => True
  | .advance i _ => ∀ f ∈ s.top i, match f with
    | .enqueue c => s.queue.CountsRight cfg c
    | _ => True

section Waiting

variable (cfg : Cfg) (q : Queue)

theorem setList_waiting (active : Bool) (l : List ℕ) (o : Owner) :
    (q.setList active l o).blockingCmdWaiting = q.blockingCmdWaiting := by
  cases active <;> cases o <;> rfl

theorem removeCmdFromQueue_waiting (active : Bool) (k : Command) (o : Owner) :
    (q.removeCmdFromQueue active k o).1.blockingCmdWaiting = q.blockingCmdWaiting := by
  rw [Queue.removeCmdFromQueue]
  split
  · rfl
  · split
    · rfl
    · exact setList_waiting ..

theorem disableQueue_waiting (c : Command) : (disableQueue q c).blockingCmdWaiting = q.blockingCmdWaiting := by
  rw [disableQueue_eq]

theorem addNonScanCmd_waiting (n : ℕ) (active : Bool) :
    (q.addNonScanCmd cfg n active).1.blockingCmdWaiting = q.blockingCmdWaiting := by
  simp only [Queue.addNonScanCmd]
  rw [show (if (q.cmd n).queueDisable = true then _ else q) = disableQueue q (q.cmd n) from rfl]
  split
  · exact disableQueue_waiting ..
  · split
    · rw [removeCmdFromQueue_waiting, setList_waiting, disableQueue_waiting]
    · split
      · show (Queue.setList _ _ _ _).blockingCmdWaiting = _
        rw [setList_waiting, setList_waiting, disableQueue_waiting]
      · rw [setList_waiting, setList_waiting, disableQueue_waiting]

theorem removeNonScanCmd_waiting (k : Command) (active : Bool) :
    (q.removeNonScanCmd k active).1.blockingCmdWaiting = q.blockingCmdWaiting := by
  have hvdev := removeCmdFromQueue_waiting q active k (.vdev k.vdev)
  rw [Queue.removeNonScanCmd]
  rcases hr : q.removeCmdFromQueue active k (.vdev k.vdev) with ⟨q₁, _ | _ | _⟩
  · have hpdev := removeCmdFromQueue_waiting q₁ active k .pdev
    rw [hr] at hvdev
    dsimp only
    rcases hr' : q₁.removeCmdFromQueue active k .pdev with ⟨q₂, _ | _ | _⟩
    · rw [hr'] at hpdev
      dsimp only
      split
      · exact hpdev.trans hvdev
      · exact hpdev.trans hvdev
    · rw [hr'] at hpdev
      exact hpdev.trans hvdev
    · rw [hr'] at hpdev
      exact hpdev.trans hvdev
  · rw [hr] at hvdev
    exact hvdev
  · rw [hr] at hvdev
    exact hvdev

theorem stopTimer_waiting (c : Command) : (q.stopTimer c).blockingCmdWaiting = q.blockingCmdWaiting := by
  rw [stopTimer_eq]

theorem dequeueCmd_waiting (hc : cfg.comp = .nonScan) (k : Command) :
    (q.dequeueCmd cfg k).1.blockingCmdWaiting = q.blockingCmdWaiting := by
  have hremove := removeNonScanCmd_waiting q k true
  rw [Queue.dequeueCmd, Queue.removeCmd, hc]
  rcases hr : q.removeNonScanCmd k true with ⟨q₁, _ | _ | _⟩
  · rw [hr] at hremove
    show (q₁.stopTimer _).blockingCmdWaiting = _
    rw [stopTimer_waiting]
    exact hremove
  · rw [hr] at hremove
    exact hremove
  · rw [hr] at hremove
    exact hremove

theorem walkPending_waiting (l : List ℕ) :
    (q.walkPending l).1.blockingCmdWaiting = q.blockingCmdWaiting := by
  induction l generalizing q with
  | nil => rfl
  | cons n rest ih =>
    have hmark : (q.markNext rest).blockingCmdWaiting = q.blockingCmdWaiting := by
      cases rest with
      | nil => rfl
      | cons next _ => rfl
    rw [Queue.walkPending]
    split
    · rfl
    · dsimp only
      split
      · rw [ih]
        exact hmark
      · exact hmark

theorem pickPending_waiting (o : Owner) : (q.pickPending o).1.blockingCmdWaiting = q.blockingCmdWaiting := by
  cases o with
  | pdev => exact walkPending_waiting q q.pendingList
  | vdev v => rfl

theorem cancelNode_waiting (active : Bool) (n : ℕ) :
    (q.cancelNode cfg active n).1.blockingCmdWaiting = q.blockingCmdWaiting := by
  rw [Queue.cancelNode]
  split
  · rfl
  · split <;> rfl

theorem cancelLoop_waiting (a : CancelArgs) (active : Bool) (qsize : ℕ) (nnode pnode : Option ℕ) :
    (q.cancelLoop cfg a active qsize nnode pnode).1.blockingCmdWaiting = q.blockingCmdWaiting := by
  induction qsize generalizing q nnode pnode with
  | zero => rfl
  | succ qsize ih =>
    rw [Queue.cancelLoop]
    rcases hget : q.getCmdFromQueue active nnode with _ | n
    · rfl
    · dsimp only
      split
      · exact ih ..
      · split
        · rfl
        · split
          · exact ih ..
          · split
            · rfl
            · have htimer : (if active = true then q.stopTimer (q.cmd n) else q).blockingCmdWaiting
                  = q.blockingCmdWaiting := by
                split
                · exact stopTimer_waiting ..
                · rfl
              generalize (if active = true then q.stopTimer (q.cmd n) else q) = q₁ at htimer
              have hnode := cancelNode_waiting cfg q₁ active n
              rcases hr : q₁.cancelNode cfg active n with ⟨q₂, _ | _⟩
              · rw [hr] at hnode
                exact hnode.trans htimer
              · rw [hr] at hnode
                exact hnode.trans htimer

end Waiting

variable {active : Bool}

theorem addNonScanCmd_iff : (q.addNonScanCmd cfg n active).2 = true ↔
    (q.list active (.vdev (q.cmd n).vdev)).length ≠ cfg.maxSize active (.vdev (q.cmd n).vdev) ∧
      (q.list active .pdev).length ≠ cfg.maxSize active .pdev := by
  simp only [Queue.addNonScanCmd]
  rw [show (if (q.cmd n).queueDisable = true then _ else q) = disableQueue q (q.cmd n) from rfl]
  split
  · rename_i hnone
    have hfull := addCmdToQueue_none.mp hnone
    exact iff_of_false Bool.false_ne_true fun h => h.1 hfull
  · rename_i l hl
    have hvdev : (q.list active (.vdev (q.cmd n).vdev)).length ≠ cfg.maxSize active (.vdev (q.cmd n).vdev) := by
      intro hfull
      rw [addCmdToQueue_none.mpr hfull] at hl
      cases hl
    split
    · rename_i hnone
      rw [list_setList_pdev, disableQueue_eq] at hnone
      have hfull := addCmdToQueue_none.mp hnone
      exact iff_of_false Bool.false_ne_true fun h => h.2 hfull
    · rename_i l' hl'
      have hpdev : (q.list active .pdev).length ≠ cfg.maxSize active .pdev := by
        intro hfull
        have hnone : ((disableQueue q (q.cmd n)).setList active l (.vdev (q.cmd n).vdev)).addCmdToQueue
            (cfg.maxSize active .pdev) n
            (((disableQueue q (q.cmd n)).setList active l (.vdev (q.cmd n).vdev)).list active .pdev) = none := by
          rw [addCmdToQueue_none, list_setList_pdev, disableQueue_eq]
          exact hfull
        rw [hnone] at hl'
        cases hl'
      refine ⟨fun _ => ⟨hvdev, hpdev⟩, fun _ => ?_⟩
      split
      · rfl
      · rfl

variable {c : Command} {others : ℕ}

theorem isActiveCmdAllowed_blocking (hc : cfg.comp = .nonScan)
    (hb : c.isBlocking = true) : (q.isActiveCmdAllowed cfg others c).2 =
      (decide (q.vdevActiveCmdBitmap = ∅) && (q.vdevPending c.vdev).isEmpty) := by
  rw [Queue.isActiveCmdAllowed, hc]
  simp only [Queue.isActiveNonScanCmdAllowed, hb, if_true]
  split
  · rename_i hne
    rw [decide_eq_false (Finset.nonempty_iff_ne_empty.mp hne)]
  · rename_i hempty
    rw [decide_eq_true (Finset.not_nonempty_iff_eq_empty.mp hempty)]

/-- The last part of a request, once a node of the pool holds its command. -/
def Queue.placeCmd (cfg : Cfg) (q : Queue) (n : ℕ) (active : Bool) : Queue × EnqueueStatus :=
  match q.addCmd cfg n active with
  | (q, false) => (q.freeNode n, .deniedListFull)
  | (q, true) =>
    if active then (q.setNode n { q.node n with markedForActivation := true }, .active n)
    else (q, .pending)

theorem placeCmd_waiting (hc : cfg.comp = .nonScan) (active : Bool) :
    (q.placeCmd cfg n active).1.blockingCmdWaiting = q.blockingCmdWaiting := by
  have hadd := addNonScanCmd_waiting cfg q n active
  rw [Queue.placeCmd, Queue.addCmd, hc]
  dsimp only
  rcases hr : q.addNonScanCmd cfg n active with ⟨r, _ | _⟩
  · rw [hr] at hadd
    exact hadd
  · rw [hr] at hadd
    cases active with
    | true => exact hadd
    | false => exact hadd

theorem placeCmd_pending_iff (hc : cfg.comp = .nonScan) : (q.placeCmd cfg n false).2 = .pending ↔
    (q.vdevPending (q.cmd n).vdev).length ≠ cfg.maxVdevPending (q.cmd n).vdev ∧
      q.pendingList.length ≠ cfg.maxPending := by
  have hroom : (q.addNonScanCmd cfg n false).2 = true ↔
      (q.vdevPending (q.cmd n).vdev).length ≠ cfg.maxVdevPending (q.cmd n).vdev ∧
        q.pendingList.length ≠ cfg.maxPending := addNonScanCmd_iff
  rw [← hroom, Queue.placeCmd, Queue.addCmd, hc]
  dsimp only
  rcases q.addNonScanCmd cfg n false with ⟨r, _ | _⟩
  · exact iff_of_false (fun h => by cases h) Bool.false_ne_true
  · exact ⟨fun _ => rfl, fun _ => rfl⟩

theorem enqueueCmd_waiting (hc : cfg.comp = .nonScan) :
    (q.enqueueCmd cfg others c).1.blockingCmdWaiting =
      if q.queueDisable c.vdev = false ∧ c.isBlocking = true ∧ q.vdevActiveCmdBitmap ≠ ∅ then
        q.blockingCmdWaiting + 1 else q.blockingCmdWaiting := by
  rw [Queue.enqueueCmd]
  split
  · rename_i hdisabled
    rw [if_neg fun h => by rw [h.1] at hdisabled; cases hdisabled.2]
  · rename_i henabled
    have hdisable : q.queueDisable c.vdev = false := by
      rw [← Bool.not_eq_true]
      exact fun h => henabled ⟨hc, h⟩
    rcases hal : q.isActiveCmdAllowed cfg others c with ⟨q₁, active⟩
    have hq₁ : q₁.blockingCmdWaiting =
        if q.queueDisable c.vdev = false ∧ c.isBlocking = true ∧ q.vdevActiveCmdBitmap ≠ ∅ then
          q.blockingCmdWaiting + 1 else q.blockingCmdWaiting := by
      rw [(isActiveCmdAllowed_eq hal).1]
      simp only [hc, hdisable, true_and, Finset.nonempty_iff_ne_empty]
    dsimp only
    split
    · exact hq₁
    · split
      · exact hq₁
      · rename_i n rest hpool
        show (Queue.placeCmd cfg _ n active).1.blockingCmdWaiting = _
        rw [placeCmd_waiting hc]
        exact hq₁

theorem enqueueCmd_pending_iff (hc : cfg.comp = .nonScan)
    (henabled : q.queueDisable c.vdev = false) (hactive : (q.isActiveCmdAllowed cfg others c).2 = false) :
    (q.enqueueCmd cfg others c).2 = .pending ↔ q.Admits cfg c := by
  rw [Queue.enqueueCmd, if_neg fun h => by rw [henabled] at h; cases h.2]
  rcases hal : q.isActiveCmdAllowed cfg others c with ⟨q₁, active⟩
  have hq₁ := (isActiveCmdAllowed_eq hal).1
  generalize hw : (if cfg.comp = .nonScan ∧ c.isBlocking = true ∧ q.vdevActiveCmdBitmap.Nonempty then
    q.blockingCmdWaiting + 1 else q.blockingCmdWaiting) = w at hq₁
  rw [hal] at hactive
  dsimp only at hactive
  subst hactive
  subst hq₁
  have hpresent : Queue.isCmdPresentQueue cfg { q with blockingCmdWaiting := w } c false
      = q.isCmdPresentQueue cfg c false := by
    rw [Queue.isCmdPresentQueue, Queue.isCmdPresentQueue, hc]
    rfl
  rw [Queue.Admits]
  dsimp only
  rw [hpresent]
  split
  · rename_i hdup
    rw [hdup]
    exact iff_of_false (fun h => by cases h) fun h => by cases h.1
  · rename_i hnodup
    rw [Bool.not_eq_true] at hnodup
    rcases hpool : q.cmdPoolList with _ | ⟨n, rest⟩
    · exact iff_of_false (fun h => by cases h) fun h => h.2.1 rfl
    · show (Queue.placeCmd cfg _ n false).2 = .pending ↔ _
      rw [placeCmd_pending_iff hc]
      have hcmd : ({ { q with blockingCmdWaiting := w } with cmdPoolList := rest }.setNode n
          { q.node n with cmd := c }).cmd n = c := by
        show (Function.update q.node n _ n).cmd = c
        rw [Function.update_self]
      rw [hcmd]
      exact ⟨fun h => ⟨hnodup, cons_ne_nil _ _, h⟩, fun h => h.2.2⟩

theorem enqueueCmd_ne_pending
    (hactive : (q.isActiveCmdAllowed cfg others c).2 = true) : (q.enqueueCmd cfg others c).2 ≠ .pending := by
  rw [Queue.enqueueCmd]
  rcases hal : q.isActiveCmdAllowed cfg others c with ⟨q₁, active⟩
  rw [hal] at hactive
  dsimp only at hactive
  subst hactive
  split
  · exact fun h => by cases h
  · dsimp only
    split
    · exact fun h => by cases h
    · split
      · exact fun h => by cases h
      · show (Queue.placeCmd cfg _ _ true).2 ≠ .pending
        rw [Queue.placeCmd]
        split
        · exact fun h => by cases h
        · exact fun h => by cases h

theorem SameLists.blockingPending (e : SameLists q q') : q'.blockingPending = q.blockingPending := by
  simp only [Queue.blockingPending, e.pending, e.cmd]

theorem Taken.blockingPending (e : Taken cfg q q' n c active)
    (h : Wf cfg q acting held) :
    q'.blockingPending = q.blockingPending + if active = false ∧ c.isBlocking = true then 1 else 0 := by
  have hothers : q.pendingList.countP (fun m => (q'.cmd m).isBlocking) = q.blockingPending := by
    apply countP_congr
    intro m hm
    rw [e.cmd_others fun heq => (e.notMem h).2 (heq ▸ hm)]
  rw [Queue.blockingPending, e.pendingList]
  cases active with
  | true => exact hothers
  | false =>
    show (insertBy c.isHighPriority n q.pendingList).countP _ = _
    rw [(insertBy_perm _ _ _).countP_eq, countP_cons, hothers, e.cmd]
    simp only [true_and]

theorem Freed.blockingPending (e : Freed cfg q q' n active) (h : Wf cfg q acting held) :
    q'.blockingPending + (if active = false ∧ (q.cmd n).isBlocking = true then 1 else 0)
      = q.blockingPending := by
  have hothers : q'.blockingPending = q'.pendingList.countP fun m => (q.cmd m).isBlocking := by
    apply countP_congr
    intro m hm
    rw [e.cmd m fun heq => e.notMem_pending h (heq ▸ hm)]
  have hmem := e.mem
  rw [hothers, e.pendingList, Queue.blockingPending]
  cases active with
  | true => rfl
  | false =>
    have hmem : n ∈ q.pendingList := hmem
    show (q.pendingList.erase n).countP _ + _ = _
    rw [(perm_cons_erase hmem).countP_eq, countP_cons]
    simp only [true_and]

theorem Moved.blockingPending (e : Moved cfg q q' n) :
    q'.blockingPending + (if (q.cmd n).isBlocking = true then 1 else 0) = q.blockingPending := by
  have hcmd : q'.blockingPending = q'.pendingList.countP fun m => (q.cmd m).isBlocking := by
    simp only [Queue.blockingPending, e.cmd]
  rw [hcmd, e.pendingList, Queue.blockingPending, (perm_cons_erase e.mem).countP_eq, countP_cons]

/-! ### What a step does to the counter -/

/-- A step of a frame moves the counter as it moves the commands that are counted. -/
def Kept (q q' : Queue) (f : Frame) (new : List Frame) : Prop :=
  (q'.blockingCmdWaiting.toNat + (q.blockingPending + [f].countP Frame.owing)) % 65536
    = (q.blockingCmdWaiting.toNat + (q'.blockingPending + new.countP Frame.owing)) % 65536

theorem Kept.of_eq (hw : q'.blockingCmdWaiting = q.blockingCmdWaiting)
    (hp : q'.blockingPending + new.countP Frame.owing = q.blockingPending + [f].countP Frame.owing) :
    Kept q q' f new := by
  rw [Kept, hw, hp]

theorem toNat_succ (w : UInt16) : (w + 1).toNat = (w.toNat + 1) % 65536 := UInt16.toNat_add w 1

theorem toNat_pred (w : UInt16) : (w - 1).toNat = (w.toNat + 65535) % 65536 := by
  rw [UInt16.toNat_sub, Nat.add_comm]
  rfl

/-- **The admission test counts right exactly if the condition holds.** -/
theorem kept_enqueue_iff (h : Wf cfg q acting held) (hc : cfg.comp = .nonScan)
    {status : EnqueueStatus} (he : q.enqueueCmd cfg others c = (q', status)) {f : Frame}
    (hf : f.owing = false) (hnew : new.countP Frame.owing = 0) :
    Kept q q' f new ↔ q.CountsRight cfg c := by
  have hw : q'.blockingCmdWaiting = _ := (congrArg (·.1.blockingCmdWaiting) he).symm.trans (enqueueCmd_waiting hc)
  have hp : q'.blockingPending = q.blockingPending + if status = .pending ∧ c.isBlocking = true then 1 else 0 := by
    have hdone := enqueueCmd_cases h he
    cases status with
    | active n =>
      have e : Taken cfg q q' n c true := hdone
      rw [e.blockingPending h, if_neg nofun, if_neg nofun]
    | pending =>
      obtain ⟨n, e⟩ := hdone
      rw [e.blockingPending h]
      simp only [true_and]
    | deniedUnspecified =>
      rw [SameLists.blockingPending hdone, if_neg nofun, Nat.add_zero]
    | deniedListFull =>
      rw [SameLists.blockingPending hdone, if_neg nofun, Nat.add_zero]
    | queueDisabled =>
      rw [SameLists.blockingPending hdone, if_neg nofun, Nat.add_zero]
  have hone : [f].countP Frame.owing = 0 := by
    rw [countP_cons, hf]
    rfl
  have hlt := q.blockingCmdWaiting.toNat_lt
  have hup : ∀ {p : Prop} [Decidable p], p → (if p then 1 else 0) = 1 := fun hp => if_pos hp
  have hsame : ∀ {p : Prop} [Decidable p], ¬ p → (if p then 1 else 0) = 0 := fun hp => if_neg hp
  cases hb : c.isBlocking with
  | false =>
    rw [if_neg fun h => by rw [hb] at h; cases h.2.1] at hw
    rw [hb, hsame fun h => absurd h.2 nofun] at hp
    rw [Kept, hp, hw, hnew, hone]
    exact iff_of_true rfl fun hb' => by rw [hb] at hb'; cases hb'
  | true =>
    rw [hb] at hp
    cases hd : q.queueDisable c.vdev with
    | true =>
      have hstatus : status = .queueDisabled := by
        rw [Queue.enqueueCmd, if_pos ⟨hc, hd⟩] at he
        cases he
        rfl
      rw [if_neg fun h => by rw [hd] at h; cases h.1] at hw
      rw [hsame fun h => by rw [hstatus] at h; cases h.1] at hp
      rw [Kept, hp, hw, hnew, hone]
      exact iff_of_true rfl fun _ hd' => by rw [hd] at hd'; cases hd'
    | false =>
      have hactive : (q.isActiveCmdAllowed cfg others c).2 =
          (decide (q.vdevActiveCmdBitmap = ∅) && (q.vdevPending c.vdev).isEmpty) :=
        isActiveCmdAllowed_blocking hc hb
      have hstatus : status = (q.enqueueCmd cfg others c).2 := by rw [he]
      have hright : q.CountsRight cfg c ↔ (q.vdevActiveCmdBitmap ≠ ∅ → q.Admits cfg c) ∧
          (q.vdevActiveCmdBitmap = ∅ → q.vdevPending c.vdev ≠ [] → ¬ q.Admits cfg c) :=
        ⟨fun hr => hr hb hd, fun hr _ _ => hr⟩
      rw [hright]
      by_cases hempty : q.vdevActiveCmdBitmap = ∅
      · rw [if_neg fun h => h.2.2 hempty] at hw
        by_cases hwait : q.vdevPending c.vdev = []
        · -- nothing is active and nothing waits in front: the request does not wait
          have hallowed : (q.isActiveCmdAllowed cfg others c).2 = true := by
            rw [hactive, decide_eq_true hempty, hwait]
            rfl
          rw [hsame fun h => enqueueCmd_ne_pending hallowed (hstatus ▸ h.1)] at hp
          rw [Kept, hp, hw, hnew, hone]
          exact iff_of_true rfl ⟨fun hne => absurd hempty hne, fun _ hne => absurd hwait hne⟩
        · have hfalse : (q.isActiveCmdAllowed cfg others c).2 = false := by
            rw [hactive, isEmpty_eq_false_iff.mpr hwait, Bool.and_false]
          have hiff := enqueueCmd_pending_iff hc hd hfalse
          rw [← hstatus] at hiff
          by_cases hadmits : q.Admits cfg c
          · rw [hup ⟨hiff.mpr hadmits, rfl⟩] at hp
            rw [Kept, hp, hw, hnew, hone]
            exact iff_of_false (by omega) fun hr => hr.2 hempty hwait hadmits
          · rw [hsame fun h => hadmits (hiff.mp h.1)] at hp
            rw [Kept, hp, hw, hnew, hone]
            exact iff_of_true rfl ⟨fun hne => absurd hempty hne, fun _ _ => hadmits⟩
      · have hcounted := congrArg UInt16.toNat (hw.trans (if_pos ⟨hd, hb, hempty⟩))
        rw [toNat_succ] at hcounted
        have hfalse : (q.isActiveCmdAllowed cfg others c).2 = false := by
          rw [hactive, decide_eq_false hempty, Bool.false_and]
        have hiff := enqueueCmd_pending_iff hc hd hfalse
        rw [← hstatus] at hiff
        by_cases hadmits : q.Admits cfg c
        · rw [hup ⟨hiff.mpr hadmits, rfl⟩] at hp
          rw [Kept, hp, hcounted, hnew, hone]
          exact iff_of_true (by omega) ⟨fun _ => hadmits, fun h => absurd h hempty⟩
        · rw [hsame fun h => hadmits (hiff.mp h.1)] at hp
          rw [Kept, hp, hcounted, hnew, hone]
          exact iff_of_false (by omega) fun hr => hadmits (hr.1 hempty)

theorem countP_afterCancel (a : CancelArgs) (active : Bool) (out : CancelOutcome) :
    (afterCancel cfg a active out).countP Frame.owing = match out with
      | .finished => 0
      | .removed c _ _ => if active = false ∧ c.isBlocking = true then 1 else 0 := by
  cases out with
  | finished =>
    rw [afterCancel]
    split
    · rfl
    · rfl
  | removed c pnode qsize =>
    show [Frame.cancelCallback c, .release c, .cancelResume a active c pnode qsize].countP Frame.owing = _
    rw [countP_cons, countP_cons, countP_cons]
    cases active with
    | true => rfl
    | false =>
      cases hb : c.isBlocking with
      | true => simp only [Frame.owing, hb, countP_nil, true_and, if_true, Bool.false_eq_true, if_false]
      | false => simp only [Frame.owing, hb, countP_nil, true_and, Bool.false_eq_true, if_false]

theorem CancelDone.blockingPending {a : CancelArgs} {out : CancelOutcome}
    (hd : CancelDone cfg q q' active out) (h : Wf cfg q acting held) :
    q'.blockingPending + (afterCancel cfg a active out).countP Frame.owing = q.blockingPending := by
  rw [countP_afterCancel]
  cases out with
  | finished => exact SameLists.blockingPending hd
  | removed c pnode qsize =>
    obtain ⟨n, e, rfl, -⟩ := hd
    exact e.blockingPending h

theorem countP_afterMove (hc : cfg.comp = .nonScan) (o : Owner) (picked : Option ℕ) :
    (afterMove cfg o picked).countP Frame.owing = 0 := by
  cases picked with
  | none => rfl
  | some n =>
    rw [afterMove, hc]
    rfl

theorem kept_move (h : Wf cfg q acting held) (hc : cfg.comp = .nonScan) {o : Owner} {picked : Option ℕ}
    (hm : q.moveNonScan cfg o = (q', picked)) (hf : f.owing = false) :
    Kept q q' f (afterMove cfg o picked) := by
  obtain ⟨-, q₁, hq₁, hsame, hnone, hsome⟩ := moveNonScan_cases h hc hm
  have hone : [f].countP Frame.owing = 0 := by
    rw [countP_cons, hf]
    rfl
  have hw₁ : q₁.blockingCmdWaiting = q.blockingCmdWaiting := by
    rw [hq₁]
    exact pickPending_waiting q o
  have hp₁ := hsame.blockingPending
  have hnew := countP_afterMove hc o picked
  cases picked with
  | none =>
    rw [hnone rfl]
    exact .of_eq hw₁ (by rw [hnew, hone, hp₁])
  | some n =>
    have hmoved := (hsome n rfl).1
    have hp := hmoved.blockingPending
    have hw := hmoved.waiting
    rw [hw₁] at hw
    rw [hp₁] at hp
    by_cases hb : (q₁.cmd n).isBlocking = true
    · rw [if_pos ⟨hc, hb⟩] at hw
      rw [if_pos hb] at hp
      rw [Kept, hnew, hone, hw, toNat_pred]
      omega
    · rw [if_neg fun h => hb h.2] at hw
      rw [if_neg hb] at hp
      exact .of_eq hw (by rw [hnew, hone]; omega)

theorem kept_resume (hc : cfg.comp = .nonScan) {a : CancelArgs}
    {pnode : Option ℕ} {qsize : ℕ} {out : CancelOutcome}
    (hd : CancelDone cfg (q.cancelSettle cfg active c) q' active out)
    (hwf : Wf cfg (q.cancelSettle cfg active c) acting held)
    (hw : q'.blockingCmdWaiting = (q.cancelSettle cfg active c).blockingCmdWaiting) :
    Kept q q' (.cancelResume a active c pnode qsize) (afterCancel cfg a active out) := by
  obtain ⟨-, hpending, hnode⟩ := list_cancelSettle cfg q active c
  have hp : (q.cancelSettle cfg active c).blockingPending = q.blockingPending := by
    simp only [Queue.blockingPending, Queue.cmd, hpending, hnode]
  have hdone := hd.blockingPending (a := a) hwf
  rw [hp] at hdone
  rw [Queue.cancelSettle, hc] at hw
  cases active with
  | true => exact .of_eq hw hdone
  | false =>
    cases hb : c.isBlocking with
    | false =>
      rw [hb] at hw
      have hone : [Frame.cancelResume a false c pnode qsize].countP Frame.owing = 0 := by
        rw [countP_cons, show Frame.owing (.cancelResume a false c pnode qsize) = c.isBlocking from rfl, hb]
        rfl
      exact .of_eq hw (by rw [hone]; exact hdone)
    | true =>
      rw [hb] at hw
      have hone : [Frame.cancelResume a false c pnode qsize].countP Frame.owing = 1 := by
        rw [countP_cons, show Frame.owing (.cancelResume a false c pnode qsize) = c.isBlocking from rfl, hb]
        rfl
      have hw : q'.blockingCmdWaiting = q.blockingCmdWaiting - 1 := hw
      rw [Kept, hone, hw, toNat_pred]
      omega

theorem kept_of_advance {o : Outcome} (held' : List Command) (h : Wf cfg q acting held)
    (hc : cfg.comp = .nonScan) (hheld : ∀ c, f.holding = some c → held = c :: held')
    (hcur : f.KeepsCursor cfg q) (hf : ∀ c, f ≠ .enqueue c)
    (ha : advance cfg o q hist f = (q', hist', new)) : Kept q q' f new := by
  cases f with
  | enqueue c => exact absurd rfl (hf c)
  | activate n =>
    rw [advance] at ha
    split at ha
    · cases ha
      exact .of_eq rfl rfl
    · cases ha
      exact .of_eq rfl rfl
  | settle n started =>
    rw [advance] at ha
    cases ha
    have hp : (q.settleNode n).blockingPending = q.blockingPending := by
      rw [Queue.blockingPending, cmd_settleNode]
      rfl
    refine .of_eq rfl ?_
    rw [hp]
    split
    · rfl
    · rfl
  | checkRemoval n =>
    rw [advance] at ha
    cases ha
    refine .of_eq rfl ?_
    split
    · rfl
    · rfl
  | checkCancel n =>
    rw [advance] at ha
    cases ha
    refine .of_eq rfl ?_
    split
    · rfl
    · rfl
  | timeout k =>
    rw [advance] at ha
    cases ha
    refine .of_eq rfl ?_
    split
    · rfl
    · rfl
  | dequeue r =>
    have hw := dequeueCmd_waiting cfg q hc (q.deref r)
    rcases hd : q.dequeueCmd cfg (q.deref r) with ⟨t, out⟩
    rw [hd] at hw
    simp only [advance, hd] at ha
    rcases dequeueCmd_cases h _ hd with ⟨rfl, hq⟩ | ⟨n, -, -, rfl, hfreed, -⟩
    · cases ha
      refine .of_eq hw ?_
      rcases hq with rfl | ⟨n, hn, rfl⟩
      · rfl
      · rw [(sameLists_of_mark_acting h hn).blockingPending]
        rfl
    · cases ha
      have hp := hfreed.blockingPending h
      exact .of_eq hw hp
  | move v b =>
    rcases hm : q.moveNonScan cfg (q.movePendingQueue v b) with ⟨t, picked⟩
    simp only [advance, hc, hm] at ha
    cases ha
    exact kept_move h hc hm rfl
  | moveResume from_ =>
    simp only [advance] at ha
    split at ha
    · cases ha
      exact .of_eq rfl rfl
    · rcases hm : q.moveNonScan cfg from_ with ⟨t, picked⟩
      simp only [hm] at ha
      cases ha
      exact kept_move h hc hm rfl
  | release c =>
    rw [advance] at ha
    cases ha
    exact .of_eq rfl rfl
  | cancel a active =>
    have hw := cancelLoop_waiting cfg q a active (q.list active .pdev).length none none
    rcases hl : q.cancelLoop cfg a active (q.list active .pdev).length none none with ⟨t, out⟩
    rw [hl] at hw
    simp only [advance, hl] at ha
    cases ha
    have hd := cancelLoop_cases h (fun _ _ p hp => by cases hp) hl
    exact .of_eq hw (hd.blockingPending h)
  | cancelCallback c =>
    rw [advance] at ha
    cases ha
    exact .of_eq rfl rfl
  | cancelResume a active c pnode qsize =>
    rcases hr : q.cancelResume cfg a active c pnode qsize with ⟨t, out⟩
    simp only [advance, hr] at ha
    cases ha
    obtain ⟨⟨held', hwf⟩, hd⟩ := cancelResume_cases h hheld hcur hr
    refine kept_resume hc hd hwf ?_
    rw [Queue.cancelResume] at hr
    split at hr
    · cases hr
      rfl
    · have hw := cancelLoop_waiting cfg (q.cancelSettle cfg active c) a active qsize pnode pnode
      rwa [hr] at hw
  | tailList =>
    rw [advance] at ha
    cases ha
    refine .of_eq rfl ?_
    split
    · rfl
    · rfl
  | tailBitmap =>
    rw [advance] at ha
    cases ha
    refine .of_eq rfl ?_
    split
    · rfl
    · rfl

def Serializer.Counted (s : Serializer) : Prop :=
  s.queue.blockingCmdWaiting.toNat = (s.queue.blockingPending + s.owed) % 65536

theorem counted_next_iff {s : Serializer} {e : Event} (hc : cfg.comp = .nonScan) (hinv : s.Inv cfg)
    (h : s.Counted) (hcur : CursorKept cfg s e) :
    (s.next cfg e).Counted ↔ RequestCounted cfg s e := by
  cases e with
  | call c =>
    refine iff_of_true ?_ trivial
    have howed : (s.next cfg (.call c)).owed = s.owed := by
      show ((s.threads ++ [c.frames]).flatten).countP Frame.owing = _
      have hzero : c.frames.countP Frame.owing = 0 := by
        cases c with
        | request c => rfl
        | remove k => rfl
        | timeout k => rfl
        | cancel t active pending => cases active <;> cases pending <;> rfl
      rw [flatten_append, flatten_singleton, countP_append, hzero]
      rfl
    rw [Serializer.Counted, howed]
    exact h
  | advance i o =>
    rcases next_eq cfg s i o with ⟨heq, htop⟩ | ⟨f, R, q', hist', new, htop, hframes, ha, hq, -, hperm⟩
    · rw [heq]
      refine iff_of_true h fun f hf => ?_
      rw [htop] at hf
      cases hf
    · have hinv := Inv.perm hinv hframes
      have howed : s.owed = [f].countP Frame.owing + R.countP Frame.owing := by
        rw [Serializer.owed, hframes.countP_eq, ← countP_append]
        rfl
      have howed' : (s.next cfg (.advance i o)).owed = new.countP Frame.owing + R.countP Frame.owing := by
        rw [Serializer.owed, hperm.countP_eq, countP_append]
      have hlt := q'.blockingCmdWaiting.toNat_lt
      rw [Serializer.Counted, howed] at h
      have hkept : (s.next cfg (.advance i o)).Counted ↔ Kept s.queue q' f new := by
        rw [Serializer.Counted, howed', hq, Kept]
        omega
      rw [hkept]
      cases f with
      | enqueue c =>
        rcases he : s.queue.enqueueCmd cfg o.others { c with ticket := s.hist.accepted } with ⟨r, status⟩
        have hcond : RequestCounted cfg s (.advance i o) ↔ s.queue.CountsRight cfg c := by
          constructor
          · intro hreq
            exact hreq _ htop
          · intro hreq f hf
            rw [htop] at hf
            cases hf
            exact hreq
        rw [hcond]
        simp only [advance, he] at ha
        cases status with
        | active n =>
          cases ha
          exact kept_enqueue_iff hinv.wf hc he rfl rfl
        | pending =>
          cases ha
          exact kept_enqueue_iff hinv.wf hc he rfl rfl
        | deniedUnspecified =>
          cases ha
          exact kept_enqueue_iff hinv.wf hc he rfl rfl
        | deniedListFull =>
          cases ha
          exact kept_enqueue_iff hinv.wf hc he rfl rfl
        | queueDisabled =>
          cases ha
          exact kept_enqueue_iff hinv.wf hc he rfl rfl
      | _ =>
        refine iff_of_true ?_ fun f hf => by
          rw [htop] at hf
          cases hf
          trivial
        exact kept_of_advance (R.filterMap Frame.holding) hinv.wf hc
          (fun c hc => filterMap_cons_some hc) (hcur _ htop) (fun _ h => by cases h) ha

theorem blockingPending_lt (h : Wf cfg q acting held) : q.blockingPending < 65536 := by
  have hlen := h.nodes.length_eq
  rw [length_append, length_append, length_range] at hlen
  have hle : q.blockingPending ≤ q.pendingList.length := countP_le_length
  have hpool := cfg.pool_lt
  have hsize : cfg.poolSize = cfg.maxActive + cfg.maxPending := rfl
  omega

theorem Serializer.Counted.blockingCounted {s : Serializer} (h : s.Counted) (hinv : s.Inv cfg) :
    BlockingCounted s := by
  refine ⟨h, fun howed => ?_⟩
  rw [Serializer.Counted, howed, Nat.add_zero, Nat.mod_eq_of_lt (blockingPending_lt hinv.wf)] at h
  exact h

/-- **The counter of waiting blocking commands is exact** in every state of every run of a non-scan queue whose
requests are counted right, and the first request that is not makes it wrong. -/
theorem blockingCounted_of_reachable {s : Serializer} (hc : cfg.comp = .nonScan)
    (h : (machine cfg fun s e => CursorKept cfg s e ∧ RequestCounted cfg s e).Reachable s) :
    BlockingCounted s ∧ ∀ e, e.ForQueue cfg → CursorKept cfg s e →
      (BlockingCounted (s.next cfg e) ↔ RequestCounted cfg s e) := by
  have hinv : s.Inv cfg ∧ s.Counted := by
    apply h.invariant (I := fun s => s.Inv cfg ∧ s.Counted)
    · rintro _ rfl
      exact ⟨inv_create cfg, rfl⟩
    · intro s e hs he
      exact ⟨inv_next hs.1 he.1 he.2.1, (counted_next_iff hc hs.1 hs.2 he.2.1).mpr he.2.2⟩
  refine ⟨hinv.2.blockingCounted hinv.1, fun e hfor hcur => ?_⟩
  rw [← counted_next_iff hc hinv.1 hinv.2 hcur]
  exact ⟨fun hcounted => hcounted.counted, fun hcounted => hcounted.blockingCounted (inv_next hinv.1 hfor hcur)⟩

instance (cfg : Cfg) (s : Serializer) : (f : Frame) → Decidable (match f with
    | .enqueue c => s.queue.CountsRight cfg c
    | _ => True)
  | .enqueue c => inferInstanceAs (Decidable (s.queue.CountsRight cfg c))
  | .activate _ | .settle _ _ | .checkRemoval _ | .checkCancel _ | .timeout _ | .dequeue _ | .move _ _
  | .moveResume _ | .release _ | .cancel _ _ | .cancelCallback _ | .cancelResume _ _ _ _ _ | .tailList
  | .tailBitmap => isTrue trivial

instance (cfg : Cfg) (s : Serializer) : (e : Event) → Decidable (RequestCounted cfg s e)
  | .call _ => isTrue trivial
  | .advance i _ => by
    unfold RequestCounted
    infer_instance

/-- A command of the first vdev is active, and a blocking one waits. -/
def duplicateBlocking : List Event :=
  .call (.request (cmdOf 1 1)) :: steps 0 5 ++ .call (.request (blockingOf 1 2)) :: steps 1 1 ++
    .call (.request (blockingOf 1 2)) :: steps 2 1

/-- **A request can stay counted**: the second one is refused as a duplicate, and the counter is 2 with one
blocking command waiting and no call in progress. -/
theorem not_blockingCounted : ∃ s, (machine twoVdevs fun _ _ => True).Reachable s ∧ s.frames = [] ∧
    ¬ BlockingCounted s := by
  refine ⟨_, Runs.Machine.Reachable.exec (.init rfl) duplicateBlocking (by decide), by decide, fun h => ?_⟩
  have hcounted := h.counted
  revert hcounted
  decide

/-- A blocking request waits for an active command, is counted, and is counted down when it is cancelled. -/
def cancelledBlocking : List Event :=
  .call (.request (cmdOf 1 1)) :: steps 0 5 ++ .call (.request (blockingOf 1 2)) :: steps 1 1 ++
    .call (.request (blockingOf 2 3)) :: steps 2 1 ++
    .call (.cancel (.vdevNonScanCmd 1) false true) :: steps 3 4

theorem blockingCounted_of_reachable_cancelled : ∃ s,
    (machine twoVdevs fun s e => CursorKept twoVdevs s e ∧ RequestCounted twoVdevs s e).Reachable s ∧
      s.queue.blockingCmdWaiting = 1 ∧ BlockingCounted s :=
  ⟨_, Runs.Machine.Reachable.exec (.init rfl) cancelledBlocking (by decide), by decide,
    (blockingCounted_of_reachable rfl (.exec (.init rfl) cancelledBlocking (by decide))).1⟩

end Sm8750Modules.Serialization
