import Sm8750Modules.Serialization.Conserve

/-!
# WLAN serialization — exclusivity

No two active non-scan commands are of one vdev, and a blocking one is active alone. A request is
activated at once only if the bits allow it.
-/

namespace Sm8750Modules.Serialization

open List

variable {cfg : Cfg} {q q' : Queue} {acting : List ℕ} {held : List Command} {n : ℕ}
variable {hist hist' : History} {f : Frame} {R new : List Frame}

def Guarded (q : Queue) (held : List Command) : Prop :=
  ∀ n ∈ q.activeList, (q.cmd n).isBlocking = true →
    q.activeList = [n] ∧ held = [] ∧ q.blockingCmdActive = true

/-- The move picks no command while a blocking one is active, and no blocking command from the list of
a vdev while a bit is set. -/
def Frame.PicksAlone (q : Queue) (f : Frame) : Prop :=
  ∀ o ∈ f.moveQueue q, ∀ n ∈ (q.pickPending o).2,
    (∀ m ∈ q.activeList, (q.cmd m).isBlocking = false) ∧
      (o ≠ .pdev → (q.cmd n).isBlocking = true → q.vdevActiveCmdBitmap = ∅)
deriving Decidable

namespace Guarded

theorem perm (h : Guarded q held) {held' : List Command} (hp : held.Perm held') : Guarded q held' := by
  intro n hn hb
  obtain ⟨hactive, hheld, hbit⟩ := h n hn hb
  refine ⟨hactive, ?_, hbit⟩
  rw [hheld] at hp
  exact hp.nil_eq.symm

theorem sameLists (h : Guarded q held) (e : SameLists q q') : Guarded q' held := by
  intro n hn hb
  rw [e.active] at hn ⊢
  rw [e.cmd] at hb
  rw [e.blocking]
  exact h n hn hb

theorem holders_eq_nil (h : BitsHeld q held) (hempty : q.vdevActiveCmdBitmap = ∅) :
    q.activeList = [] ∧ held = [] := by
  have hnil : (q.holders held).map Command.vdev = [] := by
    rw [eq_nil_iff_forall_not_mem]
    intro v hv
    have hmem := (h.bitmap v).mpr hv
    rw [hempty] at hmem
    exact Finset.notMem_empty v hmem
  have hnil := map_eq_nil_iff.mp hnil
  rw [Queue.holders, append_eq_nil_iff, map_eq_nil_iff] at hnil
  exact hnil

theorem insert (hbits : BitsHeld q held) {b : Bool}
    (hactive : q'.activeList = insertBy b n q.activeList)
    (hcmd : ∀ m ∈ q.activeList, q'.cmd m = q.cmd m)
    (hbit : q'.blockingCmdActive = (q.blockingCmdActive || (q'.cmd n).isBlocking))
    (hothers : ∀ m ∈ q.activeList, (q.cmd m).isBlocking = false)
    (hempty : (q'.cmd n).isBlocking = true → q.vdevActiveCmdBitmap = ∅) : Guarded q' held := by
  intro m hm hb
  rw [hactive, mem_insertBy] at hm
  have heq : m = n := by
    rcases hm with heq | hm
    · exact heq
    · rw [hcmd m hm, hothers m hm] at hb
      cases hb
  subst heq
  obtain ⟨hnil, hheld⟩ := holders_eq_nil hbits (hempty hb)
  refine ⟨?_, hheld, ?_⟩
  · rw [hactive, hnil]
    cases b
    · rfl
    · rfl
  · rw [hbit, hb, Bool.or_true]

theorem taken (h : Guarded q held) (hwf : Wf cfg q acting held) (hc : cfg.comp = .nonScan)
    {c : Command} {active : Bool} (e : Taken cfg q q' n c active) : Guarded q' held := by
  have hne : ∀ m ∈ q.activeList, m ≠ n := by
    intro m hm heq
    exact (e.notMem hwf).1 (heq ▸ hm)
  cases active with
  | false =>
    intro m hm hb
    have hactive : q'.activeList = q.activeList := e.activeList
    have hbit : q'.blockingCmdActive = q.blockingCmdActive := e.blocking hc
    rw [hactive] at hm ⊢
    rw [e.cmd_others (hne m hm)] at hb
    rw [hbit]
    exact h m hm hb
  | true =>
    have hallowed := e.allowed hc rfl
    have hactive : q'.activeList = insertBy c.isHighPriority n q.activeList := e.activeList
    have hbit : q'.blockingCmdActive = (q.blockingCmdActive || (q'.cmd n).isBlocking) := by
      rw [e.cmd]
      exact e.blocking hc
    refine insert (hwf.bits hc) hactive (fun m hm => e.cmd_others (hne m hm)) hbit ?_ ?_
    · intro m hm
      by_contra hb
      rw [Bool.not_eq_false] at hb
      obtain ⟨hone, -, hset⟩ := h m hm hb
      split at hallowed
      · have hnil := (holders_eq_nil (hwf.bits hc) hallowed).1
        rw [hnil] at hm
        cases hm
      · rw [hset] at hallowed
        cases hallowed
    · intro hb
      rw [e.cmd] at hb
      rwa [if_pos hb] at hallowed

theorem moved (hwf : Wf cfg q acting held) (hc : cfg.comp = .nonScan) (e : Moved cfg q q' n)
    (hothers : ∀ m ∈ q.activeList, (q.cmd m).isBlocking = false)
    (hempty : (q.cmd n).isBlocking = true → q.vdevActiveCmdBitmap = ∅) : Guarded q' held := by
  have hcmd := e.cmd
  refine insert (hwf.bits hc) e.activeList (fun m _ => hcmd m) ?_ hothers ?_
  · rw [hcmd]
    exact e.blocking hc
  · rw [hcmd]
    exact hempty

theorem freed (h : Guarded q held) (hwf : Wf cfg q acting held) (e : Freed cfg q q' n true)
    (held' : List Command) : Guarded q' held' := by
  intro m hm hb
  have hactive : q'.activeList = q.activeList.erase n := e.activeList
  have hne : m ≠ n := fun heq => e.notMem_active hwf (heq ▸ hm)
  rw [hactive] at hm
  rw [e.cmd m hne] at hb
  have hmem := mem_of_mem_erase hm
  have hn : n ∈ q.activeList := e.mem
  rw [(h m hmem hb).1, mem_singleton] at hn
  exact absurd hn.symm hne

theorem freedPending (h : Guarded q held) (hwf : Wf cfg q acting held) (e : Freed cfg q q' n false)
    (hbit : q'.blockingCmdActive = q.blockingCmdActive) : Guarded q' held := by
  intro m hm hb
  have hactive : q'.activeList = q.activeList := e.activeList
  have hne : m ≠ n := fun heq => e.notMem_active hwf (heq ▸ hm)
  rw [hactive] at hm ⊢
  rw [e.cmd m hne] at hb
  rw [hbit]
  exact h m hm hb

theorem cancelDone (h : Guarded q held) (hwf : Wf cfg q acting held) {a : CancelArgs} {active : Bool}
    {out : CancelOutcome} (hd : CancelDone cfg q q' active out) :
    Guarded q' ((afterCancel cfg a active out).filterMap Frame.holding ++ held) := by
  cases out with
  | finished =>
    have hnil : (afterCancel cfg a active .finished).filterMap Frame.holding = [] := by
      rw [afterCancel]
      split
      · rfl
      · rfl
    rw [hnil]
    exact h.sameLists hd
  | removed c pnode qsize =>
    obtain ⟨n, e, -, -, hbit⟩ := hd
    cases active with
    | true => exact h.freed hwf e _
    | false => exact h.freedPending hwf e hbit

theorem cancelSettle (active : Bool) {c : Command}
    (h : Guarded q (if active then c :: held else held)) :
    Guarded (q.cancelSettle cfg active c) held := by
  obtain ⟨hactive, -, hnode⟩ := list_cancelSettle cfg q active c
  have hcmd : (q.cancelSettle cfg active c).cmd = q.cmd := by
    funext m
    rw [Queue.cmd, Queue.cmd, hnode]
  intro m hm hb
  rw [hactive] at hm ⊢
  rw [hcmd] at hb
  obtain ⟨hone, hheld, hbit⟩ := h m hm hb
  cases active with
  | true => exact absurd hheld (cons_ne_nil c held)
  | false =>
    refine ⟨hone, hheld, ?_⟩
    rw [Queue.cancelSettle]
    split
    · exact hbit
    · show (if c.isBlocking = true then _ else q).blockingCmdActive = true
      split
      · exact hbit
      · exact hbit

/-- **Every step keeps a blocking command alone**, as long as its move does. -/
theorem step (h : Guarded q ((f :: R).filterMap Frame.holding)) (hinv : Inv cfg q hist (f :: R))
    (hc : cfg.comp = .nonScan) (halone : f.PicksAlone q) (hs : Step cfg q hist f q' hist' new) :
    Guarded q' ((new ++ R).filterMap Frame.holding) := by
  rw [filterMap_append]
  cases hs with
  | plain e hf hnew _ =>
    rw [(filterMap_plain hnew).2.2.1]
    rw [filterMap_cons_none hf.holding] at h
    exact h.sameLists e
  | @taken c _ n active e =>
    have hnil : ((if active then [Frame.activate n] else []).filterMap Frame.holding) = [] := by
      cases active
      · rfl
      · rfl
    rw [hnil]
    have hdrop := hinv.dropPlain ⟨rfl, rfl, rfl, rfl, hinv.ok _ mem_cons_self⟩
    exact taken h hdrop.wf hc e
  | @start n =>
    have hsame : SameLists q (q.startTimer n) := { SameLists.refl hinv.wf with }
    exact sameLists h hsame
  | noTimer => exact h
  | @settle n _ g hg =>
    rw [filterMap_cons_none hg.holding]
    have hcmd : (q.settleNode n).cmd = q.cmd := cmd_settleNode q n
    intro m hm hb
    rw [hcmd] at hb
    exact h m hm hb
  | @dequeue r _ n e _ =>
    have hdrop := hinv.dropPlain ⟨rfl, rfl, rfl, rfl, trivial⟩
    exact freed h hdrop.wf e _
  | @move _ q₁ _ n new hf hnew e hm hpick =>
    obtain ⟨o, ho, hn, hpdev⟩ := hpick hc
    obtain ⟨hothers, hvdev⟩ := halone o ho n hn
    have hwf := ((hinv.dropPlain hf).sameLists e).wf
    have hnil : (Frame.activate n :: new).filterMap Frame.holding = [] :=
      (filterMap_plain hnew).2.2.1
    rw [hnil]
    refine moved hwf hc hm ?_ ?_
    · rw [e.active]
      intro m hm
      rw [e.cmd]
      exact hothers m hm
    · rw [e.cmd, e.bitmap]
      intro hb
      rcases eq_or_ne o .pdev with ho' | ho'
      · exact hpdev ho' hb
      · exact hvdev ho' hb
  | release => exact h
  | cancel hd =>
    have hdrop := hinv.dropPlain ⟨rfl, rfl, rfl, rfl, trivial⟩
    exact cancelDone h hdrop.wf hd
  | @resume a active c pnode qsize _ out hd =>
    have hheld : (Frame.cancelResume a active c pnode qsize :: R).filterMap Frame.holding =
        if active then c :: R.filterMap Frame.holding else R.filterMap Frame.holding := by
      cases active
      · rfl
      · rfl
    have hacting : (Frame.cancelResume a active c pnode qsize :: R).filterMap Frame.activating =
        R.filterMap Frame.activating := rfl
    have hwf := hinv.wf
    rw [hheld] at h hwf
    exact cancelDone (cancelSettle active h) (Wf.cancelSettle active hwf) hd

end Guarded

/-- The condition of a step: the move it makes, if any, picks no command that is excluded. -/
def MovesAlone (cfg : Cfg) (s : Serializer) : Event → Prop
  | .call c => CursorKept cfg s (.call c)
  | .advance i o => CursorKept cfg s (.advance i o) ∧ ∀ f ∈ s.top i, f.PicksAlone s.queue

theorem MovesAlone.cursorKept {s : Serializer} {e : Event} (h : MovesAlone cfg s e) :
    CursorKept cfg s e := by
  cases e with
  | call c => exact h
  | advance i o => exact h.1

def Serializer.Guarded (s : Serializer) : Prop :=
  Serialization.Guarded s.queue (s.frames.filterMap Frame.holding)

theorem guarded_next {s : Serializer} {e : Event} (hc : cfg.comp = .nonScan) (hinv : s.Inv cfg)
    (h : s.Guarded) (hfor : e.ForQueue cfg) (halone : MovesAlone cfg s e) :
    (s.next cfg e).Guarded := by
  cases e with
  | call c =>
    have hheld : (s.next cfg (.call c)).frames.filterMap Frame.holding =
        s.frames.filterMap Frame.holding := by
      show (s.threads ++ [c.frames]).flatten.filterMap Frame.holding = _
      rw [flatten_append, flatten_singleton, filterMap_append,
        (filterMap_plain (frames_plain hfor)).2.2.1, append_nil]
      rfl
    rw [Serializer.Guarded, hheld]
    exact h
  | advance i o =>
    rcases next_advance hinv halone.1 with heq | ⟨f, R, new, q', hist', htop, hframes, hstep, hq, -, hperm⟩
    · rw [heq]
      exact h
    · have hg := Guarded.step (Guarded.perm h (hframes.filterMap _)) (Inv.perm hinv hframes) hc
        (halone.2 f htop) hstep
      rw [Serializer.Guarded, hq]
      exact hg.perm (hperm.symm.filterMap _)

structure Exclusive (q : Queue) : Prop where
  vdev : ∀ n ∈ q.activeList, ∀ m ∈ q.activeList, (q.cmd n).vdev = (q.cmd m).vdev → n = m
  blocking : ∀ n ∈ q.activeList, (q.cmd n).isBlocking = true → ∀ m ∈ q.activeList, m = n

instance (q : Queue) : Decidable (Exclusive q) :=
  decidable_of_iff ((∀ n ∈ q.activeList, ∀ m ∈ q.activeList, (q.cmd n).vdev = (q.cmd m).vdev → n = m) ∧
    ∀ n ∈ q.activeList, (q.cmd n).isBlocking = true → ∀ m ∈ q.activeList, m = n)
    ⟨fun h => ⟨h.1, h.2⟩, fun h => ⟨h.1, h.2⟩⟩

/-- **Exclusivity** holds in every state of every run of a non-scan queue in which the moves pick no
command that is excluded. -/
theorem exclusive_of_reachable {s : Serializer} (hc : cfg.comp = .nonScan)
    (h : (machine cfg (MovesAlone cfg)).Reachable s) : Exclusive s.queue := by
  have hinv : s.Inv cfg ∧ s.Guarded := by
    apply h.invariant (I := fun s => s.Inv cfg ∧ s.Guarded)
    · rintro _ rfl
      exact ⟨inv_create cfg, fun n hn => by cases hn⟩
    · intro s e hs he
      exact ⟨inv_next hs.1 he.1 he.2.cursorKept, guarded_next hc hs.1 hs.2 he.1 he.2⟩
  refine ⟨fun n hn m hm heq => ?_, fun n hn hb m hm => ?_⟩
  · have hnd := (hinv.1.wf.bits hc).alone
    rw [Queue.holders, map_append, map_map] at hnd
    exact inj_on_of_nodup_map (nodup_append.mp hnd).1 hn hm heq
  · rw [(hinv.2 n hn hb).1, mem_singleton] at hm
    exact hm

instance (cfg : Cfg) (s : Serializer) : (e : Event) → Decidable (MovesAlone cfg s e)
  | .call _ => isTrue trivial
  | .advance i o => inferInstanceAs
      (Decidable (CursorKept cfg s (.advance i o) ∧ ∀ f ∈ s.top i, f.PicksAlone s.queue))

def blockingOf (v cmdId : ℕ) : Command := { cmdOf v cmdId with isBlocking := true }

/-- The first vdev has an active and a pending command; the active one is removed, and before the
pending one is moved, a blocking request of the second vdev comes in. -/
def lateBlocking : List Event :=
  .call (.request (cmdOf 1 1)) :: steps 0 5 ++ .call (.request (cmdOf 1 2)) :: steps 1 1 ++
    .call (.remove (cmdOf 1 1)) :: steps 2 1 ++ .call (.request (blockingOf 2 3)) :: steps 3 5 ++
    steps 2 3

/-- **A command can be activated next to a blocking one.** -/
theorem not_exclusive : ∃ s, (machine twoVdevs fun _ _ => True).Reachable s ∧ ¬Exclusive s.queue :=
  ⟨_, Runs.Machine.Reachable.exec (.init rfl) lateBlocking (by decide), by decide⟩

/-- The blocking request comes in first, waits for the active command to be removed, and is moved
alone. -/
def earlyBlocking : List Event :=
  .call (.request (cmdOf 1 1)) :: steps 0 5 ++ .call (.request (blockingOf 2 3)) :: steps 1 1 ++
    .call (.request (cmdOf 1 2)) :: steps 2 1 ++ .call (.remove (cmdOf 1 1)) :: steps 3 8

theorem exclusive_of_reachable_earlyBlocking : ∃ s, (machine twoVdevs (MovesAlone twoVdevs)).Reachable s ∧
    s.queue.activeList.map s.queue.cmd = [{ blockingOf 2 3 with ticket := 1 }] ∧ Exclusive s.queue :=
  ⟨_, Runs.Machine.Reachable.exec (.init rfl) earlyBlocking (by decide), by decide,
    exclusive_of_reachable rfl (.exec (.init rfl) earlyBlocking (by decide))⟩

end Sm8750Modules.Serialization
