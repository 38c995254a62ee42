import Sm8750Modules.Serialization.Machine

/-!
# WLAN serialization — the invariant of a queue

The three lists of a pdev partition the nodes, the lists of the vdevs follow the lists of the
pdev, and the bit of a vdev belongs to one command: an active one, or one that a cancel has taken
out and whose bit it has not cleared yet.
-/

namespace Sm8750Modules.Serialization

open Function List

variable {cfg : Cfg} {q q' : Queue} {acting : List ℕ} {held : List Command} {n : ℕ}

def Command.key (c : Command) : ℕ × ℕ × ℕ := (c.cmdId, c.cmdType, c.vdev)

theorem Command.matchIdVdev_iff {c k : Command} : c.matchIdVdev k = true ↔ c.key = k.key := by
  simp only [matchIdVdev, matchIdType, key, Bool.and_eq_true, beq_iff_eq, Prod.mk.injEq, and_assoc]

def insertBy (front : Bool) (n : ℕ) (l : List ℕ) : List ℕ := if front then n :: l else l ++ [n]

theorem insertBy_perm (front : Bool) (n : ℕ) (l : List ℕ) : (insertBy front n l).Perm (n :: l) := by
  cases front
  · exact perm_append_comm
  · exact .refl _

theorem mem_insertBy {front : Bool} {m : ℕ} {l : List ℕ} : m ∈ insertBy front n l ↔ m = n ∨ m ∈ l := by
  rw [(insertBy_perm front n l).mem_iff, mem_cons]

theorem filter_insertBy (front : Bool) (n : ℕ) (l : List ℕ) (p : ℕ → Bool) :
    (insertBy front n l).filter p = if p n then insertBy front n (l.filter p) else l.filter p := by
  cases front
  · show (l ++ [n]).filter p = if p n then l.filter p ++ [n] else l.filter p
    rw [filter_append]
    by_cases hp : p n <;> simp [hp]
  · show (n :: l).filter p = if p n then n :: l.filter p else l.filter p
    rw [filter_cons]

theorem erase_insertBy {front : Bool} {l : List ℕ} (h : n ∉ l) : (insertBy front n l).erase n = l := by
  cases front
  · show (l ++ [n]).erase n = l
    rw [erase_append_right _ h, erase_cons_head, append_nil]
  · show (n :: l).erase n = l
    rw [erase_cons_head]

theorem filter_erase_of_nodup {l : List ℕ} (h : l.Nodup) (n : ℕ) (p : ℕ → Bool) :
    (l.erase n).filter p = (l.filter p).erase n := by
  rw [h.erase_eq_filter, (h.filter p).erase_eq_filter, filter_filter, filter_filter]
  apply filter_congr
  intro m _
  rw [Bool.and_comm]

/-! ### The invariant -/

def Queue.holders (q : Queue) (held : List Command) : List Command := q.activeList.map q.cmd ++ held

structure Synced (q : Queue) : Prop where
  active : ∀ v, q.vdevActive v = q.activeList.filter fun n => (q.cmd n).vdev = v
  pending : ∀ v, q.vdevPending v = q.pendingList.filter fun n => (q.cmd n).vdev = v

structure BitsHeld (q : Queue) (held : List Command) : Prop where
  alone : ((q.holders held).map Command.vdev).Nodup
  bitmap : ∀ v, v ∈ q.vdevActiveCmdBitmap ↔ v ∈ (q.holders held).map Command.vdev

/-- The invariant of a queue while the nodes `acting` are being activated and the bits of the
commands `held` are still to be cleared. -/
structure Wf (cfg : Cfg) (q : Queue) (acting : List ℕ) (held : List Command) : Prop where
  nodes : (q.cmdPoolList ++ (q.activeList ++ q.pendingList)).Perm (List.range cfg.poolSize)
  pool : ∀ n ∈ q.cmdPoolList, q.node n = {}
  actingNodup : acting.Nodup
  actingActive : ∀ n ∈ acting, n ∈ q.activeList
  marked : ∀ n, (q.node n).markedForActivation = true ↔ n ∈ acting
  vdevs : ∀ n ∈ q.activeList ++ q.pendingList, (q.cmd n).vdev ∈ cfg.vdevs
  keys : (q.pendingList.map fun n => (q.cmd n).key).Nodup
  synced : cfg.comp = .nonScan → Synced q
  bits : cfg.comp = .nonScan → BitsHeld q held

namespace Wf

section

variable (h : Wf cfg q acting held)
include h

theorem nodup : (q.cmdPoolList ++ (q.activeList ++ q.pendingList)).Nodup :=
  h.nodes.nodup_iff.mpr nodup_range

theorem activeNodup : q.activeList.Nodup :=
  (nodup_append.mp (nodup_append.mp h.nodup).2.1).1

theorem pendingNodup : q.pendingList.Nodup :=
  (nodup_append.mp (nodup_append.mp h.nodup).2.1).2.1

theorem listNodup (active : Bool) : (q.list active .pdev).Nodup := by
  cases active
  · exact h.pendingNodup
  · exact h.activeNodup

theorem active_notMem_pending (hn : n ∈ q.activeList) :
    n ∉ q.pendingList := fun hn' =>
  (nodup_append.mp (nodup_append.mp h.nodup).2.1).2.2 n hn n hn' rfl

theorem pending_notMem_active (hn : n ∈ q.pendingList) :
    n ∉ q.activeList := fun hn' => h.active_notMem_pending hn' hn

theorem pool_notMem (hn : n ∈ q.cmdPoolList) : n ∉ q.activeList ∧ n ∉ q.pendingList := by
  have hd := (nodup_append.mp h.nodup).2.2 n hn
  exact ⟨fun hn' => hd n (mem_append_left _ hn') rfl,
    fun hn' => hd n (mem_append_right _ hn') rfl⟩

theorem pool_of_notMem_list {active : Bool} (hn : n ∈ q.list active .pdev) : n ∉ q.cmdPoolList := by
  intro hp
  cases active
  · exact (h.pool_notMem hp).2 hn
  · exact (h.pool_notMem hp).1 hn

theorem poolNodup : q.cmdPoolList.Nodup := (nodup_append.mp h.nodup).1

theorem not_acting_pending (hn : n ∈ q.pendingList) : n ∉ acting :=
  fun ha => h.pending_notMem_active hn (h.actingActive n ha)

theorem perm {acting' : List ℕ} {held' : List Command}
    (ha : acting.Perm acting') (hh : held.Perm held') : Wf cfg q acting' held' where
  nodes := h.nodes
  pool := h.pool
  actingNodup := ha.nodup_iff.mp h.actingNodup
  actingActive n hn := h.actingActive n (ha.mem_iff.mpr hn)
  marked n := (h.marked n).trans ha.mem_iff
  vdevs := h.vdevs
  keys := h.keys
  synced := h.synced
  bits hc := by
    have hp : ((q.holders held).map Command.vdev).Perm ((q.holders held').map Command.vdev) :=
      (hh.append_left _).map _
    exact ⟨hp.nodup_iff.mp (h.bits hc).alone, fun v => ((h.bits hc).bitmap v).trans hp.mem_iff⟩

end

end Wf

/-- The lists are left as they are, up to the order of the pool. -/
structure SameLists (q q' : Queue) : Prop where
  active : q'.activeList = q.activeList
  pending : q'.pendingList = q.pendingList
  pool : q'.cmdPoolList.Perm q.cmdPoolList
  poolNode : ∀ n ∈ q.cmdPoolList, q'.node n = {}
  cmd : ∀ n, q'.cmd n = q.cmd n
  marked : ∀ n, (q'.node n).markedForActivation = (q.node n).markedForActivation
  vdevActive : q'.vdevActive = q.vdevActive
  vdevPending : q'.vdevPending = q.vdevPending
  bitmap : q'.vdevActiveCmdBitmap = q.vdevActiveCmdBitmap
  blocking : q'.blockingCmdActive = q.blockingCmdActive

structure Taken (cfg : Cfg) (q q' : Queue) (n : ℕ) (c : Command) (active : Bool) : Prop where
  pool : q.cmdPoolList = n :: q'.cmdPoolList
  activeList : q'.activeList =
    if active then insertBy c.isHighPriority n q.activeList else q.activeList
  pendingList : q'.pendingList =
    if active then q.pendingList else insertBy c.isHighPriority n q.pendingList
  cmd : q'.cmd n = c
  marked : (q'.node n).markedForActivation = active
  unmoved : (q'.node n).markedForMovement = false
  others : ∀ m, m ≠ n → q'.node m = q.node m
  timers : q'.timers = q.timers
  waiting : q'.blockingCmdWaiting =
    if cfg.comp = .nonScan ∧ c.isBlocking ∧ q.vdevActiveCmdBitmap.Nonempty then
      q.blockingCmdWaiting + 1 else q.blockingCmdWaiting
  fresh : active = false → ∀ m ∈ q.pendingList, (q.cmd m).key ≠ c.key
  synced : cfg.comp = .nonScan → Synced q'
  bitmap : cfg.comp = .nonScan → q'.vdevActiveCmdBitmap =
    if active then insert c.vdev q.vdevActiveCmdBitmap else q.vdevActiveCmdBitmap
  blocking : cfg.comp = .nonScan → q'.blockingCmdActive =
    if active then q.blockingCmdActive || c.isBlocking else q.blockingCmdActive
  free : cfg.comp = .nonScan → active = true → c.vdev ∉ q.vdevActiveCmdBitmap
  allowed : cfg.comp = .nonScan → active = true →
    if c.isBlocking then q.vdevActiveCmdBitmap = ∅ else q.blockingCmdActive = false

/-- A node is taken out of the active or the pending list and put into the pool. -/
structure Freed (cfg : Cfg) (q q' : Queue) (n : ℕ) (active : Bool) : Prop where
  mem : n ∈ q.list active .pdev
  activeList : q'.activeList = if active then q.activeList.erase n else q.activeList
  pendingList : q'.pendingList = if active then q.pendingList else q.pendingList.erase n
  pool : q'.cmdPoolList = q.cmdPoolList ++ [n]
  node : q'.node n = {}
  others : ∀ m, m ≠ n → (q.node m).markedForActivation = false → q'.node m = q.node m
  cmd : ∀ m, m ≠ n → q'.cmd m = q.cmd m
  marked : ∀ m, m ≠ n →
    (q'.node m).markedForActivation = (q.node m).markedForActivation
  timers : q'.timers = if active then (q.stopTimer (q.cmd n)).timers else q.timers
  waiting : q'.blockingCmdWaiting = q.blockingCmdWaiting
  unmarked : (q.node n).markedForActivation = false
  synced : cfg.comp = .nonScan → Synced q'

structure Moved (cfg : Cfg) (q q' : Queue) (n : ℕ) : Prop where
  mem : n ∈ q.pendingList
  activeList : q'.activeList = insertBy (q.cmd n).isHighPriority n q.activeList
  pendingList : q'.pendingList = q.pendingList.erase n
  pool : q'.cmdPoolList = q.cmdPoolList
  node : q'.node = Function.update q.node n { q.node n with markedForActivation := true }
  timers : q'.timers = q.timers
  waiting : q'.blockingCmdWaiting =
    if cfg.comp = .nonScan ∧ (q.cmd n).isBlocking then q.blockingCmdWaiting - 1
    else q.blockingCmdWaiting
  synced : cfg.comp = .nonScan → Synced q'
  bitmap : cfg.comp = .nonScan →
    q'.vdevActiveCmdBitmap = insert (q.cmd n).vdev q.vdevActiveCmdBitmap
  blocking : cfg.comp = .nonScan →
    q'.blockingCmdActive = (q.blockingCmdActive || (q.cmd n).isBlocking)
  free : cfg.comp = .nonScan → (q.cmd n).vdev ∉ q.vdevActiveCmdBitmap

/-! ### Each of them keeps the invariant -/

theorem SameLists.holders (e : SameLists q q') (held : List Command) :
    q'.holders held = q.holders held := by
  rw [Queue.holders, Queue.holders, e.active, show q'.cmd = q.cmd from funext e.cmd]

theorem Wf.sameLists (h : Wf cfg q acting held) (e : SameLists q q') : Wf cfg q' acting held where
  nodes := by
    rw [e.active, e.pending]
    exact (e.pool.append_right _).trans h.nodes
  pool n hn := e.poolNode n (e.pool.mem_iff.mp hn)
  actingNodup := h.actingNodup
  actingActive n hn := by rw [e.active]; exact h.actingActive n hn
  marked n := by rw [e.marked]; exact h.marked n
  vdevs n hn := by
    rw [e.active, e.pending] at hn
    rw [e.cmd]
    exact h.vdevs n hn
  keys := by
    rw [e.pending]
    simpa only [e.cmd] using h.keys
  synced hc := by
    refine ⟨fun v => ?_, fun v => ?_⟩
    · rw [e.vdevActive, e.active, (h.synced hc).active]
      simp only [e.cmd]
    · rw [e.vdevPending, e.pending, (h.synced hc).pending]
      simp only [e.cmd]
  bits hc := by
    refine ⟨?_, fun v => ?_⟩
    · rw [e.holders]
      exact (h.bits hc).alone
    · rw [e.holders, e.bitmap]
      exact (h.bits hc).bitmap v

namespace Taken

variable {c : Command} {active : Bool}

theorem mem_pool (e : Taken cfg q q' n c active) : n ∈ q.cmdPoolList := by
  rw [e.pool]
  exact mem_cons_self

theorem notMem (e : Taken cfg q q' n c active) (h : Wf cfg q acting held) :
    n ∉ q.activeList ∧ n ∉ q.pendingList :=
  h.pool_notMem e.mem_pool

theorem cmd_others (e : Taken cfg q q' n c active) {m : ℕ} (hm : m ≠ n) : q'.cmd m = q.cmd m := by
  rw [Queue.cmd, Queue.cmd, e.others m hm]

theorem map_cmd (e : Taken cfg q q' n c active) {l : List ℕ} (hl : n ∉ l) {β : Type*}
    (g : Command → β) : l.map (fun m => g (q'.cmd m)) = l.map fun m => g (q.cmd m) := by
  apply map_congr_left
  intro m hm
  rw [e.cmd_others fun heq => hl (heq ▸ hm)]

theorem holders_perm (e : Taken cfg q q' n c active) (h : Wf cfg q acting held) :
    (q'.holders held).Perm (if active then c :: q.holders held else q.holders held) := by
  have hmap := e.map_cmd (e.notMem h).1 id
  simp only [id] at hmap
  rw [Queue.holders, Queue.holders, e.activeList]
  cases active
  · show (q.activeList.map q'.cmd ++ held).Perm (q.activeList.map q.cmd ++ held)
    rw [hmap]
  · show ((insertBy c.isHighPriority n q.activeList).map q'.cmd ++ held).Perm
      (c :: (q.activeList.map q.cmd ++ held))
    refine (((insertBy_perm _ n _).map q'.cmd).append_right held).trans ?_
    rw [map_cons, e.cmd, hmap]
    exact .refl _

end Taken

theorem Wf.taken (h : Wf cfg q acting held) {c : Command} {active : Bool}
    (e : Taken cfg q q' n c active) (hv : c.vdev ∈ cfg.vdevs) :
    Wf cfg q' (if active then n :: acting else acting) held where
  nodes := by
    refine .trans ?_ h.nodes
    rw [e.activeList, e.pendingList, e.pool]
    cases active
    · refine .trans (.append_left _ (.append_left _ (insertBy_perm _ n _))) ?_
      refine .trans (.append_left _ perm_middle) ?_
      exact perm_middle
    · refine .trans (.append_left _ ((insertBy_perm _ n _).append_right _)) ?_
      exact perm_middle
  pool m hm := by
    have hnd := h.poolNodup
    rw [e.pool, nodup_cons] at hnd
    rw [e.others m fun heq => hnd.1 (heq ▸ hm)]
    apply h.pool
    rw [e.pool]
    exact mem_cons_of_mem _ hm
  actingNodup := by
    cases active
    · exact h.actingNodup
    · exact nodup_cons.mpr ⟨fun ha => (e.notMem h).1 (h.actingActive n ha), h.actingNodup⟩
  actingActive m hm := by
    rw [e.activeList]
    cases active
    · exact h.actingActive m hm
    · rcases mem_cons.mp hm with rfl | hm
      · exact mem_insertBy.mpr (.inl rfl)
      · exact mem_insertBy.mpr (.inr (h.actingActive m hm))
  marked m := by
    have hnot : n ∉ acting := fun ha => (e.notMem h).1 (h.actingActive n ha)
    rcases eq_or_ne m n with rfl | hm
    · rw [e.marked]
      cases active
      · exact ⟨fun ht => absurd ht Bool.false_ne_true, fun ha => absurd ha hnot⟩
      · exact ⟨fun _ => mem_cons_self, fun _ => rfl⟩
    · rw [e.others m hm, h.marked m]
      cases active
      · exact Iff.rfl
      · exact ⟨mem_cons_of_mem _, fun ha => (mem_cons.mp ha).resolve_left hm⟩
  vdevs m hm := by
    have hmem : m = n ∨ m ∈ q.activeList ++ q.pendingList := by
      rw [e.activeList, e.pendingList, mem_append] at hm
      rw [mem_append]
      cases active
      · rcases hm with hm | hm
        · exact .inr (.inl hm)
        · exact (mem_insertBy.mp hm).imp_right .inr
      · rcases hm with hm | hm
        · exact (mem_insertBy.mp hm).imp_right .inl
        · exact .inr (.inr hm)
    rcases eq_or_ne m n with rfl | hne
    · rw [e.cmd]
      exact hv
    · rw [e.cmd_others hne]
      exact h.vdevs m (hmem.resolve_left hne)
  keys := by
    have hmap := e.map_cmd (e.notMem h).2 Command.key
    rw [e.pendingList]
    cases active
    · show ((insertBy c.isHighPriority n q.pendingList).map fun m => (q'.cmd m).key).Nodup
      refine (((insertBy_perm _ n _).map _).nodup_iff).mpr ?_
      rw [map_cons, hmap, e.cmd, nodup_cons]
      refine ⟨fun hmem => ?_, h.keys⟩
      obtain ⟨m, hm, heq⟩ := mem_map.mp hmem
      exact e.fresh rfl m hm heq
    · show (q.pendingList.map fun m => (q'.cmd m).key).Nodup
      rw [hmap]
      exact h.keys
  synced := e.synced
  bits hc := by
    have hp := (e.holders_perm h).map Command.vdev
    refine ⟨hp.nodup_iff.mpr ?_, fun v => ?_⟩
    · cases active
      · exact (h.bits hc).alone
      · refine nodup_cons.mpr ⟨fun hmem => ?_, (h.bits hc).alone⟩
        exact e.free hc rfl (((h.bits hc).bitmap _).mpr hmem)
    · rw [hp.mem_iff, e.bitmap hc]
      cases active
      · exact (h.bits hc).bitmap v
      · show v ∈ insert c.vdev q.vdevActiveCmdBitmap ↔ v ∈ c.vdev :: (q.holders held).map Command.vdev
        rw [Finset.mem_insert, mem_cons, (h.bits hc).bitmap v]

namespace Freed

variable {active : Bool}

theorem notMem_active (e : Freed cfg q q' n active) (h : Wf cfg q acting held) : n ∉ q'.activeList := by
  rw [e.activeList]
  cases active
  · exact h.pending_notMem_active e.mem
  · exact h.activeNodup.not_mem_erase

theorem notMem_pending (e : Freed cfg q q' n active) (h : Wf cfg q acting held) :
    n ∉ q'.pendingList := by
  rw [e.pendingList]
  cases active
  · exact h.pendingNodup.not_mem_erase
  · exact h.active_notMem_pending e.mem

theorem active_subset (e : Freed cfg q q' n active) : q'.activeList ⊆ q.activeList := by
  rw [e.activeList]
  cases active
  · exact List.Subset.refl _
  · exact erase_subset

theorem pending_sublist (e : Freed cfg q q' n active) : q'.pendingList.Sublist q.pendingList := by
  rw [e.pendingList]
  cases active
  · exact erase_sublist
  · exact .refl _

theorem map_cmd (e : Freed cfg q q' n active) {l : List ℕ} (hl : n ∉ l) {β : Type*}
    (g : Command → β) : l.map (fun m => g (q'.cmd m)) = l.map fun m => g (q.cmd m) := by
  apply map_congr_left
  intro m hm
  rw [e.cmd m fun heq => hl (heq ▸ hm)]

theorem holders_perm (e : Freed cfg q q' n active) (h : Wf cfg q acting held) :
    (q.holders held).Perm (if active then q.cmd n :: q'.holders held else q'.holders held) := by
  have hmap := e.map_cmd (e.notMem_active h) id
  simp only [id] at hmap
  rw [Queue.holders, Queue.holders, hmap, e.activeList]
  cases active
  · exact .refl _
  · show (q.activeList.map q.cmd ++ held).Perm
      (q.cmd n :: ((q.activeList.erase n).map q.cmd ++ held))
    exact ((perm_cons_erase e.mem).map q.cmd).append_right held

end Freed

theorem Wf.freed (h : Wf cfg q acting held) {active : Bool} (e : Freed cfg q q' n active)
    {held' : List Command} (hbits : cfg.comp = .nonScan → BitsHeld q' held') :
    Wf cfg q' acting held' where
  nodes := by
    refine .trans ?_ h.nodes
    rw [e.activeList, e.pendingList, e.pool, append_assoc]
    apply List.Perm.append_left
    have hmem := e.mem
    cases active
    · show (n :: (q.activeList ++ q.pendingList.erase n)).Perm (q.activeList ++ q.pendingList)
      refine perm_middle.symm.trans ?_
      exact .append_left _ (perm_cons_erase hmem).symm
    · exact .append_right _ (perm_cons_erase hmem).symm
  pool m hm := by
    rw [e.pool, mem_append, mem_singleton] at hm
    rcases eq_or_ne m n with rfl | hne
    · exact e.node
    · have hzero := h.pool m (hm.resolve_right hne)
      rw [e.others m hne (by rw [hzero]), hzero]
  actingNodup := h.actingNodup
  actingActive m hm := by
    have hne : m ≠ n := by
      rintro rfl
      rw [← h.marked m, e.unmarked] at hm
      cases hm
    rw [e.activeList]
    cases active
    · exact h.actingActive m hm
    · exact (mem_erase_of_ne hne).mpr (h.actingActive m hm)
  marked m := by
    rcases eq_or_ne m n with rfl | hne
    · rw [e.node, ← h.marked m, e.unmarked]
    · rw [e.marked m hne]
      exact h.marked m
  vdevs m hm := by
    have hne : m ≠ n := by
      rintro rfl
      rcases mem_append.mp hm with hm | hm
      · exact e.notMem_active h hm
      · exact e.notMem_pending h hm
    rw [e.cmd m hne]
    apply h.vdevs
    rw [mem_append] at hm ⊢
    exact hm.imp (fun hm => e.active_subset hm) fun hm => e.pending_sublist.subset hm
  keys := by
    rw [e.map_cmd (e.notMem_pending h) Command.key]
    exact h.keys.sublist (e.pending_sublist.map _)
  synced := e.synced
  bits := hbits

theorem Wf.dequeued (h : Wf cfg q acting held) (e : Freed cfg q q' n true)
    (hbits : cfg.comp = .nonScan →
      q'.vdevActiveCmdBitmap = q.vdevActiveCmdBitmap.erase (q.cmd n).vdev) :
    Wf cfg q' acting held := by
  apply h.freed e
  intro hc
  have hp : ((q.holders held).map Command.vdev).Perm
      ((q.cmd n).vdev :: (q'.holders held).map Command.vdev) := (e.holders_perm h).map _
  have hnd := hp.nodup_iff.mp (h.bits hc).alone
  refine ⟨(nodup_cons.mp hnd).2, fun v => ?_⟩
  rw [hbits hc, Finset.mem_erase, (h.bits hc).bitmap v, hp.mem_iff, mem_cons]
  constructor
  · rintro ⟨hne, heq | hmem⟩
    · exact absurd heq hne
    · exact hmem
  · intro hmem
    exact ⟨fun heq => (nodup_cons.mp hnd).1 (heq ▸ hmem), .inr hmem⟩

theorem Wf.cancelled (h : Wf cfg q acting held) {active : Bool} (e : Freed cfg q q' n active)
    (hbits : q'.vdevActiveCmdBitmap = q.vdevActiveCmdBitmap) :
    Wf cfg q' acting (if active then q.cmd n :: held else held) := by
  apply h.freed e
  intro hc
  have hp : (q.holders held).Perm (q'.holders (if active then q.cmd n :: held else held)) := by
    refine (e.holders_perm h).trans ?_
    cases active
    · exact .refl _
    · exact perm_middle.symm
  have hp := hp.map Command.vdev
  refine ⟨hp.nodup_iff.mp (h.bits hc).alone, fun v => ?_⟩
  rw [hbits, (h.bits hc).bitmap v, hp.mem_iff]

theorem Wf.settleHeld {c : Command} (h : Wf cfg q acting (c :: held))
    (hq : q' = { q with vdevActiveCmdBitmap := q.vdevActiveCmdBitmap.erase c.vdev
                        blockingCmdActive := q'.blockingCmdActive }) :
    Wf cfg q' acting held where
  nodes := by rw [hq]; exact h.nodes
  pool := by rw [hq]; exact h.pool
  actingNodup := h.actingNodup
  actingActive := by rw [hq]; exact h.actingActive
  marked := by rw [hq]; exact h.marked
  vdevs := by rw [hq]; exact h.vdevs
  keys := by rw [hq]; exact h.keys
  synced hc := by
    rw [hq]
    exact ⟨(h.synced hc).active, (h.synced hc).pending⟩
  bits hc := by
    have hc' : (q.holders (c :: held)).Perm (c :: q.holders held) := perm_middle
    have hp : ((q.holders (c :: held)).map Command.vdev).Perm
        (c.vdev :: (q.holders held).map Command.vdev) := hc'.map _
    have hnd := hp.nodup_iff.mp (h.bits hc).alone
    have hholders : q'.holders held = q.holders held := by
      rw [hq]
      rfl
    refine ⟨?_, fun v => ?_⟩
    · rw [hholders]
      exact (nodup_cons.mp hnd).2
    · rw [hholders, hq, Finset.mem_erase, (h.bits hc).bitmap v, hp.mem_iff, mem_cons]
      constructor
      · rintro ⟨hne, heq | hmem⟩
        · exact absurd heq hne
        · exact hmem
      · intro hmem
        exact ⟨fun heq => (nodup_cons.mp hnd).1 (heq ▸ hmem), .inr hmem⟩

theorem Moved.cmd (e : Moved cfg q q' n) (m : ℕ) : q'.cmd m = q.cmd m := by
  rw [Queue.cmd, e.node]
  rcases eq_or_ne m n with rfl | hne
  · rw [update_self]
    rfl
  · rw [update_of_ne hne]
    rfl

theorem Moved.marked (e : Moved cfg q q' n) : (q'.node n).markedForActivation = true := by
  rw [e.node, update_self]

theorem Moved.others (e : Moved cfg q q' n) {m : ℕ} (hm : m ≠ n) : q'.node m = q.node m := by
  rw [e.node, update_of_ne hm]

theorem Moved.holders_perm (e : Moved cfg q q' n) (held : List Command) :
    (q'.holders held).Perm (q.cmd n :: q.holders held) := by
  rw [Queue.holders, Queue.holders, e.activeList, show q'.cmd = q.cmd from funext e.cmd]
  exact ((insertBy_perm _ n _).map q.cmd).append_right held

theorem Wf.moved (h : Wf cfg q acting held) (e : Moved cfg q q' n) : Wf cfg q' (n :: acting) held where
  nodes := by
    refine .trans ?_ h.nodes
    rw [e.pool, e.activeList, e.pendingList]
    apply List.Perm.append_left
    refine .trans (.append_right _ (insertBy_perm _ n _)) ?_
    refine perm_middle.symm.trans ?_
    exact .append_left _ (perm_cons_erase e.mem).symm
  pool m hm := by
    rw [e.pool] at hm
    have hne : m ≠ n := by
      rintro rfl
      exact (h.pool_notMem hm).2 e.mem
    rw [e.others hne]
    exact h.pool m hm
  actingNodup := nodup_cons.mpr ⟨h.not_acting_pending e.mem, h.actingNodup⟩
  actingActive m hm := by
    rw [e.activeList, mem_insertBy]
    exact (mem_cons.mp hm).imp_right (h.actingActive m)
  marked m := by
    rcases eq_or_ne m n with rfl | hne
    · rw [e.marked]
      exact ⟨fun _ => mem_cons_self, fun _ => rfl⟩
    · rw [e.others hne, h.marked m]
      exact ⟨mem_cons_of_mem _, fun ha => (mem_cons.mp ha).resolve_left hne⟩
  vdevs m hm := by
    rw [e.cmd]
    rw [e.activeList, e.pendingList, mem_append, mem_insertBy] at hm
    apply h.vdevs
    rw [mem_append]
    rcases hm with (rfl | hm) | hm
    · exact .inr e.mem
    · exact .inl hm
    · exact .inr (mem_of_mem_erase hm)
  keys := by
    rw [e.pendingList]
    simp only [e.cmd]
    exact h.keys.sublist (erase_sublist.map _)
  synced := e.synced
  bits hc := by
    have hp : ((q'.holders held).map Command.vdev).Perm
        ((q.cmd n).vdev :: (q.holders held).map Command.vdev) := (e.holders_perm held).map _
    refine ⟨hp.nodup_iff.mpr (nodup_cons.mpr ⟨fun hmem => ?_, (h.bits hc).alone⟩), fun v => ?_⟩
    · exact e.free hc (((h.bits hc).bitmap _).mpr hmem)
    · rw [hp.mem_iff, e.bitmap hc, Finset.mem_insert, mem_cons, (h.bits hc).bitmap v]

theorem cmd_settleNode (q : Queue) (n : ℕ) : (q.settleNode n).cmd = q.cmd := by
  funext m
  show (update q.node n _ m).cmd = (q.node m).cmd
  rcases eq_or_ne m n with rfl | hne
  · rw [update_self]
  · rw [update_of_ne hne]

theorem Wf.settleNode (h : Wf cfg q (n :: acting) held) : Wf cfg (q.settleNode n) acting held := by
  have hcmd := cmd_settleNode q n
  have hnot := (nodup_cons.mp h.actingNodup).1
  refine { nodes := h.nodes, pool := ?_, actingNodup := (nodup_cons.mp h.actingNodup).2,
           actingActive := fun m hm => h.actingActive m (mem_cons_of_mem _ hm), marked := ?_,
           vdevs := ?_, keys := ?_, synced := ?_, bits := ?_ }
  · intro m hm
    have hne : m ≠ n := by
      rintro rfl
      exact (h.pool_notMem hm).1 (h.actingActive m mem_cons_self)
    show update q.node n _ m = _
    rw [update_of_ne hne]
    exact h.pool m hm
  · intro m
    rcases eq_or_ne m n with rfl | hne
    · show (update q.node m _ m).markedForActivation = true ↔ _
      rw [update_self]
      exact ⟨fun hf => absurd hf Bool.false_ne_true, fun ha => absurd ha hnot⟩
    · show (update q.node n _ m).markedForActivation = true ↔ _
      rw [update_of_ne hne, h.marked m, mem_cons, or_iff_right hne]
  · rw [hcmd]
    exact h.vdevs
  · rw [hcmd]
    exact h.keys
  · intro hc
    obtain ⟨ha, hp⟩ := h.synced hc
    refine ⟨?_, ?_⟩
    · rw [hcmd]
      exact ha
    · rw [hcmd]
      exact hp
  · intro hc
    obtain ⟨ha, hb⟩ := h.bits hc
    refine ⟨?_, ?_⟩
    · rw [Queue.holders, hcmd]
      exact ha
    · rw [Queue.holders, hcmd]
      exact hb

end Sm8750Modules.Serialization
