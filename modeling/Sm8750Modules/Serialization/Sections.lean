import Sm8750Modules.Serialization.Invariant

/-!
# WLAN serialization — entering and taking out commands

A command is found by its key, in the list of the pdev or in the list of its vdev alike. What a
request does while it holds the lock follows.
-/

namespace Sm8750Modules.Serialization

open Function List

variable {cfg : Cfg} {q q' : Queue} {acting : List ℕ} {held : List Command} {n : ℕ}

variable {l : List ℕ} {k : Command}

theorem findCmd_some (h : q.findCmd l k = some n) : n ∈ l ∧ (q.cmd n).key = k.key := by
  rw [Queue.findCmd] at h
  have hmatch := List.find?_some h
  exact ⟨List.mem_of_find?_eq_some h, Command.matchIdVdev_iff.mp hmatch⟩

theorem findCmd_none : q.findCmd l k = none ↔ ∀ m ∈ l, (q.cmd m).key ≠ k.key := by
  rw [Queue.findCmd, List.find?_eq_none]
  simp only [Command.matchIdVdev_iff, ne_eq]

theorem findCmd_self (h : (l.map fun m => (q.cmd m).key).Nodup) (hn : n ∈ l) :
    q.findCmd l (q.cmd n) = some n := by
  rcases hfind : q.findCmd l (q.cmd n) with _ | m
  · exact absurd rfl (findCmd_none.mp hfind n hn)
  · obtain ⟨hm, hkey⟩ := findCmd_some hfind
    rw [inj_on_of_nodup_map h hm hn hkey]

theorem findCmd_insertBy {front : Bool} (hkey : (q.cmd n).key = k.key)
    (h : ∀ m ∈ l, (q.cmd m).key ≠ k.key) : q.findCmd (insertBy front n l) k = some n := by
  rcases hfind : q.findCmd (insertBy front n l) k with _ | m
  · exact absurd hkey (findCmd_none.mp hfind n (mem_insertBy.mpr (.inl rfl)))
  · obtain ⟨hm, hkey'⟩ := findCmd_some hfind
    rcases mem_insertBy.mp hm with rfl | hm
    · rfl
    · exact absurd hkey' (h m hm)

theorem findCmd_filter (l : List ℕ) (k : Command) :
    q.findCmd (l.filter fun m => (q.cmd m).vdev = k.vdev) k = q.findCmd l k := by
  rw [Queue.findCmd, Queue.findCmd, List.find?_filter]
  apply congrFun
  apply congrArg
  funext m
  rw [Bool.eq_iff_iff, decide_eq_true_eq, decide_eq_true_eq, and_iff_right_iff_imp]
  intro hm
  have hkey := Command.matchIdVdev_iff.mp hm
  simp only [Command.key, Prod.mk.injEq] at hkey
  exact hkey.2.2

theorem Synced.list (h : Synced q) (active : Bool) (v : ℕ) :
    q.list active (.vdev v) = (q.list active .pdev).filter fun n => (q.cmd n).vdev = v := by
  cases active
  · exact h.pending v
  · exact h.active v

theorem Synced.congr (h : Synced q) (ha : q'.activeList = q.activeList)
    (hp : q'.pendingList = q.pendingList) (hva : q'.vdevActive = q.vdevActive)
    (hvp : q'.vdevPending = q.vdevPending)
    (hcmd : ∀ m ∈ q.activeList ++ q.pendingList, q'.cmd m = q.cmd m) : Synced q' := by
  refine ⟨fun v => ?_, fun v => ?_⟩
  · rw [hva, ha, h.active v]
    apply filter_congr
    intro m hm
    rw [hcmd m (mem_append_left _ hm)]
  · rw [hvp, hp, h.pending v]
    apply filter_congr
    intro m hm
    rw [hcmd m (mem_append_right _ hm)]

/-! ### Entering a node -/

theorem addCmdToQueue_none {maxSize : ℕ} : q.addCmdToQueue maxSize n l = none ↔ l.length = maxSize := by
  rw [Queue.addCmdToQueue]
  rcases Decidable.em (l.length = maxSize) with hlen | hlen
  · rw [if_pos hlen]
    exact ⟨fun _ => hlen, fun _ => rfl⟩
  · rw [if_neg hlen, ← apply_ite some]
    exact ⟨fun h => (Option.some_ne_none _ h).elim, fun h => absurd h hlen⟩

theorem addCmdToQueue_some {maxSize : ℕ} {l' : List ℕ} (h : q.addCmdToQueue maxSize n l = some l') :
    l' = insertBy (q.cmd n).isHighPriority n l := by
  rw [Queue.addCmdToQueue] at h
  split_ifs at h with hlen hpri
  · cases h
    rw [hpri]
    rfl
  · cases h
    rw [Bool.not_eq_true] at hpri
    rw [hpri]
    rfl

structure Added (cfg : Cfg) (q q' : Queue) (n : ℕ) (active : Bool) : Prop where
  node : q'.node = q.node
  pool : q'.cmdPoolList = q.cmdPoolList
  timers : q'.timers = q.timers
  waiting : q'.blockingCmdWaiting = q.blockingCmdWaiting
  activeList : q'.activeList =
    if active then insertBy (q.cmd n).isHighPriority n q.activeList else q.activeList
  pendingList : q'.pendingList =
    if active then q.pendingList else insertBy (q.cmd n).isHighPriority n q.pendingList
  synced : cfg.comp = .nonScan → Synced q → Synced q'
  bitmap : cfg.comp = .nonScan → q'.vdevActiveCmdBitmap =
    if active then insert (q.cmd n).vdev q.vdevActiveCmdBitmap else q.vdevActiveCmdBitmap
  blocking : cfg.comp = .nonScan → q'.blockingCmdActive =
    if active then q.blockingCmdActive || (q.cmd n).isBlocking else q.blockingCmdActive

theorem update_filter_insertBy (front : Bool) (l : List ℕ) {f : ℕ → List ℕ}
    (h : ∀ v, f v = l.filter fun m => (q.cmd m).vdev = v) (v : ℕ) :
    update f (q.cmd n).vdev (insertBy front n (f (q.cmd n).vdev)) v =
      (insertBy front n l).filter fun m => (q.cmd m).vdev = v := by
  rw [filter_insertBy]
  rcases eq_or_ne v (q.cmd n).vdev with rfl | hv
  · rw [update_self, h, if_pos (decide_eq_true rfl)]
  · rw [update_of_ne hv, h, if_neg fun heq => hv (of_decide_eq_true heq).symm]

variable {active : Bool}

theorem addNonScanCmd_true
    (h : q.addNonScanCmd cfg n active = (q', true)) : Added cfg q q' n active := by
  simp only [Queue.addNonScanCmd] at h
  split at h
  · cases h
  · rename_i l hl
    have hl := addCmdToQueue_some hl
    split at h
    · cases h
    · rename_i l' hl'
      have hl' := addCmdToQueue_some hl'
      subst hl hl'
      cases active <;> cases hd : (q.cmd n).queueDisable <;>
        simp only [hd, Bool.false_eq_true, if_false, if_true, Prod.mk.injEq, and_true,
          Queue.list, Queue.setList] at h <;> subst h
      all_goals
        refine { node := rfl, pool := rfl, timers := rfl, waiting := rfl, activeList := rfl,
                 pendingList := rfl, synced := fun _ hs => ?_, bitmap := fun _ => rfl,
                 blocking := fun _ => rfl }
      · exact ⟨hs.active, update_filter_insertBy _ _ hs.pending⟩
      · exact ⟨hs.active, update_filter_insertBy _ _ hs.pending⟩
      · exact ⟨update_filter_insertBy _ _ hs.active, hs.pending⟩
      · exact ⟨update_filter_insertBy _ _ hs.active, hs.pending⟩

theorem addScanCmd_true (hcomp : cfg.comp = .scan)
    (h : q.addScanCmd cfg n active = (q', true)) : Added cfg q q' n active := by
  simp only [Queue.addScanCmd] at h
  split at h
  · cases h
  · rename_i l hl
    have hl := addCmdToQueue_some hl
    subst hl
    have hns : cfg.comp ≠ .nonScan := by rw [hcomp]; decide
    cases active <;> cases h
    · exact { node := rfl, pool := rfl, timers := rfl, waiting := rfl, activeList := rfl,
              pendingList := rfl, synced := fun hc => absurd hc hns,
              bitmap := fun hc => absurd hc hns, blocking := fun hc => absurd hc hns }
    · exact { node := rfl, pool := rfl, timers := rfl, waiting := rfl, activeList := rfl,
              pendingList := rfl, synced := fun hc => absurd hc hns,
              bitmap := fun hc => absurd hc hns, blocking := fun hc => absurd hc hns }

theorem addCmd_true (h : q.addCmd cfg n active = (q', true)) : Added cfg q q' n active := by
  rcases hcomp : cfg.comp with _ | _
  · rw [Queue.addCmd, hcomp] at h
    exact addScanCmd_true hcomp h
  · rw [Queue.addCmd, hcomp] at h
    exact addNonScanCmd_true h

theorem removeCmdFromQueue_none {o : Owner}
    (h : q.findCmd (q.list active o) k = none) : q.removeCmdFromQueue active k o = (q, .eFailure) := by
  rw [Queue.removeCmdFromQueue, h]

theorem removeCmdFromQueue_marked {o : Owner}
    (h : q.findCmd (q.list active o) k = some n) (hmark : (q.node n).markedForActivation = true) :
    q.removeCmdFromQueue active k o =
      (q.setNode n { q.node n with activeMarkedForRemoval := true }, .ePending) := by
  rw [Queue.removeCmdFromQueue, h]
  exact if_pos hmark

theorem removeCmdFromQueue_some {o : Owner}
    (h : q.findCmd (q.list active o) k = some n) (hmark : (q.node n).markedForActivation = false) :
    q.removeCmdFromQueue active k o =
      (q.setList active ((q.list active o).erase n) o, .success n) := by
  rw [Queue.removeCmdFromQueue, h]
  exact if_neg (by rw [hmark]; exact Bool.false_ne_true)

theorem removeCmdFromQueue_insertBy {front : Bool} {v : ℕ}
    (hlist : q.list active (.vdev v) = insertBy front n l) (hkey : (q.cmd n).key = k.key)
    (hn : n ∉ l) (hfresh : ∀ m ∈ l, (q.cmd m).key ≠ k.key)
    (hmark : (q.node n).markedForActivation = false) :
    q.removeCmdFromQueue active k (.vdev v) = (q.setList active l (.vdev v), .success n) := by
  have hfind : q.findCmd (q.list active (.vdev v)) k = some n := by
    rw [hlist]
    exact findCmd_insertBy hkey hfresh
  rw [removeCmdFromQueue_some hfind hmark, hlist, erase_insertBy hn]

theorem setList_setList (active : Bool) (l l' : List ℕ) (v : ℕ) :
    (q.setList active l (.vdev v)).setList active l' (.vdev v) = q.setList active l' (.vdev v) := by
  cases active
  · show ({ q with vdevPending := update (update q.vdevPending v l) v l' } : Queue) = _
    rw [update_idem]
    rfl
  · show ({ q with vdevActive := update (update q.vdevActive v l) v l' } : Queue) = _
    rw [update_idem]
    rfl

theorem setList_list (active : Bool) (v : ℕ) :
    q.setList active (q.list active (.vdev v)) (.vdev v) = q := by
  cases active
  · show ({ q with vdevPending := update q.vdevPending v (q.vdevPending v) } : Queue) = q
    rw [update_eq_self]
  · show ({ q with vdevActive := update q.vdevActive v (q.vdevActive v) } : Queue) = q
    rw [update_eq_self]

theorem list_setList_vdev (active : Bool) (l : List ℕ) (v : ℕ) :
    (q.setList active l (.vdev v)).list active (.vdev v) = l := by
  cases active
  · exact update_self ..
  · exact update_self ..

theorem list_setList_pdev (active : Bool) (l : List ℕ) (v : ℕ) :
    (q.setList active l (.vdev v)).list active .pdev = q.list active .pdev := by
  cases active <;> rfl

theorem node_setList (active : Bool) (l : List ℕ) (o : Owner) : (q.setList active l o).node = q.node := by
  cases active <;> cases o <;> rfl

def disableQueue (q : Queue) (c : Command) : Queue :=
  if c.queueDisable then
    { q with queueDisable := Function.update q.queueDisable c.vdev true } else q

theorem disableQueue_eq (q : Queue) (c : Command) :
    disableQueue q c = { q with queueDisable := (disableQueue q c).queueDisable } := by
  rw [disableQueue]
  split_ifs <;> rfl

theorem addNonScanCmd_false (hmark : (q.node n).markedForActivation = false)
    (hn : n ∉ q.list active (.vdev (q.cmd n).vdev))
    (hfresh : ∀ m ∈ q.list active (.vdev (q.cmd n).vdev), (q.cmd m).key ≠ (q.cmd n).key)
    (h : q.addNonScanCmd cfg n active = (q', false)) :
    q' = { q with queueDisable := q'.queueDisable } := by
  simp only [Queue.addNonScanCmd] at h
  rw [show (if (q.cmd n).queueDisable = true then _ else q) = disableQueue q (q.cmd n) from rfl] at h
  split at h
  · cases h
    exact disableQueue_eq q _
  · rename_i l hl
    have hl := addCmdToQueue_some hl
    subst hl
    split at h
    · have hnode : ((disableQueue q (q.cmd n)).setList active
          (insertBy (q.cmd n).isHighPriority n (q.list active (.vdev (q.cmd n).vdev)))
            (.vdev (q.cmd n).vdev)).node = q.node := by
        rw [node_setList, disableQueue_eq]
      rw [removeCmdFromQueue_insertBy (list_setList_vdev ..) (by rw [Queue.cmd, hnode]; rfl) hn
        (fun m hm => by rw [Queue.cmd, hnode]; exact hfresh m hm) (by rw [hnode]; exact hmark),
        setList_setList] at h
      have hsame : q.list active (.vdev (q.cmd n).vdev) =
          (disableQueue q (q.cmd n)).list active (.vdev (q.cmd n).vdev) := by
        rw [disableQueue_eq]
        cases active <;> rfl
      rw [hsame, setList_list] at h
      cases h
      exact disableQueue_eq q _
    · split at h
      · cases h
      · cases h

theorem addCmd_false (hmark : (q.node n).markedForActivation = false)
    (hn : cfg.comp = .nonScan → n ∉ q.list active (.vdev (q.cmd n).vdev))
    (hfresh : cfg.comp = .nonScan →
      ∀ m ∈ q.list active (.vdev (q.cmd n).vdev), (q.cmd m).key ≠ (q.cmd n).key)
    (h : q.addCmd cfg n active = (q', false)) :
    q' = { q with queueDisable := q'.queueDisable } := by
  rcases hcomp : cfg.comp with _ | _
  · rw [Queue.addCmd, hcomp] at h
    simp only [Queue.addScanCmd] at h
    split at h
    · cases h
      rfl
    · cases h
  · rw [Queue.addCmd, hcomp] at h
    exact addNonScanCmd_false hmark (hn hcomp) (hfresh hcomp) h

theorem addCmd_ok
    (hpdev : (q.list active .pdev).length ≠ cfg.maxSize active .pdev)
    (hvdev : cfg.comp = .nonScan → (q.list active (.vdev (q.cmd n).vdev)).length ≠
      cfg.maxSize active (.vdev (q.cmd n).vdev)) :
    (q.addCmd cfg n active).2 = true := by
  rcases hcomp : cfg.comp with _ | _
  · rw [Queue.addCmd, hcomp]
    show (q.addScanCmd cfg n active).2 = true
    rw [Queue.addScanCmd]
    split
    · rename_i hnone
      exact absurd (addCmdToQueue_none.mp hnone) hpdev
    · rfl
  · rw [Queue.addCmd, hcomp]
    show (q.addNonScanCmd cfg n active).2 = true
    simp only [Queue.addNonScanCmd]
    rw [show (if (q.cmd n).queueDisable = true then _ else q) = disableQueue q (q.cmd n) from rfl]
    split
    · rename_i hnone
      exact absurd (addCmdToQueue_none.mp hnone) (hvdev hcomp)
    · split
      · rename_i hnone
        rw [list_setList_pdev, disableQueue_eq] at hnone
        exact absurd (addCmdToQueue_none.mp hnone) hpdev
      · cases active <;> rfl

theorem Synced.erase (h : Synced q) (active : Bool) (hnd : (q.list active .pdev).Nodup)
    (hl : l = (q.list active .pdev).erase n) {v : ℕ} (hv : (q.cmd n).vdev = v) :
    Synced ((q.setList active ((q.list active (.vdev v)).erase n) (.vdev v)).setList active l .pdev) := by
  have herase : ∀ w, update (fun w => q.list active (.vdev w)) v
      ((q.list active (.vdev v)).erase n) w = l.filter fun m => (q.cmd m).vdev = w := by
    intro w
    rw [hl, filter_erase_of_nodup hnd, ← h.list]
    rcases eq_or_ne w v with rfl | hw
    · rw [update_self]
    · rw [update_of_ne hw, erase_of_not_mem]
      rw [h.list]
      intro hmem
      exact hw ((of_decide_eq_true (mem_filter.mp hmem).2).symm.trans hv)
  cases active
  · exact ⟨h.active, herase⟩
  · exact ⟨herase, h.pending⟩

theorem removeNonScanCmd_some (hs : Synced q)
    (h : q.findCmd (q.list active .pdev) k = some n)
    (hmark : (q.node n).markedForActivation = false) :
    let q' := (q.setList active ((q.list active (.vdev k.vdev)).erase n) (.vdev k.vdev)).setList active
      ((q.list active .pdev).erase n) .pdev
    q.removeNonScanCmd k active = (if active then
      { q' with
        blockingCmdActive := q.blockingCmdActive && !(q.cmd n).isBlocking
        vdevActiveCmdBitmap := q.vdevActiveCmdBitmap.erase k.vdev } else q', .success n) := by
  intro q'
  have hvdev : q.findCmd (q.list active (.vdev k.vdev)) k = some n := by
    rw [hs.list, findCmd_filter]
    exact h
  have hpdev : (q.setList active ((q.list active (.vdev k.vdev)).erase n) (.vdev k.vdev)).findCmd
      ((q.setList active ((q.list active (.vdev k.vdev)).erase n) (.vdev k.vdev)).list active .pdev)
        k = some n := by
    rw [list_setList_pdev, Queue.findCmd]
    simp only [Queue.cmd, node_setList]
    exact h
  simp only [Queue.removeNonScanCmd]
  rw [removeCmdFromQueue_some hvdev hmark]
  simp only
  rw [removeCmdFromQueue_some hpdev (by rw [node_setList]; exact hmark), list_setList_pdev]
  cases active <;> rfl

theorem removeCmd_pending (h : Wf cfg q acting held) (hn : n ∈ q.pendingList) :
    ∃ q', q.removeCmd cfg (q.cmd n) false = (q', .success n) ∧
      q' = { q with pendingList := q.pendingList.erase n, vdevPending := q'.vdevPending } ∧
      (cfg.comp = .nonScan → Synced q') := by
  have hmark : (q.node n).markedForActivation = false := by
    rw [← Bool.not_eq_true, h.marked n]
    exact h.not_acting_pending hn
  have hfind : q.findCmd (q.list false .pdev) (q.cmd n) = some n := findCmd_self h.keys hn
  rcases hcomp : cfg.comp with _ | _
  · refine ⟨{ q with pendingList := q.pendingList.erase n }, ?_, rfl, fun hc => by cases hc⟩
    rw [Queue.removeCmd, hcomp]
    exact removeCmdFromQueue_some hfind hmark
  · have hs := h.synced hcomp
    rw [Queue.removeCmd, hcomp]
    exact ⟨_, removeNonScanCmd_some hs hfind hmark, rfl,
      fun _ => hs.erase false h.pendingNodup rfl rfl⟩

theorem removeCmd_active (h : Wf cfg q acting held) (k : Command) :
    (q.removeCmd cfg k true = (q, .eFailure) ∧ ∀ m ∈ q.activeList, (q.cmd m).key ≠ k.key) ∨
    (∃ n ∈ q.activeList, (q.cmd n).key = k.key ∧ (q.node n).markedForActivation = true ∧
      q.removeCmd cfg k true =
        (q.setNode n { q.node n with activeMarkedForRemoval := true }, .ePending)) ∨
    (∃ n ∈ q.activeList, (q.cmd n).key = k.key ∧ (q.node n).markedForActivation = false ∧
      ∃ q', q.removeCmd cfg k true = (q', .success n) ∧
        q' = { q with
          activeList := q.activeList.erase n
          vdevActive := q'.vdevActive
          vdevActiveCmdBitmap := q'.vdevActiveCmdBitmap
          blockingCmdActive := q'.blockingCmdActive } ∧
        (cfg.comp = .nonScan → Synced q' ∧
          q'.vdevActiveCmdBitmap = q.vdevActiveCmdBitmap.erase (q.cmd n).vdev ∧
          q'.blockingCmdActive = (q.blockingCmdActive && !(q.cmd n).isBlocking))) := by
  rcases hfind : q.findCmd (q.list true .pdev) k with _ | n
  · left
    refine ⟨?_, findCmd_none.mp hfind⟩
    rcases hcomp : cfg.comp with _ | _
    · rw [Queue.removeCmd, hcomp]
      exact removeCmdFromQueue_none hfind
    · rw [Queue.removeCmd, hcomp]
      show q.removeNonScanCmd k true = _
      have hvdev : q.findCmd (q.list true (.vdev k.vdev)) k = none := by
        rw [(h.synced hcomp).list, findCmd_filter]
        exact hfind
      rw [Queue.removeNonScanCmd, removeCmdFromQueue_none hvdev]
  · right
    obtain ⟨hn, hkey⟩ := findCmd_some hfind
    cases hmark : (q.node n).markedForActivation with
    | true =>
      left
      refine ⟨n, hn, hkey, hmark, ?_⟩
      rcases hcomp : cfg.comp with _ | _
      · rw [Queue.removeCmd, hcomp]
        exact removeCmdFromQueue_marked hfind hmark
      · rw [Queue.removeCmd, hcomp]
        show q.removeNonScanCmd k true = _
        have hvdev : q.findCmd (q.list true (.vdev k.vdev)) k = some n := by
          rw [(h.synced hcomp).list, findCmd_filter]
          exact hfind
        rw [Queue.removeNonScanCmd, removeCmdFromQueue_marked hvdev hmark]
    | false =>
      right
      refine ⟨n, hn, hkey, hmark, ?_⟩
      rcases hcomp : cfg.comp with _ | _
      · rw [Queue.removeCmd, hcomp]
        exact ⟨_, removeCmdFromQueue_some hfind hmark, rfl, fun hc => by cases hc⟩
      · have hvdev : (q.cmd n).vdev = k.vdev := by
          simp only [Command.key, Prod.mk.injEq] at hkey
          exact hkey.2.2
        have hs := h.synced hcomp
        rw [Queue.removeCmd, hcomp]
        refine ⟨_, removeNonScanCmd_some hs hfind hmark, rfl, fun _ => ⟨?_, ?_, rfl⟩⟩
        · have hsync := hs.erase true h.activeNodup rfl hvdev
          exact ⟨hsync.active, hsync.pending⟩
        · rw [hvdev]
          rfl

theorem SameLists.refl (h : Wf cfg q acting held) : SameLists q q where
  active := rfl
  pending := rfl
  pool := .refl _
  poolNode := h.pool
  cmd _ := rfl
  marked _ := rfl
  vdevActive := rfl
  vdevPending := rfl
  bitmap := rfl
  blocking := rfl

variable {c : Command}

theorem isActiveCmdAllowed_eq {others : ℕ}
    (h : q.isActiveCmdAllowed cfg others c = (q', active)) :
    q' = { q with blockingCmdWaiting :=
      if cfg.comp = .nonScan ∧ c.isBlocking ∧ q.vdevActiveCmdBitmap.Nonempty then
        q.blockingCmdWaiting + 1 else q.blockingCmdWaiting } ∧
    (cfg.comp = .nonScan → active = true → c.vdev ∉ q.vdevActiveCmdBitmap ∧
      if c.isBlocking then q.vdevActiveCmdBitmap = ∅ else q.blockingCmdActive = false) := by
  rcases hcomp : cfg.comp with _ | _
  · rw [Queue.isActiveCmdAllowed, hcomp] at h
    cases h
    exact ⟨rfl, fun hc => by cases hc⟩
  · rw [Queue.isActiveCmdAllowed, hcomp] at h
    simp only [Queue.isActiveNonScanCmdAllowed] at h
    cases hb : c.isBlocking with
    | true =>
      rw [hb, if_pos rfl] at h
      split_ifs at h with hne
      · cases h
        exact ⟨by simp [hne], fun _ ha => by cases ha⟩
      · cases h
        have hempty := Finset.not_nonempty_iff_eq_empty.mp hne
        refine ⟨by simp [hne], fun _ _ => ⟨?_, hempty⟩⟩
        rw [hempty]
        exact Finset.notMem_empty _
    | false =>
      rw [hb, if_neg Bool.false_ne_true] at h
      split_ifs at h with hwait
      · cases h
        exact ⟨by simp, fun _ ha => by cases ha⟩
      · cases h
        refine ⟨by simp, fun _ ha => ?_⟩
        rw [not_or, Bool.not_eq_true] at hwait
        rw [Bool.and_eq_true, decide_eq_true_eq] at ha
        exact ⟨ha.1, hwait.1⟩

theorem key_ne_of_not_present (h : Wf cfg q acting held)
    (hp : ¬q.isCmdPresentQueue cfg c active = true) :
    ∀ m ∈ q.list active .pdev, (q.cmd m).key ≠ c.key := by
  rcases hcomp : cfg.comp with _ | _
  · rw [Queue.isCmdPresentQueue, hcomp] at hp
    exact findCmd_none.mp (Option.not_isSome_iff_eq_none.mp hp)
  · rw [Queue.isCmdPresentQueue, hcomp] at hp
    have hnone := Option.not_isSome_iff_eq_none.mp hp
    rw [(h.synced hcomp).list, findCmd_filter] at hnone
    exact findCmd_none.mp hnone

def loadCmd (q : Queue) (c : Command) (n : ℕ) (rest : List ℕ) : Queue :=
  { q with cmdPoolList := rest }.setNode n { cmd := c }

theorem loadCmd_cmd_self (c : Command) (n : ℕ) (rest : List ℕ) : (loadCmd q c n rest).cmd n = c := by
  show (update q.node n _ n).cmd = c
  rw [update_self]

theorem loadCmd_node_of_ne (c : Command) {n m : ℕ} (rest : List ℕ) (h : m ≠ n) :
    (loadCmd q c n rest).node m = q.node m :=
  update_of_ne h ..

variable {rest : List ℕ}

theorem loadCmd_synced (h : Wf cfg q acting held) (hcomp : cfg.comp = .nonScan)
    (hpool : q.cmdPoolList = n :: rest) : Synced (loadCmd q c n rest) := by
  refine (h.synced hcomp).congr rfl rfl rfl rfl fun m hm => ?_
  have hn := h.pool_notMem (by rw [hpool]; exact mem_cons_self : n ∈ q.cmdPoolList)
  rw [Queue.cmd, loadCmd_node_of_ne]
  · rfl
  · rintro rfl
    rcases mem_append.mp hm with hm | hm
    · exact hn.1 hm
    · exact hn.2 hm

theorem freeNode_loadCmd (h : Wf cfg q acting held)
    (hpool : q.cmdPoolList = n :: rest) {d : ℕ → Bool} {w : UInt16} :
    SameLists q (Queue.freeNode { loadCmd { q with blockingCmdWaiting := w } c n rest with
      queueDisable := d } n) := by
  have hzero : q.node n = {} := h.pool n (by rw [hpool]; exact mem_cons_self)
  have hnode : update (update q.node n { cmd := c }) n {} = q.node := by
    rw [update_idem, ← hzero, update_eq_self]
  exact {
    active := rfl
    pending := rfl
    pool := by
      rw [hpool]
      show (rest ++ [n]).Perm ([n] ++ rest)
      exact perm_append_comm
    poolNode := fun m hm => (congrFun hnode m).trans (h.pool m hm)
    cmd := fun m => congrArg CommandList.cmd (congrFun hnode m)
    marked := fun m => congrArg CommandList.markedForActivation (congrFun hnode m)
    vdevActive := rfl
    vdevPending := rfl
    bitmap := rfl
    blocking := rfl }

theorem Added.taken (h : Wf cfg q acting held)
    {w : UInt16} (hpool : q.cmdPoolList = n :: rest) {r : Queue}
    (e : Added cfg (loadCmd { q with blockingCmdWaiting := w } c n rest) r n active)
    (hw : w = if cfg.comp = .nonScan ∧ c.isBlocking ∧ q.vdevActiveCmdBitmap.Nonempty then
      q.blockingCmdWaiting + 1 else q.blockingCmdWaiting)
    (hfresh : ∀ m ∈ q.list active .pdev, (q.cmd m).key ≠ c.key)
    (hallowed : cfg.comp = .nonScan → active = true → c.vdev ∉ q.vdevActiveCmdBitmap ∧
      if c.isBlocking then q.vdevActiveCmdBitmap = ∅ else q.blockingCmdActive = false)
    (hq : q' = r.setNode n { r.node n with markedForActivation := active }) :
    Taken cfg q q' n c active := by
  have hload := loadCmd_cmd_self (q := { q with blockingCmdWaiting := w }) c n rest
  have hnode : r.node n = { cmd := c } := by
    rw [e.node]
    exact update_self ..
  have hcmd : q'.cmd = r.cmd := by
    funext m
    rw [hq]
    show (update r.node n _ m).cmd = (r.node m).cmd
    rcases eq_or_ne m n with rfl | hm
    · rw [update_self]
    · rw [update_of_ne hm]
  have hself : q'.node n = { cmd := c, markedForActivation := active } := by
    rw [hq, hnode]
    exact update_self ..
  refine { pool := ?_, activeList := ?_, pendingList := ?_, cmd := ?_, marked := ?_, unmoved := ?_,
           others := ?_, timers := ?_, waiting := ?_, fresh := ?_, synced := ?_, bitmap := ?_,
           blocking := ?_, free := ?_, allowed := ?_ }
  · rw [hq, hpool]
    show _ = n :: r.cmdPoolList
    rw [e.pool]
    rfl
  · rw [hq]
    show r.activeList = _
    rw [e.activeList, hload]
    rfl
  · rw [hq]
    show r.pendingList = _
    rw [e.pendingList, hload]
    rfl
  · rw [Queue.cmd, hself]
  · rw [hself]
  · rw [hself]
  · intro m hm
    rw [hq]
    show update r.node n _ m = _
    rw [update_of_ne hm, e.node, loadCmd_node_of_ne c rest hm]
  · rw [hq]
    exact e.timers
  · rw [hq, ← hw]
    exact e.waiting
  · rintro rfl
    exact hfresh
  · intro hc
    have hload' : Synced (loadCmd { q with blockingCmdWaiting := w } c n rest) :=
      (loadCmd_synced h hc hpool).congr rfl rfl rfl rfl fun _ _ => rfl
    exact (e.synced hc hload').congr (by rw [hq]; rfl) (by rw [hq]; rfl) (by rw [hq]; rfl)
      (by rw [hq]; rfl) fun m _ => congrFun hcmd m
  · intro hc
    rw [hq]
    show r.vdevActiveCmdBitmap = _
    rw [e.bitmap hc, hload]
    rfl
  · intro hc
    rw [hq]
    show r.blockingCmdActive = _
    rw [e.blocking hc, hload]
    rfl
  · exact fun hc ha => (hallowed hc ha).1
  · exact fun hc ha => (hallowed hc ha).2

/-- What a request has done, by its status. -/
def Enqueued (cfg : Cfg) (q q' : Queue) (c : Command) : EnqueueStatus → Prop
  | .active n => Taken cfg q q' n c true
  | .pending => ∃ n, Taken cfg q q' n c false
  | _ => SameLists q q'

theorem addCmd_loadCmd_false (h : Wf cfg q acting held)
    (hpool : q.cmdPoolList = n :: rest) (hfresh : ∀ m ∈ q.list active .pdev, (q.cmd m).key ≠ c.key)
    {r : Queue} (hadd : (loadCmd q c n rest).addCmd cfg n active = (r, false)) :
    r = { loadCmd q c n rest with queueDisable := r.queueDisable } := by
  have hload := loadCmd_cmd_self (q := q) c n rest
  have hn : n ∉ q.list active .pdev := fun hn =>
    h.pool_of_notMem_list hn (by rw [hpool]; exact mem_cons_self)
  have hlist : cfg.comp = .nonScan → ∀ v, (loadCmd q c n rest).list active (.vdev v) ⊆
      q.list active .pdev := by
    intro hcomp v m hm
    have hm : m ∈ q.list active (.vdev v) := by
      cases active
      · exact hm
      · exact hm
    rw [(h.synced hcomp).list] at hm
    exact (mem_filter.mp hm).1
  apply addCmd_false ?_ (fun hcomp hmem => hn (hlist hcomp _ hmem)) ?_ hadd
  · show (update q.node n _ n).markedForActivation = false
    rw [update_self]
  · intro hcomp m hm
    have hmem := hlist hcomp _ hm
    have hne : m ≠ n := by
      rintro rfl
      exact hn hmem
    rw [hload, Queue.cmd, loadCmd_node_of_ne c rest hne]
    exact hfresh m hmem

/-- **What a request does**: it takes a node out of the pool, or it leaves the lists alone. -/
theorem enqueueCmd_cases (h : Wf cfg q acting held) {others : ℕ}
    {status : EnqueueStatus} (he : q.enqueueCmd cfg others c = (q', status)) :
    Enqueued cfg q q' c status := by
  rw [Queue.enqueueCmd] at he
  split at he
  · cases he
    exact .refl h
  · rcases hal : q.isActiveCmdAllowed cfg others c with ⟨q₁, active⟩
    obtain ⟨hq₁, hallowed⟩ := isActiveCmdAllowed_eq hal
    have hsame : SameLists q q₁ := by
      rw [hq₁]
      exact { SameLists.refl h with }
    have hwf₁ := h.sameLists hsame
    rw [hal] at he
    simp only at he
    split at he
    · cases he
      exact hsame
    · rename_i hpres
      have hfresh := key_ne_of_not_present hwf₁ hpres
      rcases hpool : q.cmdPoolList with _ | ⟨n, rest⟩
      · have hpool₁ : q₁.cmdPoolList = [] := by rw [hq₁]; exact hpool
        rw [hpool₁] at he
        cases he
        exact hsame
      · have hpool₁ : q₁.cmdPoolList = n :: rest := by rw [hq₁]; exact hpool
        have hzero : q₁.node n = {} := hwf₁.pool n (by rw [hpool₁]; exact mem_cons_self)
        have hload : ({ q₁ with cmdPoolList := rest }.setNode n
            { Queue.node { q₁ with cmdPoolList := rest } n with cmd := c }) = loadCmd q₁ c n rest := by
          show Queue.setNode _ n { q₁.node n with cmd := c } = _
          rw [hzero]
          rfl
        rw [hpool₁] at he
        simp only at he
        rw [hload] at he
        rcases hadd : (loadCmd q₁ c n rest).addCmd cfg n active with ⟨r, ok⟩
        rw [hadd] at he
        cases ok with
        | false =>
          cases he
          rw [addCmd_loadCmd_false hwf₁ hpool₁ hfresh hadd, hq₁]
          exact freeNode_loadCmd h hpool
        | true =>
          have e := addCmd_true hadd
          have hnode : r.node n = { cmd := c } := by
            rw [e.node]
            exact update_self ..
          rw [hq₁] at e hfresh
          have htaken : Taken cfg q (r.setNode n { r.node n with markedForActivation := active }) n c
              active := e.taken h hpool rfl hfresh hallowed rfl
          cases active with
          | true =>
            cases he
            exact htaken
          | false =>
            have hself : r.setNode n { r.node n with markedForActivation := false } = r := by
              have hsame : ({ r.node n with markedForActivation := false } : CommandList) =
                  r.node n := by
                rw [hnode]
              rw [Queue.setNode, hsame, update_eq_self]
            rw [hself] at htaken
            cases he
            exact ⟨n, htaken⟩

end Sm8750Modules.Serialization
