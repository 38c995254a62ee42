import Sm8750Modules.Serialization.Sections

/-!
# WLAN serialization — removals, moves and cancels

What the sections of the other operations do, as one of the records of the invariant's module.
-/

namespace Sm8750Modules.Serialization

open Function List

variable {cfg : Cfg} {q q' : Queue} {acting : List ℕ} {held : List Command} {n : ℕ}

theorem stopTimer_eq (q : Queue) (c : Command) :
    q.stopTimer c = { q with timers := (q.stopTimer c).timers } := by
  rw [Queue.stopTimer]
  split <;> rfl

theorem stopTimer_timers_congr (hcmd : q'.cmd = q.cmd) (ht : q'.timers = q.timers) (c : Command) :
    (q'.stopTimer c).timers = (q.stopTimer c).timers := by
  have hfind : q'.findTimer c = q.findTimer c := by
    rw [Queue.findTimer, Queue.findTimer, ht, hcmd]
  rw [Queue.stopTimer, Queue.stopTimer, hfind]
  split
  · exact ht
  · show q'.timers.erase _ = q.timers.erase _
    rw [ht]

variable {m : ℕ}

theorem sameLists_mark (h : Wf cfg q acting held) {x : CommandList}
    (hm : (q.node m).markedForActivation = true) (hcmd : x.cmd = (q.node m).cmd)
    (hx : x.markedForActivation = true) : SameLists q (q.setNode m x) := by
  have hpool : m ∉ q.cmdPoolList := by
    intro hp
    rw [h.pool m hp] at hm
    cases hm
  refine { SameLists.refl h with poolNode := ?_, cmd := ?_, marked := ?_ }
  · intro n hn
    have hne : n ≠ m := by
      rintro rfl
      exact hpool hn
    show update q.node m x n = {}
    rw [update_of_ne hne]
    exact h.pool n hn
  · intro n
    show (update q.node m x n).cmd = (q.node n).cmd
    rcases eq_or_ne n m with rfl | hne
    · rw [update_self, hcmd]
    · rw [update_of_ne hne]
  · intro n
    show (update q.node m x n).markedForActivation = _
    rcases eq_or_ne n m with rfl | hne
    · rw [update_self, hx, hm]
    · rw [update_of_ne hne]

/-- **What a removal does**: nothing, a mark on a command that is being activated, or it takes an
active command out and clears its bit. -/
theorem dequeueCmd_cases (h : Wf cfg q acting held) (k : Command) {out : Option Command}
    (hd : q.dequeueCmd cfg k = (q', out)) :
    (out = none ∧ (q' = q ∨ ∃ n ∈ acting,
      q' = q.setNode n { q.node n with activeMarkedForRemoval := true })) ∨
    (∃ n ∈ q.activeList, (q.cmd n).key = k.key ∧ out = some (q.cmd n) ∧ Freed cfg q q' n true ∧
      (cfg.comp = .nonScan → q'.vdevActiveCmdBitmap = q.vdevActiveCmdBitmap.erase (q.cmd n).vdev ∧
        q'.blockingCmdActive = (q.blockingCmdActive && !(q.cmd n).isBlocking))) := by
  rcases removeCmd_active h k with ⟨hr, -⟩ | ⟨n, -, -, hmark, hr⟩ | ⟨n, hn, hkey, hmark, r, hr, hq, hbits⟩
  · rw [Queue.dequeueCmd, hr] at hd
    cases hd
    exact .inl ⟨rfl, .inl rfl⟩
  · rw [Queue.dequeueCmd, hr] at hd
    cases hd
    exact .inl ⟨rfl, .inr ⟨n, (h.marked n).mp hmark, rfl⟩⟩
  · right
    have hnode : r.node = q.node := by rw [hq]
    have hcmd : r.cmd = q.cmd := by
      funext m
      rw [Queue.cmd, Queue.cmd, hnode]
    have htimers : (r.stopTimer (q.cmd n)).timers = (q.stopTimer (q.cmd n)).timers :=
      stopTimer_timers_congr hcmd (by rw [hq]) _
    rw [Queue.dequeueCmd, hr] at hd
    simp only [hcmd] at hd
    rw [stopTimer_eq] at hd
    cases hd
    have hupdate : ∀ m, m ≠ n → update r.node n {} m = q.node m := by
      intro m hm
      rw [update_of_ne hm, hnode]
    have hnot : n ∉ r.activeList := by
      rw [hq]
      exact h.activeNodup.not_mem_erase
    refine ⟨n, hn, hkey, rfl, ?_, fun hc => ⟨(hbits hc).2.1, (hbits hc).2.2⟩⟩
    refine { mem := hn, activeList := ?_, pendingList := ?_, pool := ?_, node := ?_, others := ?_,
             cmd := ?_, marked := ?_, timers := htimers, waiting := ?_, unmarked := hmark,
             synced := ?_ }
    · show r.activeList = _
      rw [hq]
      rfl
    · show r.pendingList = _
      rw [hq]
      rfl
    · show r.cmdPoolList ++ [n] = _
      rw [hq]
    · exact update_self ..
    · exact fun m hm _ => hupdate m hm
    · exact fun m hm => congrArg CommandList.cmd (hupdate m hm)
    · exact fun m hm => congrArg CommandList.markedForActivation (hupdate m hm)
    · show r.blockingCmdWaiting = _
      rw [hq]
    · intro hc
      refine (hbits hc).1.congr rfl rfl rfl rfl fun m hm => ?_
      have hne : m ≠ n := by
        rintro rfl
        rcases mem_append.mp hm with hm | hm
        · exact hnot hm
        · refine h.active_notMem_pending hn ?_
          rw [hq] at hm
          exact hm
      show (update r.node n {} m).cmd = _
      rw [update_of_ne hne]
      rfl

theorem Wf.not_active_of_bit (h : Wf cfg q acting held) (hcomp : cfg.comp = .nonScan) {v : ℕ}
    (hv : v ∉ q.vdevActiveCmdBitmap) : ∀ m ∈ q.activeList, (q.cmd m).vdev ≠ v := by
  intro m hm heq
  refine hv (((h.bits hcomp).bitmap v).mpr ?_)
  rw [Queue.holders, map_append, mem_append]
  exact .inl (mem_map.mpr ⟨q.cmd m, mem_map_of_mem hm, heq⟩)

theorem Wf.active_not_full (h : Wf cfg q acting held) (hcomp : cfg.comp = .nonScan) {v : ℕ}
    (hv : v ∈ cfg.vdevs) (hbit : v ∉ q.vdevActiveCmdBitmap) :
    q.activeList.length < cfg.maxActive := by
  have hnd : (v :: (q.activeList.map fun m => (q.cmd m).vdev)).Nodup := by
    refine nodup_cons.mpr ⟨fun hmem => ?_, ?_⟩
    · obtain ⟨m, hm, heq⟩ := mem_map.mp hmem
      exact h.not_active_of_bit hcomp hbit m hm heq
    · have halone := (h.bits hcomp).alone
      rw [Queue.holders, map_append, map_map] at halone
      exact (nodup_append.mp halone).1
  have hsub : (v :: (q.activeList.map fun m => (q.cmd m).vdev)).toFinset ⊆ cfg.vdevs := by
    intro w hw
    rw [mem_toFinset, mem_cons, mem_map] at hw
    rcases hw with rfl | ⟨m, hm, rfl⟩
    · exact hv
    · exact h.vdevs m (mem_append_left _ hm)
  have hcard := Finset.card_le_card hsub
  rw [toFinset_card_of_nodup hnd, length_cons, length_map] at hcard
  exact hcard.trans (cfg.vdevs_le hcomp)

/-- **A pending command is taken over into the active list** whenever its vdev has no bit, or the
limit for scans is not reached. -/
theorem movePendingCmd_spec (h : Wf cfg q acting held) (hn : n ∈ q.pendingList)
    (hbit : cfg.comp = .nonScan → (q.cmd n).vdev ∉ q.vdevActiveCmdBitmap)
    (hscan : cfg.comp = .scan → q.activeList.length < cfg.maxActiveScans) :
    ∃ q', q.movePendingCmd cfg n = (q', some n) ∧ Moved cfg q q' n := by
  obtain ⟨r, hr, hq, hsync⟩ := removeCmd_pending h hn
  have hnode : r.node = q.node := by rw [hq]
  have hcmd : r.cmd = q.cmd := by
    funext m
    rw [Queue.cmd, Queue.cmd, hnode]
  have hactive : r.activeList = q.activeList := by rw [hq]
  have hlt : q.activeList.length < cfg.maxActive := by
    rcases hcomp : cfg.comp with _ | _
    · exact (hscan hcomp).trans_le (cfg.scans_le hcomp)
    · exact h.active_not_full hcomp (h.vdevs n (mem_append_right _ hn)) (hbit hcomp)
  have hok : (r.addCmd cfg n true).2 = true := by
    apply addCmd_ok
    · show r.activeList.length ≠ cfg.maxActive
      rw [hactive]
      exact hlt.ne
    · intro hcomp
      rw [(hsync hcomp).list, show r.list true .pdev = q.activeList from hactive, hcmd]
      have hempty : (q.activeList.filter fun m => (q.cmd m).vdev = (q.cmd n).vdev) = [] := by
        rw [filter_eq_nil_iff]
        intro m hm heq
        exact h.not_active_of_bit hcomp (hbit hcomp) m hm (of_decide_eq_true heq)
      rw [hempty]
      exact Nat.zero_ne_one
  rcases hadd : r.addCmd cfg n true with ⟨t, ok⟩
  rw [hadd] at hok
  subst hok
  have e := addCmd_true hadd
  have hnode' : t.node = q.node := by rw [e.node, hnode]
  have hcmd' : t.cmd = q.cmd := by
    funext m
    rw [Queue.cmd, Queue.cmd, hnode']
  have hcmd'' : (t.setNode n { t.node n with markedForActivation := true }).cmd = q.cmd := by
    funext m
    show (update t.node n _ m).cmd = (q.node m).cmd
    rcases eq_or_ne m n with rfl | hm
    · rw [update_self, hnode']
    · rw [update_of_ne hm, hnode']
  rw [Queue.movePendingCmd, hr]
  simp only
  rw [hadd]
  simp only
  have hmoved : ∀ w, w = (if cfg.comp = .nonScan ∧ (q.cmd n).isBlocking then
      q.blockingCmdWaiting - 1 else q.blockingCmdWaiting) →
      Moved cfg q { t.setNode n { t.node n with markedForActivation := true } with
        blockingCmdWaiting := w } n := by
    intro w hw
    refine { mem := hn, activeList := ?_, pendingList := ?_, pool := ?_, node := ?_, timers := ?_,
             waiting := hw, synced := ?_, bitmap := ?_, blocking := ?_, free := hbit }
    · show t.activeList = _
      rw [e.activeList, hcmd, hactive]
      rfl
    · show t.pendingList = _
      rw [e.pendingList, hq]
      rfl
    · show t.cmdPoolList = _
      rw [e.pool, hq]
    · show update t.node n _ = _
      rw [hnode']
    · show t.timers = _
      rw [e.timers, hq]
    · intro hc
      refine (e.synced hc (hsync hc)).congr rfl rfl rfl rfl fun m _ => ?_
      rw [hcmd']
      exact congrFun hcmd'' m
    · intro hc
      show t.vdevActiveCmdBitmap = _
      rw [e.bitmap hc, hcmd, hq]
      rfl
    · intro hc
      show t.blockingCmdActive = _
      rw [e.blocking hc, hcmd, hq]
      rfl
  have hwait : t.blockingCmdWaiting = q.blockingCmdWaiting := by rw [e.waiting, hq]
  rw [hcmd'']
  split
  · rename_i hc
    refine ⟨_, rfl, ?_⟩
    apply hmoved
    rw [if_pos hc]
    show t.blockingCmdWaiting - 1 = _
    rw [hwait]
  · rename_i hc
    refine ⟨_, rfl, ?_⟩
    have := hmoved t.blockingCmdWaiting (by rw [if_neg hc, hwait])
    exact this

theorem SameLists.trans {q'' : Queue} (e : SameLists q q') (e' : SameLists q' q'') :
    SameLists q q'' where
  active := e'.active.trans e.active
  pending := e'.pending.trans e.pending
  pool := e'.pool.trans e.pool
  poolNode n hn := e'.poolNode n (e.pool.mem_iff.mpr hn)
  cmd n := (e'.cmd n).trans (e.cmd n)
  marked n := (e'.marked n).trans (e.marked n)
  vdevActive := e'.vdevActive.trans e.vdevActive
  vdevPending := e'.vdevPending.trans e.vdevPending
  bitmap := e'.bitmap.trans e.bitmap
  blocking := e'.blocking.trans e.blocking

theorem setMovement_node_self (b : Bool) :
    (q.setMovement n b).node n = { q.node n with markedForMovement := b } :=
  update_self ..

theorem setMovement_node_of_ne (b : Bool) (h : m ≠ n) : (q.setMovement n b).node m = q.node m :=
  update_of_ne h ..

theorem setMovement_cmd (m : ℕ) (b : Bool) : (q.setMovement n b).cmd m = q.cmd m := by
  rcases eq_or_ne m n with rfl | hm
  · rw [Queue.cmd, setMovement_node_self]
    rfl
  · rw [Queue.cmd, setMovement_node_of_ne b hm]
    rfl

theorem sameLists_setMovement (h : Wf cfg q acting held) (hn : n ∈ q.pendingList) (b : Bool) :
    SameLists q (q.setMovement n b) := by
  refine { SameLists.refl h with poolNode := ?_, cmd := fun m => setMovement_cmd m b, marked := ?_ }
  · intro m hm
    have hne : m ≠ n := by
      rintro rfl
      exact (h.pool_notMem hm).2 hn
    rw [setMovement_node_of_ne b hne]
    exact h.pool m hm
  · intro m
    rcases eq_or_ne m n with rfl | hm
    · rw [setMovement_node_self]
    · rw [setMovement_node_of_ne b hm]

variable {out : Option ℕ} {l : List ℕ}

theorem walkPending_cases (h : Wf cfg q acting held) (hl : l ⊆ q.pendingList)
    (hw : q.walkPending l = (q', out)) :
    SameLists q q' ∧ ∀ n, out = some n → n ∈ l ∧ (q.cmd n).vdev ∉ q.vdevActiveCmdBitmap ∧
      ((q.cmd n).isBlocking = true → q.vdevActiveCmdBitmap = ∅) := by
  induction l generalizing q with
  | nil =>
    cases hw
    exact ⟨.refl h, fun n hn => by cases hn⟩
  | cons n rest ih =>
    have hn : n ∈ q.pendingList := hl mem_cons_self
    have hrest : rest ⊆ q.pendingList := fun m hm => hl (mem_cons_of_mem _ hm)
    rw [Queue.walkPending] at hw
    split at hw
    · cases hw
      exact ⟨.refl h, fun n hn => by cases hn⟩
    · rename_i hblock
      have hsame₁ : SameLists q (q.markNext rest) := by
        cases rest with
        | nil => exact .refl h
        | cons next _ => exact sameLists_setMovement h (hrest mem_cons_self) true
      simp only at hw
      generalize q.markNext rest = q₁ at hw hsame₁
      have hwf₁ := h.sameLists hsame₁
      split at hw
      · have hsame₂ : SameLists q₁ (q₁.setMovement n false) :=
          sameLists_setMovement hwf₁ (by rw [hsame₁.pending]; exact hn) false
        have hsame := hsame₁.trans hsame₂
        obtain ⟨hsame₃, hpick⟩ := ih (h.sameLists hsame) (by rw [hsame.pending]; exact hrest) hw
        refine ⟨hsame.trans hsame₃, fun m hm => ?_⟩
        obtain ⟨hmem, hbit, hempty⟩ := hpick m hm
        rw [hsame.cmd, hsame.bitmap] at *
        exact ⟨mem_cons_of_mem _ hmem, hbit, hempty⟩
      · rename_i hbit
        cases hw
        rw [hsame₁.cmd, hsame₁.bitmap] at hbit
        refine ⟨hsame₁, fun m hm => ?_⟩
        cases hm
        refine ⟨mem_cons_self, hbit, fun hb => ?_⟩
        rw [not_and, Finset.not_nonempty_iff_eq_empty] at hblock
        exact hblock hb

theorem frontPending_some (h : Wf cfg q acting held) (hcomp : cfg.comp = .nonScan) {v : ℕ}
    (hf : q.frontPending v = some n) : n ∈ q.pendingList ∧ (q.cmd n).vdev = v ∧
      (q.cmd n).vdev ∉ q.vdevActiveCmdBitmap := by
  rw [Queue.frontPending] at hf
  rcases hl : q.vdevPending v with _ | ⟨m, rest⟩
  · rw [hl] at hf
    cases hf
  · rw [hl] at hf
    simp only at hf
    split at hf
    · cases hf
    · rename_i hbit
      cases hf
      have hmem : n ∈ q.vdevPending v := by
        rw [hl]
        exact mem_cons_self
      rw [(h.synced hcomp).pending, mem_filter, decide_eq_true_eq] at hmem
      exact ⟨hmem.1, hmem.2, fun hb => hbit (.inl hb)⟩

/-- **What a move of a non-scan command does**: apart from marks for movement, it takes the command it
picks over into the active list. -/
theorem moveNonScan_cases (h : Wf cfg q acting held) (hcomp : cfg.comp = .nonScan) {o : Owner}
    (hm : q.moveNonScan cfg o = (q', out)) :
    out = (q.pickPending o).2 ∧ ∃ q₁, q₁ = (q.pickPending o).1 ∧ SameLists q q₁ ∧
      (out = none → q' = q₁) ∧
      ∀ n, out = some n → Moved cfg q₁ q' n ∧
        (o = .pdev → (q.cmd n).isBlocking = true → q.vdevActiveCmdBitmap = ∅) := by
  rcases hpick : q.pickPending o with ⟨q₁, picked⟩
  have hspec : SameLists q q₁ ∧ ∀ n, picked = some n → n ∈ q.pendingList ∧
      (q.cmd n).vdev ∉ q.vdevActiveCmdBitmap ∧
      (o = .pdev → (q.cmd n).isBlocking = true → q.vdevActiveCmdBitmap = ∅) := by
    cases o with
    | pdev =>
      obtain ⟨hsame, hp⟩ := walkPending_cases h (List.Subset.refl _) hpick
      exact ⟨hsame, fun n hn => ⟨(hp n hn).1, (hp n hn).2.1, fun _ => (hp n hn).2.2⟩⟩
    | vdev v =>
      cases hpick
      refine ⟨.refl h, fun n hn => ?_⟩
      obtain ⟨hmem, -, hbit⟩ := frontPending_some h hcomp hn
      exact ⟨hmem, hbit, fun ho => by cases ho⟩
  obtain ⟨hsame, hspec⟩ := hspec
  rw [Queue.moveNonScan, hpick] at hm
  cases picked with
  | none =>
    cases hm
    exact ⟨rfl, _, rfl, hsame, fun _ => rfl, fun n hn => by cases hn⟩
  | some n =>
    obtain ⟨hmem, hbit, hempty⟩ := hspec n rfl
    have hwf₁ := h.sameLists hsame
    obtain ⟨r, hr, hmoved⟩ := movePendingCmd_spec hwf₁ (by rw [hsame.pending]; exact hmem)
      (fun _ => by rw [hsame.cmd, hsame.bitmap]; exact hbit) (fun hc => by rw [hcomp] at hc; cases hc)
    simp only at hm
    rw [hr] at hm
    cases hm
    refine ⟨rfl, _, rfl, hsame, (fun hn => by cases hn), fun m hm => ?_⟩
    cases hm
    exact ⟨hmoved, hempty⟩

theorem moveScan_cases (h : Wf cfg q acting held) (hcomp : cfg.comp = .scan) {others : ℕ}
    (hm : q.moveScan cfg others = (q', out)) :
    (out = none ∧ q' = q ∧ (q.pendingList = [] ∨ cfg.maxActiveScans ≤ others + q.activeList.length)) ∨
    ∃ n, out = some n ∧ Moved cfg q q' n ∧ others + q.activeList.length < cfg.maxActiveScans := by
  rw [Queue.moveScan] at hm
  rcases hl : q.pendingList with _ | ⟨n, rest⟩
  · rw [hl] at hm
    cases hm
    exact .inl ⟨rfl, rfl, .inl rfl⟩
  · rw [hl] at hm
    simp only [Queue.isActiveScanCmdAllowed, decide_eq_true_eq] at hm
    split at hm
    · rename_i hlt
      obtain ⟨r, hr, hmoved⟩ := movePendingCmd_spec h (by rw [hl]; exact mem_cons_self)
        (fun hc => by rw [hcomp] at hc; cases hc)
        (fun _ => Nat.lt_of_le_of_lt (Nat.le_add_left _ _) hlt)
      rw [hr] at hm
      cases hm
      exact .inr ⟨_, rfl, hmoved, hlt⟩
    · rename_i hge
      cases hm
      exact .inl ⟨rfl, rfl, .inr (Nat.le_of_not_lt hge)⟩

theorem nextIn_mem {p : ℕ} (h : Queue.nextIn l p = some m) : p ∈ l ∧ m ∈ l := by
  induction l with
  | nil => cases h
  | cons n rest ih =>
    rw [Queue.nextIn] at h
    split at h
    · rename_i heq
      subst heq
      exact ⟨mem_cons_self, mem_cons_of_mem _ (List.mem_of_mem_head? h)⟩
    · obtain ⟨hp, hm⟩ := ih h
      exact ⟨mem_cons_of_mem _ hp, mem_cons_of_mem _ hm⟩

theorem nextIn_of_notMem {p : ℕ} (h : p ∉ l) : Queue.nextIn l p = none := by
  rcases hn : Queue.nextIn l p with _ | m
  · rfl
  · exact absurd (nextIn_mem hn).1 h

variable {active : Bool}

theorem getCmdFromQueue_eq (h : Wf cfg q acting held) {p : ℕ}
    (hp : p ∈ q.list active .pdev) :
    q.getCmdFromQueue active (some p) = Queue.nextIn (q.list active .pdev) p := by
  have hpool := nextIn_of_notMem (h.pool_of_notMem_list hp)
  rw [Queue.getCmdFromQueue, if_neg (ne_nil_of_mem hp)]
  show (Queue.nextIn q.activeList p).or ((Queue.nextIn q.pendingList p).or
    (Queue.nextIn q.cmdPoolList p)) = _
  rw [hpool, Option.or_none]
  cases active with
  | false =>
    rw [nextIn_of_notMem (h.pending_notMem_active hp), Option.none_or]
    rfl
  | true =>
    rw [nextIn_of_notMem (h.active_notMem_pending hp), Option.or_none]
    rfl

def OnList (q : Queue) (active : Bool) (nnode : Option ℕ) : Prop :=
  q.list active .pdev ≠ [] → ∀ p, nnode = some p → p ∈ q.list active .pdev

theorem getCmdFromQueue_mem (h : Wf cfg q acting held) {nnode : Option ℕ}
    (hcur : OnList q active nnode) (hn : q.getCmdFromQueue active nnode = some n) :
    n ∈ q.list active .pdev := by
  have hne : q.list active .pdev ≠ [] := by
    intro hnil
    unfold Queue.getCmdFromQueue at hn
    rw [if_pos hnil] at hn
    cases hn
  cases nnode with
  | none =>
    rw [Queue.getCmdFromQueue, if_neg hne] at hn
    exact List.mem_of_mem_head? hn
  | some p =>
    rw [getCmdFromQueue_eq h (hcur hne p rfl)] at hn
    exact (nextIn_mem hn).2

theorem list_erase_self (h : Wf cfg q acting held) (hn : n ∈ q.list active .pdev) :
    q.activeList.erase n = (if active then q.activeList.erase n else q.activeList) ∧
      q.pendingList.erase n = (if active then q.pendingList else q.pendingList.erase n) := by
  cases active
  · exact ⟨erase_of_not_mem (h.pending_notMem_active hn), rfl⟩
  · exact ⟨rfl, erase_of_not_mem (h.active_notMem_pending hn)⟩

theorem cancelNode_spec (h : Wf cfg q acting held) (hn : n ∈ q.list active .pdev)
    (hmark : (q.node n).markedForActivation = false) :
    ∃ q', (if active then q.stopTimer (q.cmd n) else q).cancelNode cfg active n = (q', true) ∧
      Freed cfg q q' n active ∧ q'.vdevActiveCmdBitmap = q.vdevActiveCmdBitmap ∧
      q'.blockingCmdActive = q.blockingCmdActive := by
  obtain ⟨t, hq₁, ht⟩ : ∃ t, (if active then q.stopTimer (q.cmd n) else q) = { q with timers := t } ∧
      t = if active then (q.stopTimer (q.cmd n)).timers else q.timers := by
    cases active
    · exact ⟨_, rfl, rfl⟩
    · exact ⟨_, stopTimer_eq q _, rfl⟩
  have hpool : q.cmdPoolList.erase n = q.cmdPoolList :=
    erase_of_not_mem (h.pool_of_notMem_list hn)
  obtain ⟨hactive, hpending⟩ := list_erase_self h hn
  have hfreed : ∀ q', q'.activeList = q.activeList.erase n → q'.pendingList = q.pendingList.erase n →
      q'.cmdPoolList = q.cmdPoolList.erase n ++ [n] → q'.node = update q.node n {} →
      q'.timers = t → q'.blockingCmdWaiting = q.blockingCmdWaiting →
      (cfg.comp = .nonScan → Synced q') → Freed cfg q q' n active := by
    intro q' ha hp hpl hnode htm hw hs
    have hupdate : ∀ m, m ≠ n → q'.node m = q.node m := by
      intro m hm
      rw [hnode, update_of_ne hm]
    exact { mem := hn, activeList := ha.trans hactive, pendingList := hp.trans hpending,
            pool := by rw [hpl, hpool], node := by rw [hnode, update_self],
            others := fun m hm _ => hupdate m hm,
            cmd := fun m hm => congrArg CommandList.cmd (hupdate m hm),
            marked := fun m hm => congrArg CommandList.markedForActivation (hupdate m hm),
            timers := htm.trans ht, waiting := hw, unmarked := hmark, synced := hs }
  rw [hq₁]
  rcases hcomp : cfg.comp with _ | _
  · rw [Queue.cancelNode, hcomp]
    exact ⟨_, rfl, hfreed _ rfl rfl rfl rfl rfl rfl (fun hc => by rw [hcomp] at hc; cases hc), rfl, rfl⟩
  · have hs := h.synced hcomp
    have hne : q.list active (.vdev (q.cmd n).vdev) ≠ [] := by
      apply ne_nil_of_mem (a := n)
      rw [hs.list, mem_filter]
      exact ⟨hn, decide_eq_true rfl⟩
    rw [Queue.cancelNode, hcomp]
    refine ⟨_, if_neg ?_, hfreed _ rfl rfl rfl rfl rfl rfl fun _ => ?_, rfl, rfl⟩
    · cases active
      · exact hne
      · exact hne
    · have hcmd : ∀ {l : List ℕ}, l.Nodup → ∀ v, (l.erase n).filter (fun m =>
          ((update q.node n ({} : CommandList) m).cmd).vdev = v) =
            (l.filter fun m => (q.cmd m).vdev = v).erase n := by
        intro l hl v
        rw [← filter_erase_of_nodup hl]
        apply filter_congr
        intro m hm
        have hne : m ≠ n := by
          rintro rfl
          exact hl.not_mem_erase hm
        rw [update_of_ne hne]
        rfl
      refine ⟨fun v => ?_, fun v => ?_⟩
      · show (q.vdevActive v).erase n = _
        rw [hs.active v]
        exact (hcmd h.activeNodup v).symm
      · show (q.vdevPending v).erase n = _
        rw [hs.pending v]
        exact (hcmd h.pendingNodup v).symm

theorem Freed.of_mark {x : CommandList}
    (hm : (q.node m).markedForActivation = true) (hcmd : x.cmd = (q.node m).cmd)
    (hx : x.markedForActivation = true) (e : Freed cfg (q.setNode m x) q' n active) :
    Freed cfg q q' n active := by
  have hsetcmd : (q.setNode m x).cmd = q.cmd := by
    funext k
    show (update q.node m x k).cmd = (q.node k).cmd
    rcases eq_or_ne k m with rfl | hk
    · rw [update_self, hcmd]
    · rw [update_of_ne hk]
  have hmarked : ∀ k, ((q.setNode m x).node k).markedForActivation =
      (q.node k).markedForActivation := by
    intro k
    show (update q.node m x k).markedForActivation = _
    rcases eq_or_ne k m with rfl | hk
    · rw [update_self, hx, hm]
    · rw [update_of_ne hk]
  refine { e with others := ?_, cmd := ?_, marked := ?_, timers := ?_, unmarked := ?_ }
  · intro k hk hun
    have hkm : k ≠ m := by
      rintro rfl
      rw [hm] at hun
      cases hun
    rw [e.others k hk (by rw [hmarked]; exact hun)]
    exact update_of_ne hkm ..
  · intro k hk
    rw [e.cmd k hk, hsetcmd]
  · intro k hk
    rw [e.marked k hk, hmarked]
  · rw [e.timers, stopTimer_timers_congr hsetcmd rfl, hsetcmd]
    rfl
  · rw [← hmarked]
    exact e.unmarked

/-- What a section of a cancel has done, by the way it ended. -/
def CancelDone (cfg : Cfg) (q q' : Queue) (active : Bool) : CancelOutcome → Prop
  | .finished => SameLists q q'
  | .removed c _ _ => ∃ n, Freed cfg q q' n active ∧ c = q.cmd n ∧
      q'.vdevActiveCmdBitmap = q.vdevActiveCmdBitmap ∧ q'.blockingCmdActive = q.blockingCmdActive

/-- **What a section of a cancel does**, as long as the node it goes on from is in the list it goes
over: apart from marks, it takes one command out of its lists. -/
theorem cancelLoop_cases {a : CancelArgs} {qsize : ℕ} {nnode pnode : Option ℕ}
    {out : CancelOutcome} (h : Wf cfg q acting held)
    (hcur : 0 < qsize → OnList q active nnode)
    (hl : q.cancelLoop cfg a active qsize nnode pnode = (q', out)) :
    CancelDone cfg q q' active out := by
  induction qsize generalizing q nnode pnode with
  | zero =>
    cases hl
    exact .refl h
  | succ qsize ih =>
    rw [Queue.cancelLoop] at hl
    rcases hget : q.getCmdFromQueue active nnode with _ | n
    · rw [hget] at hl
      cases hl
      exact .refl h
    · have hn := getCmdFromQueue_mem h (hcur (Nat.succ_pos _)) hget
      have hcur' : OnList q active (some n) := by
        intro _ p hp
        cases hp
        exact hn
      rw [hget] at hl
      simp only at hl
      split at hl
      · exact ih h (fun _ => hcur') hl
      · split at hl
        · cases hl
          exact .refl h
        · split at hl
          · rename_i hmark
            have hsame : SameLists q
                (q.setNode n { q.node n with activeMarkedForCancel := true }) :=
              sameLists_mark h hmark.2 rfl hmark.2
            have hdone := ih (h.sameLists hsame) (fun _ => by
              cases active
              · exact hcur'
              · exact hcur') hl
            cases out with
            | finished => exact hsame.trans hdone
            | removed c p qs =>
              obtain ⟨m, hfreed, hc, hbits⟩ := hdone
              exact ⟨m, Freed.of_mark (x := { q.node n with activeMarkedForCancel := true }) hmark.2 rfl
                hmark.2 hfreed, hc.trans (hsame.cmd m), hbits⟩
          · rename_i hmark
            split at hl
            · cases hl
              exact .refl h
            · have hun : (q.node n).markedForActivation = false := by
                rw [← Bool.not_eq_true]
                intro htrue
                cases active with
                | true => exact hmark ⟨rfl, htrue⟩
                | false => exact h.not_acting_pending hn ((h.marked n).mp htrue)
              obtain ⟨r, hr, hfreed, hbits⟩ := cancelNode_spec h hn hun
              simp only [hr] at hl
              cases hl
              exact ⟨n, hfreed, rfl, hbits⟩

end Sm8750Modules.Serialization
