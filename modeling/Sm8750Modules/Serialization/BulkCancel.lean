import Sm8750Modules.Serialization.Conserve
import Sm8750Modules.Lib.RewindWalk

/-!
# WLAN serialization — cancelling all commands of a vdev or of a pdev

A cancel without a command goes over a list in as many steps as the list had entries. It takes the
matching commands out, except for the active ones that are still being activated, which it marks.
-/

namespace Sm8750Modules.Serialization

open RewindWalk (Kind Walked walk)
open Function List

/-- The loop of a cancel after a removal. -/
def cancelThread (cfg : Cfg) (a : CancelArgs) (active : Bool) :
    ℕ → Queue → History → CancelOutcome → Queue × History
  | _, q, h, .finished => (q, h)
  | 0, q, h, .removed _ _ _ => (q, h)
  | fuel + 1, q, h, .removed c pnode qsize =>
    let r := q.cancelResume cfg a active c pnode qsize
    cancelThread cfg a active fuel r.1
      { h with cancelled := h.cancelled ++ [c.ticket], released := h.released ++ [c.ticket] } r.2

/-- `wlan_ser_cancel_scan_cmd` and `wlan_ser_cancel_non_scan_cmd`, up to the test for an empty
active list. -/
def bulkCancel (cfg : Cfg) (a : CancelArgs) (active : Bool) (q : Queue) (h : History) :
    Queue × History :=
  let r := q.cancelLoop cfg a active (q.list active .pdev).length none none
  cancelThread cfg a active (q.list active .pdev).length r.1 h r.2

structure CancelArgs.Bulk (a : CancelArgs) : Prop where
  cmd : a.cmd = none
  scope : a.vdev ≠ 0 ∨ a.pdev = true
  psoc : a.psoc = true

instance (a : CancelArgs) : Decidable a.Bulk :=
  decidable_of_iff (a.cmd = none ∧ (a.vdev ≠ 0 ∨ a.pdev = true) ∧ a.psoc = true)
    ⟨fun h => ⟨h.1, h.2.1, h.2.2⟩, fun h => ⟨h.cmd, h.scope, h.psoc⟩⟩

/-- Every active command has a timer once it is activated, and a timer that is found by the key of an
active command is the command's own. -/
structure Timed (q : Queue) : Prop where
  timer : ∀ n ∈ q.activeList, (q.node n).markedForActivation = false → n ∈ q.timers
  own : ∀ n ∈ q.activeList, ∀ t ∈ q.timers, (q.cmd t).key = (q.cmd n).key → t = n

def cancelKind (cfg : Cfg) (q : Queue) (a : CancelArgs) (active : Bool) (n : ℕ) : Kind :=
  if ¬q.cancelMatches cfg a n then .keep
  else if active ∧ (q.node n).markedForActivation then .mark
  else .remove

/-- What a complete cancel leaves. -/
structure BulkCancelled (cfg : Cfg) (a : CancelArgs) (active : Bool) (q : Queue) (h : History)
    (r : Queue × History) : Prop where
  list : r.1.list active .pdev =
    (q.list active .pdev).filter fun n => cancelKind cfg q a active n ≠ .remove
  cancelled : r.2.cancelled = h.cancelled ++ ((q.list active .pdev).filter fun n =>
    cancelKind cfg q a active n = .remove).map fun n => (q.cmd n).ticket
  released : r.2.released = h.released ++ ((q.list active .pdev).filter fun n =>
    cancelKind cfg q a active n = .remove).map fun n => (q.cmd n).ticket
  marked : ∀ n ∈ q.list active .pdev, cancelKind cfg q a active n = .mark →
    (r.1.node n).activeMarkedForCancel = true

/-- A thread takes its next step while nothing else is going on. -/
inductive StepAlone (cfg : Cfg) (o : Outcome) :
    Queue × History × List Frame → Queue × History × List Frame → Prop where
  | step {q : Queue} {h : History} {f : Frame} {rest : List Frame} :
    StepAlone cfg o (q, h, f :: rest) ((advance cfg o q h f).1, (advance cfg o q h f).2.1,
      (advance cfg o q h f).2.2 ++ rest)

variable {cfg : Cfg} {q q' q₀ : Queue} {a : CancelArgs} {active : Bool} {acting : List ℕ}
  {held : List Command} {n : ℕ} {h : History}

theorem cancelThread_finished (fuel : ℕ) : cancelThread cfg a active fuel q h .finished = (q, h) := by
  cases fuel <;> rfl

theorem cancelMatches_congr (ha : a.cmd = none) (hc : q'.cmd n = q.cmd n) :
    q'.cancelMatches cfg a n = q.cancelMatches cfg a n := by
  rw [Queue.cancelMatches, Queue.cancelMatches, ha, hc]

theorem nextIn_append {X T : List ℕ} (hnd : (X ++ T).Nodup) {p : ℕ} (hp : X.getLast? = some p) :
    Queue.nextIn (X ++ T) p = T.head? := by
  induction X with
  | nil => cases hp
  | cons x X ih =>
    rw [cons_append, nodup_cons] at hnd
    rw [cons_append, Queue.nextIn]
    cases X with
    | nil =>
      rw [List.getLast?_singleton, Option.some.injEq] at hp
      rw [if_pos hp, nil_append]
    | cons y X =>
      rw [List.getLast?_cons_cons] at hp
      have hne : x ≠ p := by
        rintro rfl
        exact hnd.1 (mem_append_left _ (List.mem_of_getLast? hp))
      rw [if_neg hne]
      exact ih hnd.2 hp

theorem getCmdFromQueue_walk (hwf : Wf cfg q acting held) {X T : List ℕ}
    (hl : q.list active .pdev = X ++ T) : q.getCmdFromQueue active X.getLast? = T.head? := by
  rcases hX : X.getLast? with _ | p
  · rw [List.getLast?_eq_none_iff] at hX
    rw [Queue.getCmdFromQueue, hl, hX, nil_append]
    cases T with
    | nil => rfl
    | cons t T => rfl
  · have hp : p ∈ q.list active .pdev := by
      rw [hl]
      exact mem_append_left _ (List.mem_of_getLast? hX)
    have hnd := hwf.listNodup active
    rw [getCmdFromQueue_eq hwf hp, hl]
    rw [hl] at hnd
    exact nextIn_append hnd hX

theorem cancelNode_node (hr : q.cancelNode cfg active n = (q', true)) :
    q'.node = update q.node n {} := by
  rw [Queue.cancelNode] at hr
  split at hr
  · cases hr
    rfl
  · split at hr
    · cases hr
    · cases hr
      rfl

theorem stopTimer_node (q : Queue) (c : Command) : (q.stopTimer c).node = q.node := by
  rw [stopTimer_eq]

theorem timers_cancelSettle (c : Command) : (q.cancelSettle cfg active c).timers = q.timers := by
  rw [Queue.cancelSettle]
  split
  · rfl
  · split
    · rfl
    · split
      · rfl
      · rfl

namespace Timed

theorem findTimer_eq (ht : Timed q) (hn : n ∈ q.activeList)
    (hun : (q.node n).markedForActivation = false) : q.findTimer (q.cmd n) = some n := by
  rcases hf : q.findTimer (q.cmd n) with _ | t
  · have hno := List.find?_eq_none.mp hf n (ht.timer n hn hun)
    exact absurd (Command.matchIdVdev_iff.mpr rfl) hno
  · have hkey : (q.cmd t).key = (q.cmd n).key :=
      Command.matchIdVdev_iff.mp (List.find?_some (p := fun m => (q.cmd m).matchIdVdev (q.cmd n)) hf)
    rw [ht.own n hn t (List.mem_of_find?_eq_some hf) hkey]

theorem stopTimer_timers (ht : Timed q) (hn : n ∈ q.activeList)
    (hun : (q.node n).markedForActivation = false) :
    (q.stopTimer (q.cmd n)).timers = q.timers.erase n := by
  rw [Queue.stopTimer, ht.findTimer_eq hn hun]

theorem freed (ht : Timed q) (hwf : Wf cfg q acting held) (e : Freed cfg q q' n true) : Timed q' := by
  have hn : n ∈ q.activeList := e.mem
  have htimers : q'.timers = q.timers.erase n := by
    rw [e.timers, if_pos rfl, ht.stopTimer_timers hn e.unmarked]
  have hlist : ∀ m ∈ q'.activeList, m ∈ q.activeList ∧ m ≠ n := by
    intro m hm
    rw [e.activeList, if_pos rfl] at hm
    exact ⟨mem_of_mem_erase hm, fun heq => hwf.activeNodup.not_mem_erase (heq ▸ hm)⟩
  refine ⟨fun m hm hun => ?_, fun m hm t hmem hkey => ?_⟩
  · obtain ⟨hm, hne⟩ := hlist m hm
    rw [e.marked m hne] at hun
    rw [htimers]
    exact (mem_erase_of_ne hne).mpr (ht.timer m hm hun)
  · obtain ⟨hm, hne⟩ := hlist m hm
    rw [htimers] at hmem
    rw [e.cmd m hne] at hkey
    rcases eq_or_ne t n with rfl | hnt
    · have hv := hwf.vdevs m (mem_append_left _ hm)
      have hzero : (q.cmd m).vdev = 0 := by
        have hkey := congrArg (fun k => k.2.2) hkey
        rw [Queue.cmd, e.node] at hkey
        exact hkey.symm
      rw [hzero] at hv
      exact absurd hv cfg.null_notMem
    · rw [e.cmd t hnt] at hkey
      exact ht.own m hm t (mem_of_mem_erase hmem) hkey

end Timed

/-! ### The cancel follows the walk -/

structure Walking (q₀ q : Queue) (active : Bool) (L : List ℕ) : Prop where
  list : q.list active .pdev = L
  cmd : ∀ n ∈ L, q.cmd n = q₀.cmd n
  marked : ∀ n ∈ L, (q.node n).markedForActivation = (q₀.node n).markedForActivation
  timed : active = true → Timed q

/-- The cancel ends as the walk does. -/
structure Follows (q₀ q : Queue) (h : History) (active : Bool) (r : Queue × History)
    (w : Walked ℕ) : Prop where
  list : r.1.list active .pdev = w.left
  cancelled : r.2.cancelled = h.cancelled ++ w.removed.map fun n => (q₀.cmd n).ticket
  released : r.2.released = h.released ++ w.removed.map fun n => (q₀.cmd n).ticket
  flag : ∀ n ∈ w.left, (r.1.node n).activeMarkedForCancel = true ↔
    (q.node n).activeMarkedForCancel = true ∨ n ∈ w.marked

theorem Follows.done {L : List ℕ} (hw : Walking q₀ q active L) (fuel : ℕ) :
    Follows q₀ q h active (cancelThread cfg a active fuel q h .finished) ⟨L, [], []⟩ := by
  rw [cancelThread_finished]
  refine ⟨hw.list, ?_, ?_, fun n _ => ?_⟩
  · rw [map_nil, append_nil]
  · rw [map_nil, append_nil]
  · simp only [not_mem_nil, or_false]

theorem Walking.kind {L : List ℕ} (hw : Walking q₀ q active L) (ha : a.Bulk) (hn : n ∈ L) :
    cancelKind cfg q a active n = cancelKind cfg q₀ a active n := by
  rw [cancelKind, cancelKind, cancelMatches_congr ha.cmd (hw.cmd n hn), hw.marked n hn]

theorem Walking.mark {L : List ℕ} (hw : Walking q₀ q active L)
    (hm : (q.node n).markedForActivation = true) :
    Walking q₀ (q.setNode n { q.node n with activeMarkedForCancel := true }) active L := by
  have hcmd : (q.setNode n { q.node n with activeMarkedForCancel := true }).cmd = q.cmd := by
    funext m
    show (update q.node n _ m).cmd = (q.node m).cmd
    rcases eq_or_ne m n with rfl | hne
    · rw [update_self]
    · rw [update_of_ne hne]
  have hmarked : ∀ m, ((q.setNode n { q.node n with activeMarkedForCancel := true }).node
      m).markedForActivation = (q.node m).markedForActivation := by
    intro m
    show (update q.node n _ m).markedForActivation = (q.node m).markedForActivation
    rcases eq_or_ne m n with rfl | hne
    · rw [update_self]
    · rw [update_of_ne hne]
  refine ⟨?_, ?_, ?_, fun hact => ⟨?_, ?_⟩⟩
  · cases active
    · exact hw.list
    · exact hw.list
  · intro m hmem
    rw [hcmd]
    exact hw.cmd m hmem
  · intro m hmem
    rw [hmarked]
    exact hw.marked m hmem
  · intro m hmem hun
    rw [hmarked] at hun
    exact (hw.timed hact).timer m hmem hun
  · rw [hcmd]
    exact (hw.timed hact).own

theorem Walking.freed {X T : List ℕ} (hwf : Wf cfg q acting held)
    (hw : Walking q₀ q active (X ++ n :: T)) (e : Freed cfg q q' n active) (c : Command) :
    Walking q₀ (q'.cancelSettle cfg active c) active (X ++ T) := by
  have hnd := hwf.listNodup active
  rw [hw.list] at hnd
  have hX : n ∉ X := fun hX =>
    (nodup_append.mp hnd).2.2 n hX n mem_cons_self rfl
  have hT : n ∉ T := (nodup_cons.mp (nodup_append.mp hnd).2.1).1
  have hmem : ∀ m ∈ X ++ T, m ≠ n ∧ m ∈ X ++ n :: T := by
    intro m hm
    refine ⟨?_, ?_⟩
    · rintro rfl
      rcases mem_append.mp hm with hm | hm
      · exact hX hm
      · exact hT hm
    · rcases mem_append.mp hm with hm | hm
      · exact mem_append_left _ hm
      · exact mem_append_right _ (mem_cons_of_mem _ hm)
  obtain ⟨hact, hpend, hnode⟩ := list_cancelSettle cfg q' active c
  refine ⟨?_, ?_, ?_, ?_⟩
  · have herase : (X ++ n :: T).erase n = X ++ T := by
      rw [erase_append_right _ hX, erase_cons_head]
    have hl := hw.list
    cases active with
    | false =>
      show (q'.cancelSettle cfg false c).pendingList = _
      rw [hpend, e.pendingList, ← herase, ← hl]
      rfl
    | true =>
      show (q'.cancelSettle cfg true c).activeList = _
      rw [hact, e.activeList, ← herase, ← hl]
      rfl
  · intro m hm
    obtain ⟨hne, hm⟩ := hmem m hm
    rw [Queue.cmd, hnode]
    exact (e.cmd m hne).trans (hw.cmd m hm)
  · intro m hm
    obtain ⟨hne, hm⟩ := hmem m hm
    rw [hnode]
    exact (e.marked m hne).trans (hw.marked m hm)
  · rintro rfl
    have ht := (hw.timed rfl).freed hwf e
    refine ⟨?_, ?_⟩
    · rw [hact, hnode, timers_cancelSettle]
      exact ht.timer
    · rw [hact, timers_cancelSettle, show (q'.cancelSettle cfg true c).cmd = q'.cmd from by
        funext m
        rw [Queue.cmd, hnode, Queue.cmd]]
      exact ht.own

theorem cancelLoop_keep {b : ℕ} {m p : Option ℕ}
    (hget : q.getCmdFromQueue active m = some n)
    (hk : cancelKind cfg q a active n = .keep) :
    q.cancelLoop cfg a active (b + 1) m p =
      q.cancelLoop cfg a active b (some n) (some n) := by
  have hno : ¬q.cancelMatches cfg a n := by
    intro hm
    rw [cancelKind, if_neg (not_not_intro hm)] at hk
    split at hk
    · cases hk
    · cases hk
  rw [Queue.cancelLoop, hget]
  exact if_pos hno

theorem cancelLoop_mark (ha : a.Bulk) {b : ℕ} {m p : Option ℕ}
    (hget : q.getCmdFromQueue active m = some n)
    (hk : cancelKind cfg q a active n = .mark) :
    (q.node n).markedForActivation = true ∧ q.cancelLoop cfg a active (b + 1) m p =
      (q.setNode n { q.node n with activeMarkedForCancel := true }).cancelLoop cfg a active b
        (some n) p := by
  rw [cancelKind] at hk
  split at hk
  · cases hk
  · rename_i hm
    split at hk
    · rename_i hmark
      refine ⟨hmark.2, ?_⟩
      rw [Queue.cancelLoop, hget]
      show (if ¬q.cancelMatches cfg a n then _ else if active ∧ ¬a.psoc then _
        else if active ∧ (q.node n).markedForActivation then _ else _) = _
      rw [if_neg hm, if_neg fun hp => hp.2 ha.psoc, if_pos hmark]
    · cases hk

theorem cancelLoop_remove (ha : a.Bulk) (hwf : Wf cfg q acting held)
    (ht : active = true → Timed q) {b : ℕ} {m p : Option ℕ}
    (hget : q.getCmdFromQueue active m = some n) (hn : n ∈ q.list active .pdev)
    (hk : cancelKind cfg q a active n = .remove) :
    ∃ q', q.cancelLoop cfg a active (b + 1) m p = (q', .removed (q.cmd n) p b) ∧
      Freed cfg q q' n active ∧ q'.vdevActiveCmdBitmap = q.vdevActiveCmdBitmap ∧
      q'.node = update q.node n {} := by
  rw [cancelKind] at hk
  split at hk
  · cases hk
  · rename_i hm
    split at hk
    · cases hk
    · rename_i hmark
      have hun : (q.node n).markedForActivation = false := by
        rw [← Bool.not_eq_true]
        intro htrue
        cases active with
        | true => exact hmark ⟨rfl, htrue⟩
        | false => exact hwf.not_acting_pending hn ((hwf.marked n).mp htrue)
      have htimer : ¬(active = true ∧ (q.findTimer (q.cmd n)).isNone = true) := by
        rintro ⟨rfl, hnone⟩
        rw [(ht rfl).findTimer_eq hn hun] at hnone
        cases hnone
      obtain ⟨q', hr, e, hbits, -⟩ := cancelNode_spec hwf hn hun
      refine ⟨q', ?_, e, hbits, ?_⟩
      · rw [Queue.cancelLoop, hget]
        show (if ¬q.cancelMatches cfg a n then _ else if active ∧ ¬a.psoc then _
          else if active ∧ (q.node n).markedForActivation then _
          else if active ∧ (q.findTimer (q.cmd n)).isNone then _ else _) = _
        rw [if_neg hm, if_neg fun hp => hp.2 ha.psoc, if_neg hmark, if_neg htimer]
        simp only [hr]
      · rw [cancelNode_node hr]
        cases active
        · rfl
        · rw [if_pos rfl, stopTimer_node]

theorem cancelThread_walk (ha : a.Bulk) {b fuel : ℕ} (hf : b ≤ fuel) {P V T : List ℕ}
    (hwf : Wf cfg q acting held) (hw : Walking q₀ q active (P ++ V ++ T)) :
    Follows q₀ q h active
      (cancelThread cfg a active fuel
        (q.cancelLoop cfg a active b (P ++ V).getLast? P.getLast?).1 h
        (q.cancelLoop cfg a active b (P ++ V).getLast? P.getLast?).2)
      (walk (cancelKind cfg q₀ a active) b P V T) := by
  induction b generalizing fuel q held h P V T with
  | zero => exact .done hw fuel
  | succ b ih =>
    have hget := getCmdFromQueue_walk hwf hw.list
    cases T with
    | nil =>
      rw [Queue.cancelLoop, hget, RewindWalk.walk_nil]
      rw [append_nil] at hw
      exact .done hw fuel
    | cons n T =>
      rw [List.head?_cons] at hget
      have hn : n ∈ q.list active .pdev := by
        rw [hw.list]
        exact mem_append_right _ mem_cons_self
      have hkind : cancelKind cfg q a active n = cancelKind cfg q₀ a active n :=
        hw.kind ha (mem_append_right _ mem_cons_self)
      rcases hk : cancelKind cfg q₀ a active n with _ | _ | _
      · rw [hk] at hkind
        rw [cancelLoop_keep hget hkind, RewindWalk.walk_keep hk]
        have hlast : (P ++ V ++ [n]).getLast? = some n := List.getLast?_concat
        have hnext := ih (h := h) (P := P ++ V ++ [n]) (V := []) (T := T)
          (Nat.le_of_succ_le hf) hwf
          (by rwa [append_nil, append_assoc, singleton_append])
        rw [append_nil, hlast] at hnext
        exact hnext
      · rw [hk] at hkind
        obtain ⟨hmark, hloop⟩ := cancelLoop_mark (b := b) (p := P.getLast?) ha hget hkind
        rw [hloop, RewindWalk.walk_mark hk]
        have hlast : (P ++ (V ++ [n])).getLast? = some n := by
          rw [← append_assoc]
          exact List.getLast?_concat
        have hnext := ih (h := h) (P := P) (V := V ++ [n]) (T := T)
          (Nat.le_of_succ_le hf) (hwf.sameLists (sameLists_mark (x := { q.node n with activeMarkedForCancel := true }) hwf
            hmark rfl hmark)) (by
            rw [← append_assoc, append_assoc _ [n], singleton_append]
            exact hw.mark hmark)
        rw [hlast] at hnext
        refine ⟨hnext.list, hnext.cancelled, hnext.released, fun m hm => ?_⟩
        rw [hnext.flag m hm, mem_cons]
        show (update q.node n _ m).activeMarkedForCancel = true ∨ _ ↔ _
        rcases eq_or_ne m n with rfl | hne
        · simp only [update_self, true_or, or_true]
        · simp only [update_of_ne hne, hne, false_or]
      · rw [hk] at hkind
        obtain ⟨q', hloop, e, hbits, hnode⟩ := cancelLoop_remove (b := b)
          (p := P.getLast?) ha hwf hw.timed hget hn hkind
        cases fuel with
        | zero => exact absurd hf (Nat.not_succ_le_zero _)
        | succ fuel =>
          rw [hloop, RewindWalk.walk_remove hk]
          have hsettled := hw.freed hwf e (q.cmd n)
          have hresume : q'.cancelResume cfg a active (q.cmd n) P.getLast? b =
              (q'.cancelSettle cfg active (q.cmd n)).cancelLoop cfg a active b P.getLast?
                P.getLast? := by
            rw [Queue.cancelResume]
            refine if_neg ?_
            rintro ⟨-, hv, hp⟩
            rcases ha.scope with hs | hs
            · exact hs hv
            · exact hp hs
          have hnext := ih (P := P) (V := []) (T := V ++ T)
            (h := { h with cancelled := h.cancelled ++ [(q.cmd n).ticket]
                           released := h.released ++ [(q.cmd n).ticket] })
            (Nat.le_of_succ_le_succ hf) ((hwf.cancelled e hbits).cancelSettle active)
            (by rwa [append_nil, ← append_assoc])
          rw [append_nil] at hnext
          rw [cancelThread, hresume]
          have hticket : q.cmd n = q₀.cmd n :=
            hw.cmd n (mem_append_right _ mem_cons_self)
          refine ⟨hnext.list, ?_, ?_, fun m hm => ?_⟩
          · rw [hnext.cancelled, map_cons, hticket, append_assoc]
            rfl
          · rw [hnext.released, map_cons, hticket, append_assoc]
            rfl
          · have hne : m ≠ n := by
              rintro rfl
              have hmem := RewindWalk.mem_of_mem_left hm
              have hnd := hwf.listNodup active
              rw [hw.list] at hnd
              have hnot := (nodup_cons.mp (nodup_middle.mp hnd)).1
              rw [append_nil, ← append_assoc] at hmem
              exact hnot hmem
            rw [hnext.flag m hm, (list_cancelSettle cfg q' active (q.cmd n)).2.2, hnode,
              update_of_ne hne]

/-- The cancel has the steps to reach every command it is to take out or to mark. -/
def CancelReaches (cfg : Cfg) (q : Queue) (a : CancelArgs) (active : Bool) : Prop :=
  RewindWalk.Reaches (cancelKind cfg q a active)
    (fun n => (q.node n).activeMarkedForCancel = false) (q.list active .pdev)

/-- **A cancel of the commands of a vdev or of a pdev is complete iff it has the steps to reach every
one of them.** -/
theorem bulkCancelled_iff (ha : a.Bulk) (hwf : Wf cfg q acting held)
    (ht : active = true → Timed q) :
    BulkCancelled cfg a active q h (bulkCancel cfg a active q h) ↔ CancelReaches cfg q a active := by
  have hfollows : Follows q q h active (bulkCancel cfg a active q h)
      (walk (cancelKind cfg q a active) (q.list active .pdev).length [] [] (q.list active .pdev)) :=
    cancelThread_walk (P := []) (V := []) ha (Nat.le_refl _) hwf
      ⟨rfl, fun _ _ => rfl, fun _ _ => rfl, ht⟩
  rw [CancelReaches, ← RewindWalk.walk_complete_iff (hwf.listNodup active)]
  generalize hw : walk (cancelKind cfg q a active) (q.list active .pdev).length [] []
    (q.list active .pdev) = w at hfollows ⊢
  have hremoved : w.left = (q.list active .pdev).filter (fun n => cancelKind cfg q a active n ≠ .remove) →
      w.removed = (q.list active .pdev).filter (fun n => cancelKind cfg q a active n = .remove) := by
    rw [← hw]
    exact RewindWalk.removed_of_left
  have hflag : w.left = (q.list active .pdev).filter (fun n => cancelKind cfg q a active n ≠ .remove) →
      ∀ n ∈ q.list active .pdev, cancelKind cfg q a active n = .mark → n ∈ w.left := by
    intro hl n hn hk
    rw [hl]
    refine mem_filter.mpr ⟨hn, decide_eq_true ?_⟩
    rw [hk]
    exact Kind.noConfusion
  constructor
  · intro hdone
    have hl : w.left = _ := hfollows.list.symm.trans hdone.list
    refine ⟨hl, fun n hn hk hdue => ?_⟩
    rcases (hfollows.flag n (hflag hl n hn hk)).mp (hdone.marked n hn hk) with hset | hmem
    · rw [hdue] at hset
      cases hset
    · exact hmem
  · rintro ⟨hl, hmarked⟩
    refine ⟨hfollows.list.trans hl, ?_, ?_, fun n hn hk => ?_⟩
    · rw [hfollows.cancelled, hremoved hl]
    · rw [hfollows.released, hremoved hl]
    · rw [hfollows.flag n (hflag hl n hn hk)]
      rcases hset : (q.node n).activeMarkedForCancel with _ | _
      · exact .inr (hmarked n hn hk hset)
      · exact .inl rfl

def threeVdevs : Cfg where
  comp := .nonScan
  vdevs := {1, 2, 3}
  maxActive := 3
  maxPending := 3
  maxVdevPending _ := 3
  maxActiveScans := 0
  null_notMem := by decide
  vdevs_le := by decide
  scans_le := by decide
  pool_lt := by decide

/-- Each vdev has an active command, and the one of vdev `v` is still being activated. -/
def startingCommand (v : ℕ) : List Event :=
  ([1, 2, 3].zipIdx).flatMap fun (w, i) =>
    .call (.request (cmdOf w w)) :: steps i (if w = v then 1 else 5)

/-- **A command can be missed**: the first active command is still being activated, and after the
removal of the second one the cancel goes back to the first and has no step left for the third. -/
theorem not_bulkCancelled : ∃ s, (machine threeVdevs (CursorKept threeVdevs)).Reachable s ∧
    Timed s.queue ∧ ¬BulkCancelled threeVdevs { pdev := true } true s.queue s.hist
      (bulkCancel threeVdevs { pdev := true } true s.queue s.hist) := by
  refine ⟨_, Runs.Machine.Reachable.exec (.init rfl) (startingCommand 1) (by decide),
    ⟨by decide, by decide⟩, fun h => ?_⟩
  have hlist := h.list
  revert hlist
  decide

/-- Where the last active command is still being activated, the cancel is complete. -/
theorem bulkCancelled_iff_startingLast : ∃ s,
    (machine threeVdevs (CursorKept threeVdevs)).Reachable s ∧
      CancelReaches threeVdevs s.queue { pdev := true } true := by
  have hr := Runs.Machine.Reachable.exec (M := machine threeVdevs (CursorKept threeVdevs)) (.init rfl)
    (startingCommand 3) (by decide)
  refine ⟨_, hr, (bulkCancelled_iff (h := {}) (by decide) (inv_of_reachable (fun _ _ hc => hc) hr).wf
    fun _ => ⟨by decide, by decide⟩).mp ⟨by decide, by decide, by decide, by decide⟩⟩

end Sm8750Modules.Serialization
