import Sm8750Modules.Serialization.Steps

/-!
# WLAN serialization — conservation of commands

Every accepted request is in one of the lists, or its release callback is due, or it has been run.
-/

namespace Sm8750Modules.Serialization

open List

variable {cfg : Cfg} {q q' : Queue} {acting starting releasing : List ℕ} {held : List Command}
variable {n : ℕ} {hist : History}

def Queue.queued (q : Queue) : List ℕ := (q.activeList ++ q.pendingList).map fun n => (q.cmd n).ticket

/-- Each accepted request is in one place: in a list, with its release callback due, or released.
The callback that activates it is run at most once. -/
structure Tickets (q : Queue) (hist : History) (starting releasing : List ℕ) : Prop where
  conserved : (q.queued ++ (releasing ++ hist.released)).Perm (List.range hist.accepted)
  activatedNodup : hist.activated.Nodup
  activatedLt : ∀ t ∈ hist.activated, t < hist.accepted
  pendingNew : ∀ n ∈ q.pendingList, (q.cmd n).ticket ∉ hist.activated
  startingNew : ∀ n ∈ starting, (q.cmd n).ticket ∉ hist.activated

namespace Tickets

section

variable (h : Tickets q hist starting releasing)
include h

theorem perm {starting' releasing' : List ℕ}
    (hs : starting.Perm starting') (hr : releasing.Perm releasing') :
    Tickets q hist starting' releasing' where
  conserved := (List.Perm.append_left _ (hr.symm.append_right _)).trans h.conserved
  activatedNodup := h.activatedNodup
  activatedLt := h.activatedLt
  pendingNew := h.pendingNew
  startingNew n hn := h.startingNew n (hs.mem_iff.mpr hn)

theorem sameLists (e : SameLists q q') : Tickets q' hist starting releasing where
  conserved := by
    have hq : q'.queued = q.queued := by
      rw [Queue.queued, Queue.queued, e.active, e.pending]
      simp only [e.cmd]
    rw [hq]
    exact h.conserved
  activatedNodup := h.activatedNodup
  activatedLt := h.activatedLt
  pendingNew n hn := by
    rw [e.pending] at hn
    rw [e.cmd]
    exact h.pendingNew n hn
  startingNew n hn := by
    rw [e.cmd]
    exact h.startingNew n hn

theorem inj {m : ℕ} (hn : n ∈ q.activeList ++ q.pendingList)
    (hm : m ∈ q.activeList ++ q.pendingList) (heq : (q.cmd n).ticket = (q.cmd m).ticket) : n = m := by
  have hnd := h.conserved.nodup_iff.mpr nodup_range
  exact inj_on_of_nodup_map (nodup_append.mp hnd).1 hn hm heq

theorem taken {c : Command} {active : Bool}
    (hwf : Wf cfg q acting held) (e : Taken cfg q q' n c active) (hc : c.ticket = hist.accepted) :
    Tickets q' { hist with accepted := hist.accepted + 1 } (if active then n :: starting else starting)
      releasing where
  conserved := by
    have hmap := e.map_cmd (l := q.activeList ++ q.pendingList) (fun hmem => by
      rcases mem_append.mp hmem with hmem | hmem
      · exact (e.notMem hwf).1 hmem
      · exact (e.notMem hwf).2 hmem) Command.ticket
    have hlists : (q'.activeList ++ q'.pendingList).Perm (n :: (q.activeList ++ q.pendingList)) := by
      rw [e.activeList, e.pendingList]
      cases active
      · exact (List.Perm.append_left _ (insertBy_perm _ n _)).trans perm_middle
      · exact (insertBy_perm _ n _).append_right _
    have hq : q'.queued.Perm (hist.accepted :: q.queued) := by
      refine (hlists.map _).trans ?_
      rw [map_cons, e.cmd, hc, hmap]
      exact .refl _
    refine (hq.append_right _).trans ?_
    show (hist.accepted :: (q.queued ++ (releasing ++ hist.released))).Perm
      (List.range (hist.accepted + 1))
    rw [range_succ]
    exact (List.Perm.cons _ h.conserved).trans (perm_append_singleton _ _).symm
  activatedNodup := h.activatedNodup
  activatedLt t ht := Nat.lt_succ_of_lt (h.activatedLt t ht)
  pendingNew m hm := by
    rcases eq_or_ne m n with rfl | hne
    · rw [e.cmd, hc]
      exact fun ht => Nat.lt_irrefl _ (h.activatedLt _ ht)
    · rw [e.cmd_others hne]
      apply h.pendingNew
      rw [e.pendingList] at hm
      cases active
      · exact (mem_insertBy.mp hm).resolve_left hne
      · exact hm
  startingNew m hm := by
    rcases eq_or_ne m n with rfl | hne
    · rw [e.cmd, hc]
      exact fun ht => Nat.lt_irrefl _ (h.activatedLt _ ht)
    · rw [e.cmd_others hne]
      apply h.startingNew
      cases active
      · exact hm
      · exact (mem_cons.mp hm).resolve_left hne

theorem freed {active : Bool} (hwf : Wf cfg q acting held)
    (e : Freed cfg q q' n active) (hstart : ∀ m ∈ starting, m ∈ acting) :
    Tickets q' hist starting ((q.cmd n).ticket :: releasing) where
  conserved := by
    have hnot : n ∉ q'.activeList ++ q'.pendingList := by
      rw [mem_append, not_or]
      exact ⟨e.notMem_active hwf, e.notMem_pending hwf⟩
    have hmap := e.map_cmd hnot Command.ticket
    have hlists : (q.activeList ++ q.pendingList).Perm (n :: (q'.activeList ++ q'.pendingList)) := by
      have hmem := e.mem
      rw [e.activeList, e.pendingList]
      cases active
      · exact (List.Perm.append_left _ (perm_cons_erase hmem)).trans perm_middle
      · exact (perm_cons_erase hmem).append_right _
    have hq : q.queued.Perm ((q.cmd n).ticket :: q'.queued) := by
      refine (hlists.map _).trans ?_
      rw [map_cons, Queue.queued, hmap]
    refine .trans ?_ h.conserved
    refine .trans ?_ (hq.symm.append_right _)
    exact perm_middle
  activatedNodup := h.activatedNodup
  activatedLt := h.activatedLt
  pendingNew m hm := by
    have hne : m ≠ n := by
      rintro rfl
      exact e.notMem_pending hwf hm
    rw [e.cmd m hne]
    exact h.pendingNew m (e.pending_sublist.subset hm)
  startingNew m hm := by
    have hne : m ≠ n := by
      rintro rfl
      have hmark := (hwf.marked m).mpr (hstart m hm)
      rw [e.unmarked] at hmark
      cases hmark
    rw [e.cmd m hne]
    exact h.startingNew m hm

theorem moved (e : Moved cfg q q' n) : Tickets q' hist (n :: starting) releasing where
  conserved := by
    have hlists : (q'.activeList ++ q'.pendingList).Perm (q.activeList ++ q.pendingList) := by
      rw [e.activeList, e.pendingList]
      refine ((insertBy_perm _ n _).append_right _).trans ?_
      refine perm_middle.symm.trans ?_
      exact .append_left _ (perm_cons_erase e.mem).symm
    have hq : q'.queued.Perm q.queued := by
      refine (hlists.map _).trans ?_
      simp only [e.cmd]
      exact .refl _
    exact (hq.append_right _).trans h.conserved
  activatedNodup := h.activatedNodup
  activatedLt := h.activatedLt
  pendingNew m hm := by
    rw [e.pendingList] at hm
    rw [e.cmd]
    exact h.pendingNew m (mem_of_mem_erase hm)
  startingNew m hm := by
    rw [e.cmd]
    rcases mem_cons.mp hm with rfl | hm
    · exact h.pendingNew m e.mem
    · exact h.startingNew m hm

end

theorem activate (h : Tickets q hist (n :: starting) releasing) (hwf : Wf cfg q acting held)
    (hn : n ∈ q.activeList) (hstart : ∀ m ∈ starting, m ∈ q.activeList ∧ m ≠ n) :
    Tickets q { hist with activated := hist.activated ++ [(q.cmd n).ticket] } starting releasing where
  conserved := h.conserved
  activatedNodup := by
    apply h.activatedNodup.append (nodup_singleton _)
    intro t ht ht'
    rw [mem_singleton] at ht'
    subst ht'
    exact h.startingNew n mem_cons_self ht
  activatedLt t ht := by
    rcases mem_append.mp ht with ht | ht
    · exact h.activatedLt t ht
    · rw [mem_singleton] at ht
      subst ht
      have hmem : (q.cmd n).ticket ∈ List.range hist.accepted := by
        rw [← h.conserved.mem_iff, mem_append]
        exact .inl (mem_map.mpr ⟨n, mem_append_left _ hn, rfl⟩)
      exact mem_range.mp hmem
  pendingNew m hm := by
    rw [mem_append, mem_singleton, not_or]
    refine ⟨h.pendingNew m hm, fun heq => ?_⟩
    have := h.inj (mem_append_right _ hm) (mem_append_left _ hn) heq
    exact hwf.active_notMem_pending hn (this ▸ hm)
  startingNew m hm := by
    rw [mem_append, mem_singleton, not_or]
    obtain ⟨hmem, hne⟩ := hstart m hm
    exact ⟨h.startingNew m (mem_cons_of_mem _ hm), fun heq =>
      hne (h.inj (mem_append_left _ hmem) (mem_append_left _ hn) heq)⟩

theorem release {t : ℕ} (h : Tickets q hist starting (t :: releasing)) :
    Tickets q { hist with released := hist.released ++ [t] } starting releasing where
  conserved := by
    refine .trans (List.Perm.append_left _ ?_) h.conserved
    show (releasing ++ (hist.released ++ [t])).Perm (t :: (releasing ++ hist.released))
    rw [← append_assoc]
    exact perm_append_comm
  activatedNodup := h.activatedNodup
  activatedLt := h.activatedLt
  pendingNew := h.pendingNew
  startingNew := h.startingNew

theorem congr (h : Tickets q hist starting releasing) (q' : Queue) (ha : q'.activeList = q.activeList)
    (hp : q'.pendingList = q.pendingList) (hcmd : q'.cmd = q.cmd) {hist' : History}
    (hh : hist'.accepted = hist.accepted ∧ hist'.activated = hist.activated ∧
      hist'.released = hist.released) : Tickets q' hist' starting releasing where
  conserved := by
    rw [Queue.queued, ha, hp, hcmd, hh.1, hh.2.2]
    exact h.conserved
  activatedNodup := by rw [hh.2.1]; exact h.activatedNodup
  activatedLt := by rw [hh.1, hh.2.1]; exact h.activatedLt
  pendingNew := by rw [hp, hcmd, hh.2.1]; exact h.pendingNew
  startingNew := by rw [hcmd, hh.2.1]; exact h.startingNew

end Tickets

/-- The invariant of a queue while `frames` are still to be done. -/
structure Inv (cfg : Cfg) (q : Queue) (hist : History) (frames : List Frame) : Prop where
  wf : Wf cfg q (frames.filterMap Frame.activating) (frames.filterMap Frame.holding)
  ok : ∀ f ∈ frames, f.Ok cfg
  tickets : Tickets q hist (frames.filterMap Frame.starting) (frames.filterMap Frame.releasing)

theorem mem_activating_of_starting {frames : List Frame} (h : n ∈ frames.filterMap Frame.starting) :
    n ∈ frames.filterMap Frame.activating := by
  obtain ⟨f, hf, hn⟩ := mem_filterMap.mp h
  refine mem_filterMap.mpr ⟨f, hf, ?_⟩
  cases f with
  | activate m => exact hn
  | _ => cases hn

theorem filterMap_plain {new : List Frame} (h : ∀ g ∈ new, g.Plain cfg) :
    new.filterMap Frame.activating = [] ∧ new.filterMap Frame.starting = [] ∧
      new.filterMap Frame.holding = [] ∧ new.filterMap Frame.releasing = [] := by
  simp only [filterMap_eq_nil_iff]
  exact ⟨fun g hg => (h g hg).activating, fun g hg => (h g hg).starting,
    fun g hg => (h g hg).holding, fun g hg => (h g hg).releasing⟩

namespace Inv

variable {f : Frame} {R new : List Frame} {hist' : History}

theorem perm (h : Inv cfg q hist R) {R' : List Frame} (hp : R.Perm R') : Inv cfg q hist R' where
  wf := h.wf.perm (hp.filterMap _) (hp.filterMap _)
  ok f hf := h.ok f (hp.mem_iff.mpr hf)
  tickets := h.tickets.perm (hp.filterMap _) (hp.filterMap _)

theorem dropPlain (h : Inv cfg q hist (f :: R)) (hf : f.Plain cfg) : Inv cfg q hist R := by
  obtain ⟨hwf, hok, htickets⟩ := h
  rw [filterMap_cons_none hf.activating, filterMap_cons_none hf.holding] at hwf
  rw [filterMap_cons_none hf.starting, filterMap_cons_none hf.releasing] at htickets
  exact ⟨hwf, fun g hg => hok g (mem_cons_of_mem _ hg), htickets⟩

theorem addPlain (h : Inv cfg q hist R) (hnew : ∀ g ∈ new, g.Plain cfg) :
    Inv cfg q hist (new ++ R) := by
  obtain ⟨ha, hs, hh, hr⟩ := filterMap_plain hnew
  refine ⟨?_, fun g hg => ?_, ?_⟩
  · rw [filterMap_append, filterMap_append, ha, hh]
    exact h.wf
  · rcases mem_append.mp hg with hg | hg
    · exact (hnew g hg).ok
    · exact h.ok g hg
  · rw [filterMap_append, filterMap_append, hs, hr]
    exact h.tickets

theorem sameLists (h : Inv cfg q hist R) (e : SameLists q q') : Inv cfg q' hist R :=
  ⟨h.wf.sameLists e, h.ok, h.tickets.sameLists e⟩

theorem cancelDone (h : Inv cfg q hist R) {a : CancelArgs} {active : Bool} {out : CancelOutcome}
    (hd : CancelDone cfg q q' active out) : Inv cfg q' hist (afterCancel cfg a active out ++ R) := by
  cases out with
  | finished =>
    apply (h.sameLists hd).addPlain
    intro g hg
    rw [afterCancel] at hg
    split at hg
    · rw [mem_singleton] at hg
      subst hg
      exact ⟨rfl, rfl, rfl, rfl, trivial⟩
    · cases hg
  | removed c pnode qsize =>
    obtain ⟨n, e, rfl, hbits, -⟩ := hd
    have hwf := h.wf.cancelled e hbits
    have htickets := h.tickets.freed h.wf e fun m hm => mem_activating_of_starting hm
    refine ⟨?_, fun g hg => ?_, htickets⟩
    · cases active
      · exact hwf
      · exact hwf
    · simp only [afterCancel, cons_append, nil_append, mem_cons] at hg
      rcases hg with rfl | rfl | rfl | hg
      · trivial
      · trivial
      · trivial
      · exact h.ok g hg

theorem step (h : Inv cfg q hist (f :: R)) (hs : Step cfg q hist f q' hist' new) :
    Inv cfg q' hist' (new ++ R) := by
  cases hs with
  | plain e hf hnew hh =>
    have hinv := (h.dropPlain hf).sameLists e
    exact Inv.addPlain ⟨hinv.wf, hinv.ok, hinv.tickets.congr _ rfl rfl rfl hh⟩ hnew
  | @taken c _ n active e =>
    have hinv := h.dropPlain ⟨rfl, rfl, rfl, rfl, h.ok _ mem_cons_self⟩
    have hwf := hinv.wf.taken e (h.ok (.enqueue c) mem_cons_self)
    have htickets := hinv.tickets.taken hinv.wf e rfl
    cases active with
    | true =>
      refine ⟨hwf, fun g hg => ?_, htickets⟩
      rcases mem_cons.mp hg with rfl | hg
      · trivial
      · exact hinv.ok g hg
    | false => exact ⟨hwf, hinv.ok, htickets⟩
  | @start n =>
    have hnd := nodup_cons.mp h.wf.actingNodup
    have hmem := h.wf.actingActive n mem_cons_self
    have htickets : Tickets (q.startTimer n)
        { hist with activated := hist.activated ++ [(q.cmd n).ticket] }
        (R.filterMap Frame.starting) (R.filterMap Frame.releasing) := by
      refine (h.tickets.activate h.wf hmem fun m hm => ?_).congr (q.startTimer n) rfl rfl rfl
        ⟨rfl, rfl, rfl⟩
      have hacting := mem_activating_of_starting hm
      refine ⟨h.wf.actingActive m (mem_cons_of_mem _ hacting), ?_⟩
      rintro rfl
      exact hnd.1 hacting
    have hsame : SameLists q (q.startTimer n) := { SameLists.refl h.wf with }
    refine ⟨h.wf.sameLists hsame, fun g hg => ?_, htickets⟩
    rcases mem_cons.mp hg with rfl | hg
    · trivial
    · exact h.ok g (mem_cons_of_mem _ hg)
  | noTimer =>
    obtain ⟨hwf, hok, htickets⟩ := h
    refine ⟨hwf, fun g hg => ?_, { htickets with
      startingNew := fun m hm => htickets.startingNew m (mem_cons_of_mem _ hm) }⟩
    rcases mem_cons.mp hg with rfl | hg
    · trivial
    · exact hok g (mem_cons_of_mem _ hg)
  | @settle n started g hg =>
    have hinv : Inv cfg (q.settleNode n) hist R :=
      ⟨h.wf.settleNode, fun g hg => h.ok g (mem_cons_of_mem _ hg),
        h.tickets.congr (q.settleNode n) rfl rfl (cmd_settleNode q n) ⟨rfl, rfl, rfl⟩⟩
    apply hinv.addPlain
    intro g' hg'
    rw [mem_singleton] at hg'
    subst hg'
    exact hg
  | @dequeue r _ n e hbits =>
    have hinv := h.dropPlain ⟨rfl, rfl, rfl, rfl, trivial⟩
    have hwf := hinv.wf.dequeued e fun hc => (hbits hc).1
    have htickets := hinv.tickets.freed hinv.wf e fun m hm => mem_activating_of_starting hm
    refine ⟨hwf, fun g hg => ?_, htickets⟩
    simp only [cons_append, nil_append, mem_cons] at hg
    rcases hg with rfl | rfl | hg
    · trivial
    · trivial
    · exact hinv.ok g hg
  | @move _ q₁ _ n new hf hnew e hm _ =>
    have hinv := ((h.dropPlain hf).sameLists e).addPlain hnew
    refine ⟨hinv.wf.moved hm, fun g hg => ?_, hinv.tickets.moved hm⟩
    rcases mem_cons.mp hg with rfl | hg
    · trivial
    · exact hinv.ok g hg
  | release =>
    exact ⟨h.wf, fun g hg => h.ok g (mem_cons_of_mem _ hg), h.tickets.release⟩
  | cancel hd => exact (h.dropPlain ⟨rfl, rfl, rfl, rfl, trivial⟩).cancelDone hd
  | @resume a active c pnode qsize _ out hd =>
    have hlists := list_cancelSettle cfg q active c
    have hcmd : (q.cancelSettle cfg active c).cmd = q.cmd := by
      funext m
      rw [Queue.cmd, Queue.cmd, hlists.2.2]
    refine Inv.cancelDone ⟨Wf.cancelSettle active ?_, fun g hg => h.ok g (mem_cons_of_mem _ hg),
      h.tickets.congr _ hlists.1 hlists.2.1 hcmd ⟨rfl, rfl, rfl⟩⟩ hd
    cases active
    · exact h.wf
    · exact h.wf

end Inv

/-! ### Runs -/

theorem frames_step {s : Serializer} {i : ℕ} {f : Frame} {rest : List Frame}
    (h : s.threads[i]? = some (f :: rest)) :
    ∃ R, s.frames.Perm (f :: R) ∧
      ∀ new, (s.threads.set i (new ++ rest)).flatten.Perm (new ++ R) := by
  obtain ⟨hi, hget⟩ := List.getElem?_eq_some_iff.mp h
  refine ⟨(s.threads.take i).flatten ++ (rest ++ (s.threads.drop (i + 1)).flatten), ?_, fun new => ?_⟩
  · have hsplit : s.threads = s.threads.take i ++ (f :: rest) :: s.threads.drop (i + 1) := by
      rw [← hget, getElem_cons_drop, take_append_drop]
    rw [Serializer.frames]
    conv_lhs => rw [hsplit]
    rw [flatten_append, flatten_cons, cons_append]
    exact perm_middle
  · rw [set_eq_take_append_cons_drop, if_pos hi, flatten_append, flatten_cons,
      append_assoc]
    exact perm_append_comm_assoc _ _ _

def Serializer.Inv (cfg : Cfg) (s : Serializer) : Prop :=
  Serialization.Inv cfg s.queue s.hist s.frames

theorem inv_create (cfg : Cfg) : (Serializer.create cfg).Inv cfg where
  wf :=
    { nodes := by
        show (List.range cfg.poolSize ++ ([] ++ [])).Perm _
        rw [append_nil, append_nil]
      pool := fun _ _ => rfl
      actingNodup := nodup_nil
      actingActive := fun n hn => by cases hn
      marked := fun n => by
        show false = true ↔ n ∈ []
        simp only [Bool.false_eq_true, not_mem_nil]
      vdevs := fun n hn => by cases hn
      keys := nodup_nil
      synced := fun _ => ⟨fun _ => rfl, fun _ => rfl⟩
      bits := fun _ => ⟨nodup_nil, fun v => ⟨fun h => absurd h (Finset.notMem_empty v),
        fun h => by cases h⟩⟩ }
  ok f hf := by cases hf
  tickets := ⟨.refl _, nodup_nil, fun t ht => (by cases ht), fun n hn => (by cases hn),
    fun n hn => (by cases hn)⟩

theorem frames_plain {c : Call} (h : c.ForQueue cfg) : ∀ f ∈ c.frames, f.Plain cfg := by
  intro f hf
  cases c with
  | request c =>
    rw [Call.frames, mem_singleton] at hf
    subst hf
    exact ⟨rfl, rfl, rfl, rfl, h.2⟩
  | remove k =>
    rw [Call.frames, mem_singleton] at hf
    subst hf
    exact ⟨rfl, rfl, rfl, rfl, trivial⟩
  | timeout k =>
    rw [Call.frames, mem_singleton] at hf
    subst hf
    exact ⟨rfl, rfl, rfl, rfl, trivial⟩
  | cancel t active pending =>
    have hcancel : ∃ b, f = .cancel t.args b := by
      rcases mem_append.mp hf with hf | hf
      · split at hf
        · exact ⟨true, mem_singleton.mp hf⟩
        · cases hf
      · split at hf
        · exact ⟨false, mem_singleton.mp hf⟩
        · cases hf
    obtain ⟨b, rfl⟩ := hcancel
    exact ⟨rfl, rfl, rfl, rfl, trivial⟩

/-- The condition of a step: a cancel that goes on after its callbacks goes on from a node of the list
it goes over. -/
def CursorKept (cfg : Cfg) (s : Serializer) : Event → Prop
  | .call _ => True
  | .advance i _ => ∀ f ∈ s.top i, f.KeepsCursor cfg s.queue

theorem next_eq (cfg : Cfg) (s : Serializer) (i : ℕ) (o : Outcome) :
    (s.next cfg (.advance i o) = s ∧ s.top i = none) ∨ ∃ f R q' hist' new, s.top i = some f ∧
      s.frames.Perm (f :: R) ∧ advance cfg o s.queue s.hist f = (q', hist', new) ∧
      (s.next cfg (.advance i o)).queue = q' ∧ (s.next cfg (.advance i o)).hist = hist' ∧
      (s.next cfg (.advance i o)).frames.Perm (new ++ R) := by
  rcases hthread : s.threads[i]? with _ | ⟨_ | ⟨f, rest⟩⟩
  · left
    rw [Serializer.next, hthread, Serializer.top, List.getD_eq_getElem?_getD, hthread]
    exact ⟨rfl, rfl⟩
  · left
    rw [Serializer.next, hthread, Serializer.top, List.getD_eq_getElem?_getD, hthread]
    exact ⟨rfl, rfl⟩
  · right
    obtain ⟨R, hframes, hset⟩ := frames_step hthread
    have htop : s.top i = some f := by
      rw [Serializer.top, List.getD_eq_getElem?_getD, hthread]
      rfl
    rcases ha : advance cfg o s.queue s.hist f with ⟨q', hist', new⟩
    have hnext : s.next cfg (.advance i o) = ⟨q', hist', s.threads.set i (new ++ rest)⟩ := by
      simp only [Serializer.next, hthread, ha]
    rw [hnext]
    exact ⟨f, R, q', hist', new, htop, hframes, ha, rfl, rfl, hset new⟩

theorem next_advance {s : Serializer} (h : s.Inv cfg) {i : ℕ} {o : Outcome}
    (hcur : CursorKept cfg s (.advance i o)) :
    s.next cfg (.advance i o) = s ∨ ∃ f R new q' hist', s.top i = some f ∧ s.frames.Perm (f :: R) ∧
      Step cfg s.queue s.hist f q' hist' new ∧ (s.next cfg (.advance i o)).queue = q' ∧
      (s.next cfg (.advance i o)).hist = hist' ∧
      (s.next cfg (.advance i o)).frames.Perm (new ++ R) := by
  rcases next_eq cfg s i o with ⟨heq, -⟩ | ⟨f, R, q', hist', new, htop, hframes, ha, hq, hh, hperm⟩
  · exact .inl heq
  · have hinv := Inv.perm h hframes
    have hstep : Step cfg s.queue s.hist f q' hist' new := by
      apply step_advance (R.filterMap Frame.holding) hinv.wf ?_
        (hinv.ok f mem_cons_self) (hcur f htop) ha
      intro c hc
      exact filterMap_cons_some hc
    exact .inr ⟨f, R, new, q', hist', htop, hframes, hstep, hq, hh, hperm⟩

theorem inv_next {s : Serializer} {e : Event} (h : s.Inv cfg) (hfor : e.ForQueue cfg)
    (hcur : CursorKept cfg s e) : (s.next cfg e).Inv cfg := by
  cases e with
  | call c =>
    have hadd := Inv.addPlain h (frames_plain hfor)
    refine Inv.perm hadd ?_
    show (c.frames ++ s.frames).Perm (s.threads ++ [c.frames]).flatten
    rw [flatten_append, flatten_singleton]
    exact perm_append_comm
  | advance i o =>
    rcases next_advance h hcur with heq | ⟨f, R, new, q', hist', -, hframes, hstep, hq, hh, hperm⟩
    · rw [heq]
      exact h
    · have hinv := (Inv.perm h hframes).step hstep
      rw [Serializer.Inv, hq, hh]
      exact hinv.perm hperm.symm

theorem inv_of_reachable {allowed : Serializer → Event → Prop} {s : Serializer}
    (hallowed : ∀ s e, allowed s e → CursorKept cfg s e)
    (h : (machine cfg allowed).Reachable s) : s.Inv cfg := by
  apply h.invariant
  · rintro _ rfl
    exact inv_create cfg
  · intro s e hs he
    exact inv_next hs he.1 (hallowed s e he.2)

/-- What should hold in every state of a queue: the nodes are partitioned, a non-scan node is in the
list of its own vdev and in no other, the bits say which vdevs have an active command when no call is
in progress, and an accepted request is activated at most once and released once, when its node
leaves the lists. -/
structure Conserved (cfg : Cfg) (s : Serializer) : Prop where
  nodes : (s.queue.cmdPoolList ++ (s.queue.activeList ++ s.queue.pendingList)).Perm
    (List.range cfg.poolSize)
  vdevActive : cfg.comp = .nonScan → ∀ n v, (s.queue.vdevActive v).count n =
    if n ∈ s.queue.activeList ∧ (s.queue.cmd n).vdev = v then 1 else 0
  vdevPending : cfg.comp = .nonScan → ∀ n v, (s.queue.vdevPending v).count n =
    if n ∈ s.queue.pendingList ∧ (s.queue.cmd n).vdev = v then 1 else 0
  bitmap : cfg.comp = .nonScan → s.frames = [] →
    ∀ v, v ∈ s.queue.vdevActiveCmdBitmap ↔ ∃ n ∈ s.queue.activeList, (s.queue.cmd n).vdev = v
  activated : s.hist.activated.Nodup ∧ ∀ t ∈ s.hist.activated, t < s.hist.accepted
  released : (s.queue.queued ++ (s.frames.filterMap Frame.releasing ++ s.hist.released)).Perm
    (List.range s.hist.accepted)

theorem count_filter_of_nodup {l : List ℕ} (hl : l.Nodup) (n : ℕ) (p : ℕ → Prop) [DecidablePred p] :
    (l.filter fun m => p m).count n = if n ∈ l ∧ p n then 1 else 0 := by
  split
  · rename_i h
    exact count_eq_one_of_mem (hl.filter _) (mem_filter.mpr ⟨h.1, decide_eq_true h.2⟩)
  · rename_i h
    rw [count_eq_zero]
    intro hmem
    rw [mem_filter, decide_eq_true_eq] at hmem
    exact h hmem

theorem Serializer.Inv.conserved {s : Serializer} (h : s.Inv cfg) : Conserved cfg s where
  nodes := h.wf.nodes
  vdevActive hc n v := by
    rw [(h.wf.synced hc).active v]
    exact count_filter_of_nodup h.wf.activeNodup n fun m => (s.queue.cmd m).vdev = v
  vdevPending hc n v := by
    rw [(h.wf.synced hc).pending v]
    exact count_filter_of_nodup h.wf.pendingNodup n fun m => (s.queue.cmd m).vdev = v
  bitmap hc hidle v := by
    have hbit := (h.wf.bits hc).bitmap v
    rw [hidle, filterMap_nil, Queue.holders, append_nil, map_map, mem_map] at hbit
    exact hbit
  activated := ⟨h.tickets.activatedNodup, h.tickets.activatedLt⟩
  released := h.tickets.conserved

/-- **Commands are conserved** in every state of every run, under every interleaving and with every
outcome of the callbacks, as long as each cancel that goes on after its callbacks goes on from a node
of the list it goes over. -/
theorem conserved_of_reachable {s : Serializer} (h : (machine cfg (CursorKept cfg)).Reachable s) :
    Conserved cfg s :=
  (inv_of_reachable (fun _ _ hcur => hcur) h).conserved

def twoVdevs : Cfg where
  comp := .nonScan
  vdevs := {1, 2}
  maxActive := 2
  maxPending := 4
  maxVdevPending _ := 4
  maxActiveScans := 0
  null_notMem := by decide
  vdevs_le := by decide
  scans_le := by decide
  pool_lt := by decide

def cmdOf (v cmdId : ℕ) : Command := { cmdType := 2, cmdId := cmdId, vdev := v }

def steps (i k : ℕ) : List Event := List.replicate k (.advance i {})

/-- Both vdevs have an active and a pending command, and a second command of the first vdev was put in
front. -/
def busyQueue : List Event :=
  .call (.request (cmdOf 1 1)) :: steps 0 5 ++ .call (.request (cmdOf 2 2)) :: steps 1 5 ++
    .call (.request { cmdOf 1 3 with isHighPriority := true }) :: steps 2 1 ++
    .call (.request (cmdOf 2 4)) :: steps 3 1 ++ .call (.request (cmdOf 1 5)) :: steps 4 1

/-- The pending commands of the second vdev are cancelled, and the callback of the cancelled command
removes the active command of the first vdev. -/
def staleCursor : List Event :=
  busyQueue ++ .call (.cancel (.vdevNonScanCmd 2) false true) :: steps 5 2 ++
    .call (.remove (cmdOf 1 1)) :: steps 6 8 ++ steps 5 2

instance (q : Queue) (active : Bool) : (nnode : Option ℕ) → Decidable (OnList q active nnode) := by
  intro nnode
  cases nnode <;> dsimp only [OnList] <;> infer_instance

instance (cfg : Cfg) (q : Queue) (f : Frame) : Decidable (f.KeepsCursor cfg q) := by
  cases f <;> unfold Frame.KeepsCursor <;> infer_instance

instance (cfg : Cfg) (s : Serializer) : (e : Event) → Decidable (CursorKept cfg s e)
  | .call _ => isTrue trivial
  | .advance i _ => inferInstanceAs (Decidable (∀ f ∈ s.top i, f.KeepsCursor cfg s.queue))

/-- **A command can be lost**: the node that the cancel goes on from has moved to the active list, and
the cancel unlinks the active command behind it. -/
theorem not_conserved : ∃ s, (machine twoVdevs fun _ _ => True).Reachable s ∧ ¬Conserved twoVdevs s := by
  refine ⟨_, Runs.Machine.Reachable.exec (.init rfl) staleCursor (by decide), fun h => ?_⟩
  have hmem := h.nodes.mem_iff (a := 1)
  revert hmem
  decide

/-- A run in which a callback removes a command while a cancel waits, and the cancel keeps its
cursor. -/
def keptCursor : List Event :=
  busyQueue ++ .call (.cancel .pdevNonScanCmd false true) :: steps 5 2 ++
    .call (.remove (cmdOf 1 1)) :: steps 6 8 ++ steps 5 10

theorem conserved_of_reachable_keptCursor : ∃ s,
    (machine twoVdevs (CursorKept twoVdevs)).Reachable s ∧ s.hist.released = [0, 2, 3] ∧
      Conserved twoVdevs s :=
  ⟨_, Runs.Machine.Reachable.exec (.init rfl) keptCursor (by decide), by decide,
    conserved_of_reachable (.exec (.init rfl) keptCursor (by decide))⟩

end Sm8750Modules.Serialization
