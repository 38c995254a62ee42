import Sm8750Modules.Lib.Runs

/-!
# Fences of GPU timelines

A timeline lists its fences until its value reaches their numbers.
-/

namespace KgslTimeline.Fences

open Runs Function List

/-- `struct kgsl_timeline_fence` with its `dma_fence`: `users` are the references of calls and files,
`kept` the one that `kgsl_timeline_signal` or the destroy ioctl takes; `late` fences are put on a
list that the destroy ioctl has taken before. -/
structure Fence where
  seqno : ℕ
  users : ℕ
  kept : Bool
  signals : ℕ
  error : Bool
  late : Bool

/-- `refcount` -/
def Fence.ref (f : Fence) : ℕ := f.users + if f.kept then 1 else 0

/-- `dma_fence_signal_locked`, which does nothing to a fence that is signalled. -/
def Fence.signal (f : Fence) : Fence := if 0 < f.signals then f else { f with signals := f.signals + 1 }

/-- Who holds the lock of the timeline. -/
inductive Lock where
  | free
  | alloc (i : ℕ)
  | signal
  | moved (temp : List ℕ)
deriving DecidableEq

/-- How far the destroy ioctl is: the id is gone, the list is taken, all is done. -/
inductive Destroy where
  | no
  | removed
  | taken (temp : List ℕ)
  | done
deriving DecidableEq

def Destroy.hasTaken : Destroy → Bool
  | .no | .removed => false
  | .taken _ | .done => true

/-- A timeline. `calls` have looked it up and have not returned, `commands` are the numbers that
queued timeline commands will signal. -/
structure State where
  value : ℕ
  fences : List ℕ
  fence : ℕ → Fence
  made : ℕ
  present : Bool
  calls : ℕ
  commands : List ℕ
  lock : Lock
  destroy : Destroy

def addFence (seqno : ℕ → ℕ) (i : ℕ) : List ℕ → List ℕ
  | [] => [i]
  | j :: l => if seqno i < seqno j then i :: j :: l else j :: addFence seqno i l

namespace State

variable (s : State)

def signaled (i : ℕ) : Bool := (s.fence i).seqno ≤ s.value

def onFences (l : List ℕ) (f : Fence → Fence) : ℕ → Fence :=
  fun i => if i ∈ l then f (s.fence i) else s.fence i

/-- The fences that `kgsl_timeline_signal` moves to its list. -/
def expired : List ℕ := s.fences.filter fun i => s.signaled i ∧ 0 < (s.fence i).ref

def held : List ℕ := s.fences.filter fun i => 0 < (s.fence i).ref

/-- `kgsl_timeline_signal` takes the lock and sets the value. -/
def signalLock (seqno : ℕ) : State :=
  if seqno < s.value then s else { s with value := seqno, lock := .signal }

end State

inductive Action where
  /-- `kgsl_timeline_by_id` in a call -/
  | lookup
  | leave
  /-- `kgsl_drawobj_add_timeline` -/
  | queueCommand (seqno : ℕ)
  | allocLock (seqno : ℕ)
  | allocAdd
  /-- `kgsl_timeline_signal` by a call, or by a command that retires -/
  | signalLock (seqno : ℕ)
  | retireCommand (seqno : ℕ)
  | signalMove
  | signalEnd
  | getFence (i : ℕ)
  | putFence (i : ℕ)
  /-- `dma_fence_is_signaled` -/
  | poll (i : ℕ)
  | release (i : ℕ)
  /-- the three parts of `kgsl_ioctl_timeline_destroy` -/
  | destroyRemove
  | destroyTake
  | destroySignal

variable (s : State)

def next : Action → State
  | .lookup => { s with calls := s.calls + 1 }
  | .leave => { s with calls := s.calls - 1 }
  | .queueCommand seqno => { s with commands := seqno :: s.commands }
  | .allocLock seqno =>
    let f : Fence := ⟨seqno, 1, false, 0, false, false⟩
    if seqno ≤ s.value then
      { s with fence := Function.update s.fence s.made f.signal, made := s.made + 1 }
    else
      { s with fence := Function.update s.fence s.made f, made := s.made + 1, lock := .alloc s.made }
  | .allocAdd =>
    match s.lock with
    | .alloc i =>
      { s with
        fences := addFence (fun j => (s.fence j).seqno) i s.fences
        fence := Function.update s.fence i { s.fence i with late := s.destroy.hasTaken }
        lock := .free }
    | _ => s
  | .signalLock seqno => s.signalLock seqno
  | .retireCommand seqno => { s with commands := s.commands.erase seqno }.signalLock seqno
  | .signalMove =>
    { s with
      fences := s.fences.filter (· ∉ s.expired)
      fence := s.onFences s.expired fun f => { f with kept := true }
      lock := .moved s.expired }
  | .signalEnd =>
    match s.lock with
    | .moved temp =>
      { s with fence := s.onFences temp fun f => { f.signal with kept := false }, lock := .free }
    | _ => s
  | .getFence i =>
    { s with fence := Function.update s.fence i { s.fence i with users := (s.fence i).users + 1 } }
  | .putFence i =>
    { s with fence := Function.update s.fence i { s.fence i with users := (s.fence i).users - 1 } }
  | .poll i => if s.signaled i then { s with fence := Function.update s.fence i (s.fence i).signal } else s
  | .release i => { s with fences := s.fences.erase i }
  | .destroyRemove => { s with present := false, destroy := .removed }
  | .destroyTake =>
    { s with
      fences := []
      fence := s.onFences s.held fun f => { f with kept := true }
      destroy := .taken s.held }
  | .destroySignal =>
    match s.destroy with
    | .taken temp =>
      { s with
        fence := s.onFences temp fun f => { { f with error := true }.signal with kept := false }
        destroy := .done }
    | _ => s

def Lock.isMoved : Lock → Bool
  | .moved _ => true
  | _ => false

def Lock.isAlloc : Lock → Bool
  | .alloc _ => true
  | _ => false

def Destroy.isTaken : Destroy → Bool
  | .taken _ => true
  | _ => false

/-- What is allowed; a call does not return while it holds the lock. -/
def Enabled : Action → Prop
  | .lookup | .queueCommand _ => s.present = true
  | .leave => 0 < s.calls ∧ (s.lock = .free ∨ 1 < s.calls)
  | .allocLock _ | .signalLock _ => s.lock = .free ∧ 0 < s.calls
  | .allocAdd => s.lock.isAlloc = true
  | .retireCommand seqno => s.lock = .free ∧ seqno ∈ s.commands
  | .signalMove => s.lock = .signal
  | .signalEnd => s.lock.isMoved = true
  | .getFence i | .putFence i => 0 < (s.fence i).users
  | .poll i => s.lock = .free ∧ 0 < (s.fence i).users
  | .release i => (s.fence i).ref = 0
  | .destroyRemove => s.present = true
  | .destroyTake => s.destroy = .removed
  | .destroySignal => s.lock = .free ∧ s.destroy.isTaken = true

instance (s : State) : ∀ a, Decidable (Enabled s a) := by
  intro a
  cases a <;> dsimp only [Enabled] <;> infer_instance

/-- `kgsl_timeline_alloc` -/
def initial (value : ℕ) : State :=
  ⟨value, [], fun _ => ⟨0, 0, false, 0, false, false⟩, 0, true, 0, [], .free, .no⟩

/-- Calls, commands, releases and a destroy in any order. -/
def fenceMachine : Machine State Action where
  init s := ∃ value, s = initial value
  guard := Enabled
  next := next

instance (s : State) (a : Action) : Decidable (fenceMachine.guard s a) :=
  inferInstanceAs (Decidable (Enabled s a))

def State.Unsignalled (i : ℕ) : Prop := 0 < (s.fence i).ref ∧ (s.fence i).signals = 0

/-! ## The invariant -/

/-- The fence is on the list of a `kgsl_timeline_signal`. -/
def Lock.Moved (l : Lock) (i : ℕ) : Prop := ∃ temp, l = .moved temp ∧ i ∈ temp

def Destroy.Taken (d : Destroy) (i : ℕ) : Prop := ∃ temp, d = .taken temp ∧ i ∈ temp

structure Inv (s : State) : Prop where
  listed : ∀ i ∈ s.fences, (s.fence i).kept = false ∧ (s.fence i).signals = 0
  moved : ∀ i, s.lock.Moved i → (s.fence i).kept = true ∧ (s.fence i).seqno ≤ s.value ∧
    ¬s.destroy.Taken i
  taken : ∀ i, s.destroy.Taken i → (s.fence i).kept = true
  alloc : ∀ i, s.lock = .alloc i → (s.fence i).kept = false ∧ (s.fence i).signals = 0 ∧
    s.value < (s.fence i).seqno ∧ i ∉ s.fences ∧ i < s.made
  signalled : ∀ i, (s.fence i).signals ≤ 1 ∧
    ((s.fence i).signals = 1 → (s.fence i).error = false → (s.fence i).seqno ≤ s.value)
  placed : ∀ i, s.Unsignalled i → i ∈ s.fences ∨ s.lock = .alloc i ∨ s.lock.Moved i ∨ s.destroy.Taken i
  ahead : s.lock ≠ .signal → ∀ i ∈ s.fences, 0 < (s.fence i).ref → s.value < (s.fence i).seqno
  late : s.destroy.hasTaken = true → ∀ i ∈ s.fences, (s.fence i).late = true
  fresh : ∀ i, s.made ≤ i → (s.fence i).ref = 0 ∧ i ∉ s.fences
  present : s.present = true → s.destroy = .no

section Steps

variable {s : State} {i j : ℕ} {f : Fence} {l : List ℕ}

theorem Fence.ref_pos_of_users (h : 0 < f.users) : 0 < f.ref := Nat.add_pos_left h _

theorem Fence.ref_pos_of_kept (h : f.kept = true) : 0 < f.ref := by
  rw [Fence.ref, if_pos h]
  exact Nat.succ_pos _

theorem Fence.signal_same (f : Fence) : f.signal.seqno = f.seqno ∧ f.signal.users = f.users ∧
    f.signal.kept = f.kept ∧ f.signal.error = f.error ∧ f.signal.late = f.late := by
  rw [Fence.signal]
  split
  · exact ⟨rfl, rfl, rfl, rfl, rfl⟩
  · exact ⟨rfl, rfl, rfl, rfl, rfl⟩

theorem Fence.signal_signals (h : f.signals ≤ 1) : f.signal.signals = 1 := by
  rw [Fence.signal]
  split
  · omega
  · show f.signals + 1 = 1
    omega

theorem mem_addFence (seqno : ℕ → ℕ) : j ∈ addFence seqno i l ↔ j = i ∨ j ∈ l := by
  induction l with
  | nil => exact mem_cons
  | cons k l ih =>
    rw [addFence]
    split
    · exact mem_cons
    · rw [mem_cons, ih, mem_cons]
      exact or_left_comm

theorem not_moved_of (h : ∀ temp, s.lock ≠ .moved temp) (i : ℕ) : ¬s.lock.Moved i := by
  intro hm
  obtain ⟨temp, htemp, -⟩ := hm
  exact h temp htemp

theorem inv_initial (value : ℕ) : Inv (initial value) := by
  have hnone : ∀ i, ¬(initial value).Unsignalled i := fun i hi => Nat.lt_irrefl 0 hi.1
  refine ⟨fun i hi => (nomatch hi), fun i hi => ?_, fun i hi => ?_, fun i hi => (nomatch hi),
    fun i => ⟨Nat.zero_le 1, fun hf => (nomatch hf)⟩, fun i hi => absurd hi (hnone i),
    fun _ i hi => (nomatch hi), fun hf => (nomatch hf), fun i _ => ⟨rfl, fun hi => (nomatch hi)⟩, fun _ => rfl⟩
  · obtain ⟨temp, htemp, -⟩ := hi
    cases htemp
  · obtain ⟨temp, htemp, -⟩ := hi
    cases htemp

theorem Inv.setUsers (h : Inv s) {n : ℕ} (hpos : 0 < (s.fence i).users) :
    Inv { s with fence := update s.fence i { s.fence i with users := n } } := by
  have hsame : ∀ j, (update s.fence i { s.fence i with users := n } j).kept = (s.fence j).kept ∧
      (update s.fence i { s.fence i with users := n } j).signals = (s.fence j).signals ∧
      (update s.fence i { s.fence i with users := n } j).seqno = (s.fence j).seqno ∧
      (update s.fence i { s.fence i with users := n } j).error = (s.fence j).error ∧
      (update s.fence i { s.fence i with users := n } j).late = (s.fence j).late ∧
      (0 < (update s.fence i { s.fence i with users := n } j).ref → 0 < (s.fence j).ref) := by
    intro j
    by_cases hj : j = i
    · rw [hj, update_self]
      exact ⟨rfl, rfl, rfl, rfl, rfl, fun _ => Fence.ref_pos_of_users hpos⟩
    · rw [update_of_ne hj]
      exact ⟨rfl, rfl, rfl, rfl, rfl, id⟩
  refine ⟨fun j hj => ?_, fun j hj => ?_, fun j hj => ?_, fun j hj => ?_, fun j => ?_, fun j hj => ?_,
    fun hlock j hj href => ?_, fun hd j hj => ?_, fun j hj => ?_, h.present⟩
  · obtain ⟨hkept, hsignals, -⟩ := hsame j
    exact ⟨hkept.trans (h.listed j hj).1, hsignals.trans (h.listed j hj).2⟩
  · obtain ⟨hkept, -, hseqno, -⟩ := hsame j
    obtain ⟨h₁, h₂, h₃⟩ := h.moved j hj
    exact ⟨hkept.trans h₁, hseqno.trans_le h₂, h₃⟩
  · exact (hsame j).1.trans (h.taken j hj)
  · obtain ⟨hkept, hsignals, hseqno, -⟩ := hsame j
    obtain ⟨h₁, h₂, h₃, hrest⟩ := h.alloc j hj
    exact ⟨hkept.trans h₁, hsignals.trans h₂, h₃.trans_eq hseqno.symm, hrest⟩
  · obtain ⟨-, hsignals, hseqno, herror, -⟩ := hsame j
    show (update s.fence i _ j).signals ≤ 1 ∧ _
    rw [hsignals]
    refine ⟨(h.signalled j).1, fun hone hno => ?_⟩
    exact hseqno.trans_le ((h.signalled j).2 hone (herror.symm.trans hno))
  · obtain ⟨-, hsignals, -, -, -, hlive⟩ := hsame j
    exact h.placed j ⟨hlive hj.1, hsignals.symm.trans hj.2⟩
  · obtain ⟨-, -, hseqno, -, -, hlive⟩ := hsame j
    exact (h.ahead hlock j hj (hlive href)).trans_eq hseqno.symm
  · exact (hsame j).2.2.2.2.1.trans (h.late hd j hj)
  · refine ⟨?_, (h.fresh j hj).2⟩
    have hzero := (h.fresh j hj).1
    have hlive := (hsame j).2.2.2.2.2
    by_contra hne
    have := hlive (Nat.pos_of_ne_zero hne)
    omega

theorem Inv.signalLock (h : Inv s) (hfree : s.lock = .free) (seqno : ℕ) : Inv (s.signalLock seqno) := by
  rw [State.signalLock]
  split
  · exact h
  · rename_i hge
    have hle : s.value ≤ seqno := Nat.le_of_not_lt hge
    refine ⟨h.listed, fun j hj => ?_, h.taken, fun j hj => (nomatch hj), fun j => ?_, fun j hj => ?_,
      fun hne => absurd rfl hne, h.late, h.fresh, h.present⟩
    · obtain ⟨temp, htemp, -⟩ := hj
      cases htemp
    · exact ⟨(h.signalled j).1, fun hone hno => ((h.signalled j).2 hone hno).trans hle⟩
    · rcases h.placed j hj with hlisted | halloc | hmoved | htaken
      · exact .inl hlisted
      · rw [hfree] at halloc
        cases halloc
      · rw [hfree] at hmoved
        obtain ⟨temp, htemp, -⟩ := hmoved
        cases htemp
      · exact .inr (.inr (.inr htaken))

theorem mem_expired : i ∈ s.expired ↔
    i ∈ s.fences ∧ (s.fence i).seqno ≤ s.value ∧ 0 < (s.fence i).ref := by
  rw [State.expired, mem_filter]
  simp only [Bool.decide_and, Bool.and_eq_true, decide_eq_true_eq, State.signaled]

theorem mem_held : i ∈ s.held ↔ i ∈ s.fences ∧ 0 < (s.fence i).ref := by
  rw [State.held, mem_filter, decide_eq_true_eq]

section

variable (h : Inv s)
include h

theorem Inv.signalMove (hlock : s.lock = .signal) : Inv (KgslTimeline.Fences.next s .signalMove) := by
  have hmem : ∀ j, j ∈ s.fences.filter (· ∉ s.expired) ↔ j ∈ s.fences ∧ j ∉ s.expired := by
    intro j
    rw [mem_filter, decide_eq_true_eq]
  have hother : ∀ j, j ∉ s.expired → s.onFences s.expired (fun f => { f with kept := true }) j = s.fence j :=
    fun j hj => if_neg hj
  have hmoved : ∀ j, j ∈ s.expired →
      s.onFences s.expired (fun f => { f with kept := true }) j = { s.fence j with kept := true } :=
    fun j hj => if_pos hj
  refine ⟨fun j hj => ?_, fun j hj => ?_, fun j hj => ?_, fun j hj => (nomatch hj), fun j => ?_,
    fun j hj => ?_, fun _ j hj href => ?_, fun hd j hj => ?_, fun j hj => ?_, h.present⟩
  · obtain ⟨hlisted, hnot⟩ := (hmem j).mp hj
    show (s.onFences s.expired _ j).kept = false ∧ (s.onFences s.expired _ j).signals = 0
    rw [hother j hnot]
    exact h.listed j hlisted
  · obtain ⟨temp, htemp, hj⟩ := hj
    have hj' : j ∈ s.expired := Lock.moved.inj htemp ▸ hj
    obtain ⟨hlisted, hseqno, -⟩ := mem_expired.mp hj'
    show (s.onFences s.expired _ j).kept = true ∧ (s.onFences s.expired _ j).seqno ≤ s.value ∧ _
    rw [hmoved j hj']
    refine ⟨rfl, hseqno, fun htaken => ?_⟩
    have hkept := h.taken j htaken
    rw [(h.listed j hlisted).1] at hkept
    cases hkept
  · show (s.onFences s.expired _ j).kept = true
    by_cases hmem' : j ∈ s.expired
    · rw [hmoved j hmem']
    · rw [hother j hmem']
      exact h.taken j hj
  · show (s.onFences s.expired _ j).signals ≤ 1 ∧ ((s.onFences s.expired _ j).signals = 1 →
      (s.onFences s.expired _ j).error = false → (s.onFences s.expired _ j).seqno ≤ s.value)
    by_cases hmem' : j ∈ s.expired
    · rw [hmoved j hmem']
      exact h.signalled j
    · rw [hother j hmem']
      exact h.signalled j
  · by_cases hmem' : j ∈ s.expired
    · exact .inr (.inr (.inl ⟨s.expired, rfl, hmem'⟩))
    · have hold : s.Unsignalled j := by
        have hj' : 0 < (s.onFences s.expired _ j).ref ∧ (s.onFences s.expired _ j).signals = 0 := hj
        rw [hother j hmem'] at hj'
        exact hj'
      rcases h.placed j hold with hlisted | halloc | hm | htaken
      · exact .inl ((hmem j).mpr ⟨hlisted, hmem'⟩)
      · rw [hlock] at halloc
        cases halloc
      · rw [hlock] at hm
        obtain ⟨temp, htemp, -⟩ := hm
        cases htemp
      · exact .inr (.inr (.inr htaken))
  · obtain ⟨hlisted, hnot⟩ := (hmem j).mp hj
    have href' : 0 < (s.onFences s.expired _ j).ref := href
    show s.value < (s.onFences s.expired _ j).seqno
    rw [hother j hnot] at href' ⊢
    exact Nat.lt_of_not_le fun hle => hnot (mem_expired.mpr ⟨hlisted, hle, href'⟩)
  · obtain ⟨hlisted, hnot⟩ := (hmem j).mp hj
    show (s.onFences s.expired _ j).late = true
    rw [hother j hnot]
    exact h.late hd j hlisted
  · have hnot : j ∉ s.expired := fun hj' => (h.fresh j hj).2 (mem_expired.mp hj').1
    refine ⟨?_, fun hj' => (h.fresh j hj).2 ((hmem j).mp hj').1⟩
    show (s.onFences s.expired _ j).ref = 0
    rw [hother j hnot]
    exact (h.fresh j hj).1

theorem Inv.signalAll {temp : List ℕ} {g : Fence → Fence} {lock : Lock} {destroy : Destroy}
    (hin : ∀ j ∈ temp, 0 < (s.fence j).ref ∧ j ∉ s.fences)
    (hone : ∀ j ∈ temp, (g (s.fence j)).signals = 1 ∧
      ((g (s.fence j)).error = false → (g (s.fence j)).seqno ≤ s.value))
    (hsignal : s.lock ≠ .signal) (halloc : ∀ j, s.lock ≠ .alloc j ∧ lock ≠ .alloc j)
    (hmoved : ∀ j, ¬lock.Moved j)
    (htaken : ∀ j, destroy.Taken j → s.destroy.Taken j ∧ (j ∈ temp → (g (s.fence j)).kept = true))
    (hplaced : ∀ j, j ∉ temp → s.lock.Moved j ∨ s.destroy.Taken j → destroy.Taken j)
    (hlate : destroy.hasTaken = true → s.destroy.hasTaken = true)
    (hpresent : s.present = true → destroy = .no) :
    Inv { s with fence := s.onFences temp g, lock := lock, destroy := destroy } := by
  have hall : ∀ j, j ∈ temp → s.onFences temp g j = g (s.fence j) := fun j hj => if_pos hj
  have hother : ∀ j, j ∉ temp → s.onFences temp g j = s.fence j := fun j hj => if_neg hj
  have hlisted : ∀ j ∈ s.fences, s.onFences temp g j = s.fence j := fun j hj =>
    hother j fun hmem => (hin j hmem).2 hj
  refine ⟨fun j hj => ?_, fun j hj => absurd hj (hmoved j), fun j hj => ?_,
    fun j hj => absurd hj (halloc j).2, fun j => ?_, fun j hj => ?_, fun _ j hj href => ?_, fun hd j hj => ?_,
    fun j hj => ?_, hpresent⟩
  · show (s.onFences temp g j).kept = false ∧ (s.onFences temp g j).signals = 0
    rw [hlisted j hj]
    exact h.listed j hj
  · obtain ⟨hold, hkept⟩ := htaken j hj
    show (s.onFences temp g j).kept = true
    by_cases hmem : j ∈ temp
    · rw [hall j hmem]
      exact hkept hmem
    · rw [hother j hmem]
      exact h.taken j hold
  · show (s.onFences temp g j).signals ≤ 1 ∧ ((s.onFences temp g j).signals = 1 →
      (s.onFences temp g j).error = false → (s.onFences temp g j).seqno ≤ s.value)
    by_cases hmem : j ∈ temp
    · rw [hall j hmem]
      exact ⟨(hone j hmem).1.le, fun _ => (hone j hmem).2⟩
    · rw [hother j hmem]
      exact h.signalled j
  · have hj' : 0 < (s.onFences temp g j).ref ∧ (s.onFences temp g j).signals = 0 := hj
    by_cases hmem : j ∈ temp
    · rw [hall j hmem, (hone j hmem).1] at hj'
      cases hj'.2
    · rw [hother j hmem] at hj'
      rcases h.placed j hj' with hl | ha | hm
      · exact .inl hl
      · exact absurd ha (halloc j).1
      · exact .inr (.inr (.inr (hplaced j hmem hm)))
  · have href' : 0 < (s.onFences temp g j).ref := href
    show s.value < (s.onFences temp g j).seqno
    rw [hlisted j hj] at href' ⊢
    exact h.ahead hsignal j hj href'
  · show (s.onFences temp g j).late = true
    rw [hlisted j hj]
    exact h.late (hlate hd) j hj
  · have hnot : j ∉ temp := by
      intro hmem
      have hpos := (hin j hmem).1
      rw [(h.fresh j hj).1] at hpos
      exact Nat.lt_irrefl 0 hpos
    refine ⟨?_, (h.fresh j hj).2⟩
    show (s.onFences temp g j).ref = 0
    rw [hother j hnot]
    exact (h.fresh j hj).1

theorem Inv.notMem_of_kept (hkept : (s.fence j).kept = true) : j ∉ s.fences := by
  intro hmem
  rw [(h.listed j hmem).1] at hkept
  cases hkept

theorem Inv.signalEnd {temp : List ℕ} (hlock : s.lock = .moved temp) :
    Inv { s with fence := s.onFences temp fun f => { f.signal with kept := false }, lock := .free } := by
  have hin : ∀ j, j ∈ temp → (s.fence j).kept = true ∧ (s.fence j).seqno ≤ s.value ∧ ¬s.destroy.Taken j :=
    fun j hj => h.moved j ⟨temp, hlock, hj⟩
  refine h.signalAll (fun j hj => ?_) (fun j hj => ?_) (by rw [hlock]; nofun) (fun j => ?_) (fun j hm => ?_)
    (fun j ht => ⟨ht, fun hj => absurd ht (hin j hj).2.2⟩) (fun j hj hm => ?_) id h.present
  · exact ⟨Fence.ref_pos_of_kept (hin j hj).1, h.notMem_of_kept (hin j hj).1⟩
  · refine ⟨Fence.signal_signals (h.signalled j).1, fun _ => ?_⟩
    exact (Fence.signal_same _).1.trans_le (hin j hj).2.1
  · rw [hlock]
    exact ⟨nofun, nofun⟩
  · obtain ⟨temp', htemp', -⟩ := hm
    cases htemp'
  · refine hm.resolve_left fun hm => ?_
    obtain ⟨temp', htemp', hj'⟩ := hm
    rw [hlock] at htemp'
    exact hj (Lock.moved.inj htemp' ▸ hj')

theorem Inv.destroyTake (hd : s.destroy = .removed) :
    Inv (KgslTimeline.Fences.next s .destroyTake) := by
  have hother : ∀ j, j ∉ s.held → s.onFences s.held (fun f => { f with kept := true }) j = s.fence j :=
    fun j hj => if_neg hj
  have hheld : ∀ j, j ∈ s.held →
      s.onFences s.held (fun f => { f with kept := true }) j = { s.fence j with kept := true } :=
    fun j hj => if_pos hj
  have hnotTaken : ∀ j, ¬s.destroy.Taken j := by
    intro j hj
    obtain ⟨temp, htemp, -⟩ := hj
    rw [hd] at htemp
    cases htemp
  refine ⟨fun j hj => (nomatch hj), fun j hj => ?_, fun j hj => ?_, fun j hj => ?_, fun j => ?_,
    fun j hj => ?_, fun _ j hj => (nomatch hj), fun _ j hj => (nomatch hj), fun j hj => ?_, fun hp => ?_⟩
  · obtain ⟨hkept, hseqno, -⟩ := h.moved j hj
    have hnot : j ∉ s.held := by
      intro hmem
      rw [(h.listed j (mem_held.mp hmem).1).1] at hkept
      cases hkept
    show (s.onFences s.held _ j).kept = true ∧ (s.onFences s.held _ j).seqno ≤ s.value ∧ _
    rw [hother j hnot]
    refine ⟨hkept, hseqno, fun htaken => ?_⟩
    obtain ⟨temp, htemp, hj'⟩ := htaken
    exact hnot (Destroy.taken.inj htemp ▸ hj')
  · obtain ⟨temp, htemp, hj'⟩ := hj
    have hmem : j ∈ s.held := Destroy.taken.inj htemp ▸ hj'
    show (s.onFences s.held _ j).kept = true
    rw [hheld j hmem]
  · obtain ⟨hkept, hsignals, hlt, hnot, hmade⟩ := h.alloc j hj
    show (s.onFences s.held _ j).kept = false ∧ (s.onFences s.held _ j).signals = 0 ∧
      s.value < (s.onFences s.held _ j).seqno ∧ j ∉ [] ∧ j < s.made
    rw [hother j fun hmem => hnot (mem_held.mp hmem).1]
    exact ⟨hkept, hsignals, hlt, not_mem_nil, hmade⟩
  · show (s.onFences s.held _ j).signals ≤ 1 ∧ ((s.onFences s.held _ j).signals = 1 →
      (s.onFences s.held _ j).error = false → (s.onFences s.held _ j).seqno ≤ s.value)
    by_cases hmem : j ∈ s.held
    · rw [hheld j hmem]
      exact h.signalled j
    · rw [hother j hmem]
      exact h.signalled j
  · by_cases hmem : j ∈ s.held
    · exact .inr (.inr (.inr ⟨s.held, rfl, hmem⟩))
    · have hj' : 0 < (s.onFences s.held _ j).ref ∧ (s.onFences s.held _ j).signals = 0 := hj
      rw [hother j hmem] at hj'
      rcases h.placed j hj' with hlisted | halloc | hm | htaken
      · exact absurd (mem_held.mpr ⟨hlisted, hj'.1⟩) hmem
      · exact .inr (.inl halloc)
      · exact .inr (.inr (.inl hm))
      · exact absurd htaken (hnotTaken j)
  · have hnot : j ∉ s.held := fun hj' => (h.fresh j hj).2 (mem_held.mp hj').1
    refine ⟨?_, fun hj' => (nomatch hj')⟩
    show (s.onFences s.held _ j).ref = 0
    rw [hother j hnot]
    exact (h.fresh j hj).1
  · have hp' : s.present = true := hp
    rw [h.present hp'] at hd
    cases hd

theorem Inv.destroySignal (hfree : s.lock = .free) {temp : List ℕ}
    (hd : s.destroy = .taken temp) :
    Inv { s with
      fence := s.onFences temp fun f => { { f with error := true }.signal with kept := false }
      destroy := .done } := by
  have hin : ∀ j, j ∈ temp → (s.fence j).kept = true := fun j hj => h.taken j ⟨temp, hd, hj⟩
  have hnotMoved := not_moved_of (s := s) fun temp => by rw [hfree]; nofun
  refine h.signalAll (fun j hj => ?_) (fun j hj => ?_) (by rw [hfree]; nofun) (fun j => ?_) hnotMoved
    (fun j ht => ?_) (fun j hj hm => ?_) (fun _ => by rw [hd]; rfl) fun hp => ?_
  · exact ⟨Fence.ref_pos_of_kept (hin j hj), h.notMem_of_kept (hin j hj)⟩
  · refine ⟨@Fence.signal_signals { s.fence j with error := true } (h.signalled j).1, fun hno => ?_⟩
    have herror := (Fence.signal_same { s.fence j with error := true }).2.2.2.1
    cases herror.symm.trans hno
  · rw [hfree]
    exact ⟨nofun, nofun⟩
  · obtain ⟨temp', htemp', -⟩ := ht
    cases htemp'
  · obtain ⟨temp', htemp', hj'⟩ := hm.resolve_left (hnotMoved j)
    rw [hd] at htemp'
    exact absurd (Destroy.taken.inj htemp' ▸ hj') hj
  · rw [h.present hp] at hd
    cases hd

/-- **A fence is made**; it is signalled at once, or on its way to the list. -/
theorem Inv.allocLock (hfree : s.lock = .free) (seqno : ℕ) :
    Inv (KgslTimeline.Fences.next s (.allocLock seqno)) := by
  have hkept := (h.fresh s.made le_rfl).1
  rw [Fence.ref] at hkept
  have hold : ∀ (f : Fence) j, j ≠ s.made → update s.fence s.made f j = s.fence j :=
    fun f j hj => update_of_ne hj _ _
  have hlistedNe : ∀ j ∈ s.fences, j ≠ s.made := by
    intro j hj hjm
    rw [hjm] at hj
    exact (h.fresh _ le_rfl).2 hj
  have htakenNe : ∀ j, s.destroy.Taken j → j ≠ s.made := by
    intro j hj hjm
    have hpos := Fence.ref_pos_of_kept (h.taken j hj)
    rw [hjm, (h.fresh _ le_rfl).1] at hpos
    exact Nat.lt_irrefl 0 hpos
  have hlocked : ∀ j, s.lock ≠ .alloc j ∧ ¬s.lock.Moved j := by
    intro j
    rw [hfree]
    refine ⟨nofun, fun hm => ?_⟩
    obtain ⟨temp', htemp', -⟩ := hm
    cases htemp'
  -- what holds of the new fence
  have hmain : ∀ (f : Fence) (lock : Lock), f.signals ≤ 1 ∧ (f.signals = 1 → f.seqno ≤ s.value) →
      (lock = .free ∧ f.signals = 1) ∨ (lock = .alloc s.made ∧ f.kept = false ∧ f.signals = 0 ∧
        s.value < f.seqno) →
      Inv { s with fence := update s.fence s.made f, made := s.made + 1, lock := lock } := by
    intro f lock hf hlock
    have hnotMoved : ∀ j, ¬lock.Moved j := by
      intro j hm
      obtain ⟨temp', htemp', -⟩ := hm
      rcases hlock with ⟨rfl, -⟩ | ⟨rfl, -⟩
      · cases htemp'
      · cases htemp'
    refine ⟨fun j hj => ?_, fun j hj => absurd hj (hnotMoved j), fun j hj => ?_, fun j hj => ?_, fun j => ?_,
      fun j hj => ?_, fun _ j hj href => ?_, fun hd j hj => ?_, fun j hj => ?_, h.present⟩
    · show (update s.fence s.made f j).kept = false ∧
        (update s.fence s.made f j).signals = 0
      rw [hold f j (hlistedNe j hj)]
      exact h.listed j hj
    · show (update s.fence s.made f j).kept = true
      rw [hold f j (htakenNe j hj)]
      exact h.taken j hj
    · have hj' : lock = .alloc j := hj
      rcases hlock with ⟨rfl, -⟩ | ⟨rfl, hk, hsig, hlt⟩
      · cases hj'
      · have hjm : s.made = j := Lock.alloc.inj hj'
        show (update s.fence s.made f j).kept = false ∧
          (update s.fence s.made f j).signals = 0 ∧
          s.value < (update s.fence s.made f j).seqno ∧ j ∉ s.fences ∧ j < s.made + 1
        rw [← hjm, update_self]
        exact ⟨hk, hsig, hlt, (h.fresh _ le_rfl).2, Nat.lt_succ_self _⟩
    · show (update s.fence s.made f j).signals ≤ 1 ∧
        ((update s.fence s.made f j).signals = 1 →
        (update s.fence s.made f j).error = false →
        (update s.fence s.made f j).seqno ≤ s.value)
      by_cases hj : j = s.made
      · rw [hj, update_self]
        exact ⟨hf.1, fun hone _ => hf.2 hone⟩
      · rw [hold f j hj]
        exact h.signalled j
    · have hj' : 0 < (update s.fence s.made f j).ref ∧
        (update s.fence s.made f j).signals = 0 := hj
      by_cases hjm : j = s.made
      · rw [hjm, update_self] at hj'
        rcases hlock with ⟨-, hone⟩ | ⟨rfl, -⟩
        · rw [hone] at hj'
          cases hj'.2
        · rw [hjm]
          exact .inr (.inl rfl)
      · rw [hold f j hjm] at hj'
        rcases h.placed j hj' with hlisted | halloc | hm | htaken
        · exact .inl hlisted
        · exact absurd halloc (hlocked j).1
        · exact absurd hm (hlocked j).2
        · exact .inr (.inr (.inr htaken))
    · have href' : 0 < (update s.fence s.made f j).ref := href
      show s.value < (update s.fence s.made f j).seqno
      rw [hold f j (hlistedNe j hj)] at href' ⊢
      refine h.ahead ?_ j hj href'
      rw [hfree]
      nofun
    · show (update s.fence s.made f j).late = true
      rw [hold f j (hlistedNe j hj)]
      exact h.late hd j hj
    · have hj' : s.made + 1 ≤ j := hj
      refine ⟨?_, (h.fresh j (by omega)).2⟩
      show (update s.fence s.made f j).ref = 0
      rw [hold f j (by omega)]
      exact (h.fresh j (by omega)).1
  rw [KgslTimeline.Fences.next]
  split
  · rename_i hle
    have hsignal := hmain (Fence.signal ⟨seqno, 1, false, 0, false, false⟩) .free ⟨le_rfl, fun _ => hle⟩
      (.inl ⟨rfl, rfl⟩)
    rw [← hfree] at hsignal
    exact hsignal
  · rename_i hgt
    exact hmain ⟨seqno, 1, false, 0, false, false⟩ (.alloc s.made) ⟨Nat.zero_le 1, fun hf => (nomatch hf)⟩
      (.inr ⟨rfl, rfl, rfl, Nat.lt_of_not_le hgt⟩)

theorem Inv.allocAdd (hlock : s.lock = .alloc i) : Inv (KgslTimeline.Fences.next s .allocAdd) := by
  obtain ⟨hkept, hsignals, hlt, hnot, hmade⟩ := h.alloc i hlock
  have hsame : ∀ j, (update s.fence i { s.fence i with late := s.destroy.hasTaken } j).kept =
      (s.fence j).kept ∧
      (update s.fence i { s.fence i with late := s.destroy.hasTaken } j).signals =
        (s.fence j).signals ∧
      (update s.fence i { s.fence i with late := s.destroy.hasTaken } j).seqno =
        (s.fence j).seqno ∧
      (update s.fence i { s.fence i with late := s.destroy.hasTaken } j).error =
        (s.fence j).error ∧
      (update s.fence i { s.fence i with late := s.destroy.hasTaken } j).ref =
        (s.fence j).ref := by
    intro j
    by_cases hj : j = i
    · rw [hj, update_self]
      exact ⟨rfl, rfl, rfl, rfl, rfl⟩
    · rw [update_of_ne hj]
      exact ⟨rfl, rfl, rfl, rfl, rfl⟩
  have hlistedOr : ∀ j, j ∈ addFence (fun j => (s.fence j).seqno) i s.fences ↔ j = i ∨ j ∈ s.fences :=
    fun j => mem_addFence _
  rw [KgslTimeline.Fences.next, hlock]
  refine ⟨fun j hj => ?_, fun j hj => ?_, fun j hj => ?_, fun j hj => (nomatch hj), fun j => ?_,
    fun j hj => ?_, fun _ j hj href => ?_, fun hd j hj => ?_, fun j hj => ?_, h.present⟩
  · obtain ⟨h₁, h₂, -⟩ := hsame j
    rcases (hlistedOr j).mp hj with rfl | hold
    · exact ⟨h₁.trans hkept, h₂.trans hsignals⟩
    · exact ⟨h₁.trans (h.listed j hold).1, h₂.trans (h.listed j hold).2⟩
  · obtain ⟨temp', htemp', -⟩ := hj
    cases htemp'
  · exact (hsame j).1.trans (h.taken j hj)
  · obtain ⟨-, h₂, h₃, h₄, -⟩ := hsame j
    show (update s.fence i _ j).signals ≤ 1 ∧ _
    rw [h₂]
    exact ⟨(h.signalled j).1, fun hone hno => h₃.trans_le ((h.signalled j).2 hone (h₄.symm.trans hno))⟩
  · obtain ⟨-, h₂, -, -, h₅⟩ := hsame j
    rcases h.placed j ⟨h₅ ▸ hj.1, h₂.symm.trans hj.2⟩ with hlisted | halloc | hm | htaken
    · exact .inl ((hlistedOr j).mpr (.inr hlisted))
    · rw [hlock] at halloc
      exact .inl ((hlistedOr j).mpr (.inl (Lock.alloc.inj halloc).symm))
    · rw [hlock] at hm
      obtain ⟨temp', htemp', -⟩ := hm
      cases htemp'
    · exact .inr (.inr (.inr htaken))
  · obtain ⟨-, -, h₃, -, h₅⟩ := hsame j
    refine Nat.lt_of_lt_of_eq ?_ h₃.symm
    rcases (hlistedOr j).mp hj with rfl | hold
    · exact hlt
    · refine h.ahead ?_ j hold (h₅ ▸ href)
      rw [hlock]
      nofun
  · show (update s.fence i _ j).late = true
    by_cases hji : j = i
    · rw [hji, update_self]
      exact hd
    · rw [update_of_ne hji]
      exact h.late hd j (((hlistedOr j).mp hj).resolve_left hji)
  · obtain ⟨-, -, -, -, h₅⟩ := hsame j
    refine ⟨h₅.trans (h.fresh j hj).1, fun hmem => ?_⟩
    rcases (hlistedOr j).mp hmem with rfl | hold
    · exact Nat.lt_irrefl _ (hmade.trans_le hj)
    · exact (h.fresh j hj).2 hold

theorem Inv.poll (hfree : s.lock = .free) (husers : 0 < (s.fence i).users) :
    Inv (KgslTimeline.Fences.next s (.poll i)) := by
  rw [KgslTimeline.Fences.next]
  split
  · rename_i hsignaled
    have hle : (s.fence i).seqno ≤ s.value := of_decide_eq_true hsignaled
    have hnot : i ∉ s.fences := by
      intro hmem
      have hlt := h.ahead (by rw [hfree]; nofun) i hmem (Fence.ref_pos_of_users husers)
      omega
    have hall : update s.fence i (s.fence i).signal = s.onFences [i] Fence.signal := by
      funext j
      by_cases hji : j = i
      · rw [hji, update_self]
        exact (if_pos (mem_singleton_self i)).symm
      · rw [update_of_ne hji]
        exact (if_neg fun hmem => hji (mem_singleton.mp hmem)).symm
    have hnotMoved := not_moved_of (s := s) fun temp => by rw [hfree]; nofun
    rw [hall]
    refine h.signalAll (fun j hj => ?_) (fun j hj => ?_) (by rw [hfree]; nofun) (fun j => ?_) hnotMoved
      (fun j ht => ⟨ht, fun _ => ?_⟩) (fun j _ hm => hm.resolve_left (hnotMoved j)) id h.present
    · rw [mem_singleton.mp hj]
      exact ⟨Fence.ref_pos_of_users husers, hnot⟩
    · rw [mem_singleton.mp hj]
      refine ⟨Fence.signal_signals (h.signalled i).1, fun _ => ?_⟩
      exact (Fence.signal_same _).1.trans_le hle
    · rw [hfree]
      exact ⟨nofun, nofun⟩
    · exact (Fence.signal_same _).2.2.1.trans (h.taken j ht)
  · exact h

theorem Inv.release (href : (s.fence i).ref = 0) : Inv { s with fences := s.fences.erase i } := by
  refine ⟨fun j hj => h.listed j (mem_of_mem_erase hj), h.moved, h.taken, fun j hj => ?_, h.signalled,
    fun j hj => ?_, fun hl j hj => h.ahead hl j (mem_of_mem_erase hj),
    fun hd j hj => h.late hd j (mem_of_mem_erase hj), fun j hj => ?_, h.present⟩
  · obtain ⟨h₁, h₂, h₃, hnot, hmade⟩ := h.alloc j hj
    exact ⟨h₁, h₂, h₃, fun hmem => hnot (mem_of_mem_erase hmem), hmade⟩
  · have hji : j ≠ i := by
      intro hji
      have hpos : 0 < (s.fence j).ref := hj.1
      rw [hji, href] at hpos
      exact Nat.lt_irrefl 0 hpos
    exact (h.placed j hj).imp_left fun hmem => (mem_erase_of_ne hji).mpr hmem
  · exact ⟨(h.fresh j hj).1, fun hmem => (h.fresh j hj).2 (mem_of_mem_erase hmem)⟩

theorem Inv.next {a : Action} (ha : Enabled s a) : Inv (KgslTimeline.Fences.next s a) := by
  cases a with
  | lookup => exact ⟨h.listed, h.moved, h.taken, h.alloc, h.signalled, h.placed, h.ahead, h.late, h.fresh,
      h.present⟩
  | leave => exact ⟨h.listed, h.moved, h.taken, h.alloc, h.signalled, h.placed, h.ahead, h.late, h.fresh,
      h.present⟩
  | queueCommand seqno => exact ⟨h.listed, h.moved, h.taken, h.alloc, h.signalled, h.placed, h.ahead,
      h.late, h.fresh, h.present⟩
  | allocLock seqno => exact h.allocLock ha.1 seqno
  | allocAdd =>
    have halloc : s.lock.isAlloc = true := ha
    cases hlock : s.lock with
    | alloc i => exact h.allocAdd hlock
    | free =>
      rw [hlock] at halloc
      cases halloc
    | signal =>
      rw [hlock] at halloc
      cases halloc
    | moved temp =>
      rw [hlock] at halloc
      cases halloc
  | signalLock seqno => exact h.signalLock ha.1 seqno
  | retireCommand seqno =>
    have hcommands : Inv { s with commands := s.commands.erase seqno } :=
      ⟨h.listed, h.moved, h.taken, h.alloc, h.signalled, h.placed, h.ahead, h.late, h.fresh, h.present⟩
    exact hcommands.signalLock ha.1 seqno
  | signalMove => exact h.signalMove ha
  | signalEnd =>
    rw [KgslTimeline.Fences.next]
    split
    · rename_i temp hlock
      exact h.signalEnd hlock
    · exact h
  | getFence i => exact h.setUsers ha
  | putFence i => exact h.setUsers ha
  | poll i => exact h.poll ha.1 ha.2
  | release i => exact h.release ha
  | destroyRemove =>
    have hno : s.destroy = .no := h.present ha
    have hnotTaken : ∀ j, ¬s.destroy.Taken j := by
      intro j hj
      obtain ⟨temp, htemp, -⟩ := hj
      rw [hno] at htemp
      cases htemp
    refine ⟨h.listed, fun j hj => ?_, fun j hj => ?_, h.alloc, h.signalled, fun j hj => ?_, h.ahead,
      fun hd => (nomatch hd), h.fresh, fun hf => (nomatch hf)⟩
    · obtain ⟨h₁, h₂, -⟩ := h.moved j hj
      refine ⟨h₁, h₂, fun ht => ?_⟩
      obtain ⟨temp, htemp, -⟩ := ht
      cases htemp
    · obtain ⟨temp, htemp, -⟩ := hj
      cases htemp
    · rcases h.placed j hj with hlisted | halloc | hm | htaken
      · exact .inl hlisted
      · exact .inr (.inl halloc)
      · exact .inr (.inr (.inl hm))
      · exact absurd htaken (hnotTaken j)
  | destroyTake => exact h.destroyTake ha
  | destroySignal =>
    rw [KgslTimeline.Fences.next]
    split
    · rename_i temp hd
      exact h.destroySignal ha.1 hd
    · exact h

end

end Steps

theorem signalLock_value (s : State) (seqno : ℕ) : s.value ≤ (s.signalLock seqno).value := by
  rw [State.signalLock]
  split
  · exact le_rfl
  · rename_i hge
    exact Nat.le_of_not_lt hge

theorem value_le_next (s : State) (a : Action) : s.value ≤ (next s a).value := by
  cases a with
  | signalLock seqno => exact signalLock_value s seqno
  | retireCommand seqno => exact signalLock_value { s with commands := s.commands.erase seqno } seqno
  | allocLock seqno =>
    rw [next]
    split
    · exact le_rfl
    · exact le_rfl
  | allocAdd =>
    rw [next]
    split
    · exact le_rfl
    · exact le_rfl
  | signalEnd =>
    rw [next]
    split
    · exact le_rfl
    · exact le_rfl
  | poll i =>
    rw [next]
    split
    · exact le_rfl
    · exact le_rfl
  | destroySignal =>
    rw [next]
    split
    · exact le_rfl
    · exact le_rfl
  | lookup => exact le_rfl
  | leave => exact le_rfl
  | queueCommand seqno => exact le_rfl
  | signalMove => exact le_rfl
  | getFence i => exact le_rfl
  | putFence i => exact le_rfl
  | release i => exact le_rfl
  | destroyRemove => exact le_rfl
  | destroyTake => exact le_rfl

def ListedExactly : Prop :=
  s.lock = .free → ∀ i, s.Unsignalled i → (i ∈ s.fences ↔ s.value < (s.fence i).seqno)

/-- When the destroy ioctl and the calls have returned, each fence is signalled or waits for a
command. -/
def NoneLeft : Prop :=
  s.destroy = .done → s.calls = 0 → s.lock = .free → ∀ i, s.Unsignalled i →
    ∃ seqno ∈ s.commands, (s.fence i).seqno ≤ seqno

/-- **What holds of a timeline.** A fence is signalled once, and without an error only when the value has
reached its number. -/
structure FencesOk (s : State) : Prop where
  value : ∀ a, s.value ≤ (next s a).value
  once : ∀ i, (s.fence i).signals ≤ 1
  reached : ∀ i, (s.fence i).signals = 1 → (s.fence i).error = false → (s.fence i).seqno ≤ s.value
  listed : s.lock = .free → ∀ i, s.Unsignalled i →
    (i ∈ s.fences ↔ s.value < (s.fence i).seqno) ∨ s.destroy.Taken i
  left : s.destroy = .done → s.lock = .free → ∀ i, s.Unsignalled i → (s.fence i).late = true

/-- **Fences** in every run. -/
theorem fencesOk_of_reachable {s : State} (h : fenceMachine.Reachable s) : FencesOk s := by
  have hinv : Inv s := by
    refine h.invariant (fun s hs => ?_) fun s a hi ha => hi.next ha
    obtain ⟨value, rfl⟩ := hs
    exact inv_initial value
  have hfreeAt : s.lock = .free → ∀ i, s.Unsignalled i → i ∈ s.fences ∨ s.destroy.Taken i := by
    intro hfree i hi
    rcases hinv.placed i hi with hlisted | halloc | hm | htaken
    · exact .inl hlisted
    · rw [hfree] at halloc
      cases halloc
    · rw [hfree] at hm
      obtain ⟨temp, htemp, -⟩ := hm
      cases htemp
    · exact .inr htaken
  refine ⟨value_le_next s, fun i => (hinv.signalled i).1, fun i => (hinv.signalled i).2,
    fun hfree i hi => ?_, fun hdone hfree i hi => ?_⟩
  · rcases hfreeAt hfree i hi with hlisted | htaken
    · have hlt := hinv.ahead (by rw [hfree]; nofun) i hlisted hi.1
      exact .inl ⟨fun _ => hlt, fun _ => hlisted⟩
    · exact .inr htaken
  · rcases hfreeAt hfree i hi with hlisted | htaken
    · refine hinv.late ?_ i hlisted
      rw [hdone]
      rfl
    · rw [hdone] at htaken
      obtain ⟨temp, htemp, -⟩ := htaken
      cases htemp

/-- A destroy takes the list while a signal holds the lock, and a fence is polled in between. -/
def destroyInSignal : List Action :=
  [.lookup, .allocLock 5, .allocAdd, .allocLock 3, .allocAdd, .allocLock 9, .allocAdd, .queueCommand 9,
    .putFence 2, .signalLock 3, .destroyRemove, .destroyTake, .signalMove, .signalEnd, .retireCommand 9,
    .signalMove, .signalEnd, .poll 0, .destroySignal, .release 2, .leave]

theorem fencesOk_destroyInSignal : FencesOk (fenceMachine.exec (initial 0) destroyInSignal) :=
  fencesOk_of_reachable ((Machine.Reachable.init (M := fenceMachine) ⟨0, rfl⟩).exec destroyInSignal
    (by decide))

def takenFence : List Action :=
  [.lookup, .allocLock 5, .allocAdd, .destroyRemove, .destroyTake]

def lateFence : List Action :=
  [.lookup, .destroyRemove, .destroyTake, .destroySignal, .allocLock 5, .allocAdd, .leave]

/-- A fence that is taken is not listed, and one that is late is never signalled. -/
theorem not_listed_not_left : (¬∀ s, fenceMachine.Reachable s → ListedExactly s) ∧
    ¬∀ s, fenceMachine.Reachable s → NoneLeft s := by
  refine ⟨fun hall => ?_, fun hall => ?_⟩
  · have h := hall _ ((Machine.Reachable.init (M := fenceMachine) ⟨0, rfl⟩).exec takenFence (by decide))
      rfl 0 ⟨by decide, rfl⟩
    revert h
    decide
  · have h := hall _ ((Machine.Reachable.init (M := fenceMachine) ⟨0, rfl⟩).exec lateFence (by decide))
      rfl rfl rfl 0 ⟨by decide, rfl⟩
    obtain ⟨seqno, hmem, -⟩ := h
    cases hmem

end KgslTimeline.Fences
