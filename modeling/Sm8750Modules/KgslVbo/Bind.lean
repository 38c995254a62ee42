import Sm8750Modules.KgslVbo.Consistent
import Sm8750Modules.Lib.Runs

/-!
# Bind operations

A bind operation is a list of requests against one VBO. It is checked and made in one go; the
entries it names are held by it. A worker then runs its parts, one after the other, while the
workers of other operations run theirs.
-/

namespace KgslVbo

open Runs List

/-- What is read of a `struct kgsl_mem_entry`. -/
structure Entry where
  size : ℕ
  vbo : Bool
  noMapZero : NoMapZero
  secure : Bool
  pendingFree : Bool

def pageAligned (x : UInt64) : Bool := x.toNat % pageSize = 0

def pageAlign (x : ℕ) : ℕ := (x + (pageSize - 1)) / pageSize * pageSize

inductive RangeOp where
  | bind
  | unbind
  | other
deriving DecidableEq, Repr

/-- `struct kgsl_gpumem_bind_range` -/
structure BindRequest where
  childOffset : UInt64
  targetOffset : UInt64
  length : UInt64
  childId : ℕ
  op : RangeOp

/-- `struct kgsl_sharedmem_bind_op_range`, whose child offset is a `u32`; `asked` is the child offset
of the request, which the code does not keep. -/
structure BindSlot where
  entry : Option ℕ
  start : ℕ
  last : ℕ
  childOffset : ℕ
  op : RangeOp
  asked : ℕ

inductive BindError where
  | inval
  | noent
  | perm
deriving DecidableEq, Repr

/-- `kgsl_memdesc_check_range`, with the sums of `u64`. -/
def checkRange (size : ℕ) (offset length : UInt64) : Bool :=
  offset.toNat < size ∧ offset.toNat < (offset + length).toNat ∧ (offset + length).toNat ≤ size

def findId (entries : ℕ → Option Entry) (id : ℕ) : Option Entry :=
  (entries id).filter fun e => !e.pendingFree

def BindRequest.slot (r : BindRequest) (entry : Option ℕ) (childOffset : UInt64) : BindSlot where
  entry := entry
  start := r.targetOffset.toNat
  last := r.targetOffset.toNat + r.length.toNat - 1
  childOffset := childOffset.toNat % 2 ^ 32
  op := r.op
  asked := childOffset.toNat

/-- The checks of one request; an error comes with the entry that is held already. -/
def readRequest (entries : ℕ → Option Entry) (target : Entry) (r : BindRequest) :
    Except (BindError × Option ℕ) BindSlot :=
  if !pageAligned r.targetOffset then .error (.inval, none)
  else if r.length = 0 || !pageAligned r.length then .error (.inval, none)
  else if !checkRange target.size r.targetOffset r.length then .error (.inval, none)
  else if r.childId = 0 && r.op = .unbind then .ok (r.slot none 0)
  else
    match findId entries r.childId with
    | none => .error (.noent, none)
    | some entry =>
      if entry.vbo then .error (.inval, some r.childId)
      else if target.secure != entry.secure then .error (.perm, some r.childId)
      else if r.op = .other then .error (.inval, some r.childId)
      else if r.op = .bind then
        if !pageAligned r.childOffset then .error (.inval, some r.childId)
        else if !checkRange entry.size r.childOffset r.length then .error (.inval, some r.childId)
        else .ok (r.slot (some r.childId) r.childOffset)
      else if r.childOffset ≠ 0 then .error (.inval, some r.childId)
      else .ok (r.slot (some r.childId) r.childOffset)

/-- A count taken for a slot. -/
def holdEntry (count : ℕ → ℤ) : Option ℕ → ℕ → ℤ
  | none => count
  | some e => countCreate count e

/-- The counts that `kgsl_sharedmem_free_bind_op` gives back. -/
def freeBindOp : (ℕ → ℤ) → List (Option ℕ) → ℕ → ℤ
  | count, [] => count
  | count, none :: rest => freeBindOp count rest
  | count, some e :: rest => freeBindOp (countDestroy count e) rest

/-- The loop over the requests, with the slots that are filled. -/
def readRequests (entries : ℕ → Option Entry) (target : Entry) :
    List BindRequest → List BindSlot → (ℕ → ℤ) → Except BindError (List BindSlot) × (ℕ → ℤ)
  | [], slots, count => (.ok slots, count)
  | r :: rest, slots, count =>
    match readRequest entries target r with
    | .ok slot => readRequests entries target rest (slots ++ [slot]) (holdEntry count slot.entry)
    | .error (err, held) =>
      (.error err, freeBindOp (holdEntry count held) (slots.map BindSlot.entry ++ [held]))

def createBindOp (entries : ℕ → Option Entry) (targetId : ℕ) (ranges : List BindRequest)
    (count : ℕ → ℤ) : Except BindError (List BindSlot) × (ℕ → ℤ) :=
  if ranges = [] then (.error .inval, count)
  else
    match findId entries targetId with
    | none => (.error .noent, count)
    | some target =>
      if !target.vbo then (.error .inval, count)
      else readRequests entries target ranges [] count

/-! ## The process -/

/-- `struct kgsl_sharedmem_bind_op`; `work` is what its worker still has to do while it is
scheduled. -/
structure BindOp where
  target : ℕ
  slots : List BindSlot
  work : Option (List BindSlot)
  ref : ℕ

/-- A bind that was done: pages of the VBO from `start` to `last` go to the child from `offset`
on. -/
structure Bound where
  entry : ℕ
  start : ℕ
  last : ℕ
  offset : ℕ

def Bound.page (b : Bound) (p : ℕ) : ℕ := (b.offset + (p * pageSize - b.start)) / pageSize

def lastBind (binds : List Bound) (p : ℕ) : Option Bound :=
  binds.find? fun b => InWindow b.start b.last p

/-- The entries of a process, its VBOs, and its bind operations. `binds` are the binds that each VBO
has seen. The id of an entry is not used again while a range or an operation holds it. -/
structure State where
  entries : ℕ → Option Entry
  vbos : Finset ℕ
  ranges : ℕ → List BindRange
  pageMap : ℕ → ℕ → PageMap
  vboCount : ℕ → ℤ
  ops : List BindOp
  binds : ℕ → List Bound

inductive Action where
  | alloc (id : ℕ) (entry : Entry)
  /-- `gpumem_alloc_vbo_entry` -/
  | allocVbo (id size : ℕ) (noMapZero : NoMapZero) (secure : Bool)
  /-- the entry is going to be freed -/
  | pendFree (id : ℕ)
  | createBindOp (target : ℕ) (ranges : List BindRequest)
  | bindRanges (i : ℕ)
  /-- one part of `kgsl_sharedmem_bind_worker`, and which of its calls of the MMU fail -/
  | work (i : ℕ) (fails : List Bool)
  /-- the end of `kgsl_sharedmem_bind_worker` -/
  | finish (i : ℕ)
  /-- `kgsl_sharedmem_put_bind_op` by another holder -/
  | put (i : ℕ)

namespace State

variable (s : State)

def bindable (id : ℕ) : Bool := (findId s.entries id).isSome

def binding (v : ℕ) (fails : List Bool) : Binding := ⟨s.ranges v, ⟨s.pageMap v, fails⟩, s.vboCount⟩

/-- The state with what a part has left; `bound` is the bind, if there was one. -/
def edited (v : ℕ) (b : Binding) (bound : List Bound) : State :=
  { s with
    ranges := Function.update s.ranges v b.ranges
    pageMap := Function.update s.pageMap v b.mmu.pageMap
    vboCount := b.vboCount
    binds := Function.update s.binds v (bound ++ s.binds v) }

/-- One part of an operation on the VBO `v`. -/
def runSlot (v : ℕ) (slot : BindSlot) (fails : List Bool) : State :=
  match s.entries v with
  | none => s
  | some target =>
    match slot.op, slot.entry with
    | .bind, some entry =>
      if s.bindable entry then
        s.edited v (addRange target.noMapZero slot.start slot.last entry slot.childOffset
          (s.binding v fails)) [⟨entry, slot.start, slot.last, slot.asked⟩]
      else s
    | .bind, none => s
    | _, entry =>
      s.edited v (removeRange target.noMapZero slot.start slot.last entry (s.binding v fails)) []

/-- `kgsl_sharedmem_put_bind_op`; the operation is freed with its last reference. -/
def putOp (i : ℕ) (op : BindOp) : State :=
  if op.ref = 1 then
    { s with
      ops := s.ops.eraseIdx i
      vboCount := freeBindOp s.vboCount (op.slots.map BindSlot.entry) }
  else { s with ops := s.ops.set i { op with ref := op.ref - 1 } }

end State

def BindOp.users (op : BindOp) : ℕ := op.ref - if op.work.isSome then 1 else 0

def next (s : State) : Action → State
  | .alloc id entry =>
    { s with entries := Function.update s.entries id (some { entry with vbo := false, pendingFree := false }) }
  | .allocVbo id size noMapZero secure =>
    { s with
      entries := Function.update s.entries id (some ⟨pageAlign size, true, noMapZero, secure, false⟩)
      vbos := insert id s.vbos
      ranges := Function.update s.ranges id []
      pageMap := Function.update s.pageMap id fun _ => background noMapZero
      binds := Function.update s.binds id [] }
  | .pendFree id =>
    { s with entries := Function.update s.entries id ((s.entries id).map fun e => { e with pendingFree := true }) }
  | .createBindOp target ranges =>
    match createBindOp s.entries target ranges s.vboCount with
    | (.ok slots, count) => { s with ops := s.ops ++ [⟨target, slots, none, 1⟩], vboCount := count }
    | (.error _, count) => { s with vboCount := count }
  | .bindRanges i =>
    match s.ops[i]? with
    | none => s
    | some op => { s with ops := s.ops.set i { op with work := some op.slots, ref := op.ref + 1 } }
  | .work i fails =>
    match s.ops[i]? with
    | some ⟨target, slots, some (slot :: rest), ref⟩ =>
      { s.runSlot target slot fails with ops := s.ops.set i ⟨target, slots, some rest, ref⟩ }
    | _ => s
  | .finish i =>
    match s.ops[i]? with
    | some ⟨target, slots, some [], ref⟩ => s.putOp i ⟨target, slots, none, ref⟩
    | _ => s
  | .put i =>
    match s.ops[i]? with
    | none => s
    | some op => s.putOp i op

/-- What is allowed: ids are new, the operation that is scheduled or put is held. -/
def Enabled (s : State) : Action → Prop
  | .alloc id _ | .allocVbo id _ _ _ => s.entries id = none
  | .pendFree _ | .createBindOp _ _ => True
  | .bindRanges i => ∃ op ∈ s.ops[i]?, op.work.isNone ∧ 0 < op.users
  | .work i _ => ∃ op ∈ s.ops[i]?, op.work.getD [] ≠ []
  | .finish i => ∃ op ∈ s.ops[i]?, op.work.isSome ∧ op.work.getD [] = []
  | .put i => ∃ op ∈ s.ops[i]?, 0 < op.users

instance decidableEnabled (s : State) : ∀ a, Decidable (Enabled s a) := by
  intro a
  cases a <;> dsimp only [Enabled] <;> infer_instance

def initial : State := ⟨fun _ => none, ∅, fun _ => [], fun _ _ => .unmapped, fun _ => 0, [], fun _ => []⟩

/-- Entries, operations and workers in any order. -/
def bindMachine (allowed : State → Action → Prop) : Machine State Action where
  init := (· = initial)
  guard s a := Enabled s a ∧ allowed s a
  next := next

instance (allowed : State → Action → Prop) [∀ s a, Decidable (allowed s a)] (s : State) (a : Action) :
    Decidable ((bindMachine allowed).guard s a) :=
  inferInstanceAs (Decidable (Enabled s a ∧ allowed s a))

def held (slots : List BindSlot) (e : ℕ) : ℕ := (slots.map BindSlot.entry).count (some e)

theorem holdEntry_apply (count : ℕ → ℤ) (o : Option ℕ) (e : ℕ) :
    holdEntry count o e = count e + ([o].count (some e) : ℕ) := by
  cases o with
  | none =>
    rw [count_singleton]
    exact (add_zero _).symm
  | some a =>
    rw [holdEntry, countCreate_apply, count_singleton]
    by_cases ha : a = e
    · rw [if_pos ha, ha, if_pos (beq_self_eq_true _), Nat.cast_one]
    · have hne : ¬((some a == some e) = true) := fun hb => ha (Option.some.inj (eq_of_beq hb))
      rw [if_neg ha, if_neg hne, Nat.cast_zero]

theorem freeBindOp_apply (count : ℕ → ℤ) (l : List (Option ℕ)) (e : ℕ) :
    freeBindOp count l e = count e - (l.count (some e) : ℕ) := by
  induction l generalizing count with
  | nil => exact (sub_zero _).symm
  | cons o rest ih =>
    cases o with
    | none =>
      rw [freeBindOp, ih, count_cons_of_ne (by nofun)]
    | some a =>
      rw [freeBindOp, ih, countDestroy_apply]
      by_cases ha : a = e
      · rw [if_pos ha, ha, count_cons_self]
        push_cast
        ring
      · have hne : some a ≠ some e := fun hb => ha (Option.some.inj hb)
        rw [if_neg ha, count_cons_of_ne hne, sub_zero]

/-- What the checks say of a slot. -/
structure SlotOk (size : ℕ) (slot : BindSlot) : Prop where
  window : Accepted size slot.start slot.last
  offset : slot.childOffset = slot.asked % 2 ^ 32
  aligned : slot.op = .bind → pageSize ∣ slot.asked

theorem checkRange_sum {size : ℕ} {offset length : UInt64} (h : checkRange size offset length = true) :
    offset.toNat + length.toNat ≤ size := by
  have hcheck : offset.toNat < size ∧ offset.toNat < (offset + length).toNat ∧
      (offset + length).toNat ≤ size := of_decide_eq_true h
  obtain ⟨-, hlt, hle⟩ := hcheck
  rw [UInt64.toNat_add] at hlt hle
  have ho := offset.toNat_lt
  have hl := length.toNat_lt
  rcases Nat.lt_or_ge (offset.toNat + length.toNat) (2 ^ 64) with hsmall | hbig
  · rw [Nat.mod_eq_of_lt hsmall] at hle
    exact hle
  · rw [Nat.mod_eq_sub_mod hbig, Nat.mod_eq_of_lt (by omega)] at hlt
    omega

theorem slotOk_slot {size : ℕ} {r : BindRequest} {entry : Option ℕ} {childOffset : UInt64}
    (hoffset : pageAligned r.targetOffset = true) (hlength : r.length ≠ 0)
    (haligned : pageAligned r.length = true)
    (hcheck : checkRange size r.targetOffset r.length = true)
    (hchild : r.op = .bind → pageAligned childOffset = true) :
    SlotOk size (r.slot entry childOffset) := by
  have hpos : r.length.toNat ≠ 0 := fun h0 => hlength (UInt64.toNat_inj.mp h0)
  have hsum := checkRange_sum hcheck
  have ho : pageSize ∣ r.targetOffset.toNat := Nat.dvd_of_mod_eq_zero (of_decide_eq_true hoffset)
  have hl : pageSize ∣ r.length.toNat := Nat.dvd_of_mod_eq_zero (of_decide_eq_true haligned)
  refine ⟨⟨?_, ?_, ho, ?_⟩, rfl, fun hop => Nat.dvd_of_mod_eq_zero (of_decide_eq_true (hchild hop))⟩
  · show r.targetOffset.toNat ≤ r.targetOffset.toNat + r.length.toNat - 1
    omega
  · show r.targetOffset.toNat + r.length.toNat - 1 < size
    omega
  · show pageSize ∣ r.targetOffset.toNat + r.length.toNat - 1 + 1
    rw [Nat.sub_add_cancel (by omega)]
    exact dvd_add ho hl

theorem readRequest_ok {entries : ℕ → Option Entry} {target : Entry} {r : BindRequest} {slot : BindSlot}
    (h : readRequest entries target r = .ok slot) : SlotOk target.size slot ∧ slot.op = r.op ∧
      (r.op = .bind → slot.asked = r.childOffset.toNat) := by
  rw [readRequest] at h
  by_cases hoffset : pageAligned r.targetOffset = true
  · rw [hoffset, Bool.not_true, if_neg Bool.false_ne_true] at h
    by_cases hlength : (r.length = 0 || !pageAligned r.length) = true
    · rw [if_pos hlength] at h
      cases h
    · rw [if_neg hlength] at h
      rw [Bool.or_eq_true, decide_eq_true_eq, Bool.not_eq_true', not_or, Bool.not_eq_false] at hlength
      by_cases hcheck : checkRange target.size r.targetOffset r.length = true
      · rw [hcheck, Bool.not_true, if_neg Bool.false_ne_true] at h
        have hslot := @slotOk_slot target.size r
        split at h
        · rename_i hspecial
          rw [Bool.and_eq_true, decide_eq_true_eq, decide_eq_true_eq] at hspecial
          have hnot : r.op ≠ .bind := by
            rw [hspecial.2]
            decide
          rw [← Except.ok.inj h]
          refine ⟨?_, rfl, fun hbind => absurd hbind hnot⟩
          exact hslot hoffset hlength.1 hlength.2 hcheck fun hbind => absurd hbind hnot
        · split at h
          · cases h
          · split at h
            · cases h
            · split at h
              · cases h
              · split at h
                · cases h
                · split at h
                  · split at h
                    · cases h
                    · rename_i haligned
                      split at h
                      · cases h
                      · rw [← Except.ok.inj h]
                        refine ⟨hslot hoffset hlength.1 hlength.2 hcheck fun _ => ?_, rfl, fun _ => rfl⟩
                        rwa [Bool.not_eq_true', Bool.not_eq_false] at haligned
                  · rename_i hbind
                    split at h
                    · cases h
                    · rw [← Except.ok.inj h]
                      refine ⟨?_, rfl, fun _ => rfl⟩
                      exact hslot hoffset hlength.1 hlength.2 hcheck fun hb => absurd hb hbind
      · rw [Bool.not_eq_true] at hcheck
        rw [hcheck, Bool.not_false, if_pos rfl] at h
        cases h
  · rw [Bool.not_eq_true] at hoffset
    rw [hoffset, Bool.not_false, if_pos rfl] at h
    cases h

theorem held_append (a b : List BindSlot) (e : ℕ) : held (a ++ b) e = held a e + held b e := by
  rw [held, map_append, count_append]
  rfl

/-- **The loop over the requests**: the slots are in order and held, or nothing is held. -/
theorem readRequests_spec (entries : ℕ → Option Entry) (target : Entry) {P : BindSlot → Prop}
    (ranges : List BindRequest)
    (hranges : ∀ r ∈ ranges, ∀ slot, readRequest entries target r = .ok slot → P slot)
    (slots : List BindSlot) (count : ℕ → ℤ) (hslots : ∀ slot ∈ slots, P slot) :
    match readRequests entries target ranges slots count with
    | (.ok slots', count') => (∀ slot ∈ slots', P slot) ∧
        ∀ e, count' e = count e + held slots' e - held slots e
    | (.error _, count') => ∀ e, count' e = count e - held slots e := by
  induction ranges generalizing slots count with
  | nil =>
    rw [readRequests]
    exact ⟨hslots, fun e => (add_sub_cancel_right _ _).symm⟩
  | cons r rest ih =>
    rw [readRequests]
    cases hr : readRequest entries target r with
    | ok slot =>
      have hall : ∀ x ∈ slots ++ [slot], P x := by
        intro x hx
        rcases mem_append.mp hx with hold | hnew
        · exact hslots x hold
        · rw [mem_singleton.mp hnew]
          exact hranges r mem_cons_self slot hr
      have hstep := ih (fun r' hr' => hranges r' (mem_cons_of_mem r hr')) (slots ++ [slot])
        (holdEntry count slot.entry) hall
      have hcount : ∀ e, holdEntry count slot.entry e - (held (slots ++ [slot]) e : ℤ) =
          count e - held slots e := by
        intro e
        rw [holdEntry_apply, held_append, show held [slot] e = [slot.entry].count (some e) from rfl]
        push_cast
        ring
      dsimp only
      cases hrest : readRequests entries target rest (slots ++ [slot]) (holdEntry count slot.entry) with
      | mk result count' =>
        rw [hrest] at hstep
        cases result with
        | ok slots' =>
          refine ⟨hstep.1, fun e => ?_⟩
          have := hstep.2 e
          have := hcount e
          omega
        | error err =>
          intro e
          have := hstep e
          have := hcount e
          omega
    | error err =>
      intro e
      rw [freeBindOp_apply, holdEntry_apply, count_append, held]
      push_cast
      ring

def OffsetsFit (ranges : List BindRequest) : Prop :=
  ∀ r ∈ ranges, r.op = .bind → r.childOffset.toNat < 2 ^ 32
deriving Decidable

/-- **An accepted operation** is for a VBO, its slots pass the checks, and they are held. -/
theorem createBindOp_spec (entries : ℕ → Option Entry) (targetId : ℕ) (ranges : List BindRequest)
    (count : ℕ → ℤ) :
    match createBindOp entries targetId ranges count with
    | (.ok slots, count') => (∃ target, entries targetId = some target ∧ target.vbo = true ∧
        ∀ slot ∈ slots, SlotOk target.size slot ∧
          (OffsetsFit ranges → slot.op = .bind → slot.asked < 2 ^ 32)) ∧
        ∀ e, count' e = count e + held slots e
    | (.error _, count') => ∀ e, count' e = count e := by
  rw [createBindOp]
  by_cases hnil : ranges = []
  · rw [if_pos hnil]
    exact fun e => rfl
  · rw [if_neg hnil]
    cases hfind : findId entries targetId with
    | none => exact fun e => rfl
    | some target =>
      dsimp only
      cases hvbo : target.vbo with
      | false => exact fun e => rfl
      | true =>
        rw [Bool.not_true, if_neg Bool.false_ne_true]
        have hranges : ∀ r ∈ ranges, ∀ slot, readRequest entries target r = .ok slot →
            SlotOk target.size slot ∧ (OffsetsFit ranges → slot.op = .bind → slot.asked < 2 ^ 32) := by
          intro r hr slot hslot
          obtain ⟨hok, hop, hasked⟩ := readRequest_ok hslot
          refine ⟨hok, fun hfit hbind => ?_⟩
          rw [hop] at hbind
          rw [hasked hbind]
          exact hfit r hr hbind
        have hspec := readRequests_spec entries target ranges hranges [] count (fun x hx => (nomatch hx))
        have htarget : entries targetId = some target := Option.eq_some_of_filter_eq_some hfind
        cases hread : readRequests entries target ranges [] count with
        | mk result count' =>
          rw [hread] at hspec
          cases result with
          | ok slots =>
            refine ⟨⟨target, htarget, hvbo, hspec.1⟩, fun e => ?_⟩
            rw [hspec.2 e]
            exact sub_zero _
          | error err =>
            intro e
            rw [hspec e]
            exact sub_zero _

end KgslVbo
