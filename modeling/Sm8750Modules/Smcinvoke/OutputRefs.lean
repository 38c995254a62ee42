import Sm8750Modules.Smcinvoke.InputRefsBalance

/-!
# Callback requests — references on output objects

The response to a callback request turns the handles of its output objects into objects, as an
invocation does with its inputs.
-/

namespace Smcinvoke

open RefCounts List

/-- The output part of a response. -/
structure Outputs where
  buffersOk : Bool := true
  handles : ℕ → Input := fun _ => { fd := userspaceObjNull }

/-- All references on output objects are dropped, and callback objects do not notify their server. -/
def undoOutputs : State → List (Option ℕ) → State
  | s, [] => s
  | s, none :: rest => undoOutputs s rest
  | s, some a :: rest =>
    let s := setNotify s a false
    let s := if (s.object a).isUser = true then s else putSiObject s (some a)
    undoOutputs (putSiObject s (some a)) rest

/-- `marshal_out_cb_req` for the output objects `args` of a request. -/
def marshalOutCbReq (files : Files) (s : State) (args : List (Option ℕ)) (outputs : Outputs) :
    State × List (Option ℕ) × Bool :=
  if outputs.buffersOk = false then (s, args, true)
  else
    let (s, u, err) := marshalObjects files s false ((List.range args.length).map outputs.handles)
    if err = true then (undoOutputs s u, u, true) else (s, u, false)

/-- The loop of `cbo_notify`. -/
def notifyOutputs : State → List (Option ℕ) → Bool → State
  | s, [], _ => s
  | s, none :: rest, status => notifyOutputs s rest status
  | s, some a :: rest, status =>
    let s := if status = true ∧ (s.object a).isUser = false then putSiObject s (some a) else s
    notifyOutputs (putSiObject s (some a)) rest status

/-! ## References -/

def State.kept (s : State) (u : List (Option ℕ)) : Multiset ℕ := ↑((u.filterMap id).filter s.foreign)

def State.outputRefs (s : State) (u : List (Option ℕ)) : Multiset ℕ := ↑(u.filterMap id) + s.kept u

/-- A response whose outputs do not make the driver lose a callback object: the first that cannot be converted
is not a memory buffer with a callback server. -/
def Files.Safe (files : Files) (args : List (Option ℕ)) (outputs : Outputs) : Prop :=
  outputs.buffersOk = true →
    (failing files ((List.range args.length).map outputs.handles)).bind files.hidden = none
deriving Decidable

section

variable {files : Files} {openFiles R E : Multiset ℕ} {s s' : State} {u : List (Option ℕ)}

/-- The objects of `s` are the same sort of objects in `s'`. -/
structure Extends (s s' : State) : Prop where
  next : s.next ≤ s'.next
  dead : s'.dead = s.dead
  isUser : ∀ a, a < s.next → (s'.object a).isUser = (s.object a).isUser

theorem Extends.refl (s : State) : Extends s s := ⟨Nat.le_refl _, rfl, fun _ _ => rfl⟩

theorem Extends.trans {t : State} (h : Extends s s') (h' : Extends s' t) : Extends s t where
  next := Nat.le_trans h.next h'.next
  dead := h'.dead.trans h.dead
  isUser := fun a ha => (h'.isUser a (Nat.lt_of_lt_of_le ha h.next)).trans (h.isUser a ha)

theorem Extends.outputRefs (h : Extends s s') (hu : ∀ a ∈ u.filterMap id, a < s.next) :
    s'.kept u = s.kept u ∧ s'.outputRefs u = s.outputRefs u := by
  have hkept : s'.kept u = s.kept u := by
    rw [State.kept, State.kept, filter_congr fun a ha => ?_]
    rw [State.foreign, State.foreign, h.isUser a (hu a ha)]
  exact ⟨hkept, by rw [State.outputRefs, State.outputRefs, hkept]⟩

/-- What dropping references leaves alone. -/
structure Keeps (s s' : State) : Prop where
  next : s'.next = s.next
  dead : s'.dead = s.dead
  isUser : ∀ a, (s'.object a).isUser = (s.object a).isUser
  known : ∀ a, a ∈ s'.objects.live ∨ a ∈ s'.objects.freed ↔ a ∈ s.objects.live ∨ a ∈ s.objects.freed

theorem Keeps.refl (s : State) : Keeps s s := ⟨rfl, rfl, fun _ => rfl, fun _ => Iff.rfl⟩

theorem Keeps.trans {t : State} (h : Keeps s s') (h' : Keeps s' t) : Keeps s t where
  next := h'.next.trans h.next
  dead := h'.dead.trans h.dead
  isUser := fun a => (h'.isUser a).trans (h.isUser a)
  known := fun a => (h'.known a).trans (h.known a)

theorem Keeps.extends (h : Keeps s s') : Extends s s' :=
  ⟨h.next.ge, h.dead, fun a _ => h.isUser a⟩

theorem Keeps.foreign (h : Keeps s s') : s'.foreign = s.foreign := by
  funext a
  rw [State.foreign, State.foreign, h.isUser]

theorem Keeps.outputRefs (h : Keeps s s') (u : List (Option ℕ)) :
    s'.kept u = s.kept u ∧ s'.outputRefs u = s.outputRefs u := by
  have hkept : s'.kept u = s.kept u := by rw [State.kept, State.kept, h.foreign]
  exact ⟨hkept, by rw [State.outputRefs, State.outputRefs, hkept]⟩

theorem keeps_setNotify (s : State) (a : ℕ) (notify : Bool) : Keeps s (setNotify s a notify) := by
  obtain ⟨hdrops, hobjects⟩ := drops_setNotify s a notify
  exact ⟨hdrops.next, hdrops.dead, hdrops.isUser, fun b => by rw [hobjects]⟩

/-- **A dropped reference**: whether it was the last or not, the balance is kept. -/
theorem putSiObject_spec {a : ℕ} (h : s.objects.Balanced (a ::ₘ R)) (hservers : s.servers.Balanced (E + s.owners)) :
    Keeps s (putSiObject s (some a)) ∧ (putSiObject s (some a)).objects.Balanced R ∧
      (putSiObject s (some a)).servers.Balanced (E + (putSiObject s (some a)).owners) := by
  have hknown := h.mem_put (Multiset.mem_cons_self a R)
  by_cases ha : a ∈ R
  · obtain ⟨hput, hdrops, hbal⟩ := putSiObject_of_two h ha
    refine ⟨⟨hdrops.next, hdrops.dead, hdrops.isUser, fun b => ?_⟩, hbal, ?_⟩
    · rw [hput]
      exact hknown b
    · rw [hdrops.servers, hdrops.owners]
      exact hservers
  · obtain ⟨hbal, hservers', hobject, hdead, -⟩ := putSiObject_of_last h ha hservers
    have hput : (putSiObject s (some a)).objects = s.objects.put a ∧ (putSiObject s (some a)).next = s.next := by
      have hlast : s.objects.refs a = 1 := by
        rw [h.refs a (Multiset.mem_cons_self a R), Multiset.count_cons_self, Multiset.count_eq_zero_of_notMem ha]
      rw [putSiObject, if_pos hlast]
      cases s.object a with
      | user => exact ⟨rfl, rfl⟩
      | cb o => exact ⟨rfl, rfl⟩
      | mem x => cases x <;> exact ⟨rfl, rfl⟩
    refine ⟨⟨hput.2, hdead, fun b => by rw [hobject], fun b => ?_⟩, hbal, hservers'⟩
    rw [hput.1]
    exact hknown b

theorem outputRefs_cons (s : State) (a : ℕ) (rest : List (Option ℕ)) :
    s.outputRefs (some a :: rest) = a ::ₘ ((if s.foreign a = true then {a} else 0) + s.outputRefs rest) := by
  have hcons : (some a :: rest).filterMap id = a :: rest.filterMap id := rfl
  rw [State.outputRefs, State.kept, hcons, filter_cons]
  split_ifs
  · rw [← Multiset.cons_coe, ← Multiset.cons_coe, State.outputRefs, State.kept, ← Multiset.singleton_add,
      ← Multiset.singleton_add, ← Multiset.singleton_add]
    abel
  · rw [← Multiset.cons_coe, State.outputRefs, State.kept, ← Multiset.singleton_add, ← Multiset.singleton_add]
    abel

/-- **Undoing a conversion** drops all references of the output arguments. -/
theorem undoOutputs_spec (h : s.objects.Balanced (R + s.outputRefs u))
    (hservers : s.servers.Balanced (E + s.owners)) :
    Keeps s (undoOutputs s u) ∧ (undoOutputs s u).objects.Balanced R ∧
      (undoOutputs s u).servers.Balanced (E + (undoOutputs s u).owners) := by
  induction u generalizing s with
  | nil =>
    rw [State.outputRefs, State.kept, filterMap_nil, filter_nil, Multiset.coe_nil, add_zero,
      add_zero] at h
    exact ⟨.refl s, h, hservers⟩
  | cons x rest ih =>
    cases x with
    | none => exact ih h hservers
    | some a =>
      obtain ⟨hdrops, hobjects⟩ := drops_setNotify s a false
      have hset := keeps_setNotify s a false
      rw [undoOutputs]
      rw [← hobjects, ← (hset.outputRefs _).2, outputRefs_cons, Multiset.add_cons] at h
      rw [← hdrops.servers, ← hdrops.owners] at hservers
      have hcase : ∃ t, t = (if ((setNotify s a false).object a).isUser = true then setNotify s a false
          else putSiObject (setNotify s a false) (some a)) ∧ Keeps s t ∧
          t.objects.Balanced (a ::ₘ (R + t.outputRefs rest)) ∧ t.servers.Balanced (E + t.owners) := by
        refine ⟨_, rfl, ?_⟩
        cases huser : ((setNotify s a false).object a).isUser with
        | true =>
          have hforeign : (setNotify s a false).foreign a = false := by
            rw [State.foreign, huser]
            rfl
          rw [hforeign, if_neg Bool.false_ne_true, zero_add] at h
          rw [if_pos rfl]
          exact ⟨hset, h, hservers⟩
        | false =>
          have hforeign : (setNotify s a false).foreign a = true := by
            rw [State.foreign, huser]
            rfl
          rw [hforeign, if_pos rfl, Multiset.singleton_add, Multiset.add_cons] at h
          rw [if_neg Bool.false_ne_true]
          obtain ⟨hkeeps, hbal, hservers'⟩ := putSiObject_spec h hservers
          rw [← (hkeeps.outputRefs rest).2] at hbal
          exact ⟨hset.trans hkeeps, hbal, hservers'⟩
      obtain ⟨t, ht, hkeeps, hbal, hservers'⟩ := hcase
      simp only [← ht]
      obtain ⟨hkeeps', hbal', hservers''⟩ := putSiObject_spec hbal hservers'
      rw [← (hkeeps'.outputRefs rest).2] at hbal'
      obtain ⟨hrest, hbal'', hservers'''⟩ := ih hbal' hservers''
      exact ⟨(hkeeps.trans hkeeps').trans hrest, hbal'', hservers'''⟩

/-- **The notification** drops the references of the driver, and those of the secure world if it did not get
the objects. -/
theorem notifyOutputs_spec {status : Bool} (h : s.objects.Balanced (R + s.outputRefs u))
    (hservers : s.servers.Balanced (E + s.owners)) :
    Keeps s (notifyOutputs s u status) ∧
      (notifyOutputs s u status).objects.Balanced (R + if status = true then 0 else s.kept u) ∧
      (notifyOutputs s u status).servers.Balanced (E + (notifyOutputs s u status).owners) := by
  induction u generalizing s R with
  | nil =>
    rw [State.outputRefs, State.kept, filterMap_nil, filter_nil, Multiset.coe_nil, add_zero,
      add_zero] at h
    rw [State.kept, filterMap_nil, filter_nil, Multiset.coe_nil, ite_self, add_zero]
    exact ⟨.refl s, h, hservers⟩
  | cons x rest ih =>
    cases x with
    | none => exact ih h hservers
    | some a =>
      rw [notifyOutputs]
      rw [outputRefs_cons, Multiset.add_cons] at h
      have hkept : s.kept (some a :: rest) = (if s.foreign a = true then {a} else 0) + s.kept rest := by
        have hcons : (some a :: rest).filterMap id = a :: rest.filterMap id := rfl
        rw [State.kept, hcons, filter_cons]
        split_ifs
        · rw [← Multiset.cons_coe, Multiset.singleton_add]
          rfl
        · rw [zero_add]
          rfl
      rw [hkept]
      by_cases htwo : status = true ∧ (s.object a).isUser = false
      · have hforeign : s.foreign a = true := by
          rw [State.foreign, htwo.2]
          rfl
        rw [hforeign, if_pos rfl, Multiset.singleton_add, Multiset.add_cons] at h
        obtain ⟨hkeeps, hbal, hservers'⟩ := putSiObject_spec h hservers
        obtain ⟨hkeeps', hbal', hservers''⟩ := putSiObject_spec hbal hservers'
        have hboth := hkeeps.trans hkeeps'
        rw [← (hboth.outputRefs rest).2] at hbal'
        have hstep := ih hbal' hservers''
        simp only [htwo.1, if_true] at hstep ⊢
        simp only [htwo.2, and_self, if_true]
        exact ⟨hboth.trans hstep.1, hstep.2⟩
      · obtain ⟨hkeeps, hbal, hservers'⟩ := putSiObject_spec h hservers
        rw [← (hkeeps.outputRefs rest).2, ← add_assoc] at hbal
        obtain ⟨hkeeps', hbal', hservers''⟩ := ih hbal hservers'
        simp only [if_neg htwo]
        refine ⟨hkeeps.trans hkeeps', ?_, hservers''⟩
        rw [(hkeeps.outputRefs rest).1] at hbal'
        cases status with
        | true =>
          have hforeign : s.foreign a = false := by
            have huser : (s.object a).isUser = true := by
              cases hu : (s.object a).isUser with
              | true => rfl
              | false => exact absurd ⟨rfl, hu⟩ htwo
            rw [State.foreign, huser]
            rfl
          rw [hforeign, if_neg Bool.false_ne_true, add_zero] at hbal'
          exact hbal'
        | false =>
          rw [if_neg Bool.false_ne_true, add_assoc] at hbal'
          rw [if_neg Bool.false_ne_true]
          exact hbal'

theorem extends_cbObjectAlloc {o : Input} {x : CbObject} (h : cbObjectAlloc files s o = some (s', x)) :
    Extends s s' := by
  rw [cbObjectAlloc] at h
  split at h
  · cases h
  · split_ifs at h
    obtain ⟨rfl, -⟩ := Prod.mk.inj (Option.some.inj h)
    exact ⟨Nat.le_refl _, rfl, fun _ _ => rfl⟩

theorem extends_newObject (s : State) (object : Object) : Extends s (s.newObject object) where
  next := Nat.le_succ _
  dead := rfl
  isUser := fun a ha => by rw [newObject_object_of_ne (Nat.ne_of_lt ha)]

theorem extends_getSiObjectFromUHandle (files : Files) (s : State) (o : Input) :
    Extends s (getSiObjectFromUHandle files s o).1 := by
  rw [getSiObjectFromUHandle]
  split_ifs
  · exact .refl s
  · split
    · rename_i hsome
      exact (extends_cbObjectAlloc hsome).trans (extends_newObject _ _)
    · exact .refl s
  · cases halloc : cbObjectAlloc files s o with
    | none => exact extends_newObject _ _
    | some x => exact (extends_cbObjectAlloc (x := x.2) halloc).trans (extends_newObject _ _)
  · cases halloc : cbObjectAlloc files s o with
    | none => exact .refl s
    | some x => exact extends_cbObjectAlloc (x := x.2) halloc
  · split
    · exact ⟨Nat.le_refl _, rfl, fun _ _ => rfl⟩
    · exact .refl s

theorem extends_marshalObjects (files : Files) (s : State) (err : Bool) (inputs : List Input) :
    Extends s (marshalObjects files s err inputs).1 := by
  induction inputs generalizing s err with
  | nil => exact .refl s
  | cons o rest ih =>
    cases err with
    | true => exact ih s true
    | false => exact (extends_getSiObjectFromUHandle files s o).trans (ih _ _)

/-- **The conversion of output objects** takes the references of the output arguments if it succeeds, and none
otherwise. -/
theorem marshalOutCbReq_spec {args : List (Option ℕ)} {outputs : Outputs} (h : s.Ok files openFiles R)
    (hsafe : files.Safe args outputs) :
    Extends s (marshalOutCbReq files s args outputs).1 ∧
      (∀ a, a ∈ (marshalOutCbReq files s args outputs).1.objects.live ∨
          a ∈ (marshalOutCbReq files s args outputs).1.objects.freed →
        a < (marshalOutCbReq files s args outputs).1.next) ∧
      (marshalOutCbReq files s args outputs).1.servers.Balanced
        (openFiles + (marshalOutCbReq files s args outputs).1.owners) ∧
      (marshalOutCbReq files s args outputs).1.objects.Balanced
        (R + if (marshalOutCbReq files s args outputs).2.2 = true then 0
          else (marshalOutCbReq files s args outputs).1.outputRefs
            (marshalOutCbReq files s args outputs).2.1) := by
  rw [marshalOutCbReq]
  by_cases hbuffers : outputs.buffersOk = false
  · rw [if_pos hbuffers, if_pos rfl, add_zero]
    exact ⟨.refl s, h.fresh, h.servers, h.objects⟩
  · rw [if_neg hbuffers]
    obtain ⟨-, hholds⟩ := h.holds.marshal ((List.range args.length).map outputs.handles)
    have hext := extends_marshalObjects files s false ((List.range args.length).map outputs.handles)
    rw [nil_append, nil_append, hsafe ((Bool.not_eq_false _).mp hbuffers)] at hholds
    have hservers := hholds.servers
    rw [Option.toList_none, Multiset.coe_nil, add_zero] at hservers
    have hobjects := hholds.objects
    rw [add_assoc] at hobjects
    cases herr : (marshalObjects files s false ((List.range args.length).map outputs.handles)).2.2 with
    | true =>
      simp only [herr, if_true, add_zero]
      obtain ⟨hkeeps, hbal, hservers'⟩ := undoOutputs_spec hobjects hservers
      refine ⟨hext.trans hkeeps.extends, fun a ha => ?_, hservers', hbal⟩
      rw [hkeeps.next]
      exact hholds.fresh a ((hkeeps.known a).mp ha)
    | false =>
      simp only [herr, Bool.false_eq_true, if_false]
      exact ⟨hext, hholds.fresh, hservers, hobjects⟩

end

end Smcinvoke
