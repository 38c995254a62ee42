import Sm8750Modules.Smcinvoke.InputRefs

/-!
# Invocations of the secure world — when the input references balance

The conversions take references, the releases drop them.
-/

namespace Smcinvoke

open RefCounts Function List

variable {files : Files} {openFiles refs : Multiset ℕ} {s₀ s s' : State} {o : Input}

/-- `a` is an object that the secure world gets a reference on. -/
def State.foreign (s : State) (a : ℕ) : Bool := !(s.object a).isUser

def State.requestOf (s : State) (a : ℕ) : Option (ℕ × ℤ) :=
  match s.object a with
  | .cb o | .mem (some o) =>
    if o.notifyOnRelease = true ∧ s.dead o.si = false then some (o.si, o.uHandle) else none
  | .user | .mem none => none

def State.hiddenRequest (s : State) (a : ℕ) : Option (ℕ × ℤ) :=
  match s.object a with
  | .mem _ => s.requestOf a
  | .user | .cb _ => none

def Files.cbServer (files : Files) (o : Input) : Option ℕ :=
  if o.allocOk = true then files.server o.cbServerFd else none

def Files.hidden (files : Files) (o : Input) : Option ℕ :=
  if userspaceObjNull < o.fd ∧ files.dmaBuf o.fd = true then files.cbServer o else none

def Files.converts (files : Files) (o : Input) : Bool :=
  if o.fd = userspaceObjNull then true
  else if o.fd < userspaceObjNull then (files.cbServer o).isSome
  else if files.dmaBuf o.fd = true then o.initOk
  else (files.qtee o.fd).isSome

/-- The arguments up to the first that is not converted. -/
def lookedAt (files : Files) : List Input → List Input
  | [] => []
  | o :: rest => if files.converts o = true then o :: lookedAt files rest else [o]

/-! ## Conversions -/

/-- The driver after the conversion of arguments to the objects `l`, with the requests `rs` that the hidden
callback objects will make and the references `leak` on servers that nobody has. -/
structure Holds (files : Files) (openFiles refs : Multiset ℕ) (s₀ s : State) (l : List ℕ) (rs : List (ℕ × ℤ))
    (leak : Multiset ℕ) : Prop where
  objects : s.objects.Balanced (refs + ↑l + ↑(l.filter s.foreign))
  fresh : ∀ a, a ∈ s.objects.live ∨ a ∈ s.objects.freed → a < s.next
  servers : s.servers.Balanced (openFiles + s.owners + leak)
  opened : ∀ fd si, files.server fd = some si → si ∈ openFiles ∧ s.dead si = false
  qtee : ∀ fd a, files.qtee fd = some a → a ∈ refs ∧ s.object a = .user
  user : ∀ a ∈ l, s.foreign a = false → a ∈ refs
  new : ∀ a ∈ l, s.foreign a = true → a ∉ refs
  nodup : (l.filter s.foreign).Nodup
  hidden : l.filterMap s.hiddenRequest = rs
  requests : s.requests = s₀.requests

theorem State.Ok.holds (h : s.Ok files openFiles refs) : Holds files openFiles refs s s [] [] 0 where
  objects := by
    rw [filter_nil, Multiset.coe_nil, add_zero, add_zero]
    exact h.objects
  fresh := h.fresh
  servers := by
    rw [add_zero]
    exact h.servers
  opened := h.opened
  qtee := h.qtee
  user := nofun
  new := nofun
  nodup := nodup_nil
  hidden := rfl
  requests := rfl

section Convert

variable {l : List ℕ} {rs : List (ℕ × ℤ)} {leak : Multiset ℕ}

theorem Holds.next_notMem (h : Holds files openFiles refs s₀ s l rs leak) :
    s.next ∉ s.objects.live ∧ s.next ∉ s.objects.freed ∧ s.next ∉ refs ∧ s.next ∉ l := by
  have hlive : s.next ∉ s.objects.live := fun hm => Nat.lt_irrefl _ (h.fresh _ (Or.inl hm))
  have hfreed : s.next ∉ s.objects.freed := fun hm => Nat.lt_irrefl _ (h.fresh _ (Or.inr hm))
  have hmem := (h.objects.mem_live s.next).not.mp hlive
  rw [Multiset.mem_add, Multiset.mem_add, not_or, not_or] at hmem
  exact ⟨hlive, hfreed, hmem.1.1, fun hm => hmem.1.2 (Multiset.mem_coe.mpr hm)⟩

theorem Holds.cbObjectAlloc (h : Holds files openFiles refs s₀ s l rs leak) (o : Input) :
    match files.cbServer o with
    | none => cbObjectAlloc files s o = none
    | some si => cbObjectAlloc files s o =
        some ({ s with servers := s.servers.get si }, ⟨true, o.fd, si⟩) ∧
      Holds files openFiles refs s₀ { s with servers := s.servers.get si } l rs (si ::ₘ leak) ∧
      s.dead si = false := by
  rw [Files.cbServer, Smcinvoke.cbObjectAlloc]
  cases hserver : files.server o.cbServerFd with
  | none =>
    split_ifs
    · rfl
    · rfl
  | some si =>
    obtain ⟨hopen, hdead⟩ := h.opened _ si hserver
    by_cases halloc : o.allocOk = true
    · rw [if_pos halloc]
      refine ⟨if_pos halloc, ?_, hdead⟩
      have hlive : si ∈ s.servers.live :=
        (h.servers.mem_live si).mpr (Multiset.mem_add.mpr (Or.inl (Multiset.mem_add.mpr (Or.inl hopen))))
      refine ⟨h.objects, h.fresh, ?_, h.opened, h.qtee, h.user, h.new, h.nodup, h.hidden, h.requests⟩
      have hget := h.servers.get hlive
      rw [← Multiset.add_cons] at hget
      exact hget
    · rw [if_neg halloc]
      exact if_neg halloc

theorem newObject_object_of_ne {object : Object} {a : ℕ} (ha : a ≠ s.next) :
    (s.newObject object).object a = s.object a := update_of_ne ha ..

theorem newObject_object_self {object : Object} : (s.newObject object).object s.next = object :=
  update_self ..

theorem newObject_owners (hfresh : s.next ∉ s.objects.live) (object : Object) :
    (s.newObject object).owners = s.owners + ↑object.servers := by
  have hold : s.objects.live.flatMap (fun a => ((s.newObject object).object a).servers) =
      s.objects.live.flatMap fun a => (s.object a).servers := by
    refine flatMap_congr fun a ha => ?_
    rw [newObject_object_of_ne fun hnext => hfresh (hnext ▸ ha)]
  show ((s.objects.live ++ [s.next]).flatMap fun a => ((s.newObject object).object a).servers : Multiset ℕ) = _
  rw [flatMap_append, hold, flatMap_singleton, newObject_object_self, ← Multiset.coe_add]
  rfl

theorem Holds.newObject (leak : Multiset ℕ) (object : Object)
    (h : Holds files openFiles refs s₀ s l rs (↑object.servers + leak)) (hforeign : object.isUser = false) :
    Holds files openFiles refs s₀ (s.newObject object) (l ++ [s.next])
      (rs ++ ((s.newObject object).hiddenRequest s.next).toList) leak := by
  obtain ⟨hlive, hfreed, hrefs, hl⟩ := h.next_notMem
  have hother : ∀ a ∈ l, (s.newObject object).object a = s.object a := fun a ha =>
    newObject_object_of_ne fun hnext => hl (hnext ▸ ha)
  have hkeep : ∀ a ∈ l, (s.newObject object).foreign a = s.foreign a := fun a ha => by
    rw [State.foreign, State.foreign, hother a ha]
  have hnext : (s.newObject object).foreign s.next = true := by
    rw [State.foreign, newObject_object_self, hforeign]
    rfl
  have hfilter : (l ++ [s.next]).filter (s.newObject object).foreign = l.filter s.foreign ++ [s.next] := by
    rw [filter_append, filter_congr hkeep, filter_singleton, hnext]
    rfl
  refine ⟨?_, fun a => ?_, ?_, h.opened, fun fd a ha => ?_, fun a ha hf => ?_, fun a ha hf => ?_, ?_, ?_,
    h.requests⟩
  · have hadd := (h.objects.add hlive hfreed).get (a := s.next) (mem_append_right _ (mem_singleton_self _))
    have hrefs' : refs + ↑(l ++ [s.next]) + ↑((l ++ [s.next]).filter (s.newObject object).foreign) =
        s.next ::ₘ s.next ::ₘ (refs + ↑l + ↑(l.filter s.foreign)) := by
      rw [hfilter, ← Multiset.coe_add, ← Multiset.coe_add, Multiset.coe_singleton, ← Multiset.singleton_add,
        ← Multiset.singleton_add]
      abel
    rw [hrefs']
    exact hadd
  · show a ∈ s.objects.live ++ [s.next] ∨ a ∈ s.objects.freed → a < s.next + 1
    rintro (hm | hm)
    · rcases mem_append.mp hm with hm' | hm'
      · exact Nat.lt_succ_of_lt (h.fresh a (Or.inl hm'))
      · rw [mem_singleton.mp hm']
        exact Nat.lt_succ_self _
    · exact Nat.lt_succ_of_lt (h.fresh a (Or.inr hm))
  · rw [newObject_owners hlive]
    have hservers := h.servers
    rw [← add_assoc, add_assoc openFiles] at hservers
    exact hservers
  · obtain ⟨hmem, huser⟩ := h.qtee fd a ha
    rw [newObject_object_of_ne fun hnext => hrefs (hnext ▸ hmem)]
    exact ⟨hmem, huser⟩
  · rcases mem_append.mp ha with ha' | ha'
    · rw [hkeep a ha'] at hf
      exact h.user a ha' hf
    · rw [mem_singleton.mp ha', hnext] at hf
      cases hf
  · rcases mem_append.mp ha with ha' | ha'
    · rw [hkeep a ha'] at hf
      exact h.new a ha' hf
    · rw [mem_singleton.mp ha']
      exact hrefs
  · rw [hfilter]
    refine nodup_append.mpr ⟨h.nodup, nodup_singleton _, fun a ha b hb hab => ?_⟩
    rw [hab, mem_singleton.mp hb] at ha
    exact hl (mem_of_mem_filter ha)
  · have hold : l.filterMap (s.newObject object).hiddenRequest = l.filterMap s.hiddenRequest := by
      refine filterMap_congr fun a ha => ?_
      rw [State.hiddenRequest, State.hiddenRequest, hother a ha, State.requestOf, State.requestOf, hother a ha]
      rfl
    rw [filterMap_append, hold, h.hidden]
    congr 1

theorem Holds.getUser (h : Holds files openFiles refs s₀ s l rs leak) {a : ℕ} (ha : a ∈ refs)
    (huser : s.object a = .user) :
    Holds files openFiles refs s₀ { s with objects := s.objects.get a } (l ++ [a]) rs leak := by
  have hforeign : s.foreign a = false := by
    rw [State.foreign, huser]
    rfl
  have hfilter : (l ++ [a]).filter s.foreign = l.filter s.foreign := by
    rw [filter_append, filter_singleton, hforeign]
    exact append_nil _
  have hlive : a ∈ s.objects.live :=
    (h.objects.mem_live a).mpr (Multiset.mem_add.mpr (Or.inl (Multiset.mem_add.mpr (Or.inl ha))))
  refine ⟨?_, h.fresh, h.servers, h.opened, h.qtee, fun b hb hf => ?_, fun b hb hf => ?_, ?_, ?_, h.requests⟩
  · have hget := h.objects.get hlive
    have hrefs : refs + ↑(l ++ [a]) + ↑((l ++ [a]).filter s.foreign) =
        a ::ₘ (refs + ↑l + ↑(l.filter s.foreign)) := by
      rw [hfilter, ← Multiset.coe_add, Multiset.coe_singleton, ← Multiset.singleton_add]
      abel
    exact hrefs ▸ hget
  · rcases mem_append.mp hb with hb' | hb'
    · exact h.user b hb' hf
    · rw [mem_singleton.mp hb']
      exact ha
  · rcases mem_append.mp hb with hb' | hb'
    · exact h.new b hb' hf
    · have hf' : s.foreign b = true := hf
      rw [mem_singleton.mp hb', hforeign] at hf'
      cases hf'
  · have hnodup := h.nodup
    rw [← hfilter] at hnodup
    exact hnodup
  · have hnone : s.hiddenRequest a = none := by
      rw [State.hiddenRequest, huser]
    show (l ++ [a]).filterMap s.hiddenRequest = rs
    rw [filterMap_append, h.hidden, filterMap_cons, hnone, filterMap_nil]
    exact append_nil _

def hiddens (files : Files) (inputs : List Input) : List (ℕ × ℤ) :=
  inputs.filterMap fun o => (files.hidden o).map fun si => (si, o.fd)

/-- **A conversion** takes the references it is to take, and makes a request possible if the argument is a
memory buffer with a server. -/
theorem Holds.convert (h : Holds files openFiles refs s₀ s l rs 0) (o : Input) :
    (getSiObjectFromUHandle files s o).2.2 = files.converts o ∧
      (files.converts o = true →
        Holds files openFiles refs s₀ (getSiObjectFromUHandle files s o).1
          (l ++ (getSiObjectFromUHandle files s o).2.1.toList) (rs ++ hiddens files [o]) 0) ∧
      (files.converts o = false → (getSiObjectFromUHandle files s o).2.1 = none ∧
        Holds files openFiles refs s₀ (getSiObjectFromUHandle files s o).1 l rs ↑(files.hidden o).toList) := by
  have hsingle : hiddens files [o] = ((files.hidden o).map fun si => (si, o.fd)).toList := by
    rw [hiddens, filterMap_cons, filterMap_nil]
    cases (files.hidden o).map fun si => (si, o.fd) <;> rfl
  have hsame : files.hidden o = none → Holds files openFiles refs s₀ s (l ++ []) (rs ++ hiddens files [o]) 0 := by
    intro hnone
    rw [hsingle, hnone, append_nil]
    exact (append_nil rs).symm ▸ h
  have halloc := h.cbObjectAlloc o
  rw [getSiObjectFromUHandle, Files.converts]
  by_cases hnull : o.fd = userspaceObjNull
  · rw [if_pos hnull, if_pos hnull]
    exact ⟨rfl, fun _ => hsame (if_neg fun hboth => absurd hboth.1 (by omega)), nofun⟩
  · rw [if_neg hnull, if_neg hnull]
    by_cases hcb : o.fd < userspaceObjNull
    · have hnone : files.hidden o = none := if_neg fun hboth => absurd hboth.1 (by omega)
      rw [if_pos hcb, if_pos hcb]
      cases hserver : files.cbServer o with
      | none =>
        rw [hserver] at halloc
        rw [halloc]
        refine ⟨rfl, nofun, fun _ => ⟨rfl, ?_⟩⟩
        rw [hnone]
        exact h
      | some si =>
        rw [hserver] at halloc
        obtain ⟨heq, hholds, hdead⟩ := halloc
        rw [heq]
        refine ⟨rfl, fun _ => ?_, nofun⟩
        rw [hsingle, hnone]
        have hnew := Holds.newObject 0 (.cb ⟨true, o.fd, si⟩) hholds rfl
        have hrequest : (({ s with servers := s.servers.get si } : State).newObject
            (.cb ⟨true, o.fd, si⟩)).hiddenRequest s.next = none := by
          rw [State.hiddenRequest]
          simp only [newObject_object_self (s := { s with servers := s.servers.get si })]
        rw [hrequest] at hnew
        exact hnew
    · rw [if_neg hcb, if_neg hcb]
      by_cases hbuf : files.dmaBuf o.fd = true
      · rw [if_pos hbuf, if_pos hbuf]
        have hhidden : files.hidden o = files.cbServer o := if_pos ⟨by omega, hbuf⟩
        have hrequest : ∀ (t : State) (x : Option CbObject),
            (t.newObject (.mem x)).hiddenRequest t.next = (t.newObject (.mem x)).requestOf t.next := by
          intro t x
          rw [State.hiddenRequest]
          simp only [newObject_object_self]
        rw [hhidden] at hsingle ⊢
        cases hserver : files.cbServer o with
        | none =>
          rw [hserver] at halloc hsingle
          rw [halloc]
          by_cases hinit : o.initOk = true
          · have hnew := Holds.newObject 0 (.mem none) h rfl
            have hnone : (s.newObject (.mem none)).requestOf s.next = none := by
              rw [State.requestOf]
              simp only [newObject_object_self]
            rw [hrequest, hnone] at hnew
            simp only [hinit, if_true]
            refine ⟨trivial, fun _ => ?_, nofun⟩
            rw [hsingle]
            exact hnew
          · simp only [hinit]
            exact ⟨rfl, nofun, fun _ => ⟨rfl, h⟩⟩
        | some si =>
          rw [hserver] at halloc hsingle
          obtain ⟨heq, hholds, hdead⟩ := halloc
          rw [heq]
          by_cases hinit : o.initOk = true
          · have hnew := Holds.newObject 0 (.mem (some ⟨true, o.fd, si⟩)) hholds rfl
            have hsome : (({ s with servers := s.servers.get si } : State).newObject
                (.mem (some ⟨true, o.fd, si⟩))).requestOf s.next = some (si, o.fd) := by
              rw [State.requestOf]
              simp only [newObject_object_self (s := { s with servers := s.servers.get si })]
              exact if_pos ⟨trivial, hdead⟩
            have hrequest' := hrequest { s with servers := s.servers.get si } (some ⟨true, o.fd, si⟩)
            rw [hrequest', hsome] at hnew
            simp only [hinit, if_true]
            refine ⟨trivial, fun _ => ?_, nofun⟩
            rw [hsingle]
            exact hnew
          · simp only [hinit]
            exact ⟨rfl, nofun, fun _ => ⟨rfl, hholds⟩⟩
      · rw [if_neg hbuf, if_neg hbuf]
        have hnone : files.hidden o = none := if_neg fun hboth => absurd hboth.2 hbuf
        cases hqtee : files.qtee o.fd with
        | none =>
          refine ⟨rfl, nofun, fun _ => ⟨rfl, ?_⟩⟩
          rw [hnone]
          exact h
        | some a =>
          obtain ⟨hmem, huser⟩ := h.qtee _ a hqtee
          refine ⟨rfl, fun _ => ?_, nofun⟩
          rw [hsingle, hnone]
          exact (append_nil rs).symm ▸ h.getUser hmem huser

theorem marshalObjects_err (s : State) (inputs : List Input) :
    marshalObjects files s true inputs = (s, inputs.map fun _ => none, true) := by
  induction inputs with
  | nil => rfl
  | cons o rest ih =>
    rw [marshalObjects, ih]
    rfl

theorem hiddens_append (a b : List Input) : hiddens files (a ++ b) = hiddens files a ++ hiddens files b :=
  filterMap_append

/-- The argument that is not converted, if any. -/
def failing (files : Files) : List Input → Option Input
  | [] => none
  | o :: rest => if files.converts o = true then failing files rest else some o

def convertible (files : Files) (inputs : List Input) : List Input :=
  inputs.takeWhile (files.converts ·)

theorem Holds.marshal (h : Holds files openFiles refs s₀ s l rs 0) (inputs : List Input) :
    (marshalObjects files s false inputs).2.2 = (failing files inputs).isSome ∧
      Holds files openFiles refs s₀ (marshalObjects files s false inputs).1
        (l ++ (marshalObjects files s false inputs).2.1.filterMap id)
        (rs ++ hiddens files (convertible files inputs))
        ↑((failing files inputs).bind files.hidden).toList := by
  induction inputs generalizing s l rs with
  | nil =>
    refine ⟨rfl, ?_⟩
    show Holds files openFiles refs s₀ s (l ++ []) (rs ++ []) 0
    rw [append_nil, append_nil]
    exact h
  | cons o rest ih =>
    obtain ⟨hok, hconv, hfail⟩ := h.convert o
    rw [marshalObjects, failing, convertible, takeWhile_cons]
    cases hc : files.converts o with
    | true =>
      have hstep := ih (hconv hc)
      simp only [hok, hc, Bool.not_true, if_true]
      refine ⟨hstep.1, ?_⟩
      have hholds := hstep.2
      rw [append_assoc, append_assoc, ← hiddens_append] at hholds
      have hcons : ((getSiObjectFromUHandle files s o).2.1 ::
          (marshalObjects files (getSiObjectFromUHandle files s o).1 false rest).2.1).filterMap id =
          (getSiObjectFromUHandle files s o).2.1.toList ++
            (marshalObjects files (getSiObjectFromUHandle files s o).1 false rest).2.1.filterMap id := by
        rw [filterMap_cons]
        cases (getSiObjectFromUHandle files s o).2.1 <;> rfl
      rw [hcons]
      exact hholds
    | false =>
      obtain ⟨hnone, hholds⟩ := hfail hc
      simp only [hok, hc, Bool.not_false, Bool.false_eq_true, if_false, marshalObjects_err, hnone]
      refine ⟨rfl, ?_⟩
      have hempty : (none :: rest.map fun _ => (none : Option ℕ)).filterMap id = [] := by
        rw [filterMap_eq_nil_iff]
        intro a ha
        rcases mem_cons.mp ha with rfl | ha'
        · rfl
        · obtain ⟨_, -, rfl⟩ := mem_map.mp ha'
          rfl
      rw [hempty, append_nil, hiddens, filterMap_nil, append_nil]
      exact hholds

end Convert

section Releases

variable {R : Multiset ℕ} {l : List ℕ} {notify : Bool}

/-- Dropping references of which none is the last changes nothing but the counts, and callback objects are
told whether to notify. -/
structure Drops (s s' : State) : Prop where
  live : s'.objects.live = s.objects.live
  freed : s'.objects.freed = s.objects.freed
  next : s'.next = s.next
  servers : s'.servers = s.servers
  dead : s'.dead = s.dead
  requests : s'.requests = s.requests
  owner : ∀ a, (s'.object a).servers = (s.object a).servers
  isUser : ∀ a, (s'.object a).isUser = (s.object a).isUser
  cb : ∀ a o, s.object a = .cb o → ∃ o', s'.object a = .cb o'
  mem : ∀ a x, s.object a = .mem x → s'.object a = .mem x

theorem Drops.refl (s : State) : Drops s s :=
  ⟨rfl, rfl, rfl, rfl, rfl, rfl, fun _ => rfl, fun _ => rfl, fun _ o ho => ⟨o, ho⟩, fun _ _ => id⟩

theorem Drops.trans {t : State} (h : Drops s s') (h' : Drops s' t) : Drops s t where
  live := h'.live.trans h.live
  freed := h'.freed.trans h.freed
  next := h'.next.trans h.next
  servers := h'.servers.trans h.servers
  dead := h'.dead.trans h.dead
  requests := h'.requests.trans h.requests
  owner := fun a => (h'.owner a).trans (h.owner a)
  isUser := fun a => (h'.isUser a).trans (h.isUser a)
  cb := fun a o ho => (h.cb a o ho).elim fun o' ho' => h'.cb a o' ho'
  mem := fun a x hx => h'.mem a x (h.mem a x hx)

theorem Drops.owners (h : Drops s s') : s'.owners = s.owners := by
  rw [State.owners, State.owners, h.live]
  exact congrArg _ (flatMap_congr fun a _ => h.owner a)

theorem Drops.foreign (h : Drops s s') : s'.foreign = s.foreign := by
  funext a
  rw [State.foreign, State.foreign, h.isUser]

theorem drops_setNotify (s : State) (a : ℕ) (notify : Bool) :
    Drops s (setNotify s a notify) ∧ (setNotify s a notify).objects = s.objects := by
  rw [setNotify]
  split
  · rename_i o ho
    refine ⟨⟨rfl, rfl, rfl, rfl, rfl, rfl, fun b => ?_, fun b => ?_, fun b o' ho' => ?_, fun b x hx => ?_⟩,
      rfl⟩
    · show (update s.object a _ b).servers = _
      by_cases hba : b = a
      · rw [hba, update_self, ho]
        rfl
      · rw [update_of_ne hba]
    · show (update s.object a _ b).isUser = _
      by_cases hba : b = a
      · rw [hba, update_self, ho]
        rfl
      · rw [update_of_ne hba]
    · show ∃ o', update s.object a _ b = _
      by_cases hba : b = a
      · rw [hba, update_self]
        exact ⟨_, rfl⟩
      · rw [update_of_ne hba]
        exact ⟨o', ho'⟩
    · show update s.object a _ b = _
      by_cases hba : b = a
      · rw [hba, ho] at hx
        cases hx
      · rw [update_of_ne hba]
        exact hx
  · exact ⟨.refl s, rfl⟩
  · exact ⟨.refl s, rfl⟩

theorem putSiObject_of_two {a : ℕ} (h : s.objects.Balanced (a ::ₘ R)) (ha : a ∈ R) :
    putSiObject s (some a) = { s with objects := s.objects.put a } ∧ Drops s (putSiObject s (some a)) ∧
      (putSiObject s (some a)).objects.Balanced R := by
  have hne : s.objects.refs a ≠ 1 := by
    rw [h.refs a (Multiset.mem_cons_self a R), Multiset.count_cons_self]
    have hpos := Multiset.count_pos.mpr ha
    omega
  have hput : putSiObject s (some a) = { s with objects := s.objects.put a } := if_neg hne
  obtain ⟨hlive, hfreed⟩ := s.objects.put_of_ne hne
  rw [hput]
  refine ⟨rfl, ⟨hlive, hfreed, rfl, rfl, rfl, rfl, fun _ => rfl, fun _ => rfl, fun _ o ho => ⟨o, ho⟩,
    fun _ _ => id⟩, ?_⟩
  have hbal := h.put (Multiset.mem_cons_self a R)
  rwa [Multiset.erase_cons_head] at hbal

theorem putInputs_spec {u : List (Option ℕ)} (h : s.objects.Balanced (R + ↑(u.filterMap id)))
    (hmem : ∀ a ∈ u.filterMap id, a ∈ R) :
    Drops s (putInputs s u) ∧ (putInputs s u).objects.Balanced R := by
  induction u generalizing s with
  | nil =>
    rw [filterMap_nil, Multiset.coe_nil, add_zero] at h
    exact ⟨.refl s, h⟩
  | cons x rest ih =>
    rw [putInputs]
    cases x with
    | none => exact ih h hmem
    | some a =>
      have hcons : (some a :: rest).filterMap id = a :: rest.filterMap id := rfl
      rw [hcons] at h hmem
      rw [← Multiset.cons_coe, Multiset.add_cons] at h
      obtain ⟨-, hdrops, hbal⟩ := putSiObject_of_two h
        (Multiset.mem_add.mpr (Or.inl (hmem a mem_cons_self)))
      obtain ⟨hdrops', hbal'⟩ := ih hbal fun b hb => hmem b (mem_cons_of_mem a hb)
      exact ⟨hdrops.trans hdrops', hbal'⟩

theorem cleanup_spec {u : List (Option ℕ)} (h : s.objects.Balanced (R + ↑(u.filterMap id)))
    (hmem : ∀ a ∈ u.filterMap id, a ∈ R) :
    Drops s (marshalInReqCleanup s u notify).1 ∧ (marshalInReqCleanup s u notify).1.objects.Balanced R ∧
      (marshalInReqCleanup s u notify).2.filterMap id = (u.filterMap id).filter s.foreign ∧
      (∀ a ∈ u.filterMap id, ∀ o, (marshalInReqCleanup s u notify).1.object a = .cb o →
        o.notifyOnRelease = notify) ∧
      ∀ a, a ∉ u.filterMap id → (marshalInReqCleanup s u notify).1.object a = s.object a := by
  induction u generalizing s with
  | nil =>
    rw [filterMap_nil, Multiset.coe_nil, add_zero] at h
    exact ⟨.refl s, h, rfl, nofun, fun _ _ => rfl⟩
  | cons x rest ih =>
    cases x with
    | none => exact ih h hmem
    | some a =>
      have hcons : (some a :: rest).filterMap id = a :: rest.filterMap id := rfl
      rw [hcons] at h hmem ⊢
      rw [← Multiset.cons_coe, Multiset.add_cons] at h
      obtain ⟨hdrops, hobjects⟩ := drops_setNotify s a notify
      rw [← hobjects] at h
      obtain ⟨hput, hdrops', hbal⟩ := putSiObject_of_two h
        (Multiset.mem_add.mpr (Or.inl (hmem a mem_cons_self)))
      obtain ⟨hdrops'', hbal', hargs, hcb, hother⟩ := ih hbal fun b hb => hmem b (mem_cons_of_mem a hb)
      have hobject : ∀ b, (putSiObject (setNotify s a notify) (some a)).object b =
          (setNotify s a notify).object b := by
        intro b
        rw [hput]
      have hset : ∀ b, b ≠ a → (setNotify s a notify).object b = s.object b := by
        intro b hba
        rw [setNotify]
        split
        · exact update_of_ne hba ..
        · rfl
        · rfl
      have hself : ∀ o, (setNotify s a notify).object a = .cb o → o.notifyOnRelease = notify := by
        intro o ho
        rw [setNotify] at ho
        split at ho
        · have hupdate : update s.object a _ a = Object.cb o := ho
          rw [update_self] at hupdate
          obtain rfl := Object.cb.inj hupdate
          rfl
        · rename_i hu
          rw [hu] at ho
          cases ho
        · rename_i hu
          rw [hu] at ho
          cases ho
      simp only [marshalInReqCleanup]
      refine ⟨(hdrops.trans hdrops').trans hdrops'', hbal', ?_, fun b hb o ho => ?_, fun b hb => ?_⟩
      · rw [(hdrops.trans hdrops').foreign] at hargs
        rw [filter_cons, filterMap_cons, hargs, State.foreign, hdrops.isUser]
        cases (s.object a).isUser <;> rfl
      · by_cases hrest : b ∈ rest.filterMap id
        · exact hcb b hrest o ho
        · obtain rfl := (mem_cons.mp hb).resolve_right hrest
          rw [hother b hrest, hobject] at ho
          exact hself o ho
      · rw [mem_cons, not_or] at hb
        rw [hother b hb.2, hobject, hset b hb.1]

theorem putSiObject_of_last {E : Multiset ℕ} {a : ℕ} (h : s.objects.Balanced (a ::ₘ R)) (ha : a ∉ R)
    (hservers : s.servers.Balanced (E + s.owners)) :
    (putSiObject s (some a)).objects.Balanced R ∧
      (putSiObject s (some a)).servers.Balanced (E + (putSiObject s (some a)).owners) ∧
      (putSiObject s (some a)).object = s.object ∧ (putSiObject s (some a)).dead = s.dead ∧
      (putSiObject s (some a)).requests = s.requests ++ (s.requestOf a).toList := by
  have hlast : s.objects.refs a = 1 := by
    rw [h.refs a (Multiset.mem_cons_self a R), Multiset.count_cons_self, Multiset.count_eq_zero_of_notMem ha]
  have hbal := h.put (Multiset.mem_cons_self a R)
  rw [Multiset.erase_cons_head] at hbal
  obtain ⟨hlive, hfreed⟩ := s.objects.put_of_eq hlast
  have hmem : a ∈ s.objects.live := (h.mem_live a).mpr (Multiset.mem_cons_self a R)
  have howners : s.owners = ↑(s.object a).servers + State.owners { s with objects := s.objects.put a } := by
    have hperm := (perm_cons_erase hmem).flatMap_right fun b => (s.object b).servers
    rw [State.owners, Multiset.coe_eq_coe.mpr hperm, flatMap_cons, ← Multiset.coe_add, State.owners, hlive]
  have hput : putSiObject s (some a) = release { s with objects := s.objects.put a } (s.object a) := if_pos hlast
  rw [hput, State.requestOf]
  have hcb : ∀ o : CbObject, (s.object a).servers = [o.si] →
      (cboRelease { s with objects := s.objects.put a } o).objects.Balanced R ∧
      (cboRelease { s with objects := s.objects.put a } o).servers.Balanced
        (E + (cboRelease { s with objects := s.objects.put a } o).owners) ∧
      (cboRelease { s with objects := s.objects.put a } o).object = s.object ∧
      (cboRelease { s with objects := s.objects.put a } o).dead = s.dead ∧
      (cboRelease { s with objects := s.objects.put a } o).requests =
        s.requests ++ (if o.notifyOnRelease = true ∧ s.dead o.si = false then some (o.si, o.uHandle)
          else none).toList := by
    intro o ho
    rw [ho, Multiset.coe_singleton, Multiset.singleton_add] at howners
    rw [howners, Multiset.add_cons] at hservers
    have hput' := hservers.put (Multiset.mem_cons_self o.si _)
    rw [Multiset.erase_cons_head] at hput'
    refine ⟨hbal, hput', rfl, rfl, ?_⟩
    show (if o.notifyOnRelease = true ∧ s.dead o.si = false then s.requests ++ [(o.si, o.uHandle)]
      else s.requests) = _
    split_ifs
    · rfl
    · exact (append_nil _).symm
  cases ho : s.object a with
  | cb o => exact hcb o (by rw [ho]; rfl)
  | mem x =>
    cases x with
    | some o => exact hcb o (by rw [ho]; rfl)
    | none =>
      rw [ho] at howners
      exact ⟨hbal, by rw [howners] at hservers; exact (zero_add (State.owners _)) ▸ hservers, rfl, rfl,
        (append_nil _).symm⟩
  | user =>
    rw [ho] at howners
    exact ⟨hbal, by rw [howners] at hservers; exact (zero_add (State.owners _)) ▸ hservers, rfl, rfl,
      (append_nil _).symm⟩

/-- **The secure world's references are dropped**: each object makes its request. -/
theorem dropQtee_spec {E : Multiset ℕ} {u : List (Option ℕ)} (h : s.objects.Balanced (R + ↑(u.filterMap id)))
    (hforeign : ∀ a ∈ u.filterMap id, s.foreign a = true ∧ a ∉ R) (hnodup : (u.filterMap id).Nodup)
    (hservers : s.servers.Balanced (E + s.owners)) :
    (dropQtee s u).objects.Balanced R ∧ (dropQtee s u).servers.Balanced (E + (dropQtee s u).owners) ∧
      (dropQtee s u).requests = s.requests ++ (u.filterMap id).filterMap s.requestOf := by
  induction u generalizing s with
  | nil =>
    rw [filterMap_nil, Multiset.coe_nil, add_zero] at h
    exact ⟨h, hservers, (append_nil _).symm⟩
  | cons x rest ih =>
    cases x with
    | none => exact ih h hforeign hnodup hservers
    | some a =>
      have hcons : (some a :: rest).filterMap id = a :: rest.filterMap id := rfl
      rw [hcons] at h hforeign hnodup ⊢
      obtain ⟨ha, hR⟩ := hforeign a mem_cons_self
      have huser : (s.object a).isUser = false := by
        rw [State.foreign] at ha
        exact (Bool.not_eq_true' _).mp ha
      rw [← Multiset.cons_coe, Multiset.add_cons] at h
      have hnot : a ∉ R + ↑(rest.filterMap id) := fun hmem =>
        (Multiset.mem_add.mp hmem).elim hR fun hmem' =>
          (nodup_cons.mp hnodup).1 (Multiset.mem_coe.mp hmem')
      obtain ⟨hbal, hservers', hobject, hdead, hrequests⟩ := putSiObject_of_last h hnot hservers
      have hrequestOf : (putSiObject s (some a)).requestOf = s.requestOf := by
        funext b
        rw [State.requestOf, State.requestOf, hobject, hdead]
      have hstep := ih hbal (fun b hb => by
        rw [State.foreign, hobject]
        exact hforeign b (mem_cons_of_mem a hb)) (nodup_cons.mp hnodup).2 hservers'
      rw [hrequests, hrequestOf, append_assoc] at hstep
      have hfilter : (a :: rest.filterMap id).filterMap s.requestOf =
          (s.requestOf a).toList ++ (rest.filterMap id).filterMap s.requestOf := by
        rw [filterMap_cons]
        cases s.requestOf a <;> rfl
      rw [dropQtee, huser, hfilter]
      exact hstep

end Releases

section Invocation

variable {l : List ℕ} {rs : List (ℕ × ℤ)} {leak : Multiset ℕ} {u : List (Option ℕ)}

theorem Holds.held (h : Holds files openFiles refs s₀ s (u.filterMap id) rs leak) :
    s.objects.Balanced (refs + ↑((u.filterMap id).filter s.foreign) + ↑(u.filterMap id)) ∧
      ∀ a ∈ u.filterMap id, a ∈ refs + (↑((u.filterMap id).filter s.foreign) : Multiset ℕ) := by
  refine ⟨?_, fun a ha => ?_⟩
  · rw [add_right_comm]
    exact h.objects
  · rw [Multiset.mem_add, Multiset.mem_coe, mem_filter]
    cases hf : s.foreign a with
    | true => exact Or.inr ⟨ha, rfl⟩
    | false => exact Or.inl (h.user a ha hf)

/-- **An invocation that was not started**: all references on objects are dropped, and the hidden callback
objects make their requests. -/
theorem Holds.undo (h : Holds files openFiles refs s₀ s (u.filterMap id) rs leak) :
    (dropQtee (marshalInReqCleanup s u false).1 (marshalInReqCleanup s u false).2).objects.Balanced refs ∧
      (dropQtee (marshalInReqCleanup s u false).1 (marshalInReqCleanup s u false).2).servers.Balanced
        (openFiles + leak +
          (dropQtee (marshalInReqCleanup s u false).1 (marshalInReqCleanup s u false).2).owners) ∧
      (dropQtee (marshalInReqCleanup s u false).1 (marshalInReqCleanup s u false).2).requests =
        s₀.requests ++ rs := by
  obtain ⟨hheld, hmem⟩ := h.held
  obtain ⟨hdrops, hbal, hargs, hcb, -⟩ : Drops s (marshalInReqCleanup s u false).1 ∧ _ :=
    cleanup_spec hheld hmem
  have hservers := h.servers
  rw [← hdrops.servers, ← hdrops.owners, add_right_comm] at hservers
  rw [← hargs] at hbal
  have hspec := dropQtee_spec hbal (fun a ha => by
    rw [hargs, mem_filter] at ha
    rw [hdrops.foreign]
    exact ⟨ha.2, h.new a ha.1 ha.2⟩) (by rw [hargs]; exact h.nodup) hservers
  have hrequests : ((u.filterMap id).filter s.foreign).filterMap
      (marshalInReqCleanup s u false).1.requestOf = rs := by
    rw [filterMap_filter, ← h.hidden]
    refine filterMap_congr fun a ha => ?_
    rw [State.hiddenRequest, State.foreign, State.requestOf, State.requestOf]
    cases ho : s.object a with
    | user => rfl
    | cb o =>
      obtain ⟨o', ho'⟩ := hdrops.cb a o ho
      simp [ho', hcb a ha o' ho', Object.isUser]
    | mem x => simp [hdrops.mem a x ho, hdrops.dead, Object.isUser]
  rw [hargs, hrequests, hdrops.requests, h.requests] at hspec
  exact hspec

end Invocation

theorem processInvokeReq_of_started {inputs : List Input} {ret result : ℤ} (h : s.Ok files openFiles refs)
    (hstarted : Started files s inputs ret result) :
    Drops (marshalObjects files s false inputs).1 (processInvokeReq files s inputs ret result) ∧
      (processInvokeReq files s inputs ret result).objects.Balanced
        (refs + ↑((converted files s inputs).filter (marshalObjects files s false inputs).1.foreign)) := by
  obtain ⟨-, hholds⟩ := h.holds.marshal inputs
  rw [nil_append, nil_append] at hholds
  obtain ⟨hheld, hmem⟩ := hholds.held
  rw [processInvokeReq, marshalInReq]
  simp only [hstarted.1, if_true, Bool.false_eq_true, if_false, if_neg hstarted.2]
  have hcleanup : ∀ notify, Drops (marshalObjects files s false inputs).1
      (marshalInReqCleanup (marshalObjects files s false inputs).1
        (marshalObjects files s false inputs).2.1 notify).1 ∧
      (marshalInReqCleanup (marshalObjects files s false inputs).1
        (marshalObjects files s false inputs).2.1 notify).1.objects.Balanced
        (refs + ↑((converted files s inputs).filter (marshalObjects files s false inputs).1.foreign)) :=
    fun notify => (cleanup_spec hheld hmem).imp_right And.left
  by_cases hret : ret ≠ 0
  · rw [if_pos hret]
    exact hcleanup false
  · rw [if_neg hret]
    by_cases hresult : result = 0
    · rw [if_pos hresult]
      exact putInputs_spec hheld hmem
    · rw [if_neg hresult]
      exact hcleanup true

theorem processInvokeReq_of_not_started {inputs : List Input} {ret result : ℤ}
    (hstarted : ¬ Started files s inputs ret result) :
    processInvokeReq files s inputs ret result =
      dropQtee (marshalInReqCleanup (marshalObjects files s false inputs).1
          (marshalObjects files s false inputs).2.1 false).1
        (marshalInReqCleanup (marshalObjects files s false inputs).1
          (marshalObjects files s false inputs).2.1 false).2 := by
  rw [processInvokeReq, marshalInReq]
  cases herr : (marshalObjects files s false inputs).2.2 with
  | true => simp only [herr, Bool.true_eq_false, if_false, if_true]
  | false =>
    have hnot : NotStarted ret result := not_not.mp fun hnot => hstarted ⟨herr, hnot⟩
    simp only [herr, if_true, Bool.false_eq_true, if_false, if_pos hnot]

theorem lookedAt_eq (files : Files) (inputs : List Input) :
    lookedAt files inputs = convertible files inputs ++ (failing files inputs).toList := by
  induction inputs with
  | nil => rfl
  | cons o rest ih =>
    rw [lookedAt, convertible, failing, takeWhile_cons]
    cases hc : files.converts o with
    | true =>
      rw [if_pos rfl, if_pos rfl, if_pos rfl, ih]
      rfl
    | false => rfl

theorem hiddens_eq_nil {inputs : List Input} :
    hiddens files inputs = [] ↔ ∀ o ∈ inputs, files.hidden o = none := by
  rw [hiddens, filterMap_eq_nil_iff]
  exact forall₂_congr fun o _ => Option.map_eq_none_iff

/-- **When the input references balance**: if the invocation was started, or no argument up to the first that
was not converted is a memory buffer with a hidden callback object. -/
theorem balances_iff {inputs : List Input} {ret result : ℤ} (h : s.Ok files openFiles refs) :
    Balances openFiles refs s (processInvokeReq files s inputs ret result) (converted files s inputs)
        (Started files s inputs ret result) ↔
      Started files s inputs ret result ∨ ∀ o ∈ lookedAt files inputs, files.hidden o = none := by
  obtain ⟨herr, hholds⟩ := h.holds.marshal inputs
  rw [nil_append, nil_append] at hholds
  by_cases hstarted : Started files s inputs ret result
  · refine iff_of_true ?_ (Or.inl hstarted)
    obtain ⟨hdrops, hbal⟩ := processInvokeReq_of_started h hstarted
    refine ⟨?_, ?_, fun hnot => absurd hstarted hnot⟩
    · rw [if_pos hstarted]
      rw [← hdrops.foreign] at hbal
      exact hbal
    · have hnone : failing files inputs = none := by
        rw [hstarted.1] at herr
        exact Option.isNone_iff_eq_none.mp (Option.isSome_eq_false_iff.mp herr.symm)
      have hservers := hholds.servers
      rw [hnone, Option.bind_none, Option.toList_none, Multiset.coe_nil, add_zero] at hservers
      rw [hdrops.servers, hdrops.owners]
      exact hservers
  · obtain ⟨hobjects, hservers, hrequests⟩ := hholds.undo
    rw [← processInvokeReq_of_not_started hstarted] at hobjects hservers hrequests
    have hiff : (∀ o ∈ lookedAt files inputs, files.hidden o = none) ↔
        hiddens files (convertible files inputs) = [] ∧ (failing files inputs).bind files.hidden = none := by
      rw [lookedAt_eq, hiddens_eq_nil, Option.bind_eq_none_iff]
      simp only [mem_append, or_imp, forall_and, Option.mem_toList]
    rw [or_iff_right hstarted, hiff]
    constructor
    · intro hbal
      refine ⟨?_, ?_⟩
      · have hnil := (hbal.requests hstarted).symm.trans hrequests
        exact self_eq_append_right.mp hnil
      · have hsame := hservers.unique hbal.servers
        rw [add_right_comm, add_eq_left] at hsame
        cases hf : (failing files inputs).bind files.hidden with
        | none => rfl
        | some si =>
          rw [hf] at hsame
          exact absurd hsame (Multiset.cons_ne_zero (m := 0))
    · rintro ⟨hnil, hnone⟩
      refine ⟨?_, ?_, fun _ => ?_⟩
      · rw [if_neg hstarted, add_zero]
        exact hobjects
      · rw [hnone, Option.toList_none, Multiset.coe_nil, add_zero] at hservers
        exact hservers
      · rw [hrequests, hnil, append_nil]

/-- Descriptor 5 is a server, 7 a buffer, and 8 an object of the secure world. -/
def someFiles : Files where
  server fd := if fd = 5 then some 100 else none
  dmaBuf fd := fd = 7
  qtee fd := if fd = 8 then some 1 else none

def someState : State := { objects := Store.add {} 1, next := 2, servers := Store.add {} 100 }

theorem someState_ok : someState.Ok someFiles {100} {1} where
  objects := Store.Balanced.empty.add not_mem_nil not_mem_nil
  fresh := by
    intro a ha
    obtain rfl := mem_singleton.mp (ha.resolve_right not_mem_nil)
    decide
  servers := Store.Balanced.empty.add not_mem_nil not_mem_nil
  opened := by
    intro fd si h
    simp only [someFiles] at h
    split_ifs at h
    obtain rfl := Option.some.inj h
    exact ⟨Multiset.mem_singleton_self _, rfl⟩
  qtee := by
    intro fd a h
    simp only [someFiles] at h
    split_ifs at h
    obtain rfl := Option.some.inj h
    exact ⟨Multiset.mem_singleton_self _, rfl⟩

/-- A callback object, a buffer, an object of the secure world and nothing, in an invocation that succeeds. -/
theorem balances_started : Balances {100} {1} someState
    (processInvokeReq someFiles someState [⟨-2, 5, true, true⟩, ⟨7, 5, true, true⟩, ⟨8, -1, true, true⟩,
      ⟨-1, -1, true, true⟩] 0 0)
    (converted someFiles someState [⟨-2, 5, true, true⟩, ⟨7, 5, true, true⟩, ⟨8, -1, true, true⟩,
      ⟨-1, -1, true, true⟩])
    (Started someFiles someState [⟨-2, 5, true, true⟩, ⟨7, 5, true, true⟩, ⟨8, -1, true, true⟩,
      ⟨-1, -1, true, true⟩] 0 0) :=
  (balances_iff someState_ok).mpr (Or.inl (by decide))

/-- A buffer in an invocation that is not started: its release is queued. -/
theorem not_balances : ¬ ∀ (files : Files) (openFiles refs : Multiset ℕ) (s : State) (inputs : List Input)
    (ret result : ℤ), s.Ok files openFiles refs →
      Balances openFiles refs s (processInvokeReq files s inputs ret result) (converted files s inputs)
        (Started files s inputs ret result) := by
  intro h
  have hbal := h someFiles {100} {1} someState [⟨7, 5, true, true⟩] einval 1 someState_ok
  have hrequests := hbal.requests (by decide)
  revert hrequests
  decide

end Smcinvoke
