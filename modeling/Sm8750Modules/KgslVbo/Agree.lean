import Sm8750Modules.KgslVbo.Bind

/-!
# Ranges, pages and counts over whole runs

Workers of several operations edit the same VBOs in turn. While no call of the MMU fails, each page
of a range goes where the last bind asked for, as long as the child offset fits the 32 bits that an
operation keeps of it.
-/

namespace KgslVbo

open Intervals Runs Function List

def BoundBy (binds : List Bound) (p : ℕ) (x : PageMap) : Prop :=
  ∃ b, lastBind binds p = some b ∧ x = .child b.entry (b.page p)

/-- The VBOs are consistent, and the operations fit them. -/
structure Sound (K : List Bound → ℕ → PageMap → Prop) (s : State) : Prop where
  vbo : ∀ v ∈ s.vbos, ∃ e, s.entries v = some e ∧ e.vbo = true
  flagged : ∀ v e, s.entries v = some e → e.vbo = true → v ∈ s.vbos ∧
    Consistent e.noMapZero e.size (K (s.binds v)) (s.ranges v) (s.pageMap v)
  target : ∀ op ∈ s.ops, ∃ e, s.entries op.target = some e ∧ e.vbo = true ∧
    ∀ slot ∈ op.slots, SlotOk e.size slot
  work : ∀ op ∈ s.ops, ∀ l, op.work = some l → ∀ slot ∈ l, slot ∈ op.slots

section Steps

variable {K : List Bound → ℕ → PageMap → Prop} {s : State} {v i : ℕ} {e : Entry} {op op' : BindOp}
  {b : Binding} {bound : List Bound}

theorem sound_initial : Sound K initial :=
  ⟨fun v hv => absurd hv (Finset.notMem_empty v), fun _ _ he => (nomatch he),
    fun _ hop => (nomatch hop), fun _ hop => (nomatch hop)⟩

theorem consistent_fresh (noMapZero : NoMapZero) (size : ℕ) (K : ℕ → PageMap → Prop) :
    Consistent noMapZero size K [] fun _ => background noMapZero :=
  ⟨List.Pairwise.nil, fun _ hr => (nomatch hr), fun _ hr => (nomatch hr), fun _ _ _ => rfl⟩

theorem Sound.withOps (h : Sound K s) (ops : List BindOp) (count : ℕ → ℤ)
    (hops : ∀ op ∈ ops, (∃ e, s.entries op.target = some e ∧ e.vbo = true ∧
      ∀ slot ∈ op.slots, SlotOk e.size slot) ∧
      ∀ l, op.work = some l → ∀ slot ∈ l, slot ∈ op.slots) :
    Sound K { s with ops := ops, vboCount := count } :=
  ⟨h.vbo, h.flagged, fun op hop => (hops op hop).1, fun op hop => (hops op hop).2⟩

theorem Sound.setOp (h : Sound K s) (hop : s.ops[i]? = some op) (htarget : op'.target = op.target)
    (hslots : op'.slots = op.slots)
    (hwork : ∀ l, op'.work = some l → ∀ slot ∈ l, slot ∈ op.slots) (count : ℕ → ℤ) :
    Sound K { s with ops := s.ops.set i op', vboCount := count } := by
  have hmem := List.mem_of_getElem? hop
  refine h.withOps _ count fun x hx => ?_
  rcases mem_or_eq_of_mem_set hx with hold | rfl
  · exact ⟨h.target x hold, h.work x hold⟩
  · rw [htarget, hslots]
    exact ⟨h.target op hmem, hwork⟩

theorem Sound.edited (h : Sound K s) (he : s.entries v = some e)
    (hb : Consistent e.noMapZero e.size (K (bound ++ s.binds v)) b.ranges b.mmu.pageMap) :
    Sound K (s.edited v b bound) := by
  refine ⟨h.vbo, fun w e' he' hvbo => ?_, h.target, h.work⟩
  refine ⟨(h.flagged w e' he' hvbo).1, ?_⟩
  show Consistent e'.noMapZero e'.size (K (update s.binds v (bound ++ s.binds v) w))
    (update s.ranges v b.ranges w) (update s.pageMap v b.mmu.pageMap w)
  by_cases hw : w = v
  · have hee : e' = e := by
      have hsame : s.entries w = some e' := he'
      rw [hw, he] at hsame
      exact (Option.some.inj hsame).symm
    rw [hw, hee, update_self, update_self, update_self]
    exact hb
  · rw [update_of_ne hw, update_of_ne hw, update_of_ne hw]
    exact (h.flagged w e' he' hvbo).2

theorem Sound.putOp (h : Sound K s) (hop : s.ops[i]? = some op) (hslots : op'.slots = op.slots)
    (htarget : op'.target = op.target)
    (hwork : ∀ l, op'.work = some l → ∀ slot ∈ l, slot ∈ op.slots) : Sound K (s.putOp i op') := by
  rw [State.putOp]
  split
  · refine h.withOps _ _ fun x hx => ?_
    have hold := mem_of_mem_eraseIdx hx
    exact ⟨h.target x hold, h.work x hold⟩
  · refine h.setOp hop ?_ ?_ ?_ _
    · exact htarget
    · exact hslots
    · exact hwork

/-- **Each step but a part of a worker** keeps the invariant. -/
theorem Sound.next (h : Sound K s) {a : Action} (ha : Enabled s a) (hnot : ∀ i fails, a ≠ .work i fails) :
    Sound K (next s a) := by
  have hnew : ∀ {id : ℕ}, s.entries id = none → ∀ v e, s.entries v = some e → v ≠ id := by
    intro id hid v e he hv
    rw [hv, hid] at he
    cases he
  cases a with
  | work i fails => exact absurd rfl (hnot i fails)
  | alloc id entry =>
    have hid : s.entries id = none := ha
    refine ⟨fun v hv => ?_, fun v e he hvbo => ?_, fun op hop => ?_, h.work⟩
    · obtain ⟨e, he, hvbo⟩ := h.vbo v hv
      refine ⟨e, ?_, hvbo⟩
      show update s.entries id _ v = some e
      rw [update_of_ne (hnew hid v e he), he]
    · have he' : update s.entries id _ v = some e := he
      by_cases hv : v = id
      · rw [hv, update_self] at he'
        rw [← Option.some.inj he'] at hvbo
        cases hvbo
      · rw [update_of_ne hv] at he'
        exact h.flagged v e he' hvbo
    · obtain ⟨e, he, hrest⟩ := h.target op hop
      refine ⟨e, ?_, hrest⟩
      show update s.entries id _ op.target = some e
      rw [update_of_ne (hnew hid _ e he), he]
  | allocVbo id size noMapZero secure =>
    have hid : s.entries id = none := ha
    refine ⟨fun v hv => ?_, fun v e he hvbo => ?_, fun op hop => ?_, h.work⟩
    · rcases Finset.mem_insert.mp hv with rfl | hold
      · exact ⟨_, update_self _ _ _, rfl⟩
      · obtain ⟨e, he, hvbo⟩ := h.vbo v hold
        refine ⟨e, ?_, hvbo⟩
        show update s.entries id _ v = some e
        rw [update_of_ne (hnew hid v e he), he]
    · have he' : update s.entries id _ v = some e := he
      show v ∈ insert id s.vbos ∧ Consistent e.noMapZero e.size (K (update s.binds id _ v))
        (update s.ranges id _ v) (update s.pageMap id _ v)
      by_cases hv : v = id
      · rw [hv, update_self] at he'
        rw [← Option.some.inj he', hv, update_self, update_self, update_self]
        exact ⟨Finset.mem_insert_self _ _, consistent_fresh _ _ _⟩
      · rw [update_of_ne hv] at he'
        rw [update_of_ne hv, update_of_ne hv, update_of_ne hv]
        obtain ⟨hmem, hc⟩ := h.flagged v e he' hvbo
        exact ⟨Finset.mem_insert_of_mem hmem, hc⟩
    · obtain ⟨e, he, hrest⟩ := h.target op hop
      refine ⟨e, ?_, hrest⟩
      show update s.entries id _ op.target = some e
      rw [update_of_ne (hnew hid _ e he), he]
  | pendFree id =>
    -- the sizes and flags of the entries stay
    have hget : ∀ v e, s.entries v = some e → ∃ e', (KgslVbo.next s (.pendFree id)).entries v = some e' ∧
        e'.vbo = e.vbo ∧ e'.size = e.size ∧ e'.noMapZero = e.noMapZero := by
      intro v e he
      by_cases hv : v = id
      · refine ⟨{ e with pendingFree := true }, ?_, rfl, rfl, rfl⟩
        show update s.entries id _ v = _
        rw [hv, update_self, ← hv, he]
        rfl
      · refine ⟨e, ?_, rfl, rfl, rfl⟩
        show update s.entries id _ v = _
        rw [update_of_ne hv, he]
    refine ⟨fun v hv => ?_, fun v e he hvbo => ?_, fun op hop => ?_, h.work⟩
    · obtain ⟨e, he, hvbo⟩ := h.vbo v hv
      obtain ⟨e', he', hvbo', -⟩ := hget v e he
      exact ⟨e', he', hvbo'.trans hvbo⟩
    · have hsome : ∃ e₀, s.entries v = some e₀ := by
        have he' : update s.entries id _ v = some e := he
        by_cases hv : v = id
        · rw [hv, update_self, Option.map_eq_some_iff] at he'
          obtain ⟨e₀, he₀, -⟩ := he'
          exact ⟨e₀, hv ▸ he₀⟩
        · rw [update_of_ne hv] at he'
          exact ⟨e, he'⟩
      obtain ⟨e₀, he₀⟩ := hsome
      obtain ⟨e', he', hvbo', hsize, hzero⟩ := hget v e₀ he₀
      have hee : e' = e := Option.some.inj (he'.symm.trans he)
      rw [hee] at hvbo' hsize hzero
      rw [hsize, hzero]
      exact h.flagged v e₀ he₀ (hvbo'.symm.trans hvbo)
    · obtain ⟨e, he, hvbo, hslots⟩ := h.target op hop
      obtain ⟨e', he', hvbo', hsize, -⟩ := hget op.target e he
      refine ⟨e', he', hvbo'.trans hvbo, ?_⟩
      rw [hsize]
      exact hslots
  | createBindOp target ranges =>
    have hspec := createBindOp_spec s.entries target ranges s.vboCount
    rw [KgslVbo.next]
    cases hcreate : createBindOp s.entries target ranges s.vboCount with
    | mk result count =>
      rw [hcreate] at hspec
      cases result with
      | error err => exact h.withOps s.ops count fun op hop => ⟨h.target op hop, h.work op hop⟩
      | ok slots =>
        obtain ⟨htarget, -⟩ := hspec
        refine h.withOps _ count fun op hop => ?_
        rcases mem_append.mp hop with hold | hnew
        · exact ⟨h.target op hold, h.work op hold⟩
        · rw [mem_singleton.mp hnew]
          obtain ⟨e, he, hvbo, hslots⟩ := htarget
          exact ⟨⟨e, he, hvbo, fun slot hslot => (hslots slot hslot).1⟩, fun l hl => (nomatch hl)⟩
  | bindRanges i =>
    rw [KgslVbo.next]
    cases hop : s.ops[i]? with
    | none => exact h
    | some op =>
      refine h.setOp hop ?_ ?_ (fun l hl slot hslot => ?_) s.vboCount
      · rfl
      · rfl
      · rw [Option.some.inj hl]
        exact hslot
  | finish i =>
    rw [KgslVbo.next]
    split
    · rename_i hop
      exact h.putOp hop rfl rfl fun l hl => (nomatch hl)
    · exact h
  | put i =>
    rw [KgslVbo.next]
    cases hop : s.ops[i]? with
    | none => exact h
    | some op => exact h.putOp hop rfl rfl (h.work op (List.mem_of_getElem? hop))

end Steps

section Succeeds

variable {noMapZero : NoMapZero} {size start last entry offset : ℕ} {K : ℕ → PageMap → Prop}
  {binds : List Bound} {b r : Binding} {o : Option ℕ}

theorem addRange_succeeds (h : Consistent noMapZero size K b.ranges b.mmu.pageMap)
    (hw : Accepted size start last) (hfails : b.mmu.fails = [])
    (hr : r = addRange noMapZero start last entry offset b) :
    ∃ m, Cut noMapZero start last b m ∧
      r.ranges = insertRange ⟨start, last, entry⟩ (b.ranges.flatMap (trim start last)) ∧
      (r.mmu.pageMap = fun p => if InWindow start last p then
        .child entry ((offset + (p * pageSize - start)) / pageSize) else m.pageMap p) ∧
      ∀ e, r.vboCount e = b.vboCount e + naming r.ranges e - naming b.ranges e := by
  rcases addRange_cases b entry offset h.apart h.nonempty hw.le hr with
    ⟨-, hhead, -⟩ | ⟨count, -, hne, -⟩ | ⟨m, hcut, hhead, -⟩ | ⟨m, hcut, -, hrest⟩
  · rw [hfails] at hhead
    cases hhead
  · exact absurd hfails hne
  · rw [hcut.none hfails] at hhead
    cases hhead
  · exact ⟨m, hcut, hrest⟩

theorem Consistent.addRange (h : Consistent noMapZero size (BoundBy binds) b.ranges b.mmu.pageMap)
    (hw : Accepted size start last) (hfails : b.mmu.fails = [])
    (hr : r = addRange noMapZero start last entry offset b) :
    Consistent noMapZero size (BoundBy (⟨entry, start, last, offset⟩ :: binds)) r.ranges
      r.mmu.pageMap := by
  obtain ⟨m, hcut, hranges, hpages, -⟩ := addRange_succeeds h hw hfails hr
  rw [hranges, hpages]
  refine h.bind hw hcut (fun p hout x hx => ?_) fun p hin => ?_
  · obtain ⟨b', hb', hpage⟩ := hx
    refine ⟨b', ?_, hpage⟩
    rw [lastBind, List.find?_cons_of_neg]
    · exact hb'
    · exact fun hp => hout (of_decide_eq_true hp)
  · refine ⟨⟨entry, start, last, offset⟩, ?_, rfl⟩
    rw [lastBind, List.find?_cons_of_pos]
    exact decide_eq_true hin

theorem Consistent.removeRange (h : Consistent noMapZero size K b.ranges b.mmu.pageMap)
    (hfails : b.mmu.fails = []) (hr : r = removeRange noMapZero start last o b) :
    Consistent noMapZero size K r.ranges r.mmu.pageMap ∧
      ∀ e, r.vboCount e = b.vboCount e + naming r.ranges e - naming b.ranges e := by
  have hun := removeRange_cases h hr
  refine ⟨?_, fun e => ?_⟩
  · rcases hun.state with ⟨hgood, -⟩ | ⟨-, hbad, -⟩
    · rw [append_nil] at hgood
      exact hgood
    · rw [hfails] at hbad
      exact absurd (zeroMapsHold_nil _) hbad
  · have hcount := hun.count e
    rw [append_nil] at hcount
    exact hcount

end Succeeds

/-! ## The counts -/

def opsHeld (ops : List BindOp) (e : ℕ) : ℕ := (ops.map fun op => held op.slots e).sum

/-- `vbo_count` counts the ranges that name an entry and the slots that hold it. -/
def Counted (s : State) : Prop :=
  ∀ e, s.vboCount e = ∑ v ∈ s.vbos, (naming (s.ranges v) e : ℤ) + opsHeld s.ops e

section Counts

variable {s : State} {i v e : ℕ} {ops : List BindOp} {op op' : BindOp}

theorem opsHeld_set (hop : ops[i]? = some op) (hslots : op'.slots = op.slots) (e : ℕ) :
    opsHeld (ops.set i op') e = opsHeld ops e := by
  induction ops generalizing i with
  | nil => rfl
  | cons x rest ih =>
    cases i with
    | zero =>
      rw [Option.some.inj hop]
      show held op'.slots e + _ = held op.slots e + _
      rw [hslots]
    | succ i =>
      show held x.slots e + opsHeld (rest.set i op') e = held x.slots e + opsHeld rest e
      rw [ih hop]

theorem opsHeld_eraseIdx (hop : ops[i]? = some op) (e : ℕ) :
    opsHeld ops e = opsHeld (ops.eraseIdx i) e + held op.slots e := by
  induction ops generalizing i with
  | nil => cases hop
  | cons x rest ih =>
    cases i with
    | zero =>
      rw [Option.some.inj hop]
      exact Nat.add_comm _ _
    | succ i =>
      show held x.slots e + opsHeld rest e = held x.slots e + opsHeld (rest.eraseIdx i) e + _
      rw [ih hop]
      exact (Nat.add_assoc _ _ _).symm

theorem opsHeld_append (ops : List BindOp) (op : BindOp) (e : ℕ) :
    opsHeld (ops ++ [op]) e = opsHeld ops e + held op.slots e := by
  rw [opsHeld, map_append, sum_append]
  rfl

theorem sum_naming_update {vbos : Finset ℕ} (hv : v ∈ vbos) (ranges : ℕ → List BindRange)
    (l : List BindRange) (e : ℕ) :
    ∑ w ∈ vbos, (naming (update ranges v l w) e : ℤ) =
      ∑ w ∈ vbos, (naming (ranges w) e : ℤ) + naming l e - naming (ranges v) e := by
  rw [← Finset.add_sum_erase vbos _ hv, ← Finset.add_sum_erase vbos (fun w => (naming (ranges w) e : ℤ)) hv]
  have hrest : ∑ w ∈ vbos.erase v, (naming (update ranges v l w) e : ℤ) =
      ∑ w ∈ vbos.erase v, (naming (ranges w) e : ℤ) := by
    refine Finset.sum_congr rfl fun w hw => ?_
    rw [update_of_ne (Finset.ne_of_mem_erase hw)]
  rw [hrest, update_self]
  ring

theorem Counted.putOp (h : Counted s) (hop : s.ops[i]? = some op) (hslots : op'.slots = op.slots) :
    Counted (s.putOp i op') := by
  intro e
  rw [State.putOp]
  split
  · show freeBindOp s.vboCount (op'.slots.map BindSlot.entry) e = _ + (opsHeld (s.ops.eraseIdx i) e : ℤ)
    rw [freeBindOp_apply, h e, opsHeld_eraseIdx hop e, hslots, held]
    push_cast
    ring
  · have hset := @opsHeld_set i s.ops op { op' with ref := op'.ref - 1 } hop hslots e
    show s.vboCount e = _ + (opsHeld (s.ops.set i _) e : ℤ)
    rw [hset]
    exact h e

theorem Counted.edited (h : Counted s) (hv : v ∈ s.vbos) {b : Binding} (bound : List Bound)
    (hb : ∀ e, b.vboCount e = s.vboCount e + naming b.ranges e - naming (s.ranges v) e) :
    Counted (s.edited v b bound) := by
  intro e
  show b.vboCount e = ∑ w ∈ s.vbos, (naming (update s.ranges v b.ranges w) e : ℤ) + opsHeld s.ops e
  rw [sum_naming_update hv, hb e, h e]
  ring

/-- **Each step but a part of a worker** keeps the counts. -/
theorem Counted.next {K : List Bound → ℕ → PageMap → Prop} (h : Counted s) (hs : Sound K s) {a : Action}
    (ha : Enabled s a) (hnot : ∀ i fails, a ≠ .work i fails) : Counted (next s a) := by
  cases a with
  | work i fails => exact absurd rfl (hnot i fails)
  | alloc id entry => exact h
  | pendFree id => exact h
  | allocVbo id size noMapZero secure =>
    intro e
    have hid : s.entries id = none := ha
    have hnew : id ∉ s.vbos := by
      intro hmem
      obtain ⟨e, he, -⟩ := hs.vbo id hmem
      rw [hid] at he
      cases he
    show s.vboCount e =
      ∑ w ∈ insert id s.vbos, (naming (update s.ranges id [] w) e : ℤ) + opsHeld s.ops e
    rw [Finset.sum_insert hnew, update_self]
    have hrest : ∑ w ∈ s.vbos, (naming (update s.ranges id [] w) e : ℤ) =
        ∑ w ∈ s.vbos, (naming (s.ranges w) e : ℤ) := by
      refine Finset.sum_congr rfl fun w hw => ?_
      have hne : w ≠ id := by
        intro hwid
        rw [hwid] at hw
        exact hnew hw
      rw [update_of_ne hne]
    rw [hrest, h e, naming, countP_nil, Nat.cast_zero, zero_add]
  | createBindOp target ranges =>
    have hspec := createBindOp_spec s.entries target ranges s.vboCount
    rw [KgslVbo.next]
    cases hcreate : createBindOp s.entries target ranges s.vboCount with
    | mk result count =>
      rw [hcreate] at hspec
      cases result with
      | error err =>
        intro e
        exact (hspec e).trans (h e)
      | ok slots =>
        intro e
        show count e = _ + (opsHeld (s.ops ++ [_]) e : ℤ)
        rw [hspec.2 e, h e, opsHeld_append]
        push_cast
        ring
  | bindRanges i =>
    rw [KgslVbo.next]
    cases hop : s.ops[i]? with
    | none => exact h
    | some op =>
      intro e
      have hset := @opsHeld_set i s.ops op { op with work := some op.slots, ref := op.ref + 1 } hop rfl e
      show s.vboCount e = _ + (opsHeld (s.ops.set i _) e : ℤ)
      rw [hset]
      exact h e
  | finish i =>
    rw [KgslVbo.next]
    split
    · rename_i hop
      exact h.putOp hop rfl
    · exact h
  | put i =>
    rw [KgslVbo.next]
    cases hop : s.ops[i]? with
    | none => exact h
    | some op => exact h.putOp hop rfl

end Counts

section Work

variable {K : List Bound → ℕ → PageMap → Prop} {s : State} {i v : ℕ} {e : Entry} {slot : BindSlot}
  {rest : List BindSlot} {op : BindOp} {fails : List Bool}

theorem runSlot_cases (he : s.entries v = some e) (slot : BindSlot) (fails : List Bool) :
    (slot.op = .bind ∧ (∀ entry, slot.entry = some entry → s.bindable entry = false) ∧
      s.runSlot v slot fails = s) ∨
    (∃ entry, slot.op = .bind ∧ slot.entry = some entry ∧ s.bindable entry = true ∧
      s.runSlot v slot fails = s.edited v (addRange e.noMapZero slot.start slot.last entry
        slot.childOffset (s.binding v fails)) [⟨entry, slot.start, slot.last, slot.asked⟩]) ∨
    (slot.op ≠ .bind ∧ s.runSlot v slot fails =
      s.edited v (removeRange e.noMapZero slot.start slot.last slot.entry (s.binding v fails)) []) := by
  rw [State.runSlot, he]
  dsimp only
  cases hop : slot.op with
  | bind =>
    cases hentry : slot.entry with
    | none => exact .inl ⟨rfl, fun entry hsome => (nomatch hsome), rfl⟩
    | some entry =>
      dsimp only
      cases hb : s.bindable entry with
      | false =>
        refine .inl ⟨rfl, fun x hx => ?_, if_neg Bool.false_ne_true⟩
        rw [← Option.some.inj hx]
        exact hb
      | true => exact .inr (.inl ⟨entry, rfl, rfl, hb, if_pos rfl⟩)
  | unbind => exact .inr (.inr ⟨by decide, rfl⟩)
  | other => exact .inr (.inr ⟨by decide, rfl⟩)

theorem next_work (hop : s.ops[i]? = some op) (hwork : op.work = some (slot :: rest)) :
    next s (.work i fails) =
      { s.runSlot op.target slot fails with ops := s.ops.set i { op with work := some rest } } := by
  obtain ⟨target, slots, work, ref⟩ := op
  have hsome : work = some (slot :: rest) := hwork
  rw [hsome] at hop
  rw [next, hop]

theorem Sound.work_next (h : Sound K s) (hop : s.ops[i]? = some op)
    (hwork : op.work = some (slot :: rest)) (hslot : Sound K (s.runSlot op.target slot fails))
    (hops : (s.runSlot op.target slot fails).ops = s.ops) : Sound K (KgslVbo.next s (.work i fails)) := by
  rw [next_work hop hwork]
  rw [← hops] at hop ⊢
  refine hslot.setOp hop ?_ ?_ (fun l hl x hx => ?_) _
  · rfl
  · rfl
  · rw [hops] at hop
    rw [← Option.some.inj hl] at hx
    exact h.work op (List.mem_of_getElem? hop) _ hwork x (mem_cons_of_mem _ hx)

theorem runSlot_ops (s : State) (v : ℕ) (slot : BindSlot) (fails : List Bool) :
    (s.runSlot v slot fails).ops = s.ops := by
  cases he : s.entries v with
  | none => rw [State.runSlot, he]
  | some e =>
    rcases runSlot_cases he slot fails with ⟨-, -, hsame⟩ | ⟨entry, -, -, -, hsame⟩ | ⟨-, hsame⟩
    · rw [hsame]
    · rw [hsame]
      rfl
    · rw [hsame]
      rfl

/-- **A part whose calls succeed** keeps the agreement and the counts. -/
theorem Sound.work_succeeds (h : Sound BoundBy s) (hc : Counted s) (hop : s.ops[i]? = some op)
    (hwork : op.work = some (slot :: rest)) (hfit : slot.op = .bind → slot.asked < 2 ^ 32) :
    Sound BoundBy (KgslVbo.next s (.work i [])) ∧ Counted (KgslVbo.next s (.work i [])) := by
  have hmem := List.mem_of_getElem? hop
  obtain ⟨e, he, hvbo, hslots⟩ := h.target op hmem
  have hslot := hslots slot (h.work op hmem _ hwork slot mem_cons_self)
  obtain ⟨hv, hconsistent⟩ := h.flagged _ e he hvbo
  have hruns : Sound BoundBy (s.runSlot op.target slot []) ∧
      Counted (s.runSlot op.target slot []) := by
    rcases runSlot_cases he slot [] with ⟨-, -, hsame⟩ | ⟨entry, hbind, -, -, hsame⟩ | ⟨-, hsame⟩
    · rw [hsame]
      exact ⟨h, hc⟩
    · have hoffset : slot.childOffset = slot.asked := by
        rw [hslot.offset, Nat.mod_eq_of_lt (hfit hbind)]
      rw [hsame, hoffset]
      obtain ⟨m, -, -, -, hcount⟩ := @addRange_succeeds _ _ _ _ entry slot.asked _
        (s.binding op.target []) _ hconsistent hslot.window rfl rfl
      exact ⟨h.edited he (hconsistent.addRange hslot.window rfl rfl), hc.edited hv _ hcount⟩
    · obtain ⟨hgood, hcount⟩ := @Consistent.removeRange _ _ slot.start slot.last _
        (s.binding op.target []) _ slot.entry hconsistent rfl rfl
      rw [hsame]
      exact ⟨h.edited he hgood, hc.edited hv _ hcount⟩
  refine ⟨h.work_next hop hwork hruns.1 (runSlot_ops _ _ _ _), fun x => ?_⟩
  have hset := @opsHeld_set i s.ops op { op with work := some rest } hop rfl x
  rw [next_work hop hwork]
  show (s.runSlot op.target slot []).vboCount x = _ + (opsHeld (s.ops.set i _) x : ℤ)
  rw [hset, hruns.2 x, runSlot_ops]

theorem Sound.work_pageMap (h : Sound K s) (hop : s.ops[i]? = some op)
    (hwork : op.work = some (slot :: rest)) (hbind : slot.op = .bind) {w p : ℕ}
    (hout : w ≠ op.target ∨ ¬InWindow slot.start slot.last p) :
    (KgslVbo.next s (.work i [])).pageMap w p = s.pageMap w p := by
  have hmem := List.mem_of_getElem? hop
  obtain ⟨e, he, hvbo, hslots⟩ := h.target op hmem
  have hslot := hslots slot (h.work op hmem _ hwork slot mem_cons_self)
  obtain ⟨hv, hconsistent⟩ := h.flagged _ e he hvbo
  rw [next_work hop hwork]
  show (s.runSlot op.target slot []).pageMap w p = s.pageMap w p
  rcases runSlot_cases he slot [] with ⟨-, -, hsame⟩ | ⟨entry, -, -, -, hsame⟩ | ⟨hnot, -⟩
  · rw [hsame]
  · rw [hsame]
    show update s.pageMap op.target _ w p = s.pageMap w p
    by_cases hw : w = op.target
    · have hin := hout.resolve_left fun hne => hne hw
      obtain ⟨m, hcut, -, hpages, -⟩ := @addRange_succeeds _ _ _ _ entry slot.childOffset _
        (s.binding op.target []) _ hconsistent hslot.window rfl rfl
      rw [hw, update_self, hpages]
      dsimp only
      rw [if_neg hin, hcut.outside p hin]
      rfl
    · rw [update_of_ne hw]
  · exact absurd hbind hnot

end Work

/-! ## Runs -/

def MmuSucceeds : Action → Prop
  | .work _ fails => fails = []
  | _ => True

def Exact (s : State) : Action → Prop
  | .createBindOp target ranges =>
    (createBindOp s.entries target ranges s.vboCount).1.isOk = true → OffsetsFit ranges
  | _ => True

instance : ∀ a, Decidable (MmuSucceeds a)
  | .work _ fails => inferInstanceAs (Decidable (fails = []))
  | .alloc _ _ | .allocVbo _ _ _ _ | .pendFree _ | .createBindOp _ _ | .bindRanges _ | .finish _
  | .put _ => isTrue trivial

instance (s : State) : ∀ a, Decidable (Exact s a)
  | .createBindOp _ ranges => inferInstanceAs (Decidable (_ = true → OffsetsFit ranges))
  | .work _ _ | .alloc _ _ | .allocVbo _ _ _ _ | .pendFree _ | .bindRanges _ | .finish _
  | .put _ => isTrue trivial

/-- **What should hold in every state**: the VBOs are consistent and their pages are what the last
binds asked for; the counts are right; the next bind changes only the pages it names. -/
structure Agrees (s : State) : Prop where
  consistent : ∀ v e, s.entries v = some e → e.vbo = true →
    Consistent e.noMapZero e.size (BoundBy (s.binds v)) (s.ranges v) (s.pageMap v)
  counted : Counted s
  bind : ∀ i op slot rest, s.ops[i]? = some op → op.work = some (slot :: rest) → slot.op = .bind →
    ∀ w p, w ≠ op.target ∨ ¬InWindow slot.start slot.last p →
      (next s (.work i [])).pageMap w p = s.pageMap w p

theorem slots_next {s : State} {a : Action} {op : BindOp} (hop : op ∈ (next s a).ops) :
    (∃ op₀ ∈ s.ops, op.slots = op₀.slots) ∨ ∃ target ranges count, a = .createBindOp target ranges ∧
      createBindOp s.entries target ranges s.vboCount = (.ok op.slots, count) := by
  have hset : ∀ {i : ℕ} {x y : BindOp}, s.ops[i]? = some x → y.slots = x.slots →
      op ∈ s.ops.set i y → ∃ op₀ ∈ s.ops, op.slots = op₀.slots := by
    intro i x y hx hy hmem
    rcases mem_or_eq_of_mem_set hmem with hold | rfl
    · exact ⟨op, hold, rfl⟩
    · exact ⟨x, List.mem_of_getElem? hx, hy⟩
  have hput : ∀ {i : ℕ} {x y : BindOp}, s.ops[i]? = some x → y.slots = x.slots →
      op ∈ (s.putOp i y).ops → ∃ op₀ ∈ s.ops, op.slots = op₀.slots := by
    intro i x y hx hy hmem
    rw [State.putOp] at hmem
    split at hmem
    · exact ⟨op, mem_of_mem_eraseIdx hmem, rfl⟩
    · refine hset hx ?_ hmem
      exact hy
  cases a with
  | alloc id entry => exact .inl ⟨op, hop, rfl⟩
  | allocVbo id size noMapZero secure => exact .inl ⟨op, hop, rfl⟩
  | pendFree id => exact .inl ⟨op, hop, rfl⟩
  | createBindOp target ranges =>
    rw [next] at hop
    cases hcreate : createBindOp s.entries target ranges s.vboCount with
    | mk result count =>
      rw [hcreate] at hop
      cases result with
      | error err => exact .inl ⟨op, hop, rfl⟩
      | ok slots =>
        rcases mem_append.mp hop with hold | hnew
        · exact .inl ⟨op, hold, rfl⟩
        · rw [mem_singleton.mp hnew]
          exact .inr ⟨target, ranges, count, rfl, hcreate⟩
  | bindRanges i =>
    rw [next] at hop
    cases hx : s.ops[i]? with
    | none =>
      rw [hx] at hop
      exact .inl ⟨op, hop, rfl⟩
    | some x =>
      rw [hx] at hop
      refine .inl (hset hx ?_ hop)
      rfl
  | work i fails =>
    rw [next] at hop
    split at hop
    · rename_i hx
      refine .inl (hset hx ?_ hop)
      rfl
    · exact .inl ⟨op, hop, rfl⟩
  | finish i =>
    rw [next] at hop
    split at hop
    · rename_i hx
      refine .inl (hput hx ?_ hop)
      rfl
    · exact .inl ⟨op, hop, rfl⟩
  | put i =>
    rw [next] at hop
    cases hx : s.ops[i]? with
    | none =>
      rw [hx] at hop
      exact .inl ⟨op, hop, rfl⟩
    | some x =>
      rw [hx] at hop
      exact .inl (hput hx rfl hop)

def SlotsFit (s : State) : Prop :=
  ∀ op ∈ s.ops, ∀ slot ∈ op.slots, slot.op = .bind → slot.asked < 2 ^ 32

theorem SlotsFit.next {s : State} {a : Action} (h : SlotsFit s) (ha : Exact s a) :
    SlotsFit (KgslVbo.next s a) := by
  intro op hop slot hslot hbind
  rcases slots_next hop with ⟨op₀, hop₀, hslots⟩ | ⟨target, ranges, count, rfl, hcreate⟩
  · rw [hslots] at hslot
    exact h op₀ hop₀ slot hslot hbind
  · have hspec := createBindOp_spec s.entries target ranges s.vboCount
    have hfit : (createBindOp s.entries target ranges s.vboCount).1.isOk = true → OffsetsFit ranges := ha
    rw [hcreate] at hspec hfit
    obtain ⟨⟨e, -, -, hslots⟩, -⟩ := hspec
    exact (hslots slot hslot).2 (hfit rfl) hbind

/-- **Ranges, pages and counts agree** in every run whose accepted binds have child offsets below
`2 ^ 32`. -/
theorem ranges_agree_of_reachable {s : State}
    (h : (bindMachine fun s a => MmuSucceeds a ∧ Exact s a).Reachable s) : Agrees s := by
  have hinv : (Sound BoundBy s ∧ Counted s) ∧ SlotsFit s := by
    refine h.invariant (I := fun s => (Sound BoundBy s ∧ Counted s) ∧ SlotsFit s) ?_ ?_
    · intro s hs
      have hs' : s = initial := hs
      rw [hs']
      exact ⟨⟨sound_initial, fun e => rfl⟩, fun op hop => (nomatch hop)⟩
    · intro s a hi ha
      obtain ⟨⟨hsound, hcounted⟩, hfit⟩ := hi
      obtain ⟨henabled, hmmu, hexact⟩ := ha
      refine ⟨?_, hfit.next hexact⟩
      by_cases hwork : ∃ i fails, a = .work i fails
      · obtain ⟨i, fails, rfl⟩ := hwork
        have hnone : fails = [] := hmmu
        rw [hnone]
        obtain ⟨op, hop, hne⟩ := henabled
        have hop' : s.ops[i]? = some op := hop
        have hmem := List.mem_of_getElem? hop'
        cases hlist : op.work with
        | none =>
          rw [hlist] at hne
          exact absurd rfl hne
        | some l =>
          cases l with
          | nil =>
            rw [hlist] at hne
            exact absurd rfl hne
          | cons slot rest =>
            have hslot := hsound.work op hmem _ hlist slot mem_cons_self
            exact hsound.work_succeeds hcounted hop' hlist (hfit op hmem slot hslot)
      · have hnot : ∀ i fails, a ≠ .work i fails := fun i fails ha => hwork ⟨i, fails, ha⟩
        exact ⟨hsound.next henabled hnot, hcounted.next hsound henabled hnot⟩
  obtain ⟨⟨hsound, hcounted⟩, -⟩ := hinv
  refine ⟨fun v e he hvbo => (hsound.flagged v e he hvbo).2, hcounted, ?_⟩
  intro i op slot rest hop hwork hbind w p hout
  exact hsound.work_pageMap hop hwork hbind hout

/-- A child of two pages is bound, one page of it is bound again over the other, and then it is
unbound. -/
def twoBinds : List Action :=
  [.alloc 2 ⟨8192, false, false, false, false⟩, .allocVbo 1 16384 true false,
    .createBindOp 1 [⟨0, 0, 8192, 2, .bind⟩, ⟨4096, 4096, 4096, 2, .bind⟩, ⟨0, 0, 4096, 2, .unbind⟩],
    .bindRanges 0, .work 0 [], .work 0 [], .work 0 [], .finish 0, .put 0]

theorem agrees_twoBinds :
    Agrees ((bindMachine fun s a => MmuSucceeds a ∧ Exact s a).exec initial twoBinds) :=
  ranges_agree_of_reachable ((Machine.Reachable.init
    (M := bindMachine fun s a => MmuSucceeds a ∧ Exact s a) rfl).exec twoBinds (by decide))

/-- A bind whose child offset is `2 ^ 32`, in a child that is a page longer. -/
def farBind : List Action :=
  [.alloc 2 ⟨2 ^ 32 + 4096, false, false, false, false⟩, .allocVbo 1 4096 true false,
    .createBindOp 1 [⟨2 ^ 32, 0, 4096, 2, .bind⟩], .bindRanges 0, .work 0 []]

/-- The page goes to the first page of the child, not to the one the bind asked for. -/
theorem not_agrees : ¬∀ s, (bindMachine fun _ a => MmuSucceeds a).Reachable s → Agrees s := by
  intro hall
  have h := hall _ ((Machine.Reachable.init (M := bindMachine fun _ a => MmuSucceeds a) rfl).exec
    farBind (by decide))
  have hc := h.consistent 1 ⟨4096, true, true, false, false⟩ rfl rfl
  obtain ⟨-, b, hb, hpage⟩ := hc.bound ⟨0, 4095, 2⟩ (by decide) 0 (by decide)
  have hlast : lastBind (((bindMachine fun _ a => MmuSucceeds a).exec initial farBind).binds 1) 0 =
      some ⟨2, 0, 4095, 2 ^ 32⟩ := rfl
  rw [hlast] at hb
  rw [← Option.some.inj hb] at hpage
  revert hpage
  decide

end KgslVbo
