import Mathlib.Algebra.BigOperators.Group.Finset.Piecewise
import Mathlib.Algebra.Order.BigOperators.Group.Finset
import Sm8750Modules.SynxGlobal.Table

/-!
# Synx global memory — links to parents

An object that is not signalled is counted by each of its parents, once for each of its slots that names
the parent.
-/

namespace Sm8750Modules.SynxGlobal

open Function List

def Coredata.Pending (e : Coredata) : Prop := e.status = active ∨ e.numChild ≠ 0
deriving Decidable

def Coredata.links (e : Coredata) (p : ℕ) : ℕ := if e.Pending then e.parents.count p else 0

namespace Gmem

variable {g g' : Gmem} {i p q idx parent : ℕ} {e : Coredata} {idxs : List ℕ} {acc : MergeAcc}

def waiting (g : Gmem) (p : ℕ) : ℕ := ∑ c ∈ Finset.range maxObjs, (g.table c).links p

def IsChild (g : Gmem) (c p : ℕ) : Prop := p ≠ 0 ∧ p ∈ (g.table c).parents

def Below (g : Gmem) : ℕ → ℕ → Prop := Relation.TransGen g.IsChild

def Leaf (g : Gmem) (l : ℕ) : Prop := ∀ c, ¬g.IsChild c l

theorem not_isChild_of_empty {c : ℕ} (h : g.table c = {}) : ¬g.IsChild c p := by
  rintro ⟨hp, hmem⟩
  rw [h] at hmem
  exact hp (eq_of_mem_replicate hmem)

theorem links_of_not_pending (h : ¬e.Pending) (p : ℕ) : e.links p = 0 := if_neg h

theorem links_of_pending (h : e.Pending) (p : ℕ) : e.links p = e.parents.count p := if_pos h

theorem setEntry_self (g : Gmem) (i : ℕ) (e : Coredata) : (g.setEntry i e).table i = e :=
  update_self ..

theorem setEntry_of_ne (h : q ≠ i) : (g.setEntry i e).table q = g.table q := update_of_ne h ..

theorem waiting_setEntry (h : i < maxObjs) (e : Coredata) (p : ℕ) :
    (g.setEntry i e).waiting p + (g.table i).links p = g.waiting p + e.links p := by
  have hmem : i ∈ Finset.range maxObjs := Finset.mem_range.mpr h
  have hrest : ∑ c ∈ (Finset.range maxObjs).erase i, ((g.setEntry i e).table c).links p =
      ∑ c ∈ (Finset.range maxObjs).erase i, (g.table c).links p := by
    apply Finset.sum_congr rfl
    intro c hc
    rw [setEntry_of_ne (Finset.ne_of_mem_erase hc)]
  rw [waiting, waiting, ← Finset.sum_erase_add _ _ hmem, ← Finset.sum_erase_add _ _ hmem, hrest,
    setEntry_self]
  omega

theorem waiting_congr (h : ∀ i, (g'.table i).links p = (g.table i).links p) :
    g'.waiting p = g.waiting p := by
  apply Finset.sum_congr rfl
  intro c _
  exact h c

theorem not_pending_of_waiting (h : g.waiting p = 0) (hlt : i < maxObjs) (hc : g.IsChild i p) :
    ¬(g.table i).Pending := by
  intro hpending
  have hzero := Finset.sum_eq_zero_iff.mp h i (Finset.mem_range.mpr hlt)
  rw [Coredata.links, if_pos hpending] at hzero
  exact count_eq_zero.mp hzero hc.2

theorem Below.of_child {c : ℕ} (h : g.IsChild c p) : g.Below c p := .single h

theorem Below.up {l c : ℕ} (h : g.Below l c) (hc : g.IsChild c p) : g.Below l p := h.tail hc

theorem Below.mono {l : ℕ} (hsub : ∀ c q, g.IsChild c q → g'.IsChild c q) (h : g.Below l p) :
    g'.Below l p := Relation.TransGen.mono hsub _ _ h

/-! ### Merging -/

/-- The links of a merge: the parent is one slot more for each time that the object is in the list. -/
structure Linked (g g' : Gmem) (idxs : List ℕ) (parent : ℕ) : Prop where
  bitmap : g'.bitmap = g.bitmap
  entry : ∀ i, g'.table i = { g.table i with parents := (g'.table i).parents }
  same : ∀ i, i ∉ idxs → g'.table i = g.table i
  count : ∀ i q, q ≠ 0 → (g'.table i).parents.count q =
    (g.table i).parents.count q + if q = parent then idxs.count i else 0

theorem Linked.refl (g : Gmem) (parent : ℕ) : Linked g g [] parent :=
  ⟨rfl, fun _ => rfl, fun _ _ => rfl, fun i q _ => by simp⟩

theorem MergeAcc.add_congr {acc : MergeAcc} {e e' : Coredata} (hs : e'.status = e.status)
    (hn : e'.numChild = e.numChild) : acc.add e' = acc.add e := by
  rw [MergeAcc.add, MergeAcc.add, hs, hn]

theorem mergeLink_true {acc' : MergeAcc} (h : g.mergeLink idx parent acc = (g', acc', true)) :
    acc' = acc.add (g.table idx) ∧ Linked g g' [idx] parent := by
  rw [mergeLink] at h
  split at h
  · rename_i slot hslot
    cases h
    refine ⟨rfl, rfl, fun i => ?_, fun i hi => ?_, fun i q hq => ?_⟩
    · rcases eq_or_ne i idx with rfl | hne
      · rw [setEntry_self]
      · rw [setEntry_of_ne hne]
    · exact setEntry_of_ne (fun heq => hi (mem_singleton.mpr heq))
    · rcases eq_or_ne i idx with rfl | hne
      · obtain ⟨hlt, hzero, -⟩ := List.findIdx?_eq_some_iff_getElem.mp hslot
        have hzero : (g.table i).parents[slot] = 0 := by simpa using hzero
        rw [setEntry_self]
        show ((g.table i).parents.set slot parent).count q = _
        rw [count_set hlt, hzero, count_singleton_self, beq_eq_false_iff_ne.mpr hq.symm]
        rcases eq_or_ne q parent with rfl | hp
        · simp
        · simp [hp, hp.symm]
      · rw [setEntry_of_ne hne]
        simp [hne.symm]
  · cases h

theorem Linked.trans {g'' : Gmem} {idxs' : List ℕ} (h : Linked g g' idxs parent)
    (h' : Linked g' g'' idxs' parent) : Linked g g'' (idxs ++ idxs') parent where
  bitmap := h'.bitmap.trans h.bitmap
  entry i := by rw [h'.entry i, h.entry i]
  same i hi := by
    rw [mem_append, not_or] at hi
    rw [h'.same i hi.2, h.same i hi.1]
  count i q hq := by
    rw [h'.count i q hq, h.count i q hq, count_append]
    split
    · omega
    · rfl

theorem Linked.status (h : Linked g g' idxs parent) (i : ℕ) : (g'.table i).status = (g.table i).status := by
  rw [h.entry i]

theorem Linked.numChild (h : Linked g g' idxs parent) (i : ℕ) :
    (g'.table i).numChild = (g.table i).numChild := by
  rw [h.entry i]

/-- **A merge counts its children**: `num_child` and `parent_status` are those of the children before it. -/
theorem mergeLinks_true {acc' : MergeAcc} (h : mergeLinks parent idxs acc g = (g', acc', true)) :
    (∀ i ∈ idxs, i < maxObjs) ∧ Linked g g' idxs parent ∧
      acc' = idxs.foldl (fun acc i => acc.add (g.table i)) acc := by
  induction idxs generalizing acc g with
  | nil =>
    cases h
    exact ⟨fun i hi => absurd hi not_mem_nil, .refl _ parent, rfl⟩
  | cons idx rest ih =>
    rw [mergeLinks] at h
    split at h
    · rename_i hlt
      split at h
      · rename_i g₁ acc₁ hlink
        obtain ⟨hacc, hlinked⟩ := mergeLink_true hlink
        obtain ⟨hlts, hrest, hfold⟩ := ih h
        refine ⟨fun i hi => ?_, hlinked.trans hrest, ?_⟩
        · rcases mem_cons.mp hi with rfl | hi
          · exact hlt
          · exact hlts i hi
        · rw [hfold, hacc, foldl_cons]
          congr 1
          funext acc i
          exact MergeAcc.add_congr (hlinked.status i) (hlinked.numChild i)
      · cases h
    · cases h

theorem MergeAcc.numChild_add (acc : MergeAcc) (e : Coredata) :
    (acc.add e).numChild = acc.numChild + if e.Pending then 1 else 0 := by
  simp only [MergeAcc.add, Coredata.Pending]
  by_cases hs : e.status = active
  · simp [hs]
  · by_cases hn : e.numChild = 0
    · simp [hs, hn]
    · simp [hs, hn]

theorem foldl_numChild (g : Gmem) (idxs : List ℕ) (acc : MergeAcc) :
    (idxs.foldl (fun acc i => acc.add (g.table i)) acc).numChild =
      acc.numChild + idxs.countP fun i => decide (g.table i).Pending := by
  induction idxs generalizing acc with
  | nil => rfl
  | cons i idxs ih =>
    rw [foldl_cons, ih, MergeAcc.numChild_add, countP_cons]
    simp only [decide_eq_true_eq]
    omega

theorem sum_count_eq_countP (f : ℕ → Prop) [DecidablePred f] {idxs : List ℕ}
    (hlt : ∀ i ∈ idxs, i < maxObjs) :
    ∑ c ∈ Finset.range maxObjs, (if f c then idxs.count c else 0) =
      idxs.countP fun i => decide (f i) := by
  induction idxs with
  | nil => simp
  | cons i idxs ih =>
    have hi : i ∈ Finset.range maxObjs := Finset.mem_range.mpr (hlt i mem_cons_self)
    have hsplit : ∀ c, (if f c then (i :: idxs).count c else 0) =
        (if f c then idxs.count c else 0) + if c = i then (if f i then 1 else 0) else 0 := by
      intro c
      rcases eq_or_ne c i with rfl | hne
      · rw [count_cons_self, if_pos rfl]
        split
        · rfl
        · rfl
      · rw [count_cons_of_ne hne.symm, if_neg hne, Nat.add_zero]
    simp only [hsplit, Finset.sum_add_distrib]
    rw [ih fun j hj => hlt j (mem_cons_of_mem i hj), Finset.sum_ite_eq' _ i, if_pos hi,
      countP_cons]
    simp only [decide_eq_true_eq]

theorem Linked.waiting (h : Linked g g' idxs parent) (hlt : ∀ i ∈ idxs, i < maxObjs) (hq : q ≠ 0) :
    g'.waiting q = g.waiting q +
      if q = parent then idxs.countP fun i => decide (g.table i).Pending else 0 := by
  have hlinks : ∀ i, (g'.table i).links q = (g.table i).links q +
      if q = parent then (if (g.table i).Pending then idxs.count i else 0) else 0 := by
    intro i
    have hpending : (g'.table i).Pending ↔ (g.table i).Pending := by
      rw [Coredata.Pending, Coredata.Pending, h.status i, h.numChild i]
    rw [Coredata.links, Coredata.links, h.count i q hq]
    by_cases hp : (g.table i).Pending
    · simp only [hpending, hp, if_true]
    · simp only [hpending, hp, if_false, ite_self]
  rw [Gmem.waiting, Finset.sum_congr rfl fun c _ => hlinks c, Finset.sum_add_distrib]
  refine congrArg (g.waiting q + ·) ?_
  rcases eq_or_ne q parent with rfl | hne
  · simp only [if_true]
    exact sum_count_eq_countP (fun i => (g.table i).Pending) hlt
  · simp only [if_neg hne, Finset.sum_const_zero]

theorem Linked.isChild (h : Linked g g' idxs parent) (hp : parent ≠ 0) (c q : ℕ) :
    g'.IsChild c q ↔ g.IsChild c q ∨ q = parent ∧ c ∈ idxs := by
  constructor
  · rintro ⟨hq, hmem⟩
    have hpos := count_pos_iff.mpr hmem
    rw [h.count c q hq] at hpos
    by_cases hc : 0 < (g.table c).parents.count q
    · exact .inl ⟨hq, count_pos_iff.mp hc⟩
    · right
      split at hpos
      · rename_i heq
        exact ⟨heq, count_pos_iff.mp (by omega)⟩
      · omega
  · rintro (⟨hq, hmem⟩ | ⟨rfl, hmem⟩)
    · refine ⟨hq, count_pos_iff.mp ?_⟩
      rw [h.count c q hq]
      have hpos := count_pos_iff.mpr hmem
      omega
    · refine ⟨hp, count_pos_iff.mp ?_⟩
      rw [h.count c q hp, if_pos rfl]
      have hpos := count_pos_iff.mpr hmem
      omega

/-- One object changes, and it keeps its parents. -/
structure Sets (g g' : Gmem) (idx : ℕ) (e : Coredata) : Prop where
  bitmap : g'.bitmap = g.bitmap
  table : g'.table = Function.update g.table idx e
  parents : e.parents = (g.table idx).parents

section

variable (h : Sets g g' idx e)
include h

theorem Sets.self : g'.table idx = e := by rw [h.table, update_self]

theorem Sets.of_ne (hq : q ≠ idx) : g'.table q = g.table q := by
  rw [h.table, update_of_ne hq]

theorem Sets.isChild (c p : ℕ) : g'.IsChild c p ↔ g.IsChild c p := by
  rw [IsChild, IsChild]
  rcases eq_or_ne c idx with rfl | hne
  · rw [h.self, h.parents]
  · rw [h.of_ne hne]

theorem Sets.waiting (hlt : idx < maxObjs) (p : ℕ) :
    g'.waiting p + (g.table idx).links p = g.waiting p + e.links p := by
  have hset : g'.waiting p = (g.setEntry idx e).waiting p := by
    apply waiting_congr
    intro i
    rw [h.table]
    rfl
  rw [hset]
  exact waiting_setEntry hlt e p

theorem Sets.leaf (l : ℕ) : g'.Leaf l ↔ g.Leaf l := by
  simp only [Leaf, h.isChild]

theorem Sets.below {l : ℕ} (hl : g.Below l p) : g'.Below l p :=
  Below.mono (fun c q hc => (h.isChild c q).mpr hc) hl

end

theorem updateStatusCore_leaf (status : ℕ) (h : (g.table idx).numChild = 0) :
    Sets g (g.updateStatusCore idx status).1 idx
        { g.table idx with status := status, waiters := ∅ } ∧
      (g.updateStatusCore idx status).2 = (g.table idx).parents.filter (· ≠ 0) := by
  simp only [updateStatusCore, h, ne_eq, not_true_eq_false, if_false]
  exact ⟨⟨rfl, rfl, rfl⟩, trivial⟩

theorem updateStatusCore_more (status : ℕ) (h : 1 < (g.table idx).numChild) :
    Sets g (g.updateStatusCore idx status).1 idx (childSignaled (g.table idx) status) ∧
      (g.updateStatusCore idx status).2 = [] := by
  have hne : (g.table idx).numChild ≠ 0 := by omega
  have hmore : (childSignaled (g.table idx) status).numChild ≠ 0 := by
    show (g.table idx).numChild - 1 ≠ 0
    omega
  simp only [updateStatusCore, if_pos hne, if_neg hmore]
  exact ⟨⟨rfl, rfl, rfl⟩, trivial⟩

theorem updateStatusCore_last (status : ℕ) (h : (g.table idx).numChild = 1)
    (href : decRef (g.table idx).refcount ≠ 0) :
    Sets g (g.updateStatusCore idx status).1 idx
        { childSignaled (g.table idx) status with
          waiters := ∅, refcount := decRef (g.table idx).refcount } ∧
      (g.updateStatusCore idx status).2 = (g.table idx).parents.filter (· ≠ 0) := by
  have hne : (g.table idx).numChild ≠ 0 := by omega
  have hlast : (childSignaled (g.table idx) status).numChild = 0 := by
    show (g.table idx).numChild - 1 = 0
    omega
  have href' : decRef ({ childSignaled (g.table idx) status with waiters := ∅ } : Coredata).refcount ≠ 0 :=
    href
  simp only [updateStatusCore, if_pos hne, if_pos hlast, dropRef, if_neg href']
  exact ⟨⟨rfl, rfl, rfl⟩, rfl⟩

theorem count_filter_parents (l : List ℕ) (hp : p ≠ 0) : (l.filter (· ≠ 0)).count p = l.count p := by
  apply count_filter
  simpa using hp

attribute [irreducible] waiting

end Gmem

end Sm8750Modules.SynxGlobal
