import Mathlib.Data.List.Basic

/-!
# Segments of a linked list

Nodes that may hold a link to another node or a null link. A segment is the list of nodes that are met
when the links are followed from one link to another.
-/

namespace LinkSegments

variable {α : Type*}

def Seg (link : α → Option (Option α)) : Option α → List α → Option α → Prop
  | p, [], q => p = q
  | p, a :: l, q => p = some a ∧ ∃ r, link a = some r ∧ Seg link r l q

variable {link link' : α → Option (Option α)} {p q r : Option α} {a c x : α} {l pre post : List α}

@[simp] theorem seg_nil : Seg link p [] q ↔ p = q := by
  simp [Seg]

@[simp] theorem seg_cons : Seg link p (a :: l) q ↔ p = some a ∧ ∃ r, link a = some r ∧ Seg link r l q := by
  simp [Seg]

theorem seg_append : Seg link p (pre ++ post) q ↔ ∃ r, Seg link p pre r ∧ Seg link r post q := by
  induction pre generalizing p with
  | nil => simp
  | cons a pre ih =>
    simp only [List.cons_append, seg_cons, ih]
    constructor
    · intro ⟨hp, n, hn, r, hpre, hpost⟩
      exact ⟨r, ⟨hp, n, hn, hpre⟩, hpost⟩
    · intro ⟨r, ⟨hp, n, hn, hpre⟩, hpost⟩
      exact ⟨hp, n, hn, r, hpre, hpost⟩

theorem Seg.congr (h : Seg link p l q) (heq : ∀ a ∈ l, link' a = link a) : Seg link' p l q := by
  induction l generalizing p with
  | nil => exact h
  | cons a l ih =>
    obtain ⟨hp, r, hr, hl⟩ := seg_cons.mp h
    refine seg_cons.mpr ⟨hp, r, ?_, ih hl fun b hb => heq b (List.mem_cons_of_mem a hb)⟩
    rw [heq a List.mem_cons_self, hr]

theorem Seg.redirect (h : Seg link p (pre ++ [c]) q) (heq : ∀ a ∈ pre, link' a = link a)
    (hc : link' c = some r) : Seg link' p (pre ++ [c]) r := by
  obtain ⟨s, hpre, hlast⟩ := seg_append.mp h
  refine seg_append.mpr ⟨s, hpre.congr heq, ?_⟩
  simpa [hc] using (seg_cons.mp hlast).1

theorem Seg.insertAfter (hpre : Seg link p (pre ++ [c]) r) (hpost : Seg link r post q)
    (heqpre : ∀ a ∈ pre, link' a = link a) (heqpost : ∀ a ∈ post, link' a = link a)
    (hc : link' c = some (some x)) (hx : link' x = some r) :
    Seg link' p (pre ++ c :: x :: post) q := by
  rw [List.append_cons, seg_append]
  exact ⟨some x, hpre.redirect heqpre hc, seg_cons.mpr ⟨rfl, r, hx, hpost.congr heqpost⟩⟩

end LinkSegments
