import Mathlib

/-!
# Lists of disjoint intervals

Intervals with inclusive ends, kept in a list by their starts: the in-order walk of an interval
tree. A walk visits the intervals that meet a window; its body may take the visited interval out
and put back pieces that do not meet the window any more.
-/

namespace Intervals

open List

variable {α σ : Type*} [DecidableEq α] (lo hi : α → ℕ)

/-- Insertion behind the intervals that start no later. -/
def insertBy (x : α) : List α → List α
  | [] => [x]
  | y :: l => if lo x < lo y then x :: y :: l else y :: insertBy x l

omit [DecidableEq α] in
theorem mem_insertBy {x y : α} {l : List α} : y ∈ insertBy lo x l ↔ y = x ∨ y ∈ l := by
  induction l with
  | nil => exact mem_cons
  | cons z l ih =>
    rw [insertBy]
    split
    · exact mem_cons
    · rw [mem_cons, ih, mem_cons]
      exact or_left_comm

omit [DecidableEq α] in
theorem countP_insertBy (p : α → Bool) (x : α) (l : List α) :
    (insertBy lo x l).countP p = l.countP p + if p x = true then 1 else 0 := by
  induction l with
  | nil => exact countP_cons
  | cons z l ih =>
    rw [insertBy]
    split
    · exact countP_cons
    · rw [countP_cons, ih, countP_cons]
      exact Nat.add_right_comm _ _ _

omit [DecidableEq α] in
theorem insertBy_append {x : α} {pre post : List α} (hpre : ∀ y ∈ pre, lo y ≤ lo x)
    (hpost : ∀ y ∈ post, lo x < lo y) : insertBy lo x (pre ++ post) = pre ++ x :: post := by
  induction pre with
  | nil =>
    cases post with
    | nil => rfl
    | cons y post =>
      show insertBy lo x (y :: post) = x :: y :: post
      rw [insertBy, if_pos (hpost y mem_cons_self)]
  | cons y pre ih =>
    have hy := hpre y mem_cons_self
    show insertBy lo x (y :: (pre ++ post)) = y :: (pre ++ x :: post)
    rw [insertBy, if_neg (Nat.not_lt.mpr hy), ih fun z hz => hpre z (mem_cons_of_mem y hz)]

def Apart (l : List α) : Prop := l.Pairwise fun a b => hi a < lo b

variable {lo hi}

omit [DecidableEq α] in
theorem Apart.insertBy {x : α} {l : List α} (h : Apart lo hi l) (hx : lo x ≤ hi x)
    (hne : ∀ y ∈ l, lo y ≤ hi y) (hdisjoint : ∀ y ∈ l, hi y < lo x ∨ hi x < lo y) :
    Apart lo hi (Intervals.insertBy lo x l) := by
  induction l with
  | nil => exact pairwise_singleton _ _
  | cons y l ih =>
    obtain ⟨hy, hl⟩ := pairwise_cons.mp h
    have hrest := ih hl (fun z hz => hne z (mem_cons_of_mem y hz))
      fun z hz => hdisjoint z (mem_cons_of_mem y hz)
    have hyne := hne y mem_cons_self
    rw [Intervals.insertBy]
    split
    · rename_i hlt
      refine pairwise_cons.mpr ⟨fun z hz => ?_, h⟩
      have hxy : hi x < lo y := (hdisjoint y mem_cons_self).resolve_left (by omega)
      rcases mem_cons.mp hz with rfl | hz
      · exact hxy
      · have := hy z hz
        omega
    · rename_i hge
      refine pairwise_cons.mpr ⟨fun z hz => ?_, hrest⟩
      rcases (mem_insertBy lo).mp hz with rfl | hz
      · rcases hdisjoint y mem_cons_self with hlt | hlt
        · exact hlt
        · omega
      · exact hy z hz

omit [DecidableEq α] in
theorem Apart.eq_of_mem {l : List α} (h : Apart lo hi l) {a b : α} {p : ℕ} (ha : a ∈ l) (hb : b ∈ l)
    (hap : lo a ≤ p ∧ p ≤ hi a) (hbp : lo b ≤ p ∧ p ≤ hi b) : a = b := by
  induction l with
  | nil => cases ha
  | cons y l ih =>
    obtain ⟨hy, hl⟩ := pairwise_cons.mp h
    rcases mem_cons.mp ha with hay | hmem
    · rcases mem_cons.mp hb with hby | hmem'
      · rw [hay, hby]
      · have := hy b hmem'
        rw [hay] at hap
        omega
    · rcases mem_cons.mp hb with hby | hmem'
      · have := hy a hmem
        rw [hby] at hbp
        omega
      · exact ih hl hmem hmem'

variable (lo hi)

def Meets (s t : ℕ) (a : α) : Prop := lo a ≤ t ∧ s ≤ hi a
deriving Decidable

def iterFirst (s t : ℕ) (l : List α) : Option α := l.find? fun a => Meets lo hi s t a

def iterNext (s t : ℕ) (a : α) (l : List α) : Option α :=
  iterFirst lo hi s t (l.dropWhile (· ≠ a)).tail

/-- A walk: the next interval is looked up before the body takes the present one. -/
def walk (body : α → List α → σ → List α × σ × Bool) (s t : ℕ) :
    ℕ → Option α → List α → σ → List α × σ × Bool
  | 0, _, l, x => (l, x, true)
  | _ + 1, none, l, x => (l, x, true)
  | n + 1, some a, l, x =>
    let next := iterNext lo hi s t a l
    match body a l x with
    | (l', x', true) => walk body s t n next l' x'
    | (l', x', false) => (l', x', false)

variable {lo hi}

theorem iterNext_append {s t : ℕ} {a : α} {pre post : List α} (h : a ∉ pre) :
    iterNext lo hi s t a (pre ++ a :: post) = iterFirst lo hi s t post := by
  have hdrop : (pre ++ a :: post).dropWhile (· ≠ a) = a :: post := by
    rw [dropWhile_append_of_pos fun b hb => ?_]
    · rw [dropWhile_cons_of_neg]
      simp
    · have hne : b ≠ a := fun hba => h (hba ▸ hb)
      exact decide_eq_true hne
  rw [iterNext, hdrop, tail_cons]

omit [DecidableEq α] in
theorem skip_rule {s t : ℕ} {I : List α → List α → σ → Prop}
    (hskip : ∀ pre a post x, I pre (a :: post) x → ¬Meets lo hi s t a → I (pre ++ [a]) post x)
    {pre mid post : List α} {x : σ} (h : I pre (mid ++ post) x)
    (hmid : ∀ a ∈ mid, ¬Meets lo hi s t a) : I (pre ++ mid) post x := by
  induction mid generalizing pre with
  | nil =>
    rw [append_nil]
    exact h
  | cons a mid ih =>
    have hstep := ih (hskip pre a (mid ++ post) x h (hmid a mem_cons_self))
      fun b hb => hmid b (mem_cons_of_mem a hb)
    rw [append_assoc] at hstep
    exact hstep

/-- **The rule of a walk**: `I` speaks of the intervals that are behind the walk and before it, `E`
of the list where the body stops it. -/
theorem walk_rule {body : α → List α → σ → List α × σ × Bool} {s t : ℕ}
    {I : List α → List α → σ → Prop} {E : List α → σ → Prop}
    (hskip : ∀ pre a post x, I pre (a :: post) x → ¬Meets lo hi s t a → I (pre ++ [a]) post x)
    (hfresh : ∀ pre a post x, I pre (a :: post) x → a ∉ pre)
    (hbody : ∀ pre a post x, I pre (a :: post) x → Meets lo hi s t a →
      (∃ pre', (body a (pre ++ a :: post) x).1 = pre' ++ post ∧
        (body a (pre ++ a :: post) x).2.2 = true ∧ I pre' post (body a (pre ++ a :: post) x).2.1) ∨
      (body a (pre ++ a :: post) x).2.2 = false ∧
        E (body a (pre ++ a :: post) x).1 (body a (pre ++ a :: post) x).2.1)
    {n : ℕ} {pre post : List α} {x : σ} (h : I pre post x) (hn : post.length < n) :
    (I (walk lo hi body s t n (iterFirst lo hi s t post) (pre ++ post) x).1 []
        (walk lo hi body s t n (iterFirst lo hi s t post) (pre ++ post) x).2.1 ∧
      (walk lo hi body s t n (iterFirst lo hi s t post) (pre ++ post) x).2.2 = true) ∨
    ((walk lo hi body s t n (iterFirst lo hi s t post) (pre ++ post) x).2.2 = false ∧
      E (walk lo hi body s t n (iterFirst lo hi s t post) (pre ++ post) x).1
        (walk lo hi body s t n (iterFirst lo hi s t post) (pre ++ post) x).2.1) := by
  induction n generalizing pre post x with
  | zero => exact absurd hn (Nat.not_lt_zero _)
  | succ n ih =>
    cases hfirst : iterFirst lo hi s t post with
    | none =>
      rw [walk]
      have hall := List.find?_eq_none.mp hfirst
      have hrest : I pre (post ++ []) x := by
        rw [append_nil]
        exact h
      have hend : I (pre ++ post) [] x :=
        skip_rule hskip hrest fun a ha hmeets => hall a ha (decide_eq_true hmeets)
      exact .inl ⟨hend, rfl⟩
    | some a =>
      obtain ⟨hmeets, mid, rest, hpost, hmid⟩ := List.find?_eq_some_iff_append.mp hfirst
      rw [hpost] at h
      have hat : I (pre ++ mid) (a :: rest) x := by
        refine skip_rule hskip h fun b hb hmeets' => ?_
        have hnot := hmid b hb
        rw [decide_eq_true hmeets'] at hnot
        cases hnot
      have hlist : pre ++ post = (pre ++ mid) ++ a :: rest := by
        rw [hpost, append_assoc]
      rw [walk, hlist, iterNext_append (hfresh _ _ _ _ hat)]
      have hrest : rest.length < n := by
        rw [hpost, length_append, length_cons] at hn
        omega
      rcases hbody _ _ _ _ hat (of_decide_eq_true hmeets) with ⟨pre', hl, htrue, hnext⟩ | ⟨hfalse, hE⟩
      · cases hr : body a (pre ++ mid ++ a :: rest) x with
        | mk l' r =>
          obtain ⟨x', go⟩ := r
          rw [hr] at hl htrue hnext
          dsimp only at hl htrue hnext
          rw [htrue, hl]
          exact ih hnext hrest
      · cases hr : body a (pre ++ mid ++ a :: rest) x with
        | mk l' r =>
          obtain ⟨x', go⟩ := r
          rw [hr] at hfalse hE
          dsimp only at hfalse hE
          rw [hfalse]
          exact .inr ⟨rfl, hE⟩

end Intervals
