import Mathlib.Data.List.Basic

/-!
# Hashing in blocks of four

A state takes a message in blocks of four elements. What is taken in pieces is what is taken at once, as
long as all pieces but the last one are whole blocks.
-/

namespace Blocks

open List

variable {σ β : Type*} {step : σ → β → β → β → β → σ} {s : σ} {xs ys : List β}

/-- The blocks of a message go into the state; what is left of it is ignored. -/
def absorb (step : σ → β → β → β → β → σ) : σ → List β → σ
  | s, a :: b :: c :: d :: rest => absorb step (step s a b c d) rest
  | s, _ => s

theorem absorb_append (h : 4 ∣ xs.length) : absorb step s (xs ++ ys) = absorb step (absorb step s xs) ys := by
  induction s, xs using absorb.induct step with
  | case1 s a b c d rest ih =>
    have hrest : 4 ∣ rest.length := by
      simp only [length_cons] at h
      omega
    exact ih hrest
  | case2 xs s hshort =>
    match xs with
    | [] => rfl
    | [_] | [_, _] | [_, _, _] =>
      simp only [length_cons, length_nil] at h
      omega
    | a :: b :: c :: d :: rest => exact absurd rfl (hshort a b c d rest)

end Blocks
