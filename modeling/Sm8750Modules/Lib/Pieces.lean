import Mathlib.Data.List.Basic
import Mathlib.Algebra.Ring.Nat

/-!
# Lists in pieces

A list that is held as a list of pieces, and the loops that cut it: from the front, from the end, a range
of it. Each loop carries a running offset, takes whole pieces away and cuts at most the pieces at the two
ends of the range.
-/

namespace Pieces

open List

/-- A piece has a size and elements, and can be cut on both sides. -/
structure Ops (P α : Type*) where
  size : P → ℕ
  view : P → List α
  behind : P → ℕ → P
  /-- The first elements of the piece. -/
  upTo : P → ℕ → P
  length_view : ∀ p, (view p).length = size p
  view_behind : ∀ p n, n < size p → view (behind p n) = (view p).drop n
  view_upTo : ∀ p n, n ≤ size p → view (upTo p n) = (view p).take n

variable {P α : Type*} (O : Ops P α)

def flat (ps : List P) : List α := ps.flatMap O.view

def total (ps : List P) : ℕ := (ps.map O.size).sum

variable (ps : List P)

@[simp] theorem flat_nil : flat O [] = [] := rfl

@[simp] theorem flat_cons (p : P) (ps : List P) : flat O (p :: ps) = O.view p ++ flat O ps := rfl

@[simp] theorem flat_append (ps qs : List P) : flat O (ps ++ qs) = flat O ps ++ flat O qs :=
  flatMap_append

@[simp] theorem total_nil : total O [] = 0 := rfl

@[simp] theorem total_cons (p : P) (ps : List P) : total O (p :: ps) = O.size p + total O ps := rfl

@[simp] theorem total_append (ps qs : List P) : total O (ps ++ qs) = total O ps + total O qs := by
  simp [total]

@[simp] theorem length_flat : (flat O ps).length = total O ps := by
  induction ps with
  | nil => rfl
  | cons p ps ih => simp [ih, O.length_view]

/-- Without the first `n` elements. -/
def dropPieces : List P → ℕ → List P
  | [], _ => []
  | p :: ps, n =>
    if n = 0 then p :: ps
    else if O.size p ≤ n then dropPieces ps (n - O.size p)
    else O.behind p n :: ps

theorem flat_dropPieces (n : ℕ) : flat O (dropPieces O ps n) = (flat O ps).drop n := by
  induction ps generalizing n with
  | nil => simp [dropPieces]
  | cons p ps ih =>
    rw [dropPieces, flat_cons, drop_append, O.length_view]
    split
    · next h => simp [h]
    · split
      · next h =>
        have hfront : (O.view p).drop n = [] := drop_eq_nil_of_le (by rw [O.length_view]; exact h)
        rw [ih, hfront, nil_append]
      · next h =>
        rw [flat_cons, O.view_behind p n (by omega), show n - O.size p = 0 by omega, drop_zero]

/-- Without the last `n` elements. -/
def dropLastPieces : List P → ℕ → List P
  | [], _ => []
  | p :: ps, n =>
    if n = 0 then p :: ps
    else if O.size p ≤ n then dropLastPieces ps (n - O.size p)
    else O.upTo p (O.size p - n) :: ps

theorem flat_dropLastPieces (n : ℕ) :
    flat O (dropLastPieces O ps n).reverse = (flat O ps.reverse).take (total O ps - n) := by
  induction ps generalizing n with
  | nil => simp [dropLastPieces]
  | cons p ps ih =>
    have htotal : (flat O ps.reverse).length = total O ps := by
      simp [total]
    rw [dropLastPieces, reverse_cons, flat_append, take_append, htotal, total_cons]
    split
    · next h =>
      rw [h, Nat.sub_zero, take_of_length_le (by omega), take_of_length_le, reverse_cons,
        flat_append]
      simp [O.length_view]
    · split
      · next h =>
        rw [ih, show O.size p + total O ps - n = total O ps - (n - O.size p) by omega,
          show total O ps - (n - O.size p) - total O ps = 0 by omega, take_zero, append_nil]
      · next h =>
        rw [reverse_cons, flat_append, take_of_length_le (by omega), flat_cons, flat_cons,
          O.view_upTo p _ (Nat.sub_le _ _), show O.size p + total O ps - n - total O ps = O.size p - n by omega]
        simp

/-- The elements of a range, piece by piece. -/
def copyRange : List P → ℕ → ℕ → List α
  | [], _, _ => []
  | p :: ps, off, len =>
    if len = 0 then []
    else if off < O.size p then
      ((O.view p).drop off).take (min len (O.size p - off))
        ++ copyRange ps 0 (len - min len (O.size p - off))
    else copyRange ps (off - O.size p) len

def pieceRange : List P → ℕ → ℕ → List P
  | [], _, _ => []
  | p :: ps, off, len =>
    if len = 0 then []
    else if off < O.size p then
      O.upTo (O.behind p off) (min len (O.size p - off))
        :: pieceRange ps 0 (len - min len (O.size p - off))
    else pieceRange ps (off - O.size p) len

theorem take_drop_append (xs ys : List α) {off len : ℕ} (h : off ≤ xs.length) :
    ((xs ++ ys).drop off).take len
      = (xs.drop off).take (min len (xs.length - off)) ++ ys.take (len - min len (xs.length - off)) := by
  rw [drop_append_of_le_length h, take_append, length_drop]
  congr 1
  · obtain hle | hle := Nat.le_total len (xs.length - off)
    · rw [Nat.min_eq_left hle]
    · rw [Nat.min_eq_right hle, take_of_length_le (by rw [length_drop]; exact hle),
        take_of_length_le (Nat.le_of_eq length_drop)]
  · congr 1
    omega

theorem copyRange_eq (off len : ℕ) : copyRange O ps off len = ((flat O ps).drop off).take len := by
  induction ps generalizing off len with
  | nil => simp [copyRange]
  | cons p ps ih =>
    rw [copyRange, flat_cons]
    split
    · next h => rw [h, take_zero]
    · split
      · next h =>
        have hoff : off ≤ (O.view p).length := by
          rw [O.length_view]
          omega
        rw [ih, take_drop_append _ _ hoff, O.length_view, drop_zero]
      · next h =>
        have hfront : (O.view p).drop off = [] :=
          drop_eq_nil_of_le (by rw [O.length_view]; omega)
        rw [ih, drop_append, O.length_view, hfront, nil_append]

theorem flat_pieceRange (off len : ℕ) :
    flat O (pieceRange O ps off len) = ((flat O ps).drop off).take len := by
  rw [← copyRange_eq]
  induction ps generalizing off len with
  | nil => rfl
  | cons p ps ih =>
    rw [pieceRange, copyRange]
    split
    · rfl
    · split
      · next h =>
        have hsize : O.size (O.behind p off) = O.size p - off := by
          rw [← O.length_view, O.view_behind p off h, length_drop, O.length_view]
        rw [flat_cons, ih, O.view_upTo _ _ (by omega), O.view_behind p off h]
      · exact ih _ _

end Pieces
