import Mathlib

/-!
# Parsing strings in QDF

The parsers of QDF take a string that ends with a zero byte, and consume it from the left.
-/

namespace Qdf

open List

/-- The errors of `QDF_STATUS` that parsers return. -/
inductive Status where
  | failure
  | range
deriving DecidableEq

/-- A string up to its zero byte. -/
structure CString where
  bytes : List UInt8
  noNul : 0 ∉ bytes

def chr (c : Char) : UInt8 := c.toNat.toUInt8

variable (str : List UInt8)

def peek : UInt8 := str.headD 0

/-- `qdf_is_space`: HT, LF, VT, FF, CR, space and nbsp. -/
def isSpace (c : UInt8) : Bool := (9 ≤ c ∧ c ≤ 13) ∨ c = 32 ∨ c = 160

def leftTrim : List UInt8 := str.dropWhile isSpace

/-- `qdf_consume_char`, of a character other than the zero byte. -/
def consumeChar (c : Char) : Option (List UInt8) :=
  if peek str ≠ chr c then none else some str.tail

/-- The value of a hexadecimal digit. -/
def hexVal (c : UInt8) : Option ℕ :=
  if chr '0' ≤ c ∧ c ≤ chr '9' then some (c - chr '0').toNat
  else if chr 'a' ≤ c ∧ c ≤ chr 'f' then some ((c - chr 'a').toNat + 10)
  else if chr 'A' ≤ c ∧ c ≤ chr 'F' then some ((c - chr 'A').toNat + 10)
  else none

def consumeHex : Option (ℕ × List UInt8) :=
  match hexVal (peek str) with
  | none => none
  | some digit => some (digit, str.tail)

@[simp] theorem peek_nil : peek [] = 0 := rfl

@[simp] theorem peek_cons (c : UInt8) (str : List UInt8) : peek (c :: str) = c := rfl

theorem eq_nil_of_peek {str : List UInt8} (hnul : 0 ∉ str) (h : peek str = 0) : str = [] := by
  cases str with
  | nil => rfl
  | cons c rest => exact absurd (h ▸ mem_cons_self) hnul

theorem hexVal_of_isSpace : ∀ c, isSpace c = true → hexVal c = none := by decide +kernel

theorem hexVal_lt : ∀ c, ∀ d ∈ hexVal c, d < 16 := by decide +kernel

theorem ne_of_isSpace : ∀ c, isSpace c = true → c ≠ 0 ∧ c ≠ chr '+' ∧ c ≠ chr '-' ∧ c ≠ chr ':' ∧
    c ≠ chr 'b' ∧ c ≠ chr 'o' ∧ c ≠ chr 'x' := by decide +kernel

theorem ne_of_hexVal : ∀ c, (hexVal c).isSome = true → c ≠ 0 ∧ c ≠ chr '+' ∧ c ≠ chr '-' ∧ c ≠ chr ':' ∧
    isSpace c = false := by decide +kernel

theorem leftTrim_append {w : List UInt8} (hw : ∀ c ∈ w, isSpace c = true) (str : List UInt8) :
    leftTrim (w ++ str) = leftTrim str := dropWhile_append_of_pos hw

theorem leftTrim_eq_self {str : List UInt8} (h : isSpace (peek str) = false) : leftTrim str = str := by
  cases str with
  | nil => rfl
  | cons c rest => exact dropWhile_cons_of_neg (by rw [peek_cons] at h; simp [h])

theorem exists_leftTrim (str : List UInt8) : ∃ w, (∀ c ∈ w, isSpace c = true) ∧ str = w ++ leftTrim str :=
  ⟨str.takeWhile isSpace, fun _ hc => mem_takeWhile_imp hc, (takeWhile_append_dropWhile).symm⟩

theorem peek_leftTrim_iff {str : List UInt8} (hnul : 0 ∉ str) :
    peek (leftTrim str) = 0 ↔ ∀ c ∈ str, isSpace c = true := by
  constructor
  · intro h
    obtain ⟨w, hw, hstr⟩ := exists_leftTrim str
    have hrest : leftTrim str = [] := by
      refine eq_nil_of_peek (fun hmem => hnul ?_) h
      rw [hstr]
      exact mem_append_right w hmem
    rw [hstr, hrest, append_nil]
    exact hw
  · intro h
    have hnil := leftTrim_append h []
    rw [append_nil] at hnil
    rw [hnil]
    rfl

end Qdf
