import Mathlib.Data.UInt

/-!
# Base64

The text of a list of bytes: four digits for every three bytes, and two or three digits and the padding for
the one or two bytes at the end.
-/

namespace Base64

open List

structure Alphabet (β : Type*) where
  digit : ℕ → β
  pad : β
  digit_inj : ∀ i < 64, ∀ j < 64, digit i = digit j → i = j
  digit_ne_pad : ∀ i < 64, digit i ≠ pad

variable {β : Type*} (A : Alphabet β)

/-- The four digits of three bytes. -/
def quad (a b c : UInt8) : List β :=
  let v := a.toNat * 65536 + b.toNat * 256 + c.toNat
  [A.digit (v / 262144), A.digit (v / 4096 % 64), A.digit (v / 64 % 64), A.digit (v % 64)]

def lastTwo (a b : UInt8) : List β :=
  let v := a.toNat * 256 + b.toNat
  [A.digit (v / 1024), A.digit (v / 16 % 64), A.digit (v * 4 % 64), A.pad]

def lastOne (a : UInt8) : List β := [A.digit (a.toNat / 4), A.digit (a.toNat * 16 % 64), A.pad, A.pad]

/-- The text of a list of bytes. -/
def encode : List UInt8 → List β
  | [] => []
  | [a] => lastOne A a
  | [a, b] => lastTwo A a b
  | a :: b :: c :: rest => quad A a b c ++ encode rest

@[simp] theorem length_quad (a b c : UInt8) : (quad A a b c).length = 4 := by simp [quad]

theorem length_encode (bytes : List UInt8) : (encode A bytes).length = (bytes.length + 2) / 3 * 4 := by
  fun_induction encode A bytes with
  | case1 => rfl
  | case2 a => simp [lastOne]
  | case3 a b => simp [lastTwo]
  | case4 a b c rest ih =>
    rw [length_append, ih, length_quad, length_cons, length_cons, length_cons]
    omega

variable {A}

theorem quad_inj {a b c a' b' c' : UInt8} (h : quad A a b c = quad A a' b' c') :
    a = a' ∧ b = b' ∧ c = c' := by
  have := a.toNat_lt
  have := b.toNat_lt
  have := c.toNat_lt
  have := a'.toNat_lt
  have := b'.toNat_lt
  have := c'.toNat_lt
  simp only [quad, List.cons.injEq] at h
  have h1 := A.digit_inj _ (by omega) _ (by omega) h.1
  have h2 := A.digit_inj _ (by omega) _ (by omega) h.2.1
  have h3 := A.digit_inj _ (by omega) _ (by omega) h.2.2.1
  have h4 := A.digit_inj _ (by omega) _ (by omega) h.2.2.2.1
  rw [← UInt8.toNat_inj, ← UInt8.toNat_inj, ← UInt8.toNat_inj]
  omega

theorem lastTwo_inj {a b a' b' : UInt8} (h : lastTwo A a b = lastTwo A a' b') : a = a' ∧ b = b' := by
  have := a.toNat_lt
  have := b.toNat_lt
  have := a'.toNat_lt
  have := b'.toNat_lt
  simp only [lastTwo, List.cons.injEq] at h
  have h1 := A.digit_inj _ (by omega) _ (by omega) h.1
  have h2 := A.digit_inj _ (by omega) _ (by omega) h.2.1
  have h3 := A.digit_inj _ (by omega) _ (by omega) h.2.2.1
  rw [← UInt8.toNat_inj, ← UInt8.toNat_inj]
  omega

theorem lastOne_inj {a a' : UInt8} (h : lastOne A a = lastOne A a') : a = a' := by
  have := a.toNat_lt
  have := a'.toNat_lt
  simp only [lastOne, List.cons.injEq] at h
  have h1 := A.digit_inj _ (by omega) _ (by omega) h.1
  have h2 := A.digit_inj _ (by omega) _ (by omega) h.2.1
  rw [← UInt8.toNat_inj]
  omega

theorem quad_ne_lastTwo {a b c a' b' : UInt8} {rest : List β} : quad A a b c ++ rest ≠ lastTwo A a' b' := by
  intro h
  simp only [quad, lastTwo, cons_append, List.cons.injEq] at h
  exact A.digit_ne_pad _ (by omega) h.2.2.2.1

theorem quad_ne_lastOne {a b c a' : UInt8} {rest : List β} : quad A a b c ++ rest ≠ lastOne A a' := by
  intro h
  simp only [quad, lastOne, cons_append, List.cons.injEq] at h
  exact A.digit_ne_pad _ (by omega) h.2.2.1

theorem lastTwo_ne_lastOne {a b a' : UInt8} : lastTwo A a b ≠ lastOne A a' := by
  intro h
  simp only [lastTwo, lastOne, List.cons.injEq] at h
  exact A.digit_ne_pad _ (by omega) h.2.2.1

theorem encode_injective : Function.Injective (encode A) := by
  intro xs
  fun_induction encode A xs with
  | case1 =>
    intro ys h
    fun_cases encode A ys with
    | case1 => rfl
    | case2 a => simp [encode, lastOne] at h
    | case3 a b => simp [encode, lastTwo] at h
    | case4 a b c rest => simp [encode, quad] at h
  | case2 a =>
    intro ys h
    fun_cases encode A ys with
    | case1 => simp [encode, lastOne] at h
    | case2 a' => rw [lastOne_inj h]
    | case3 a' b' => exact absurd h.symm lastTwo_ne_lastOne
    | case4 a' b' c' rest => exact absurd h.symm quad_ne_lastOne
  | case3 a b =>
    intro ys h
    fun_cases encode A ys with
    | case1 => simp [encode, lastTwo] at h
    | case2 a' => exact absurd h lastTwo_ne_lastOne
    | case3 a' b' =>
      obtain ⟨rfl, rfl⟩ := lastTwo_inj h
      rfl
    | case4 a' b' c' rest => exact absurd h.symm quad_ne_lastTwo
  | case4 a b c rest ih =>
    intro ys h
    fun_cases encode A ys with
    | case1 => simp [encode, quad] at h
    | case2 a' => exact absurd h quad_ne_lastOne
    | case3 a' b' => exact absurd h quad_ne_lastTwo
    | case4 a' b' c' rest' =>
      obtain ⟨hquad, hrest⟩ := append_inj h (by simp)
      obtain ⟨rfl, rfl, rfl⟩ := quad_inj hquad
      rw [ih hrest]

end Base64
