import Mathlib.Data.Nat.ModEq
import Mathlib.Data.List.Flatten
import Mathlib.Algebra.BigOperators.Group.List.Basic
import Mathlib.Tactic.Ring

/-!
# Internet checksums of data in chunks

The ones' complement sum of the 16-bit words of some bytes, up to its end-around carries: a number
modulo 65535.
-/

namespace InternetChecksum

open List

/-- The sum of the words of `bs`. The first byte stands in the high half of a word if `high`, and a last
byte without a partner is a word with zero for the other half. -/
def wordSum : Bool → List UInt8 → ℕ
  | _, [] => 0
  | high, b :: bs => (if high then 256 * b.toNat else b.toNat) + wordSum (!high) bs

def flips (bs : List UInt8) : Bool := bs.length % 2 == 1

variable (high : Bool)

@[simp] theorem wordSum_nil : wordSum high [] = 0 := by
  simp [wordSum]

@[simp] theorem flips_nil : flips [] = false := by
  simp [flips]

theorem flips_cons (b : UInt8) (bs : List UInt8) : flips (b :: bs) = !flips bs := by
  unfold flips
  rw [length_cons]
  cases Nat.mod_two_eq_zero_or_one bs.length with
  | inl h => simp [h, Nat.add_mod]
  | inr h => simp [h, Nat.add_mod]

theorem wordSum_append (as bs : List UInt8) :
    wordSum high (as ++ bs) = wordSum high as + wordSum (high ^^ flips as) bs := by
  induction as generalizing high with
  | nil => simp
  | cons a as ih =>
    rw [cons_append, wordSum, wordSum, ih, flips_cons, Nat.add_assoc]
    congr 3
    cases high <;> cases flips as <;> simp

theorem swap_wordSum (bs : List UInt8) : 256 * wordSum high bs ≡ wordSum (!high) bs [MOD 65535] := by
  induction bs generalizing high with
  | nil => simp [Nat.ModEq]
  | cons b bs ih =>
    have hbyte : 256 * (if high then 256 * b.toNat else b.toNat) ≡
        (if !high then 256 * b.toNat else b.toNat) [MOD 65535] := by
      cases high with
      | false => simp [Nat.ModEq]
      | true =>
        simp only [Nat.ModEq, if_true, Bool.not_true, Bool.false_eq_true, if_false]
        omega
    rw [wordSum, wordSum, Nat.mul_add]
    exact hbyte.add (ih (!high))

theorem wordSum_modEq_zero_iff (bs : List UInt8) :
    wordSum true bs ≡ 0 [MOD 65535] ↔ wordSum false bs ≡ 0 [MOD 65535] := by
  constructor
  · intro h
    have hswap := swap_wordSum true bs
    exact hswap.symm.trans (h.mul_left 256)
  · intro h
    have hswap := swap_wordSum false bs
    exact hswap.symm.trans (h.mul_left 256)

/-- The sums of the chunks that start at an odd byte, when the first one starts in the high half or not. -/
def oddChunks : Bool → List (List UInt8) → ℕ
  | _, [] => 0
  | high, c :: cs => (if high then wordSum false c else 0) + oddChunks (high ^^ flips c) cs

theorem wordSum_flatten (cs : List (List UInt8)) :
    wordSum high cs.flatten ≡ (cs.map (wordSum false)).sum + 255 * oddChunks high cs [MOD 65535] := by
  induction cs generalizing high with
  | nil => simp [oddChunks, Nat.ModEq]
  | cons c cs ih =>
    have hchunk : wordSum high c ≡ wordSum false c + 255 * (if high then wordSum false c else 0)
        [MOD 65535] := by
      cases high with
      | false => simp [Nat.ModEq]
      | true =>
        have hswap := swap_wordSum false c
        rw [Bool.not_false] at hswap
        refine hswap.symm.trans ?_
        rw [if_pos rfl, show wordSum false c + 255 * wordSum false c = 256 * wordSum false c by ring]
    rw [flatten_cons, wordSum_append, map_cons, sum_cons, oddChunks]
    refine (hchunk.add (ih _)).trans ?_
    rw [Nat.ModEq]
    congr 1
    ring

theorem chunks_modEq_zero_iff (s : ℕ) (cs : List (List UInt8)) :
    s + (cs.map (wordSum false)).sum ≡ 0 [MOD 65535] ↔
      s + wordSum false cs.flatten ≡ 255 * oddChunks false cs [MOD 65535] := by
  have hflat := (wordSum_flatten false cs).add_left s
  rw [← Nat.add_assoc] at hflat
  constructor
  · intro h
    refine hflat.trans ?_
    simpa using h.add_right (255 * oddChunks false cs)
  · intro h
    have hsum := hflat.symm.trans h
    exact Nat.ModEq.add_right_cancel' (255 * oddChunks false cs) (by simpa using hsum)

theorem same_verdict_iff (t d : ℕ) :
    (t ≡ 0 [MOD 65535] ↔ t ≡ 255 * d [MOD 65535]) ↔
      257 ∣ d ∨ (¬ t ≡ 0 [MOD 65535] ∧ ¬ t ≡ 255 * d [MOD 65535]) := by
  have hdvd : 257 ∣ d ↔ 255 * d ≡ 0 [MOD 65535] := by
    rw [Nat.modEq_zero_iff_dvd, show 65535 = 255 * 257 by norm_num, Nat.mul_dvd_mul_iff_left (by norm_num)]
  rw [hdvd]
  constructor
  · intro h
    by_cases ht : t ≡ 0 [MOD 65535]
    · exact .inl ((h.mp ht).symm.trans ht)
    · exact .inr ⟨ht, fun htd => ht (h.mpr htd)⟩
  · intro h
    cases h with
    | inl hzero => exact ⟨fun ht => ht.trans hzero.symm, fun ht => ht.trans hzero⟩
    | inr hneither => exact iff_of_false hneither.1 hneither.2

def fold16 (n : ℕ) : ℕ := if n = 0 then 0 else (n - 1) % 65535 + 1

theorem fold16_le (n : ℕ) : fold16 n ≤ 65535 := by
  unfold fold16
  split <;> omega

theorem fold16_modEq (n : ℕ) : fold16 n ≡ n [MOD 65535] := by
  unfold fold16 Nat.ModEq
  split <;> omega

theorem fold16_eq_iff (n : ℕ) : fold16 n = 65535 ↔ n ≠ 0 ∧ n ≡ 0 [MOD 65535] := by
  unfold fold16 Nat.ModEq
  split <;> omega

end InternetChecksum
