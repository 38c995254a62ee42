import Mathlib.Data.List.Basic
import Mathlib.Algebra.Order.Ring.Nat

/-!
# Packing intervals

Intervals that may overlap are stored in a row, in the order of their starts. Those that overlap share
what they have in common, so that a run of overlapping intervals is stored once; the next run begins
behind it, maybe after a gap.
-/

namespace Packing

open List

/-- The interval from `start` on of `len` places, stored at `pos`. -/
structure Block where
  start : ℕ
  len : ℕ
  pos : ℕ

/-- Two blocks have the same distance in both, or one is behind the other in both. -/
def Agree (a b : Block) : Prop :=
  a.pos + b.start = b.pos + a.start ∨
    (a.start + a.len ≤ b.start ∧ a.pos + a.len ≤ b.pos) ∨
    (b.start + b.len ≤ a.start ∧ b.pos + b.len ≤ a.pos)

theorem Agree.symm {a b : Block} (h : Agree a b) : Agree b a := by
  rcases h with h | h | h
  · exact .inl h.symm
  · exact .inr (.inr h)
  · exact .inr (.inl h)

theorem Agree.refl (a : Block) : Agree a a := .inl rfl

/-- **Blocks share positions exactly where their intervals overlap.** -/
theorem Agree.shares_iff {a b : Block} (h : Agree a b) {k l : ℕ} (hk : k < a.len) (hl : l < b.len) :
    a.pos + k = b.pos + l ↔ a.start + k = b.start + l := by
  rcases h with h | h | h <;> omega

theorem Agree.distance {a b : Block} (h : Agree a b) (hab : a.start < b.start + b.len)
    (hba : b.start < a.start + a.len) : a.pos + b.start = b.pos + a.start := by
  rcases h with h | h | h <;> omega

/-- Blocks from position `lo` on. -/
structure Packed (lo e p cs cp : ℕ) (blocks : List Block) : Prop where
  start : cs ≤ e
  free : p + cs = cp + e
  low : lo ≤ cp
  block : ∀ b ∈ blocks, lo ≤ b.pos ∧
    ((cs ≤ b.start ∧ b.pos + cs = cp + b.start ∧ b.start + b.len ≤ e) ∨
      (b.start + b.len ≤ cs ∧ b.pos + b.len ≤ cp))
  agree : ∀ a ∈ blocks, ∀ b ∈ blocks, Agree a b

namespace Packed

variable {lo e p cs cp s n q : ℕ} {blocks : List Block}

theorem nil (lo : ℕ) : Packed lo 0 lo 0 lo [] :=
  ⟨le_rfl, rfl, le_rfl, fun _ h => (nomatch h), fun _ h => (nomatch h)⟩

section

variable (h : Packed lo e p cs cp blocks)
include h

theorem le_free {b : Block} (hb : b ∈ blocks) : b.pos + b.len ≤ p ∧ b.start + b.len ≤ e := by
  have hstart := h.start
  have hfree := h.free
  rcases (h.block b hb).2 with hin | hout
  · omega
  · omega

theorem agree_cons {b : Block} (hb : ∀ a ∈ blocks, Agree a b) :
    ∀ x ∈ b :: blocks, ∀ y ∈ b :: blocks, Agree x y := by
  intro x hx y hy
  rcases mem_cons.mp hx with hxb | hxs
  · rw [hxb]
    rcases mem_cons.mp hy with hyb | hys
    · rw [hyb]
      exact Agree.refl b
    · exact (hb y hys).symm
  · rcases mem_cons.mp hy with hyb | hys
    · rw [hyb]
      exact hb x hxs
    · exact h.agree x hxs y hys

theorem skip (hs : e ≤ s) : Packed lo s p s p blocks := by
  have hstart := h.start
  have hfree := h.free
  have hlow := h.low
  refine ⟨le_rfl, rfl, by omega, fun b hb => ⟨(h.block b hb).1, .inr ?_⟩, h.agree⟩
  have hle := h.le_free hb
  omega

theorem fresh (hs : e ≤ s) (hq : p ≤ q) (n : ℕ) :
    Packed lo (s + n) (q + n) s q (⟨s, n, q⟩ :: blocks) := by
  have hstart := h.start
  have hfree := h.free
  have hlow := h.low
  refine ⟨Nat.le_add_right _ _, by omega, by omega, fun b hb => ?_, h.agree_cons fun a ha => ?_⟩
  · rcases mem_cons.mp hb with rfl | hb
    · exact ⟨by show lo ≤ q; omega, .inl ⟨le_rfl, rfl, le_rfl⟩⟩
    · have hle := h.le_free hb
      exact ⟨(h.block b hb).1, .inr (by omega)⟩
  · have hle := h.le_free ha
    exact .inr (.inl ⟨by show a.start + a.len ≤ s; omega, by show a.pos + a.len ≤ q; omega⟩)

/-- **A run goes on** with an interval that begins before its end. -/
theorem overlap (hcs : cs ≤ s) (hs : s ≤ e) (n : ℕ) :
    Packed lo (max e (s + n)) (p + (s + n - e)) cs cp (⟨s, n, p - (e - s)⟩ :: blocks) := by
  have hstart := h.start
  have hfree := h.free
  have hlow := h.low
  refine ⟨le_max_of_le_left hstart, by omega, hlow, fun b hb => ?_, h.agree_cons fun a ha => ?_⟩
  · rcases mem_cons.mp hb with rfl | hb
    · refine ⟨by show lo ≤ p - (e - s); omega, .inl ⟨hcs, ?_, le_max_right _ _⟩⟩
      show p - (e - s) + cs = cp + s
      omega
    · refine ⟨(h.block b hb).1, (h.block b hb).2.imp_left fun hin => ?_⟩
      exact ⟨hin.1, hin.2.1, le_max_of_le_left hin.2.2⟩
  · rcases (h.block a ha).2 with hin | hout
    · refine .inl ?_
      show a.pos + s = p - (e - s) + a.start
      omega
    · refine .inr (.inl ⟨?_, ?_⟩)
      · show a.start + a.len ≤ s
        omega
      · show a.pos + a.len ≤ p - (e - s)
        omega

end

end Packed

end Packing
