import Mathlib

/-!
# Counted references

A store of objects that are created with one reference, and freed when the last one is dropped. Nothing
here knows what the objects are or who refers to them.
-/

namespace RefCounts

open Function List

variable {ι : Type*} [DecidableEq ι]

/-- Live objects, their counts, and the objects that were freed. -/
structure Store (ι : Type*) where
  live : List ι := []
  refs : ι → ℕ := fun _ => 0
  freed : List ι := []

namespace Store

variable (s : Store ι) (a : ι)

def add : Store ι := { s with live := s.live ++ [a], refs := Function.update s.refs a 1 }

def get : Store ι := { s with refs := Function.update s.refs a (s.refs a + 1) }

/-- The last reference frees the object. -/
def put : Store ι :=
  if s.refs a = 1 then { s with live := s.live.erase a, freed := s.freed ++ [a] }
  else { s with refs := Function.update s.refs a (s.refs a - 1) }

def puts (s : Store ι) : List ι → Store ι
  | [] => s
  | a :: rest => (s.put a).puts rest

def free : Store ι := { s with live := s.live.erase a, freed := s.freed ++ [a] }

def frees (s : Store ι) : List ι → Store ι
  | [] => s
  | a :: rest => (s.free a).frees rest

/-- **The balance**: an object is live while somebody refers to it, its count is the number of references,
and no object is freed twice. -/
structure Balanced (H : Multiset ι) : Prop where
  mem_live : ∀ a, a ∈ s.live ↔ a ∈ H
  refs : ∀ a ∈ H, s.refs a = H.count a
  nodup : s.live.Nodup
  freed : s.freed.Nodup
  gone : ∀ a ∈ s.freed, a ∉ s.live

namespace Balanced

variable {s} {a} {H : Multiset ι}

theorem empty : ({} : Store ι).Balanced 0 where
  mem_live := fun _ => iff_of_false not_mem_nil (Multiset.notMem_zero _)
  refs := fun _ ha => absurd ha (Multiset.notMem_zero _)
  nodup := nodup_nil
  freed := nodup_nil
  gone := fun _ ha => absurd ha not_mem_nil

section

variable (h : s.Balanced H)
include h

theorem unique {H' : Multiset ι} (h' : s.Balanced H') : H = H' := by
  ext a
  by_cases ha : a ∈ s.live
  · rw [← h.refs a ((h.mem_live a).mp ha), h'.refs a ((h'.mem_live a).mp ha)]
  · rw [Multiset.count_eq_zero_of_notMem fun hmem => ha ((h.mem_live a).mpr hmem),
      Multiset.count_eq_zero_of_notMem fun hmem => ha ((h'.mem_live a).mpr hmem)]

theorem add (hlive : a ∉ s.live) (hfreed : a ∉ s.freed) : (s.add a).Balanced (a ::ₘ H) where
  mem_live := by
    intro b
    rw [Multiset.mem_cons, ← h.mem_live]
    simp [Store.add, or_comm]
  refs := by
    intro b hb
    have hH : a ∉ H := fun ha => hlive ((h.mem_live a).mpr ha)
    show update s.refs a 1 b = _
    by_cases hba : b = a
    · rw [hba, update_self, Multiset.count_cons_self, Multiset.count_eq_zero_of_notMem hH]
    · rw [update_of_ne hba, Multiset.count_cons_of_ne hba]
      exact h.refs b ((Multiset.mem_cons.mp hb).resolve_left hba)
  nodup := nodup_append.mpr ⟨h.nodup, nodup_singleton a, fun b hb c hc hbc =>
    hlive (by rwa [← mem_singleton.mp hc, ← hbc])⟩
  freed := h.freed
  gone := by
    intro b hb hmem
    rcases mem_append.mp hmem with hlive' | hba
    · exact h.gone b hb hlive'
    · exact hfreed (mem_singleton.mp hba ▸ hb)

theorem get (hlive : a ∈ s.live) : (s.get a).Balanced (a ::ₘ H) where
  mem_live := by
    intro b
    rw [Multiset.mem_cons, ← h.mem_live]
    refine ⟨Or.inr, ?_⟩
    rintro (rfl | hb)
    · exact hlive
    · exact hb
  refs := by
    intro b hb
    show update s.refs a (s.refs a + 1) b = _
    by_cases hba : b = a
    · rw [hba, update_self, Multiset.count_cons_self, h.refs a ((h.mem_live a).mp hlive)]
    · rw [update_of_ne hba, Multiset.count_cons_of_ne hba]
      exact h.refs b ((Multiset.mem_cons.mp hb).resolve_left hba)
  nodup := h.nodup
  freed := h.freed
  gone := h.gone

theorem put (ha : a ∈ H) : (s.put a).Balanced (H.erase a) := by
  have hrefs := h.refs a ha
  have hother : ∀ b, b ≠ a → (H.erase a).count b = H.count b := fun b hb =>
    Multiset.count_erase_of_ne hb H
  rw [Store.put]
  by_cases hone : s.refs a = 1
  · rw [if_pos hone]
    have hzero : a ∉ H.erase a := by
      rw [← Multiset.count_eq_zero, Multiset.count_erase_self, ← hrefs, hone]
    refine ⟨fun b => ?_, fun b hb => ?_, h.nodup.erase a, ?_, fun b hb hmem => ?_⟩
    · show b ∈ s.live.erase a ↔ _
      by_cases hba : b = a
      · rw [hba]
        exact ⟨fun hmem => absurd rfl (h.nodup.mem_erase_iff.mp hmem).1, fun hmem => absurd hmem hzero⟩
      · rw [mem_erase_of_ne hba, Multiset.mem_erase_of_ne hba]
        exact h.mem_live b
    · have hba : b ≠ a := fun hba => hzero (hba ▸ hb)
      rw [hother b hba]
      exact h.refs b (Multiset.mem_of_mem_erase hb)
    · refine nodup_append.mpr ⟨h.freed, nodup_singleton a, fun b hb c hc hbc => ?_⟩
      rw [hbc, mem_singleton.mp hc] at hb
      exact h.gone a hb ((h.mem_live a).mpr ha)
    · rcases mem_append.mp hb with hb' | hba
      · exact h.gone b hb' (mem_of_mem_erase hmem)
      · rw [mem_singleton.mp hba] at hmem
        exact (h.nodup.mem_erase_iff.mp hmem).1 rfl
  · rw [if_neg hone]
    have hpos : 0 < H.count a := Multiset.count_pos.mpr ha
    have hstill : a ∈ H.erase a := by
      rw [← Multiset.count_pos, Multiset.count_erase_self]
      omega
    refine ⟨fun b => ?_, fun b hb => ?_, h.nodup, h.freed, h.gone⟩
    · by_cases hba : b = a
      · rw [hba]
        exact ⟨fun _ => hstill, fun _ => (h.mem_live a).mpr ha⟩
      · rw [Multiset.mem_erase_of_ne hba]
        exact h.mem_live b
    · show update s.refs a (s.refs a - 1) b = _
      by_cases hba : b = a
      · rw [hba, update_self, Multiset.count_erase_self, hrefs]
      · rw [update_of_ne hba, hother b hba]
        exact h.refs b (Multiset.mem_of_mem_erase hb)

theorem puts {l : List ι} (hl : (l : Multiset ι) ≤ H) : (s.puts l).Balanced (H - (l : Multiset ι)) := by
  induction l generalizing s H with
  | nil =>
    rw [Multiset.coe_nil, Multiset.sub_zero]
    exact h
  | cons a rest ih =>
    rw [← Multiset.cons_coe] at hl ⊢
    have ha : a ∈ H := Multiset.mem_of_le hl (Multiset.mem_cons_self a _)
    have hrest : (rest : Multiset ι) ≤ H.erase a := by
      have hle := Multiset.erase_le_erase a hl
      rwa [Multiset.erase_cons_head] at hle
    rw [Multiset.sub_cons]
    exact ih (h.put ha) hrest

theorem mem_put (ha : a ∈ H) (b : ι) :
    b ∈ (s.put a).live ∨ b ∈ (s.put a).freed ↔ b ∈ s.live ∨ b ∈ s.freed := by
  have hlive := (h.mem_live a).mpr ha
  rw [Store.put]
  split_ifs
  · show b ∈ s.live.erase a ∨ b ∈ s.freed ++ [a] ↔ _
    rw [h.nodup.mem_erase_iff, mem_append, mem_singleton]
    by_cases hba : b = a
    · simp [hba, hlive]
    · simp [hba]
  · exact Iff.rfl

theorem mem_puts {l : List ι} (hl : (l : Multiset ι) ≤ H) (b : ι) :
    b ∈ (s.puts l).live ∨ b ∈ (s.puts l).freed ↔ b ∈ s.live ∨ b ∈ s.freed := by
  induction l generalizing s H with
  | nil => exact Iff.rfl
  | cons a rest ih =>
    rw [← Multiset.cons_coe] at hl
    have ha : a ∈ H := Multiset.mem_of_le hl (Multiset.mem_cons_self a _)
    have hrest : (rest : Multiset ι) ≤ H.erase a := by
      have hle := Multiset.erase_le_erase a hl
      rwa [Multiset.erase_cons_head] at hle
    exact (ih (h.put ha) hrest).trans (h.mem_put ha b)

end

end Balanced

theorem put_of_ne {a : ι} (h : s.refs a ≠ 1) : (s.put a).live = s.live ∧ (s.put a).freed = s.freed := by
  rw [put, if_neg h]
  exact ⟨rfl, rfl⟩

theorem put_of_eq {a : ι} (h : s.refs a = 1) :
    (s.put a).live = s.live.erase a ∧ (s.put a).freed = s.freed ++ [a] := by
  rw [put, if_pos h]
  exact ⟨rfl, rfl⟩

theorem puts_eq_frees {l : List ι} (h : ∀ a ∈ l, s.refs a = 1) : s.puts l = s.frees l := by
  induction l generalizing s with
  | nil => rfl
  | cons a rest ih =>
    have hput : s.put a = s.free a := by rw [put, if_pos (h a mem_cons_self), free]
    rw [puts, frees, hput]
    exact ih (s.free a) fun b hb => h b (mem_cons_of_mem a hb)

theorem put_live (s : Store ι) (a : ι) : ∀ b ∈ (s.put a).live, b ∈ s.live := by
  intro b hb
  rw [put] at hb
  split_ifs at hb
  · exact mem_of_mem_erase hb
  · exact hb

theorem puts_live (s : Store ι) (l : List ι) : ∀ b ∈ (s.puts l).live, b ∈ s.live := by
  induction l generalizing s with
  | nil => exact fun _ hb => hb
  | cons a rest ih => exact fun b hb => put_live s a b (ih (s.put a) b hb)

end Store

theorem sum_update {κ α M : Type*} [Fintype κ] [DecidableEq κ] [AddCommMonoid M] (g : α → M) (f : κ → α) (i : κ)
    (x : α) : ∑ j, g (update f i x j) + g (f i) = ∑ j, g (f j) + g x := by
  have hrest : ∑ j ∈ Finset.univ.erase i, g (update f i x j) = ∑ j ∈ Finset.univ.erase i, g (f j) :=
    Finset.sum_congr rfl fun j hj => by rw [update_of_ne (Finset.ne_of_mem_erase hj)]
  rw [← Finset.add_sum_erase Finset.univ _ (Finset.mem_univ i), hrest, update_self,
    ← Finset.add_sum_erase Finset.univ (fun j => g (f j)) (Finset.mem_univ i)]
  abel

end RefCounts
