import Mathlib.Data.List.MinMax

/-!
# Running best with a sentinel

A loop that walks over an array, keeps the best key seen so far together with the index it was
seen at, and starts from a sentinel key with no index.
-/

namespace RunningBest

open List

variable {α β : Type*}

/-- The loop: the best key so far and its index. -/
def runningBest (better : β → β → Prop) [DecidableRel better] (consider : α → Bool) (key : α → β)
    (sentinel : β) (l : List α) : β × Option ℕ :=
  l.zipIdx.foldl (fun best e =>
    if consider e.1 = true ∧ better (key e.1) best.1 then (key e.1, some e.2) else best)
    (sentinel, none)

def selectBest (better : β → β → Prop) [DecidableRel better] (key : α → β) (l : List α) : Option α :=
  l.foldl (List.argAux fun a b => better (key a) (key b)) none

theorem selectBest_concat (better : β → β → Prop) [DecidableRel better] (key : α → β) (l : List α)
    (a : α) : selectBest better key (l ++ [a])
      = match selectBest better key l with
        | none => some a
        | some b => if better (key a) (key b) then some a else some b := by
  rw [selectBest, foldl_append, foldl_cons, foldl_nil, ← selectBest]
  cases selectBest better key l <;> rfl

theorem selectBest_lt [Preorder β] [DecidableLT β] (key : α → β) (l : List α) :
    selectBest (fun a b => a < b) key l = l.argmin key := rfl

theorem selectBest_gt [Preorder β] [DecidableLT β] (key : α → β) (l : List α) :
    selectBest (fun a b => b < a) key l = l.argmax key := rfl

def Holds (key : α → β) (sentinel : β) (l : List α) (best : β × Option ℕ) : Option α → Prop
  | none => best = (sentinel, none)
  | some a => ∃ i, best = (key a, some i) ∧ l[i]? = some a

theorem Holds.append {key : α → β} {sentinel : β} {l : List α} {best : β × Option ℕ} {o : Option α}
    (h : Holds key sentinel l best o) (m : List α) : Holds key sentinel (l ++ m) best o := by
  cases o with
  | none => exact h
  | some a =>
    obtain ⟨i, hbest, hi⟩ := h
    have hlt : i < l.length := (List.getElem?_eq_some_iff.mp hi).1
    exact ⟨i, hbest, by rw [List.getElem?_append_left hlt, hi]⟩

/-- **The loop selects.** By induction on the list read so far. -/
theorem runningBest_spec (better : β → β → Prop) [DecidableRel better] (consider : α → Bool)
    (key : α → β) (sentinel : β) (l : List α)
    (hkey : ∀ a ∈ l, consider a = true → better (key a) sentinel) :
    Holds key sentinel l (runningBest better consider key sentinel l)
      (selectBest better key (l.filter consider)) := by
  induction l using List.reverseRecOn with
  | nil => rfl
  | append_singleton l a ih =>
    have hprefix := ih fun b hb => hkey b (mem_append_left _ hb)
    have hlast : consider a = true → better (key a) sentinel := hkey a (by simp)
    have hstep : runningBest better consider key sentinel (l ++ [a])
        = if consider a = true ∧ better (key a) (runningBest better consider key sentinel l).1 then
            (key a, some l.length)
          else runningBest better consider key sentinel l := by
      rw [runningBest, zipIdx_append, foldl_append, Nat.zero_add]
      rfl
    have hindex : (l ++ [a])[l.length]? = some a := by simp
    rw [hstep, filter_append]
    cases hc : consider a with
    | false =>
      rw [if_neg (by simp), filter_cons_of_neg (by simp [hc]), filter_nil, append_nil]
      exact hprefix.append [a]
    | true =>
      rw [filter_cons_of_pos hc, filter_nil, selectBest_concat]
      cases hsel : selectBest better key (l.filter consider) with
      | none =>
        rw [hsel] at hprefix
        have hbest : runningBest better consider key sentinel l = (sentinel, none) := hprefix
        rw [hbest, if_pos ⟨rfl, hlast hc⟩]
        exact ⟨l.length, rfl, hindex⟩
      | some b =>
        rw [hsel] at hprefix
        obtain ⟨i, hbest, hi⟩ := hprefix
        show Holds key sentinel (l ++ [a]) _ (if better (key a) (key b) then some a else some b)
        rw [hbest]
        by_cases hab : better (key a) (key b)
        · rw [if_pos ⟨rfl, hab⟩, if_pos hab]
          exact ⟨l.length, rfl, hindex⟩
        · rw [if_neg fun h => hab h.2, if_neg hab]
          exact Holds.append (o := some b) ⟨i, rfl, hi⟩ [a]

end RunningBest
