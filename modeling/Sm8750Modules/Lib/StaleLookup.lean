import Mathlib.Data.List.Basic
import Mathlib.Data.Option.Basic

/-!
# A loop whose lookup result outlives its round

A loop goes over a list. In each round a gate may end it, then something is looked up, and the
loop ends when there is no result.
-/

namespace StaleLookup

open List

variable {α β : Type*} (gate : α → Prop) [DecidablePred gate] (look : α → Option β)

/-- The rounds of the loop with what they go on with, `none` in the round that ends it early. -/
def rounds : Option β → List α → List (α × Option β)
  | _, [] => []
  | c, a :: l =>
    if gate a then
      match (look a).or c with
      | none => [(a, none)]
      | some b => (a, some b) :: rounds (some b) l
    else [(a, none)]

/-- The rounds of the loop that looks up into a variable of the round. -/
def freshRounds : List α → List (α × Option β)
  | [] => []
  | a :: l =>
    if gate a then
      match look a with
      | none => [(a, none)]
      | some b => (a, some b) :: freshRounds l
    else [(a, none)]

def Found (a : α) : Prop := gate a ∧ ∃ b, look a = some b

def StaleAt (l p : List α) (a : α) (q : List α) : Prop :=
  l = p ++ a :: q ∧ (∀ x ∈ p, Found gate look x) ∧ gate a ∧ look a = none

variable {gate look} {c : Option β} {a : α} {b : β} {l p q : List α}

@[simp] theorem rounds_nil : rounds gate look c [] = [] := by
  simp [rounds]

theorem rounds_cons_some (hg : gate a) (h : (look a).or c = some b) :
    rounds gate look c (a :: l) = (a, some b) :: rounds gate look (some b) l := by
  simp [rounds, hg, h]

theorem rounds_cons_none (hg : gate a) (h : (look a).or c = none) :
    rounds gate look c (a :: l) = [(a, none)] := by
  simp [rounds, hg, h]

theorem rounds_cons_closed (hg : ¬ gate a) : rounds gate look c (a :: l) = [(a, none)] := by
  simp [rounds, hg]

theorem freshRounds_cons_found (hg : gate a) (h : look a = some b) :
    freshRounds gate look (a :: l) = (a, some b) :: freshRounds gate look l := by
  simp [freshRounds, hg, h]

theorem freshRounds_cons_of_not_found (h : ¬ Found gate look a) :
    freshRounds gate look (a :: l) = [(a, none)] := by
  by_cases hg : gate a
  · have hnone : look a = none := by
      cases hlook : look a with
      | none => rfl
      | some b => exact absurd ⟨hg, b, hlook⟩ h
    simp [freshRounds, hg, hnone]
  · simp [freshRounds, hg]

omit [DecidablePred gate] in
@[simp] theorem map_fst_comp (f : α → Option β) (l : List α) : l.map (Prod.fst ∘ fun x => (x, f x)) = l := by
  induction l with
  | nil => simp
  | cons a l ih => rw [map_cons, ih]; simp

omit [DecidablePred gate] in
theorem mem_of_append_eq {r : List α} {x : α} (h : p ++ a :: r = q ++ [x]) (hr : r ≠ []) : a ∈ q := by
  have hq : q = (p ++ a :: r).dropLast := by rw [h, dropLast_concat]
  rw [hq, dropLast_append_of_ne_nil (by simp), dropLast_cons_of_ne_nil hr]
  simp

theorem rounds_ne_nil (h : l ≠ []) : rounds gate look c l ≠ [] := by
  cases l with
  | nil => exact absurd rfl h
  | cons a l =>
    by_cases hg : gate a
    · cases hor : (look a).or c with
      | none => simp [rounds_cons_none hg hor]
      | some b => simp [rounds_cons_some hg hor]
    · simp [rounds_cons_closed hg]

omit [DecidablePred gate] in
theorem StaleAt.cons (hg : gate a) (hb : look a = some b) {x : α} (h : StaleAt gate look l p x q) :
    StaleAt gate look (a :: l) (a :: p) x q := by
  obtain ⟨hl, hp, hx⟩ := h
  refine ⟨by rw [hl, cons_append], fun y hy => ?_, hx⟩
  cases mem_cons.mp hy with
  | inl hya => exact hya ▸ ⟨hg, b, hb⟩
  | inr hyp => exact hp y hyp

theorem rounds_eq_freshRounds
    (h : ∀ p x q, StaleAt gate look l p x q → p = [] ∧ c = none) :
    rounds gate look c l = freshRounds gate look l := by
  induction l generalizing c with
  | nil => simp [freshRounds]
  | cons a l ih =>
    by_cases hg : gate a
    · cases hlook : look a with
      | none =>
        have hc : c = none := (h [] a l ⟨rfl, by simp, hg, hlook⟩).2
        rw [rounds_cons_none hg (by simp [hlook, hc]),
          freshRounds_cons_of_not_found (by simp [Found, hlook])]
      | some b =>
        rw [rounds_cons_some hg (show (look a).or c = some b by simp [hlook]), freshRounds_cons_found hg hlook,
          ih]
        intro p x q hstale
        exact absurd (h (a :: p) x q (hstale.cons hg hlook)).1 (by simp)
    · rw [rounds_cons_closed hg, freshRounds_cons_of_not_found fun hf => hg hf.1]

theorem rounds_append_found (hp : ∀ x ∈ p, Found gate look x) :
    ∃ c', (p ≠ [] → ∃ b, c' = some b) ∧ (p = [] → c' = c) ∧
      rounds gate look c (p ++ l) = p.map (fun x => (x, look x)) ++ rounds gate look c' l := by
  induction p generalizing c with
  | nil => exact ⟨c, by simp⟩
  | cons a p ih =>
    obtain ⟨⟨hg, b, hb⟩, htail⟩ := forall_mem_cons.mp hp
    obtain ⟨c', hsome, hnil, heq⟩ := @ih (some b) htail
    refine ⟨c', fun _ => ?_, by simp, ?_⟩
    · by_cases hne : p = []
      · exact ⟨b, hnil hne⟩
      · exact hsome hne
    · rw [cons_append, rounds_cons_some hg (show (look a).or c = some b by simp [hb]), heq,
        map_cons, hb, cons_append]

theorem rounds_of_stale (h : StaleAt gate look l p a q) (hp : p ≠ []) :
    ∃ b, rounds gate look c l =
      p.map (fun x => (x, look x)) ++ (a, some b) :: rounds gate look (some b) q := by
  obtain ⟨hl, hfound, hg, hnone⟩ := h
  obtain ⟨c', hsome, -, heq⟩ := @rounds_append_found α β gate _ look c (a :: q) p hfound
  obtain ⟨b, rfl⟩ := hsome hp
  refine ⟨b, ?_⟩
  rw [hl, heq, rounds_cons_some hg (show (look a).or (some b) = some b by simp [hnone])]

theorem mem_freshRounds (h : (a, some b) ∈ freshRounds gate look l) : gate a ∧ look a = some b := by
  induction l with
  | nil => simp [freshRounds] at h
  | cons x l ih =>
    by_cases hf : Found gate look x
    · obtain ⟨hg, y, hy⟩ := hf
      rw [freshRounds_cons_found hg hy] at h
      cases mem_cons.mp h with
      | inl heq =>
        obtain ⟨rfl, hby⟩ := Prod.mk.inj heq
        exact ⟨hg, by rw [hy, hby]⟩
      | inr htail => exact ih htail
    · rw [freshRounds_cons_of_not_found hf] at h
      simp at h

theorem not_found_of_mem_rounds (h : (a, none) ∈ rounds gate look c l) : ¬ Found gate look a := by
  induction l generalizing c with
  | nil => simp at h
  | cons x l ih =>
    by_cases hg : gate x
    · cases hor : (look x).or c with
      | none =>
        rw [rounds_cons_none hg hor] at h
        obtain rfl : a = x := by simpa using h
        intro hf
        obtain ⟨-, b, hb⟩ := hf
        simp [hb] at hor
      | some b =>
        rw [rounds_cons_some hg hor] at h
        exact ih (by simpa using h)
    · rw [rounds_cons_closed hg] at h
      obtain rfl : a = x := by simpa using h
      exact fun hf => hg hf.1

theorem freshRounds_cases (l : List α) :
    ((∀ a ∈ l, Found gate look a) ∧ freshRounds gate look l = l.map fun x => (x, look x)) ∨
      ∃ p a q, l = p ++ a :: q ∧ (∀ x ∈ p, Found gate look x) ∧ ¬ Found gate look a ∧
        freshRounds gate look l = p.map (fun x => (x, look x)) ++ [(a, none)] := by
  induction l with
  | nil => exact .inl ⟨by simp, by simp [freshRounds]⟩
  | cons x l ih =>
    by_cases hf : Found gate look x
    · have ⟨hg, b, hb⟩ := hf
      rw [freshRounds_cons_found hg hb]
      cases ih with
      | inl hall =>
        obtain ⟨hall, heq⟩ := hall
        exact .inl ⟨forall_mem_cons.mpr ⟨hf, hall⟩, by simp [heq, hb]⟩
      | inr hfirst =>
        obtain ⟨p, a, q, hl, hp, ha, heq⟩ := hfirst
        exact .inr ⟨x :: p, a, q, by rw [hl, cons_append], forall_mem_cons.mpr ⟨hf, hp⟩, ha,
          by simp [heq, hb]⟩
    · exact .inr ⟨[], x, l, rfl, by simp, hf, by simp [freshRounds_cons_of_not_found hf]⟩

end StaleLookup
