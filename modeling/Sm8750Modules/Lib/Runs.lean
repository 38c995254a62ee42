import Mathlib

/-!
# Runs of a guarded machine

A machine that takes one action after another: which states it starts in, which actions are
allowed in a state, and the state that an action leads to. Nothing here knows what the states
are.
-/

namespace Runs

/-- A machine with states `σ` and actions `α`. -/
structure Machine (σ α : Type*) where
  init : σ → Prop
  guard : σ → α → Prop
  next : σ → α → σ

variable {σ α : Type*}

/-- The states that runs of allowed actions reach. -/
inductive Machine.Reachable (M : Machine σ α) : σ → Prop where
  | init {s : σ} (h : M.init s) : M.Reachable s
  | next {s : σ} {a : α} (h : M.Reachable s) (ha : M.guard s a) : M.Reachable (M.next s a)

namespace Machine.Reachable

variable {M : Machine σ α} {s : σ}

theorem invariant {I : σ → Prop} (h : M.Reachable s) (hinit : ∀ s, M.init s → I s)
    (hnext : ∀ s a, I s → M.guard s a → I (M.next s a)) : I s := by
  induction h with
  | init h => exact hinit _ h
  | next _ ha ih => exact hnext _ _ ih ha

theorem mono {guard : σ → α → Prop} (hguard : ∀ s a, guard s a → M.guard s a)
    (h : ({ M with guard := guard } : Machine σ α).Reachable s) : M.Reachable s := by
  induction h with
  | init h => exact .init h
  | next _ ha ih => exact .next ih (hguard _ _ ha)

end Machine.Reachable

/-- The state after a list of actions. -/
def Machine.exec (M : Machine σ α) (s : σ) : List α → σ
  | [] => s
  | a :: rest => M.exec (M.next s a) rest

def Machine.Allows (M : Machine σ α) : σ → List α → Prop
  | _, [] => True
  | s, a :: rest => M.guard s a ∧ M.Allows (M.next s a) rest

instance Machine.decidableAllows (M : Machine σ α) [∀ s a, Decidable (M.guard s a)] :
    ∀ s as, Decidable (M.Allows s as)
  | _, [] => isTrue trivial
  | s, a :: rest => @instDecidableAnd _ _ _ (M.decidableAllows (M.next s a) rest)

theorem Machine.Reachable.exec {M : Machine σ α} {s : σ} (h : M.Reachable s) (as : List α)
    (ha : M.Allows s as) : M.Reachable (M.exec s as) := by
  induction as generalizing s with
  | nil => exact h
  | cons a rest ih => exact ih (h.next ha.1) ha.2

/-- **Exact runs.** Where an action keeps a property exactly if it is allowed, the runs that have the
property all along are the runs of allowed actions. -/
theorem Machine.exact {M : Machine σ α} {I : σ → Prop}
    (hnext : ∀ s a, I s → (I (M.next s a) ↔ M.guard s a)) {s : σ} (hs : I s) (as : List α) :
    (∀ n, I (M.exec s (as.take n))) ↔ M.Allows s as := by
  induction as generalizing s with
  | nil => simpa [Machine.exec, Machine.Allows] using hs
  | cons a rest ih =>
    constructor
    · intro h
      have hfirst : I (M.next s a) := h 1
      exact ⟨(hnext s a hs).mp hfirst, (ih hfirst).mp fun n => h (n + 1)⟩
    · intro ⟨ha, hrest⟩ n
      cases n with
      | zero => exact hs
      | succ n => exact (ih ((hnext s a hs).mpr ha)).mpr hrest n

end Runs
