import Mathlib.Data.List.Nodup

/-!
# A walk over a list that goes back after each removal

A cursor goes over a list in a fixed number of steps. Each element is left alone, marked or taken
out.
-/

namespace RewindWalk

open List

/-- What the walk does to an element. -/
inductive Kind where
  | keep
  | mark
  | remove
deriving DecidableEq, Repr

/-- What a walk leaves of the list, and the elements it marked and took out. -/
structure Walked (α : Type*) where
  left : List α
  marked : List α
  removed : List α

/-- `b` steps of the walk. `P` ends with the last element that was left alone, `V` was marked since
then, and `T` is ahead. -/
def walk (kind : α → Kind) : ℕ → List α → List α → List α → Walked α
  | 0, P, V, T => ⟨P ++ V ++ T, [], []⟩
  | _ + 1, P, V, [] => ⟨P ++ V, [], []⟩
  | b + 1, P, V, t :: T =>
    match kind t with
    | .keep => walk kind b (P ++ V ++ [t]) [] T
    | .mark =>
      let w := walk kind b P (V ++ [t]) T
      { w with marked := t :: w.marked }
    | .remove =>
      let w := walk kind b P [] (V ++ T)
      { w with removed := t :: w.removed }

/-- The steps that are spent on elements seen before, where `k` elements were marked since the last
one that was left alone. -/
def rewalks (kind : α → Kind) : ℕ → List α → ℕ
  | _, [] => 0
  | k, t :: T =>
    match kind t with
    | .keep => rewalks kind 0 T
    | .mark => rewalks kind (k + 1) T
    | .remove => k + rewalks kind k T

variable {kind : α → Kind} {b k : ℕ} {P V T : List α} {t : α}

@[simp] theorem walk_zero : walk kind 0 P V T = ⟨P ++ V ++ T, [], []⟩ := rfl

@[simp] theorem walk_nil : walk kind b P V [] = ⟨P ++ V, [], []⟩ := by
  cases b with
  | zero => rw [walk_zero, append_nil]
  | succ b => rfl

theorem walk_keep (h : kind t = .keep) :
    walk kind (b + 1) P V (t :: T) = walk kind b (P ++ V ++ [t]) [] T := by
  simp only [walk, h]

theorem walk_mark (h : kind t = .mark) : walk kind (b + 1) P V (t :: T) =
    { walk kind b P (V ++ [t]) T with marked := t :: (walk kind b P (V ++ [t]) T).marked } := by
  simp only [walk, h]

theorem walk_remove (h : kind t = .remove) : walk kind (b + 1) P V (t :: T) =
    { walk kind b P [] (V ++ T) with removed := t :: (walk kind b P [] (V ++ T)).removed } := by
  simp only [walk, h]

@[simp] theorem rewalks_keep (h : kind t = .keep) : rewalks kind k (t :: T) = rewalks kind 0 T := by
  simp only [rewalks, h]

@[simp] theorem rewalks_mark (h : kind t = .mark) :
    rewalks kind k (t :: T) = rewalks kind (k + 1) T := by
  simp only [rewalks, h]

@[simp] theorem rewalks_remove (h : kind t = .remove) :
    rewalks kind k (t :: T) = k + rewalks kind k T := by
  simp only [rewalks, h]

theorem mem_of_mem_left {x : α} (hx : x ∈ (walk kind b P V T).left) : x ∈ P ++ V ++ T := by
  induction b generalizing P V T with
  | zero => exact hx
  | succ b ih =>
    cases T with
    | nil =>
      rw [walk_nil] at hx
      exact mem_append_left _ hx
    | cons t T =>
      rcases hk : kind t with _ | _ | _
      · rw [walk_keep hk] at hx
        simpa only [append_assoc, nil_append, singleton_append] using ih hx
      · rw [walk_mark hk] at hx
        simpa only [append_assoc, nil_append, singleton_append] using ih hx
      · rw [walk_remove hk] at hx
        have hx := ih hx
        rw [append_nil, ← append_assoc] at hx
        rcases mem_append.mp hx with hx | hx
        · exact mem_append_left _ hx
        · exact mem_append_right _ (mem_cons_of_mem _ hx)

theorem walk_replay {M : List α} (hM : ∀ x ∈ M, kind x = .mark) (hb : M.length ≤ b) :
    walk kind b P V (M ++ T) = { walk kind (b - M.length) P (V ++ M) T with
      marked := M ++ (walk kind (b - M.length) P (V ++ M) T).marked } := by
  induction M generalizing b V with
  | nil => simp only [nil_append, append_nil, length_nil, Nat.sub_zero]
  | cons t M ih =>
    cases b with
    | zero => exact absurd hb (Nat.not_succ_le_zero _)
    | succ b =>
      rw [cons_append, walk_mark (hM t mem_cons_self),
        ih (fun x hx => hM x (mem_cons_of_mem _ hx)) (Nat.le_of_succ_le_succ hb)]
      simp only [length_cons, Nat.add_sub_add_right, append_assoc, cons_append, nil_append]

theorem walk_replay_short {M : List α} (hM : ∀ x ∈ M, kind x = .mark) (hb : b ≤ M.length) :
    (walk kind b P V (M ++ T)).left = P ++ V ++ (M ++ T) ∧
      (∀ x ∈ (walk kind b P V (M ++ T)).marked, x ∈ M) ∧
      (walk kind b P V (M ++ T)).removed = [] := by
  induction b generalizing M V with
  | zero => exact ⟨rfl, fun x hx => absurd hx not_mem_nil, rfl⟩
  | succ b ih =>
    cases M with
    | nil => exact absurd hb (Nat.not_succ_le_zero _)
    | cons t M =>
      obtain ⟨hleft, hmarked, hremoved⟩ := ih (V := V ++ [t])
        (fun x hx => hM x (mem_cons_of_mem _ hx)) (Nat.le_of_succ_le_succ hb)
      rw [cons_append, walk_mark (hM t mem_cons_self)]
      refine ⟨?_, ?_, hremoved⟩
      · rw [hleft]
        simp only [append_assoc, cons_append, nil_append]
      · intro x hx
        rcases mem_cons.mp hx with rfl | hx
        · exact mem_cons_self
        · exact mem_cons_of_mem _ (hmarked x hx)

/-- The walk has dealt with the elements `A` of what was ahead, and not seen the rest `B`. -/
structure Dealt (kind : α → Kind) (b : ℕ) (P V T A B : List α) (w : Walked α) : Prop where
  split : T = A ++ B
  left : w.left = P ++ V ++ (A.filter (fun x => kind x ≠ .remove) ++ B)
  removed : w.removed = A.filter (fun x => kind x = .remove)
  marked : ∀ x ∈ A, kind x = .mark → x ∈ w.marked
  seen : ∀ x ∈ w.marked, x ∈ V ++ A
  reached : ∀ A' x B', T = A' ++ x :: B' →
    (A'.length < A.length ↔ A'.length + 1 + rewalks kind V.length A' ≤ b)

theorem reached_cons {A : List α} {b' k' e : ℕ}
    (h : ∀ A' x B', T = A' ++ x :: B' →
      (A'.length < A.length ↔ A'.length + 1 + rewalks kind k' A' + e ≤ b))
    (hr : ∀ A', rewalks kind k (t :: A') = e + rewalks kind k' A') (hb : b' = b + 1) :
    ∀ A' x B', t :: T = A' ++ x :: B' →
      (A'.length < (t :: A).length ↔ A'.length + 1 + rewalks kind k A' ≤ b') := by
  intro A' x B' heq
  cases A' with
  | nil =>
    have hzero : rewalks kind k [] = 0 := rfl
    simp only [length_nil, length_cons, hzero]
    omega
  | cons y A' =>
    rw [cons_append, List.cons.injEq] at heq
    obtain ⟨rfl, heq⟩ := heq
    have hstep := h A' x B' heq
    rw [hr, length_cons, length_cons]
    omega

theorem walk_spec (hV : ∀ x ∈ V, kind x = .mark) :
    ∃ A B, Dealt kind b P V T A B (walk kind b P V T) := by
  induction T generalizing b P V with
  | nil =>
    refine ⟨[], [], ⟨rfl, ?_, ?_, ?_, ?_, ?_⟩⟩
    · simp only [walk_nil, filter_nil, append_nil]
    · simp only [walk_nil, filter_nil]
    · exact fun x hx => absurd hx not_mem_nil
    · intro x hx
      rw [walk_nil] at hx
      exact absurd hx not_mem_nil
    · intro A' x B' heq
      exact absurd heq.symm (append_ne_nil_of_right_ne_nil _ (cons_ne_nil x B'))
  | cons t T ih =>
    cases b with
    | zero =>
      refine ⟨[], t :: T, ⟨rfl, rfl, rfl, ?_, ?_, ?_⟩⟩
      · exact fun x hx => absurd hx not_mem_nil
      · exact fun x hx => absurd hx not_mem_nil
      · intro A' x B' _
        rw [length_nil]
        omega
    | succ b =>
      rcases hk : kind t with _ | _ | _
      · obtain ⟨A, B, h⟩ := ih (b := b) (P := P ++ V ++ [t]) (V := [])
          fun x hx => absurd hx not_mem_nil
        rw [walk_keep hk]
        refine ⟨t :: A, B, ⟨by rw [h.split, cons_append], ?_, ?_, ?_, ?_, ?_⟩⟩
        · rw [h.left, filter_cons_of_pos (by simp [hk])]
          simp only [append_assoc, cons_append, nil_append]
        · rw [h.removed, filter_cons_of_neg (by simp [hk])]
        · intro x hx hm
          rcases mem_cons.mp hx with rfl | hx
          · rw [hk] at hm
            cases hm
          · exact h.marked x hx hm
        · intro x hx
          have hx := h.seen x hx
          rw [nil_append] at hx
          exact mem_append_right _ (mem_cons_of_mem _ hx)
        · exact reached_cons (e := 0) h.reached
            (fun A' => by rw [rewalks_keep hk, Nat.zero_add]; rfl) rfl
      · obtain ⟨A, B, h⟩ := ih (b := b) (P := P) (V := V ++ [t]) (by
          intro x hx
          rcases mem_append.mp hx with hx | hx
          · exact hV x hx
          · rw [mem_singleton.mp hx, hk])
        rw [walk_mark hk]
        refine ⟨t :: A, B, ⟨by rw [h.split, cons_append], ?_, ?_, ?_, ?_, ?_⟩⟩
        · rw [h.left, filter_cons_of_pos (by simp [hk])]
          simp only [append_assoc, cons_append, nil_append]
        · rw [h.removed, filter_cons_of_neg (by simp [hk])]
        · intro x hx hm
          rcases mem_cons.mp hx with rfl | hx
          · exact mem_cons_self
          · exact mem_cons_of_mem _ (h.marked x hx hm)
        · intro x hx
          rcases mem_cons.mp hx with rfl | hx
          · exact mem_append_right _ mem_cons_self
          · have hx := h.seen x hx
            rwa [append_assoc, singleton_append] at hx
        · refine reached_cons (e := 0) h.reached (fun A' => ?_) rfl
          rw [rewalks_mark hk, Nat.zero_add, length_append, length_singleton]
      · rw [walk_remove hk]
        rcases Nat.lt_or_ge b V.length with hb | hb
        · obtain ⟨hleft, hmarked, hremoved⟩ :=
            walk_replay_short (P := P) (V := []) (T := T) hV (Nat.le_of_lt hb)
          refine ⟨[t], T, ⟨rfl, ?_, ?_, ?_, ?_, ?_⟩⟩
          · rw [hleft, filter_cons_of_neg (by simp [hk])]
            simp only [append_nil, filter_nil, nil_append, append_assoc]
          · rw [hremoved, filter_cons_of_pos (by simp [hk]), filter_nil]
          · intro x hx hm
            rw [mem_singleton.mp hx, hk] at hm
            cases hm
          · exact fun x hx => mem_append_left _ (hmarked x hx)
          · refine reached_cons (e := V.length) (A := []) (fun A' x B' _ => ?_)
              (fun A' => rewalks_remove hk) rfl
            rw [length_nil]
            omega
        · obtain ⟨A, B, h⟩ := ih (b := b - V.length) (P := P) (V := V) hV
          rw [walk_replay hV hb, nil_append]
          refine ⟨t :: A, B, ⟨by rw [h.split, cons_append], ?_, ?_, ?_, ?_, ?_⟩⟩
          · rw [h.left, filter_cons_of_neg (by simp [hk])]
          · rw [h.removed, filter_cons_of_pos (by simp [hk])]
          · intro x hx hm
            rcases mem_cons.mp hx with rfl | hx
            · rw [hk] at hm
              cases hm
            · exact mem_append_right _ (h.marked x hx hm)
          · intro x hx
            rcases mem_append.mp hx with hx | hx
            · exact mem_append_left _ hx
            · rcases mem_append.mp (h.seen x hx) with hx | hx
              · exact mem_append_left _ hx
              · exact mem_append_right _ (mem_cons_of_mem _ hx)
          · refine reached_cons (e := V.length) (fun A' x B' heq => ?_)
              (fun A' => rewalks_remove hk) rfl
            have hstep := h.reached A' x B' heq
            omega

def Needs (kind : α → Kind) (due : α → Prop) (x : α) : Prop :=
  kind x = .remove ∨ kind x = .mark ∧ due x

def Reaches (kind : α → Kind) (due : α → Prop) (L : List α) : Prop :=
  ∀ A x B, L = A ++ x :: B → Needs kind due x → rewalks kind 0 A ≤ B.length

theorem removed_of_left {L : List α}
    (hl : (walk kind b [] [] L).left = L.filter fun x => kind x ≠ .remove) :
    (walk kind b [] [] L).removed = L.filter fun x => kind x = .remove := by
  obtain ⟨A, B, h⟩ : ∃ A B, Dealt kind b [] [] L A B (walk kind b [] [] L) :=
    walk_spec fun x hx => absurd hx not_mem_nil
  have hB : B.filter (fun x => kind x = .remove) = [] := by
    rw [filter_eq_nil_iff]
    intro x hx hr
    have hmem : x ∈ (walk kind b [] [] L).left := by
      rw [h.left]
      exact mem_append_right _ (mem_append_right _ hx)
    rw [hl] at hmem
    exact of_decide_eq_true (mem_filter.mp hmem).2 (of_decide_eq_true hr)
  rw [h.removed]
  conv_rhs => rw [h.split, filter_append, hB, append_nil]

/-- **A walk of as many steps as the list has elements is complete iff it reaches every element that
needs it.** -/
theorem walk_complete_iff {L : List α} {due : α → Prop} (hnd : L.Nodup) :
    ((walk kind L.length [] [] L).left = L.filter (fun x => kind x ≠ .remove) ∧
      ∀ x ∈ L, kind x = .mark → due x → x ∈ (walk kind L.length [] [] L).marked) ↔
      Reaches kind due L := by
  obtain ⟨A, B, h⟩ : ∃ A B, Dealt kind L.length [] [] L A B (walk kind L.length [] [] L) :=
    walk_spec fun x hx => absurd hx not_mem_nil
  have hlen : ∀ A' x B', L = A' ++ x :: B' →
      (A'.length < A.length ↔ rewalks kind 0 A' ≤ B'.length) := by
    intro A' x B' heq
    have hstep := h.reached A' x B' heq
    have hL := congrArg List.length heq
    rw [length_append, length_cons] at hL
    rw [length_nil] at hstep
    omega
  have hleft := h.left
  rw [nil_append, nil_append] at hleft
  constructor
  · rintro ⟨hcleft, hcmarked⟩ A' x B' heq hneeds
    apply (hlen A' x B' heq).mp
    by_contra hge
    have hx : x ∈ B := by
      have hsplit := h.split
      rw [heq] at hsplit
      obtain ⟨C, hA, hB⟩ | ⟨C, hA, hB⟩ := append_eq_append_iff.mp hsplit
      · cases C with
        | nil =>
          rw [nil_append] at hB
          rw [← hB]
          exact mem_cons_self
        | cons y C =>
          rw [hA, length_append, length_cons] at hge
          omega
      · rw [hB]
        exact mem_append_right _ mem_cons_self
    rcases hneeds with hr | ⟨hm, hdue⟩
    · have hmem : x ∈ L.filter fun x => kind x ≠ .remove := by
        rw [← hcleft, hleft]
        exact mem_append_right _ hx
      exact of_decide_eq_true (mem_filter.mp hmem).2 hr
    · have hxL : x ∈ L := by
        rw [h.split]
        exact mem_append_right _ hx
      have hA := h.seen x (hcmarked x hxL hm hdue)
      rw [h.split] at hnd
      exact (nodup_append.mp hnd).2.2 x hA x hx rfl
  · intro hreaches
    have hB : ∀ x ∈ B, ¬Needs kind due x := by
      intro x hx hneeds
      obtain ⟨C, D, rfl⟩ := append_of_mem hx
      have heq : L = (A ++ C) ++ x :: D := by rw [h.split, append_assoc]
      have hlt := (hlen (A ++ C) x D heq).mpr (hreaches _ _ _ heq hneeds)
      rw [length_append] at hlt
      omega
    refine ⟨?_, ?_⟩
    · have hBkeep : B.filter (fun x => kind x ≠ .remove) = B :=
        filter_eq_self.mpr fun x hx => decide_eq_true fun hr => hB x hx (.inl hr)
      rw [hleft]
      conv_rhs => rw [h.split, filter_append, hBkeep]
    · intro x hx hm hdue
      rw [h.split, mem_append] at hx
      rcases hx with hx | hx
      · exact h.marked x hx hm
      · exact absurd (.inr ⟨hm, hdue⟩) (hB x hx)

end RewindWalk
