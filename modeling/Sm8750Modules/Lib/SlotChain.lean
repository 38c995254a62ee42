import Mathlib

/-!
# Slot chains: doubly linked lists threaded through an array

A hash table that resolves collisions by *chaining into an expansion area* keeps its lists
inside one array of slots. The first `base` slots are the hash buckets, the rest is the
expansion area, and every slot carries a forward and a backward link; the number `0` is the
null link, so slot `0` is never used. This file develops such arrays with no reference to
what the slots store.
-/

namespace SlotChain

open Function List

/-- The shape of an array of linked slots. -/
structure Links where
  used : ℕ → Bool
  next : ℕ → ℕ
  prev : ℕ → ℕ

/-- **Well-formed shape.**  Slots below `base` are buckets, those from `base` to `size` the
expansion area. -/
structure Chained (base size : ℕ) (L : Links) (home rank : ℕ → ℕ) : Prop where
  used_pos : ∀ i, L.used i = true → 0 < i
  used_lt : ∀ i, L.used i = true → i < size
  free_next : ∀ i, L.used i = false → L.next i = 0
  next_used : ∀ i, L.next i ≠ 0 → L.used (L.next i) = true
  next_expn : ∀ i, L.next i ≠ 0 → base ≤ L.next i
  prev_next : ∀ i, L.next i ≠ 0 → L.prev (L.next i) = i
  base_prev : ∀ i, i < base → L.prev i = 0
  prev_used : ∀ i, L.used i = true → base ≤ i → L.used (L.prev i) = true
  next_prev : ∀ i, L.used i = true → base ≤ i → L.next (L.prev i) = i
  home_base : ∀ i, i < base → home i = i
  home_next : ∀ i, L.next i ≠ 0 → home (L.next i) = home i
  rank_next : ∀ i, L.next i ≠ 0 → rank i < rank (L.next i)

namespace Links

/-- Put a lone entry into the free bucket `b`. -/
def push (L : Links) (b : ℕ) : Links :=
  { L with used := Function.update L.used b true }

/-- Hang the free slot `j` behind the chain end `e`. -/
def append (L : Links) (e j : ℕ) : Links where
  used := Function.update L.used j true
  next := Function.update L.next e j
  prev := Function.update L.prev j e

/-- Take the expansion slot `i` out of its chain. -/
def unlink (L : Links) (i : ℕ) : Links where
  used := Function.update L.used i false
  next := Function.update (Function.update L.next (L.prev i) (L.next i)) i 0
  prev := Function.update
    (if L.next i = 0 then L.prev else Function.update L.prev (L.next i) (L.prev i)) i 0

/-- Empty the bucket `b`, which has no successor. -/
def drop (L : Links) (b : ℕ) : Links :=
  { L with used := Function.update L.used b false }

/-- The slots met from `i` on through at most `n` forward links. -/
def walk (L : Links) : ℕ → ℕ → List ℕ
  | 0, _ => []
  | n + 1, i => if i = 0 then [] else i :: L.walk n (L.next i)

/-- The slot where following at most `n` forward links from `i` stops. -/
def last (L : Links) : ℕ → ℕ → ℕ
  | 0, i => i
  | n + 1, i => if L.next i = 0 then i else L.last n (L.next i)

def usedIn (L : Links) (lo hi : ℕ) : ℕ :=
  ((Finset.Ico lo hi).filter (fun i => L.used i = true)).card

/-- **What well-formed chains look like from outside**, with no bucket map and no rank. -/
structure WellChained (L : Links) (base size : ℕ) : Prop where
  zero_free : L.used 0 = false
  used_lt : ∀ i, L.used i = true → i < size
  bucket : ∀ j, L.used j = true → ∃! b, (L.used b = true ∧ b < base) ∧ j ∈ L.walk size b
  walk_used : ∀ b, L.used b = true → ∀ j ∈ L.walk size b, L.used j = true
  prev_next : ∀ i, L.used i = true → L.next i ≠ 0 → L.prev (L.next i) = i
  next_prev : ∀ i, L.used i = true → L.prev i ≠ 0 → L.next (L.prev i) = i
  acyclic : ∀ i, L.used i = true → ∀ n, L.next^[n + 1] i ≠ i

end Links

variable {base size : ℕ} {L : Links} {home rank : ℕ → ℕ}

variable {i j : ℕ} {L' : Links}

namespace Chained

/-! ### First consequences -/

section

variable (h : Chained base size L home rank)
include h

theorem used_of_next (hn : L.next i ≠ 0) : L.used i = true := by
  cases hu : L.used i with
  | true => rfl
  | false => exact absurd (h.free_next i hu) hn

theorem next_ne_self (hn : L.next i ≠ 0) : L.next i ≠ i := by
  intro he
  have hr := h.rank_next i hn
  rw [he] at hr
  exact lt_irrefl _ hr

theorem next_lt (i : ℕ) (hi : i < size) : L.next i < size := by
  by_cases hn : L.next i = 0
  · omega
  · exact h.used_lt _ (h.next_used i hn)

theorem prev_ne_zero (hu : L.used i = true) (hi : base ≤ i) : L.prev i ≠ 0 :=
  Nat.pos_iff_ne_zero.mp (h.used_pos _ (h.prev_used i hu hi))

theorem base_of_prev_zero (hu : L.used i = true) (hp : L.prev i = 0) : i < base := by
  by_contra hb
  exact h.prev_ne_zero hu (by omega) hp

theorem expn_of_prev (hp : L.prev i ≠ 0) : base ≤ i := by
  by_contra hb
  exact hp (h.base_prev i (by omega))

theorem prev_lt (hs : 0 < size) (hu : L.used i = true) : L.prev i < size := by
  by_cases hb : i < base
  · rw [h.base_prev i hb]; exact hs
  · exact h.used_lt _ (h.prev_used i hu (by omega))

theorem next_inj (hn : L.next i ≠ 0) (he : L.next i = L.next j) : i = j := by
  have h1 := h.prev_next i hn
  have h2 := h.prev_next j (he ▸ hn)
  rw [he] at h1
  exact h1.symm.trans h2

theorem next_prev_of_ne (hu : L.used i = true) (hp : L.prev i ≠ 0) : L.next (L.prev i) = i :=
  h.next_prev i hu (h.expn_of_prev hp)

theorem congr (hused : L'.used = L.used)
    (hnext : L'.next = L.next)
    (hprev : ∀ i, (L.used i = true ∨ i < base) → L'.prev i = L.prev i) :
    Chained base size L' home rank where
  used_pos i hi := h.used_pos i (hused ▸ hi)
  used_lt i hi := h.used_lt i (hused ▸ hi)
  free_next i hi := by rw [hnext]; exact h.free_next i (hused ▸ hi)
  next_used i hi := by rw [hnext] at hi ⊢; rw [hused]; exact h.next_used i hi
  next_expn i hi := by rw [hnext] at hi ⊢; exact h.next_expn i hi
  prev_next i hi := by
    rw [hnext] at hi ⊢
    rw [hprev _ (Or.inl (h.next_used i hi))]
    exact h.prev_next i hi
  base_prev i hi := by rw [hprev i (Or.inr hi)]; exact h.base_prev i hi
  prev_used i hi hb := by
    rw [hused] at hi ⊢
    rw [hprev i (Or.inl hi)]
    exact h.prev_used i hi hb
  next_prev i hi hb := by
    rw [hused] at hi
    rw [hprev i (Or.inl hi), hnext]
    exact h.next_prev i hi hb
  home_base := h.home_base
  home_next i hi := by rw [hnext] at hi ⊢; exact h.home_next i hi
  rank_next i hi := by rw [hnext] at hi ⊢; exact h.rank_next i hi

end

theorem empty (base size : ℕ) :
    Chained base size ⟨fun _ => false, fun _ => 0, fun _ => 0⟩ id (fun _ => 0) := by
  constructor <;> intro i <;> simp

section

variable (h : Chained base size L home rank)
include h

theorem push {b : ℕ} (hpos : 0 < b) (hb : b < base)
    (hs : base ≤ size) (hfree : L.used b = false) :
    Chained base size (L.push b) home rank where
  used_pos i hi := by
    by_cases hib : i = b
    · omega
    · exact h.used_pos i (by simpa [Links.push, hib] using hi)
  used_lt i hi := by
    by_cases hib : i = b
    · omega
    · exact h.used_lt i (by simpa [Links.push, hib] using hi)
  free_next i hi := by
    by_cases hib : i = b
    · subst hib; exact h.free_next i hfree
    · exact h.free_next i (by simpa [Links.push, hib] using hi)
  next_used i hi := by
    by_cases hib : L.next i = b
    · simp [Links.push, hib]
    · simpa [Links.push, hib] using h.next_used i hi
  next_expn := h.next_expn
  prev_next := h.prev_next
  base_prev := h.base_prev
  prev_used i hi hbi := by
    have hib : i ≠ b := by omega
    have hp := h.prev_used i (by simpa [Links.push, hib] using hi) hbi
    by_cases hpb : L.prev i = b
    · simp [Links.push, hpb]
    · simpa [Links.push, hpb] using hp
  next_prev i hi hbi := by
    have hib : i ≠ b := by omega
    exact h.next_prev i (by simpa [Links.push, hib] using hi) hbi
  home_base := h.home_base
  home_next := h.home_next
  rank_next := h.rank_next

theorem drop {b : ℕ} (hb : b < base) (hn : L.next b = 0) : Chained base size (L.drop b) home rank where
  used_pos i hi := by
    by_cases hib : i = b
    · simp [Links.drop, hib] at hi
    · exact h.used_pos i (by simpa [Links.drop, hib] using hi)
  used_lt i hi := by
    by_cases hib : i = b
    · simp [Links.drop, hib] at hi
    · exact h.used_lt i (by simpa [Links.drop, hib] using hi)
  free_next i hi := by
    by_cases hib : i = b
    · subst hib; exact hn
    · exact h.free_next i (by simpa [Links.drop, hib] using hi)
  next_used i hi := by
    have hib : L.next i ≠ b := by have := h.next_expn i hi; omega
    simpa [Links.drop, hib] using h.next_used i hi
  next_expn := h.next_expn
  prev_next := h.prev_next
  base_prev := h.base_prev
  prev_used i hi hbi := by
    have hib : i ≠ b := by omega
    have hi' : L.used i = true := by simpa [Links.drop, hib] using hi
    have hpb : L.prev i ≠ b := by
      intro he
      have := h.next_prev i hi' hbi
      rw [he, hn] at this
      exact absurd (h.used_pos i hi') (by omega)
    simpa [Links.drop, hpb] using h.prev_used i hi' hbi
  next_prev i hi hbi := by
    have hib : i ≠ b := by omega
    exact h.next_prev i (by simpa [Links.drop, hib] using hi) hbi
  home_base := h.home_base
  home_next := h.home_next
  rank_next := h.rank_next

theorem append {e : ℕ} (he : L.used e = true)
    (hend : L.next e = 0) (hj : base ≤ j) (hjs : j < size) (hpos : 0 < base)
    (hfree : L.used j = false) :
    Chained base size (L.append e j) (update home j (home e))
      (update rank j (rank e + 1)) := by
  have hej : e ≠ j := by rintro rfl; simp [he] at hfree
  have hnj : L.next j = 0 := h.free_next j hfree
  have hnext : ∀ i, L.next i ≠ 0 → L.next i ≠ j := by
    intro i hi hij
    have := h.next_used i hi
    rw [hij, hfree] at this
    exact absurd this (by simp)
  have hsrc : ∀ i, L.next i ≠ 0 → i ≠ e ∧ i ≠ j := by
    intro i hi
    exact ⟨by rintro rfl; exact hi hend, by rintro rfl; exact hi hnj⟩
  constructor
  · intro i hi
    by_cases hij : i = j
    · omega
    · exact h.used_pos i (by simpa [Links.append, hij] using hi)
  · intro i hi
    by_cases hij : i = j
    · omega
    · exact h.used_lt i (by simpa [Links.append, hij] using hi)
  · intro i hi
    have hij : i ≠ j := by rintro rfl; simp [Links.append] at hi
    have hi' : L.used i = false := by simpa [Links.append, hij] using hi
    have hie : i ≠ e := by rintro rfl; simp [he] at hi'
    simpa [Links.append, hie] using h.free_next i hi'
  · intro i hi
    by_cases hie : i = e
    · simp [Links.append, hie]
    · have hi' : L.next i ≠ 0 := by simpa [Links.append, hie] using hi
      simpa [Links.append, hie, hnext i hi'] using h.next_used i hi'
  · intro i hi
    by_cases hie : i = e
    · simpa [Links.append, hie] using hj
    · simpa [Links.append, hie] using h.next_expn i (by simpa [Links.append, hie] using hi)
  · intro i hi
    by_cases hie : i = e
    · simp [Links.append, hie]
    · have hi' : L.next i ≠ 0 := by simpa [Links.append, hie] using hi
      simpa [Links.append, hie, hnext i hi'] using h.prev_next i hi'
  · intro i hi
    have hij : i ≠ j := by omega
    simpa [Links.append, hij] using h.base_prev i hi
  · intro i hi hb
    by_cases hij : i = j
    · subst hij; simp [Links.append, hej, he]
    · have hi' : L.used i = true := by simpa [Links.append, hij] using hi
      have hp := h.prev_used i hi' hb
      have hpj : L.prev i ≠ j := by intro hp'; rw [hp', hfree] at hp; exact absurd hp (by simp)
      simpa [Links.append, hij, hpj] using hp
  · intro i hi hb
    by_cases hij : i = j
    · subst hij; simp [Links.append]
    · have hi' : L.used i = true := by simpa [Links.append, hij] using hi
      have hp := h.next_prev i hi' hb
      have hpe : L.prev i ≠ e := by
        intro hp'
        rw [hp', hend] at hp
        exact absurd (h.used_pos i hi') (by omega)
      simpa [Links.append, hij, hpe] using hp
  · intro i hi
    have hij : i ≠ j := by omega
    simpa [hij] using h.home_base i hi
  · intro i hi
    by_cases hie : i = e
    · subst hie; simp [Links.append, hej]
    · have hi' : L.next i ≠ 0 := by simpa [Links.append, hie] using hi
      simpa [Links.append, hie, hnext i hi', (hsrc i hi').2] using h.home_next i hi'
  · intro i hi
    by_cases hie : i = e
    · subst hie; simp [Links.append, hej]
    · have hi' : L.next i ≠ 0 := by simpa [Links.append, hie] using hi
      simpa [Links.append, hie, hnext i hi', (hsrc i hi').2] using h.rank_next i hi'

theorem unlink (hi : L.used i = true) (hb : base ≤ i) : Chained base size (L.unlink i) home rank := by
  have hp : L.next (L.prev i) = i := h.next_prev i hi hb
  have hi0 : i ≠ 0 := Nat.pos_iff_ne_zero.mp (h.used_pos i hi)
  have hpn : L.next (L.prev i) ≠ 0 := by rw [hp]; exact hi0
  have hpi : L.prev i ≠ i := by
    intro he
    exact h.next_ne_self hpn (by rw [hp, he])
  have hni : L.next i ≠ i := by
    intro he
    exact h.next_ne_self (by rw [he]; exact hi0) he
  -- no slot but `prev i` points at `i`, and none but `i` points at `next i`
  have hto : ∀ k, L.next k ≠ 0 → k ≠ L.prev i → L.next k ≠ i := by
    intro k hk hkp hki
    exact hkp (by rw [← h.prev_next k hk, hki])
  have hfrom : ∀ k, L.next k ≠ 0 → k ≠ i → L.next k ≠ L.next i := by
    intro k hk hki he
    exact hki (h.next_inj hk he)
  have hnp : L.next i ≠ 0 → L.next i ≠ L.prev i := by
    intro hn he
    have h1 := h.rank_next i hn
    have h2 := h.rank_next _ hpn
    rw [hp] at h2
    rw [he] at h1
    omega
  have hnext : ∀ k, (L.unlink i).next k =
      if k = i then 0 else if k = L.prev i then L.next i else L.next k := by
    intro k
    simp only [Links.unlink, update_apply]
  have hprev : ∀ k, k ≠ i → (L.unlink i).prev k =
      if L.next i ≠ 0 ∧ k = L.next i then L.prev i else L.prev k := by
    intro k hki
    by_cases hn : L.next i = 0
    · simp [Links.unlink, hn, hki]
    · simp [Links.unlink, hn, hki, update_apply]
  have hused : ∀ k, (L.unlink i).used k = if k = i then false else L.used k := by
    intro k
    simp only [Links.unlink, update_apply]
  -- a forward link of the new shape is an old one, or the bridge over `i`
  have hlink : ∀ k, (L.unlink i).next k ≠ 0 → k ≠ i ∧
      ((k = L.prev i ∧ L.next i ≠ 0 ∧ (L.unlink i).next k = L.next i) ∨
        (k ≠ L.prev i ∧ L.next k ≠ 0 ∧ (L.unlink i).next k = L.next k)) := by
    intro k hk
    rw [hnext] at hk ⊢
    by_cases hki : k = i
    · simp [hki] at hk
    · by_cases hkp : k = L.prev i
      · simp only [hkp, hpi, if_true, if_false] at hk ⊢
        exact ⟨hpi, Or.inl ⟨trivial, hk, trivial⟩⟩
      · simp only [hki, hkp, if_false] at hk ⊢
        exact ⟨hki, Or.inr ⟨hkp, hk, trivial⟩⟩
  constructor
  · intro k hk
    rw [hused] at hk
    split at hk
    · exact absurd hk (by simp)
    · exact h.used_pos k hk
  · intro k hk
    rw [hused] at hk
    split at hk
    · exact absurd hk (by simp)
    · exact h.used_lt k hk
  · intro k hk
    rw [hused] at hk
    rw [hnext]
    by_cases hki : k = i
    · simp [hki]
    · rw [if_neg hki] at hk ⊢
      have hkp : k ≠ L.prev i := by
        rintro rfl
        rw [h.used_of_next hpn] at hk
        exact absurd hk (by simp)
      rw [if_neg hkp]
      exact h.free_next k hk
  · intro k hk
    obtain ⟨hki, ⟨-, hn, he⟩ | ⟨hkp, hkn, he⟩⟩ := hlink k hk
    · rw [he, hused, if_neg hni]
      exact h.next_used i hn
    · rw [he, hused, if_neg (hto k hkn hkp)]
      exact h.next_used k hkn
  · intro k hk
    obtain ⟨-, ⟨-, hn, he⟩ | ⟨-, hkn, he⟩⟩ := hlink k hk
    · rw [he]; exact h.next_expn i hn
    · rw [he]; exact h.next_expn k hkn
  · intro k hk
    obtain ⟨hki, ⟨hkp, hn, he⟩ | ⟨hkp, hkn, he⟩⟩ := hlink k hk
    · rw [he, hprev _ hni, if_pos ⟨hn, rfl⟩, hkp]
    · rw [he, hprev _ (hto k hkn hkp), if_neg (fun hc => hfrom k hkn hki hc.2)]
      exact h.prev_next k hkn
  · intro k hk
    rw [hprev k (by omega), if_neg]
    · exact h.base_prev k hk
    · rintro ⟨hn, rfl⟩
      have := h.next_expn i hn
      omega
  · intro k hk hkb
    rw [hused] at hk
    by_cases hki : k = i
    · simp [hki] at hk
    rw [if_neg hki] at hk
    rw [hprev k hki]
    by_cases hkn : L.next i ≠ 0 ∧ k = L.next i
    · rw [if_pos hkn, hused, if_neg hpi]
      exact h.prev_used i hi hb
    · rw [if_neg hkn, hused, if_neg]
      · exact h.prev_used k hk hkb
      · intro hpk
        have hik : L.next i = k := by rw [← hpk]; exact h.next_prev k hk hkb
        exact hkn ⟨by rw [hik]; exact Nat.pos_iff_ne_zero.mp (h.used_pos k hk), hik.symm⟩
  · intro k hk hkb
    rw [hused] at hk
    by_cases hki : k = i
    · simp [hki] at hk
    rw [if_neg hki] at hk
    rw [hprev k hki]
    by_cases hkn : L.next i ≠ 0 ∧ k = L.next i
    · rw [if_pos hkn, hnext, if_neg hpi, if_pos rfl, hkn.2]
    · have hnk := h.next_prev k hk hkb
      have hki' : L.prev k ≠ i := by
        intro hpk
        rw [hpk] at hnk
        exact hkn ⟨by rw [hnk]; exact Nat.pos_iff_ne_zero.mp (h.used_pos k hk), hnk.symm⟩
      have hkp' : L.prev k ≠ L.prev i := by
        intro hpk
        rw [hpk, hp] at hnk
        exact hki hnk.symm
      rw [if_neg hkn, hnext, if_neg hki', if_neg hkp', hnk]
  · exact h.home_base
  · intro k hk
    obtain ⟨-, ⟨hkp, hn, he⟩ | ⟨-, hkn, he⟩⟩ := hlink k hk
    · rw [he, h.home_next i hn, hkp, ← h.home_next _ hpn, hp]
    · rw [he]; exact h.home_next k hkn
  · intro k hk
    obtain ⟨-, ⟨hkp, hn, he⟩ | ⟨-, hkn, he⟩⟩ := hlink k hk
    · have h1 := h.rank_next i hn
      have h2 := h.rank_next _ hpn
      rw [hp] at h2
      rw [he, hkp]
      omega
    · rw [he]; exact h.rank_next k hkn

end

end Chained

namespace Links

theorem usedIn_congr (lo hi : ℕ)
    (he : ∀ i, lo ≤ i → i < hi → L'.used i = L.used i) : L'.usedIn lo hi = L.usedIn lo hi := by
  unfold usedIn
  congr 1
  refine Finset.filter_congr fun i hi' => ?_
  rw [Finset.mem_Ico] at hi'
  rw [he i hi'.1 hi'.2]

theorem usedIn_update_out {lo hi : ℕ} {b : Bool}
    (hL : L'.used = update L.used i b) (hout : i < lo ∨ hi ≤ i) :
    L'.usedIn lo hi = L.usedIn lo hi := by
  refine usedIn_congr lo hi fun k hk1 hk2 => ?_
  have hki : k ≠ i := by omega
  simp [hL, hki]

theorem usedIn_update_true {lo hi : ℕ}
    (hL : L'.used = update L.used i true) (hlo : lo ≤ i) (hhi : i < hi)
    (hfree : L.used i = false) : L'.usedIn lo hi = L.usedIn lo hi + 1 := by
  have hins : (Finset.Ico lo hi).filter (fun k => update L.used i true k = true) =
      insert i ((Finset.Ico lo hi).filter (fun k => L.used k = true)) := by
    ext k
    by_cases hki : k = i
    · subst hki; simp [hlo, hhi]
    · simp [hki]
  unfold usedIn
  rw [hL, hins, Finset.card_insert_of_notMem (by simp [hfree])]

theorem usedIn_update_false {lo hi : ℕ}
    (hL : L'.used = update L.used i false) (hlo : lo ≤ i) (hhi : i < hi)
    (hu : L.used i = true) : L'.usedIn lo hi + 1 = L.usedIn lo hi := by
  refine (usedIn_update_true (i := i) ?_ hlo hhi ?_).symm
  · rw [hL, update_idem, ← hu, update_eq_self]
  · simp [hL]

theorem usedIn_le (L : Links) (lo hi : ℕ) : L.usedIn lo hi ≤ hi - lo := by
  refine (Finset.card_filter_le _ _).trans ?_
  rw [Nat.card_Ico]

end Links

inductive Links.Insert (base size : ℕ) (L : Links) (b n : ℕ) (L' : Links) : Prop where
  | head (hn : n = b) (hfree : L.used n = false) (hL : L' = L.push n)
  | tail (e : ℕ) (hbucket : L.used b = true) (he : L.used e = true) (hend : L.next e = 0)
      (hhome : ∀ home rank, Chained base size L home rank → home e = b)
      (hfree : L.used n = false) (hbase : base ≤ n) (hsize : n < size)
      (hL : L' = L.append e n)

variable {m : ℕ}

namespace Links.Insert

variable {b n : ℕ} {L' : Links}

section

variable (h : L.Insert base size b n L')
include h

theorem free : L.used n = false := by
  cases h <;> assumption

theorem used_eq : L'.used = update L.used n true := by
  cases h with
  | head hn hfree hL => rw [hL]; rfl
  | tail e hbucket he hend hhome hfree hbase hsize hL => rw [hL]; rfl

theorem free_links (hm : L.used m = false)
    (hmn : m ≠ n) : L'.next m = L.next m ∧ L'.prev m = L.prev m := by
  cases h with
  | head hn hfree hL => rw [hL]; exact ⟨rfl, rfl⟩
  | tail e hbucket he hend hhome hfree hbase hsize hL =>
    have hme : m ≠ e := by
      rintro rfl
      rw [he] at hm
      exact absurd hm (by simp)
    rw [hL]
    exact ⟨update_of_ne hme .., update_of_ne hmn ..⟩

theorem next_eq (hm : L.next m ≠ 0) : L'.next m = L.next m := by
  cases h with
  | head hn hfree hL => rw [hL]; rfl
  | tail e hbucket he hend hhome hfree hbase hsize hL =>
    have hme : m ≠ e := by
      rintro rfl
      exact hm hend
    rw [hL]
    exact update_of_ne hme ..

theorem next_ne_zero (hm : L.next m ≠ 0) :
    L'.next m ≠ 0 := (h.next_eq hm).trans_ne hm

theorem usedIn_eq (hbb : b < base) :
    L'.usedIn 0 base = L.usedIn 0 base + (if n < base then 1 else 0) ∧
      L'.usedIn base size = L.usedIn base size + (if n < base then 0 else 1) := by
  have hused := h.used_eq
  have hfree := h.free
  by_cases hn : n < base
  · rw [if_pos hn, if_pos hn]
    exact ⟨usedIn_update_true hused (Nat.zero_le n) hn hfree, usedIn_update_out hused (Or.inl hn)⟩
  · have hlt : n < size := by cases h <;> omega
    rw [if_neg hn, if_neg hn]
    exact ⟨usedIn_update_out hused (Or.inr (by omega)),
      usedIn_update_true hused (by omega) hlt hfree⟩

theorem pos_lt (hb : 0 < b) (hbb : b < base) (hs : base ≤ size) : 0 < n ∧ n < size := by
  cases h <;> omega

/-- **Insertion keeps the shape**, and puts the new slot into the bucket's chain. -/
theorem chained (hb : 0 < b) (hbb : b < base)
    (hs : base ≤ size) (hc : Chained base size L home rank) :
    ∃ rank', Chained base size L' (update home n b) rank' := by
  cases h with
  | head hn hfree hL =>
    subst hn hL
    refine ⟨rank, ?_⟩
    rw [Function.update_eq_self_iff.mpr (hc.home_base n hbb).symm]
    exact hc.push hb hbb hs hfree
  | tail e hbucket he hend hhome hfree hbase hsize hL =>
    subst hL
    have happ := hc.append he hend hbase hsize (by omega) hfree
    rw [hhome home rank hc] at happ
    exact ⟨_, happ⟩

end

end Links.Insert

inductive Links.Remove (base : ℕ) (L : Links) (q : ℕ) (L' : Links) : Prop where
  | head (hused : L.used q = true) (hq : q < base) (hend : L.next q = 0) (hL : L' = L.drop q)
  | tail (hused : L.used q = true) (hq : base ≤ q) (hL : L' = L.unlink q)

namespace Links.Remove

variable {q : ℕ} {L' : Links}

section

variable (h : L.Remove base q L')
include h

theorem used : L.used q = true := by
  cases h <;> assumption

theorem used_eq : L'.used = update L.used q false := by
  cases h with
  | head hused hq hend hL => rw [hL]; rfl
  | tail hused hq hL => rw [hL]; rfl

/-- **Removal keeps the shape** and the buckets of the other slots. -/
theorem chained (hc : Chained base size L home rank) : Chained base size L' home rank := by
  cases h with
  | head hused hq hend hL => rw [hL]; exact hc.drop hq hend
  | tail hused hq hL => rw [hL]; exact hc.unlink hused hq

theorem free_links (hc : Chained base size L home rank)
    (hm : L.used m = false) : L'.next m = L.next m ∧ L'.prev m = L.prev m := by
  have hmq : m ≠ q := by
    rintro rfl
    rw [h.used] at hm
    exact absurd hm (by simp)
  cases h with
  | head hused hq hend hL => rw [hL]; exact ⟨rfl, rfl⟩
  | tail hused hq hL =>
    have hmp : m ≠ L.prev q := by
      rintro rfl
      rw [hc.prev_used q hused hq] at hm
      exact absurd hm (by simp)
    rw [hL]
    refine ⟨by simp [Links.unlink, hmq, hmp], ?_⟩
    by_cases hn : L.next q = 0
    · simp [Links.unlink, hn, hmq]
    · have hmn : m ≠ L.next q := by
        rintro rfl
        rw [hc.next_used q hn] at hm
        exact absurd hm (by simp)
      simp [Links.unlink, hn, hmq, hmn]

theorem next_eq (hc : Chained base size L home rank) (hmq : m ≠ q)
    (hm : L.next m ≠ q) : L'.next m = L.next m := by
  cases h with
  | head hused hq hend hL => rw [hL]; rfl
  | tail hused hq hL =>
    have hmp : m ≠ L.prev q := by
      rintro rfl
      exact hm (hc.next_prev q hused hq)
    rw [hL]
    exact (update_of_ne hmq ..).trans (update_of_ne hmp ..)

theorem next_ne_zero (hm : L.next m ≠ 0) (hmq : m ≠ q)
    (hlast : m = L.prev q → base ≤ q → L.next q ≠ 0) : L'.next m ≠ 0 := by
  cases h with
  | head hused hq hend hL => rw [hL]; exact hm
  | tail hused hq hL =>
    rw [hL]
    by_cases hmp : m = L.prev q
    · have hn := hlast hmp hq
      rw [hmp] at hmq ⊢
      simpa [Links.unlink, hmq] using hn
    · simpa [Links.unlink, hmq, hmp] using hm

theorem usedIn_eq (hc : Chained base size L home rank) :
    L'.usedIn 0 base + (if q < base then 1 else 0) = L.usedIn 0 base ∧
      L'.usedIn base size + (if q < base then 0 else 1) = L.usedIn base size := by
  have hused := h.used_eq
  have hu := h.used
  by_cases hq : q < base
  · rw [if_pos hq, if_pos hq]
    exact ⟨usedIn_update_false hused (Nat.zero_le q) hq hu, usedIn_update_out hused (Or.inl hq)⟩
  · rw [if_neg hq, if_neg hq]
    exact ⟨usedIn_update_out hused (Or.inr (by omega)),
      usedIn_update_false hused (by omega) (hc.used_lt q hu) hu⟩

end

end Links.Remove

namespace Chained

section

variable (h : Chained base size L home rank)
include h

theorem home_used (hi : L.used i = true) : L.used (home i) = true ∧ home i < base := by
  induction hr : rank i using Nat.strong_induction_on generalizing i with
  | _ r ih =>
    by_cases hb : i < base
    · rw [h.home_base i hb]
      exact ⟨hi, hb⟩
    · have hp := h.prev_used i hi (by omega)
      have hn := h.next_prev i hi (by omega)
      have hn0 : L.next (L.prev i) ≠ 0 := by
        rw [hn]; exact Nat.pos_iff_ne_zero.mp (h.used_pos i hi)
      have hlt := h.rank_next _ hn0
      have hhome := h.home_next _ hn0
      rw [hn] at hlt hhome
      rw [hhome]
      exact ih _ (hr ▸ hlt) hp rfl

theorem used_of_mem_walk (n : ℕ)
    (hi : L.used i = true) (hj : j ∈ L.walk n i) :
    L.used j = true ∧ home j = home i ∧ rank i ≤ rank j := by
  induction n generalizing i with
  | zero => simp [Links.walk] at hj
  | succ n ih =>
    have hi0 : i ≠ 0 := Nat.pos_iff_ne_zero.mp (h.used_pos i hi)
    rw [Links.walk, if_neg hi0, mem_cons] at hj
    obtain rfl | hj := hj
    · exact ⟨hi, rfl, le_rfl⟩
    · by_cases hn : L.next i = 0
      · rw [hn] at hj
        cases n <;> simp [Links.walk] at hj
      · obtain ⟨hu, hh, hr⟩ := ih (h.next_used i hn) hj
        exact ⟨hu, hh.trans (h.home_next i hn), (h.rank_next i hn).le.trans hr⟩

theorem walk_nodup (n : ℕ) (hi : L.used i = true) : (L.walk n i).Nodup := by
  induction n generalizing i with
  | zero => exact nodup_nil
  | succ n ih =>
    have hi0 : i ≠ 0 := Nat.pos_iff_ne_zero.mp (h.used_pos i hi)
    rw [Links.walk, if_neg hi0]
    by_cases hn : L.next i = 0
    · rw [hn]
      cases n <;> simp [Links.walk]
    · refine nodup_cons.mpr ⟨?_, ih (h.next_used i hn)⟩
      intro hmem
      have hr := (h.used_of_mem_walk n (h.next_used i hn) hmem).2.2
      exact absurd (h.rank_next i hn) (by omega)

theorem walk_length_lt (n : ℕ) (hi : L.used i = true) : (L.walk n i).length < size := by
  have hsub : (L.walk n i).toFinset ⊆ Finset.Ioo 0 size := by
    intro j hj
    have hu := (h.used_of_mem_walk n hi (mem_toFinset.mp hj)).1
    exact Finset.mem_Ioo.mpr ⟨h.used_pos j hu, h.used_lt j hu⟩
  have hcard := Finset.card_le_card hsub
  rw [toFinset_card_of_nodup (h.walk_nodup n hi), Nat.card_Ioo] at hcard
  have := h.used_lt i hi
  omega

end

theorem walk_closed (L : Links) (n : ℕ) (hlen : (L.walk n i).length < n)
    (hj : j ∈ L.walk n i) (hn : L.next j ≠ 0) : L.next j ∈ L.walk n i := by
  induction n generalizing i with
  | zero => simp at hlen
  | succ n ih =>
    by_cases hi0 : i = 0
    · simp [Links.walk, hi0] at hj
    rw [Links.walk, if_neg hi0] at hlen hj ⊢
    have hlen' : (L.walk n (L.next i)).length < n := by simpa using hlen
    rcases mem_cons.mp hj with rfl | hj
    · refine mem_cons_of_mem _ ?_
      cases n with
      | zero => simp at hlen'
      | succ n => rw [Links.walk, if_neg hn]; exact mem_cons_self
    · exact mem_cons_of_mem _ (ih hlen' hj)

section

variable (h : Chained base size L home rank)
include h

/-- **Completeness of the walk.**  From a used bucket `b` a walk bounded by the number of
slots meets exactly the used slots of that bucket. -/
theorem mem_walk_iff {n b : ℕ} (hn : size ≤ n)
    (hb : L.used b = true) (hbase : b < base) :
    j ∈ L.walk n b ↔ L.used j = true ∧ home j = b := by
  constructor
  · intro hj
    obtain ⟨hu, hh, -⟩ := h.used_of_mem_walk n hb hj
    exact ⟨hu, hh.trans (h.home_base b hbase)⟩
  · rintro ⟨hj, hhome⟩
    have hlen := (h.walk_length_lt n hb).trans_le hn
    -- by induction along the backward links, whose rank falls
    induction hr : rank j using Nat.strong_induction_on generalizing j with
    | _ r ih =>
      by_cases hjb : j < base
      · rw [h.home_base j hjb] at hhome
        subst hhome
        have hj0 : j ≠ 0 := Nat.pos_iff_ne_zero.mp (h.used_pos j hj)
        cases n with
        | zero => simp at hlen
        | succ n => rw [Links.walk, if_neg hj0]; exact mem_cons_self
      · have hnp := h.next_prev j hj (by omega)
        have hn0 : L.next (L.prev j) ≠ 0 := by
          rw [hnp]; exact Nat.pos_iff_ne_zero.mp (h.used_pos j hj)
        have hlt := h.rank_next _ hn0
        have hhome' := h.home_next _ hn0
        rw [hnp] at hlt hhome'
        have hp := ih _ (hr ▸ hlt) (h.prev_used j hj (by omega)) (hhome'.symm.trans hhome) rfl
        have hc := walk_closed L n hlen hp hn0
        rwa [hnp] at hc

/-- **A chain has no cycle**: following forward links never leads back. -/
theorem iterate_next_ne (hi : L.used i = true) (n : ℕ) : L.next^[n + 1] i ≠ i := by
  have hi0 := Nat.pos_iff_ne_zero.mp (h.used_pos i hi)
  have hstep : ∀ n, L.next^[n] i = 0 ∨ rank i + n ≤ rank (L.next^[n] i) := by
    intro n
    induction n with
    | zero => exact Or.inr le_rfl
    | succ n ih =>
      rw [Function.iterate_succ_apply']
      by_cases hn : L.next (L.next^[n] i) = 0
      · exact Or.inl hn
      right
      have hr := h.rank_next _ hn
      rcases ih with hz | hle
      · rw [hz] at hn
        cases h0 : L.used 0 with
        | true => exact absurd (h.used_pos 0 h0) (lt_irrefl 0)
        | false => exact absurd (h.free_next 0 h0) hn
      · omega
  intro he
  rcases hstep (n + 1) with hz | hr
  · exact hi0 (he.symm.trans hz)
  · rw [he] at hr
    omega

/-- **Every used slot lies on the chain of exactly one used bucket.** -/
theorem existsUnique_bucket {n : ℕ} (hn : size ≤ n)
    (hj : L.used j = true) :
    ∃! b, (L.used b = true ∧ b < base) ∧ j ∈ L.walk n b := by
  refine ⟨home j, ⟨h.home_used hj, (h.mem_walk_iff hn (h.home_used hj).1 (h.home_used hj).2).mpr
    ⟨hj, rfl⟩⟩, ?_⟩
  rintro b ⟨⟨hb, hbb⟩, hmem⟩
  exact ((h.mem_walk_iff hn hb hbb).mp hmem).2.symm

theorem wellChained : L.WellChained base size := by
  refine ⟨?_, h.used_lt, fun j hj => h.existsUnique_bucket le_rfl hj,
    fun b hb j hj => (h.used_of_mem_walk size hb hj).1, fun i _ hn => h.prev_next i hn,
    fun i hi hp => h.next_prev_of_ne hi hp, fun i hi n => h.iterate_next_ne hi n⟩
  cases h0 : L.used 0 with
  | false => rfl
  | true => exact absurd (h.used_pos 0 h0) (lt_irrefl 0)

end

theorem walk_length_of_last (L : Links) (n : ℕ) (hi : i ≠ 0)
    (hn : L.next (L.last n i) ≠ 0) : (L.walk (n + 1) i).length = n + 1 := by
  induction n generalizing i with
  | zero => simp [Links.walk, hi]
  | succ n ih =>
    by_cases h0 : L.next i = 0
    · simp [Links.last, h0] at hn
    · rw [Links.last, if_neg h0] at hn
      rw [Links.walk, if_neg hi, length_cons, ih h0 hn]

theorem last_spec (h : Chained base size L home rank) {n : ℕ} (hn : size ≤ n)
    (hi : L.used i = true) :
    L.used (L.last n i) = true ∧ L.next (L.last n i) = 0 ∧ home (L.last n i) = home i := by
  have hkeep : ∀ n i, L.used i = true →
      L.used (L.last n i) = true ∧ home (L.last n i) = home i := by
    intro n
    induction n with
    | zero => intro i hi; exact ⟨hi, rfl⟩
    | succ n ih =>
      intro i hi
      by_cases h0 : L.next i = 0
      · simp only [Links.last, h0, if_true]
        exact ⟨hi, trivial⟩
      · rw [Links.last, if_neg h0]
        obtain ⟨hu, hh⟩ := ih _ (h.next_used i h0)
        exact ⟨hu, hh.trans (h.home_next i h0)⟩
  refine ⟨(hkeep n i hi).1, ?_, (hkeep n i hi).2⟩
  by_contra hne
  have hlen := walk_length_of_last L n (Nat.pos_iff_ne_zero.mp (h.used_pos i hi)) hne
  have := h.walk_length_lt (n + 1) hi
  omega

end Chained

end SlotChain
