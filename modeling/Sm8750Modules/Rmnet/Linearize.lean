import Sm8750Modules.Rmnet.Aggregate

/-!
# Uplink aggregation — the copies into the buffer

A packet is copied piece by piece: its linear part, its pages, and then the pages of the packets of its
fragment list. The buffer is a block of pages of the current order, and the packet was admitted by the
configured size.
-/

namespace Rmnet.Linearize

open Runs State List

/-- A packet of a fragment list. -/
structure Member where
  linear : List UInt8
  frags : List (List UInt8)

/-- A packet: its linear part, its pages, and its fragment list. -/
structure SkBuff where
  linear : List UInt8
  frags : List (List UInt8)
  fragList : List Member

def SkBuff.bytes (src : SkBuff) : List UInt8 :=
  src.linear ++ src.frags.flatten ++ src.fragList.flatMap fun m => m.linear ++ m.frags.flatten

/-- `skb_put_data` into a buffer, `none` where it panics. -/
def putData (cap : ℕ) (dst src : List UInt8) : Option (List UInt8) :=
  if cap < dst.length + src.length then none else some (dst ++ src)

/-- A difference of `unsigned int`s. -/
def subU32 (a b : ℕ) : ℕ := (a + (2 ^ 32 - b % 2 ^ 32)) % 2 ^ 32

/-- The pages of one packet, with what is left of `target`. -/
def copyFrags (cap : ℕ) : List (List UInt8) → List UInt8 → ℕ → Option (List UInt8 × ℕ)
  | [], dst, target => some (dst, target)
  | frag :: rest, dst, target =>
    match putData cap dst frag with
    | none => none
    | some dst => copyFrags cap rest dst (subU32 target frag.length)

/-- The loop of `rmnet_map_linearize_copy` at a packet with the given pages and the packets after it, which
stays at the last one. -/
def copyLoop (cap : ℕ) : ℕ → List (List UInt8) → List Member → List UInt8 → ℕ →
    Option (Option (List UInt8))
  | 0, _, _, _, _ => none
  | fuel + 1, frags, after, dst, target =>
    if target = 0 then some (some dst)
    else
      match copyFrags cap frags dst target with
      | none => some none
      | some (dst, target) =>
        match after with
        | [] => copyLoop cap fuel frags [] dst target
        | m :: rest => copyLoop cap fuel m.frags rest dst target

/-- `rmnet_map_linearize_copy` into a buffer that holds `dst` already. -/
def linearizeCopy (fuel cap : ℕ) (dst : List UInt8) (src : SkBuff) : Option (Option (List UInt8)) :=
  match putData cap dst src.linear with
  | none => some none
  | some dst => copyLoop cap fuel src.frags src.fragList dst (src.bytes.length - src.linear.length)

section Loop

variable {cap target : ℕ} {dst : List UInt8} {frags : List (List UInt8)} {after : List Member}

theorem subU32_of_le {a b : ℕ} (h : b ≤ a) (ha : a < 2 ^ 32) : subU32 a b = a - b := by
  rw [subU32]
  omega

theorem putData_of_le {src : List UInt8} (h : dst.length + src.length ≤ cap) :
    putData cap dst src = some (dst ++ src) := by
  rw [putData, if_neg (by omega)]

theorem copyFrags_spec (hfit : dst.length + frags.flatten.length ≤ cap)
    (hle : frags.flatten.length ≤ target) (htarget : target < 2 ^ 32) :
    copyFrags cap frags dst target = some (dst ++ frags.flatten, target - frags.flatten.length) := by
  induction frags generalizing dst target with
  | nil => simp [copyFrags]
  | cons frag rest ih =>
    rw [flatten_cons, length_append] at hfit hle
    have hrest : (dst ++ frag).length + rest.flatten.length ≤ cap := by
      rw [length_append]
      omega
    have hput : putData cap dst frag = some (dst ++ frag) := putData_of_le (by omega)
    rw [copyFrags, hput]
    dsimp only
    rw [subU32_of_le (by omega) htarget, ih hrest (by omega) (by omega)]
    simp [Nat.sub_sub]

/-- **The loop ends** with all pages copied, once for each packet. -/
theorem copyLoop_spec (htarget : target = (frags.flatten ++ after.flatMap (·.frags.flatten)).length)
    (hfit : dst.length + target ≤ cap) (hlt : target < 2 ^ 32) :
    copyLoop cap (after.length + 2) frags after dst target =
      some (some (dst ++ frags.flatten ++ after.flatMap (·.frags.flatten))) := by
  induction after generalizing frags dst target with
  | nil =>
    simp only [flatMap_nil, append_nil] at htarget ⊢
    by_cases hzero : target = 0
    · have hnil : frags.flatten = [] := length_eq_zero_iff.mp (by omega)
      simp [copyLoop, hzero, hnil]
    · rw [copyLoop, if_neg hzero, copyFrags_spec (by omega) (by omega) hlt]
      simp [copyLoop, htarget]
  | cons m rest ih =>
    rw [flatMap_cons, length_append, length_append] at htarget
    by_cases hzero : target = 0
    · have hfrags : frags.flatten = [] := length_eq_zero_iff.mp (by omega)
      have hm : m.frags.flatten = [] := length_eq_zero_iff.mp (by omega)
      have hrest : rest.flatMap (·.frags.flatten) = [] := length_eq_zero_iff.mp (by omega)
      rw [copyLoop, if_pos hzero, flatMap_cons, hfrags, hm, hrest]
      simp
    · rw [length_cons, Nat.add_right_comm, copyLoop, if_neg hzero,
        copyFrags_spec (by omega) (by omega) hlt]
      dsimp only
      rw [ih (by rw [length_append]; omega) (by rw [length_append]; omega) (by omega)]
      simp

/-- **A packet is copied** as it is when its fragment list has pages only. -/
theorem linearizeCopy_spec {src : SkBuff} (hpages : ∀ m ∈ src.fragList, m.linear = [])
    (hlen : src.bytes.length < 2 ^ 32) (hfit : dst.length + src.bytes.length ≤ cap) :
    linearizeCopy (src.fragList.length + 2) cap dst src = some (some (dst ++ src.bytes)) := by
  have hmembers : src.fragList.flatMap (fun m => m.linear ++ m.frags.flatten) =
      src.fragList.flatMap (·.frags.flatten) := by
    refine flatMap_congr fun m hm => ?_
    rw [hpages m hm, nil_append]
  rw [SkBuff.bytes, hmembers] at hlen hfit
  rw [append_assoc, length_append] at hlen hfit
  have hput : putData cap dst src.linear = some (dst ++ src.linear) := putData_of_le (by omega)
  rw [linearizeCopy, hput, SkBuff.bytes, hmembers, append_assoc, length_append, Nat.add_sub_cancel_left]
  dsimp only
  rw [copyLoop_spec rfl (by rw [length_append]; omega) (by omega)]
  simp

end Loop

/-! ## The sizes -/

/-- While the configured size is below a page, a packet that starts a buffer fits into it. -/
def Event.Sized (g : Setting) (σ : State) : Event → Prop
  | .locked s now page => ∀ p, σ.callers s = .newPacket p → σ.Starts g now page p →
      σ.aggSize < g.pageSize → p.len ≤ σ.capacity g
  | _ => True

/-- The aggregation state from `rmnet_map_tx_aggregate_init` on. -/
def copying (g : Setting) (guard : State → Event → Prop) : Machine State Event where
  init σ := ∃ σ₀ : State, σ₀.Init ∧ σ₀.aggSizeOrder = 0 ∧ σ = σ₀.updateUlAggConfig g (g.pageSize - 1) 20
  guard σ e := e.Enabled σ ∧ guard σ e
  next := State.next g

/-- Nothing was put past the end of a buffer, and a configured size of a page or more is what a buffer
takes. -/
structure Admits (g : Setting) (σ : State) : Prop where
  alive : σ.panicked = false
  size : σ.aggSize < g.pageSize ∨ σ.aggSize ≤ σ.capacity g

section Sizes

variable {g : Setting} {σ σ' : State} {s : ℕ} {p : Skb}

/-- The sizes and the flag stay. -/
structure SameSizes (σ σ' : State) : Prop where
  aggSize : σ'.aggSize = σ.aggSize
  aggSizeOrder : σ'.aggSizeOrder = σ.aggSizeOrder
  panicked : σ'.panicked = σ.panicked

theorem Admits.same (h : Admits g σ) (hsame : SameSizes σ σ') : Admits g σ' := by
  refine ⟨hsame.panicked.trans h.alive, ?_⟩
  rw [State.capacity, hsame.aggSize, hsame.aggSizeOrder]
  exact h.size

theorem SameSizes.sendAggSkb (h : SameSizes σ σ') (s : ℕ) (rest : Caller) :
    SameSizes σ (σ'.sendAggSkb s rest) := by
  rw [State.sendAggSkb]
  split <;> exact ⟨h.aggSize, h.aggSizeOrder, h.panicked⟩

theorem SameSizes.copied (h : SameSizes σ σ') {b : AggSkb} (hfit : p.len ≤ b.tailroom) :
    SameSizes σ ((σ'.linearizeCopy b p).schedule.setCaller s .idle) := by
  rw [State.linearizeCopy, if_neg (by omega), State.schedule]
  split <;> exact ⟨h.aggSize, h.aggSizeOrder, h.panicked⟩

theorem Admits.newPacket (h : Admits g σ) (now : ℤ) (page : Bool)
    (hsized : σ.Starts g now page p → σ.aggSize < g.pageSize → p.len ≤ σ.capacity g) :
    Admits g (σ.newPacket g s now page p) := by
  simp only [State.newPacket]
  by_cases hprio : State.priority g p = true
  · rw [if_pos hprio]
    refine h.same (SameSizes.sendAggSkb ?_ s _)
    exact ⟨rfl, rfl, rfl⟩
  rw [if_neg hprio]
  cases hskb : σ.aggSkb with
  | none =>
    by_cases hbypass : σ.bypasses g now p = true
    · simp only [if_pos hbypass]
      exact h.same ⟨rfl, rfl, rfl⟩
    by_cases hpage : (!page) = true
    · simp only [if_neg hbypass, if_pos hpage]
      exact h.same ⟨rfl, rfl, rfl⟩
    simp only [if_neg hbypass, if_neg hpage]
    have hstarts : σ.Starts g now page p :=
      ⟨by simpa using hprio, hskb, by simpa using hbypass, by simpa using hpage⟩
    have hfits : p.len ≤ σ.capacity g := by
      rcases h.size with hsmall | hle
      · exact hsized hstarts hsmall
      · have hlt : p.len < σ.aggSize := by
          by_contra hge
          exact hbypass (by simp [State.bypasses, Nat.le_of_not_lt hge])
        omega
    refine h.same (SameSizes.copied ?_ ?_)
    · exact ⟨rfl, rfl, rfl⟩
    · simpa [AggSkb.tailroom] using hfits
  | some b =>
    dsimp only
    split
    · refine h.same (SameSizes.sendAggSkb ?_ s _)
      exact ⟨rfl, rfl, rfl⟩
    · rename_i hroom
      refine h.same (SameSizes.copied ?_ ?_)
      · exact ⟨rfl, rfl, rfl⟩
      · by_contra hlt
        simp [Nat.lt_of_not_le hlt] at hroom

theorem admits_updateUlAggConfig (h : σ.panicked = false) (size count : ℕ) :
    Admits g (σ.updateUlAggConfig g size count) := by
  rw [State.updateUlAggConfig]
  split
  · exact ⟨h, Or.inl (by assumption)⟩
  · exact ⟨h, Or.inr (Nat.mod_le _ _)⟩

theorem Admits.next (h : Admits g σ) {e : Event} (he : Event.Sized g σ e) : Admits g (σ.next g e) := by
  cases e with
  | locked s now page =>
    show Admits g (σ.locked g s now page)
    rw [State.locked]
    cases hcaller : σ.callers s with
    | newPacket p => exact h.newPacket now page (he p hcaller)
    | flush f => exact h.same (SameSizes.sendAggSkb ⟨rfl, rfl, rfl⟩ s _)
    | idle => exact h
    | cancel rest => exact h
    | sending f => exact h
  | config size count => exact admits_updateUlAggConfig h.alive size count
  | cancel s =>
    show Admits g (σ.cancelTimer s)
    rw [State.cancelTimer]
    split
    · exact h.same ⟨rfl, rfl, rfl⟩
    · exact h
  | send s =>
    show Admits g (σ.sendUnlocked s)
    rw [State.sendUnlocked]
    split
    · exact h.same ⟨rfl, rfl, rfl⟩
    · exact h
  | workRun =>
    show Admits g { σ.flushTxPacketWork with running := false }
    rw [State.flushTxPacketWork]
    split <;> exact h.same ⟨rfl, rfl, rfl⟩
  | transmit p => exact h.same ⟨rfl, rfl, rfl⟩
  | command s n flush => exact h.same ⟨rfl, rfl, rfl⟩
  | tso s n => exact h.same ⟨rfl, rfl, rfl⟩
  | expire => exact h.same ⟨rfl, rfl, rfl⟩
  | workStart => exact h.same ⟨rfl, rfl, rfl⟩

theorem admits_of_reachable (h : (copying g (Event.Sized g)).Reachable σ) : Admits g σ := by
  refine h.invariant (fun σ hinit => ?_) fun _ _ hσ he => hσ.next he.2
  obtain ⟨σ₀, hempty, -, rfl⟩ := hinit
  exact admits_updateUlAggConfig hempty.panicked _ _

end Sizes

/-- **In every run whose packets respect the sizes no copy runs past the end of a buffer**, and a packet
whose fragment list has pages only is copied as it is wherever it fits. -/
theorem copies_of_reachable {g : Setting} {σ : State} (h : (copying g (Event.Sized g)).Reachable σ) :
    σ.panicked = false ∧ ∀ (src : SkBuff) (dst : List UInt8) (cap : ℕ),
      (∀ m ∈ src.fragList, m.linear = []) → src.bytes.length < 2 ^ 32 →
        dst.length + src.bytes.length ≤ cap →
          ∃ n, linearizeCopy n cap dst src = some (some (dst ++ src.bytes)) :=
  ⟨(admits_of_reachable h).alive, fun src _ _ hpages hlen hfit =>
    ⟨src.fragList.length + 2, linearizeCopy_spec hpages hlen hfit⟩⟩

def unset : State := { initial with aggSizeOrder := 0 }

theorem copying_unset (guard : State → Event → Prop) :
    (copying setting guard).init (unset.updateUlAggConfig setting (setting.pageSize - 1) 20) :=
  ⟨unset, ⟨rfl, rfl, rfl, fun _ => rfl, rfl, fun _ => rfl⟩, rfl, rfl⟩

def longPacket : List Event :=
  [.transmit ⟨1, 10, 3800, 0⟩, .locked 1 100 true]

/-- The packet is below the configured 4095 bytes and does not fit into a page with its shared info; and the
copy of a packet whose fragment list holds one byte of linear data never ends. -/
theorem not_copies :
    (¬∀ (g : Setting) (σ : State), (copying g fun _ _ => True).Reachable σ → σ.panicked = false) ∧
      ¬∀ (src : SkBuff) (dst : List UInt8) (cap : ℕ), src.bytes.length < 2 ^ 32 →
        dst.length + src.bytes.length ≤ cap →
          ∃ n, linearizeCopy n cap dst src = some (some (dst ++ src.bytes)) := by
  constructor
  · intro h
    have hreach := (Machine.Reachable.init (copying_unset fun _ _ => True)).exec longPacket
      ⟨⟨⟨rfl, rfl⟩, trivial⟩, ⟨⟨by decide, by decide⟩, trivial⟩, trivial⟩
    exact absurd (h setting _ hreach) (by decide)
  · intro h
    have hloop : ∀ n, copyLoop 1 n [] [] [] 1 = none := by
      intro n
      induction n with
      | zero => simp [copyLoop]
      | succ n ih => simp [copyLoop, copyFrags, ih]
    obtain ⟨n, hn⟩ := h ⟨[], [], [⟨[7], []⟩]⟩ [] 1 (by decide) (by decide)
    cases n with
    | zero => simp [linearizeCopy, putData, copyLoop] at hn
    | succ n => simp [linearizeCopy, putData, copyLoop, copyFrags, SkBuff.bytes, hloop] at hn

/-- A packet of 1400 bytes starts a buffer. -/
theorem copies_of_reachable_shortPacket :
    ((copying setting (Event.Sized setting)).exec
      (unset.updateUlAggConfig setting (setting.pageSize - 1) 20)
      [.transmit (skb 1 10), .locked 1 100 true]).panicked = false ∧
    ∃ n, linearizeCopy n 3776 [] ⟨[1, 2], [[3], [4, 5]], [⟨[], [[6]]⟩]⟩ =
      some (some ([] ++ [1, 2, 3, 4, 5, 6])) := by
  have hreach := (Machine.Reachable.init (copying_unset (Event.Sized setting))).exec
    [.transmit (skb 1 10), .locked 1 100 true]
    ⟨⟨⟨rfl, rfl⟩, trivial⟩, ⟨⟨by decide, by decide⟩, fun p hp => by
      have hskb : p = skb 1 10 := Caller.newPacket.inj hp.symm
      subst hskb
      decide⟩, trivial⟩
  obtain ⟨halive, hcopy⟩ := copies_of_reachable hreach
  exact ⟨halive, hcopy ⟨[1, 2], [[3], [4, 5]], [⟨[], [[6]]⟩]⟩ [] 3776 (by decide) (by decide) (by decide)⟩

end Rmnet.Linearize
