import Sm8750Modules.MgmtRxReo.Bookkeeping

/-!
# Management frame reordering: counters that go back

With error handling a frame whose packet counter is not ahead of the host's snapshot is marked
as dropped, but `updateHostSnapshot` then goes on and stores its counter, so that the next frame
counts the way back up once more and lowers the entries of other links by it.
-/

namespace MgmtRxReo

open KeyedLists Runs

/-- The frame is ahead of a valid snapshot of the host, or it is the one that the snapshot was
taken from, or its delta is over the threshold. -/
def InOrder (pktCtrDeltaThresh : UInt16) (hostSs : SnapshotParams) (params : ReoParams) : Prop :=
  hostSs.valid = true → comparePktCtrsGte hostSs.mgmtPktCtr params.mgmtPktCtr = true →
    params.snapshot = hostSs ∨ (pktCtrDeltaThresh ≠ 0 ∧
      subtractPktCtrs params.mgmtPktCtr hostSs.mgmtPktCtr > pktCtrDeltaThresh.toNat)
deriving Decidable

/-- **The cases of `updateHostSnapshot`** for a frame with valid parameters: its delta is over
the threshold, or its snapshot is stored. -/
theorem updateHostSnapshot_cases (thresh : UInt16) (hostSs : SnapshotParams)
    {desc : FrameDescriptor} (hvalid : desc.params.valid = true) (hdrop : desc.drop = false) :
    let u := updateHostSnapshot thresh hostSs desc
    let delta := subtractPktCtrs desc.params.mgmtPktCtr hostSs.mgmtPktCtr
    (u.desc.drop = (hostSs.valid && comparePktCtrsGte hostSs.mgmtPktCtr desc.params.mgmtPktCtr)) ∧
    u.desc.pktCtrDelta = (if hostSs.valid then delta else 1) ∧
    ((u.success = false ∧ u.hostSs = hostSs ∧ hostSs.valid = true ∧
        thresh ≠ 0 ∧ delta > thresh.toNat) ∨
      (u.success = true ∧ u.hostSs = desc.params.snapshot ∧
        ¬ (hostSs.valid = true ∧ thresh ≠ 0 ∧ delta > thresh.toNat ∧ delta ≠ 1))) := by
  unfold updateHostSnapshot
  rw [hvalid, Bool.not_true, if_neg Bool.false_ne_true]
  cases hhost : hostSs.valid with
  | false =>
    rw [Bool.not_false, if_pos rfl]
    exact ⟨by simpa using hdrop, rfl, .inr ⟨rfl, rfl, by simp⟩⟩
  | true =>
    rw [Bool.not_true, if_neg Bool.false_ne_true]
    have hparams : (if comparePktCtrsGte hostSs.mgmtPktCtr desc.params.mgmtPktCtr = true then
        handleOutOfOrderPktCtr desc hostSs else desc).params = desc.params := by
      split <;> rfl
    have hdrop' : (if comparePktCtrsGte hostSs.mgmtPktCtr desc.params.mgmtPktCtr = true then
        handleOutOfOrderPktCtr desc hostSs else desc).drop =
          comparePktCtrsGte hostSs.mgmtPktCtr desc.params.mgmtPktCtr := by
      split
      · rename_i h
        rw [h]
        rfl
      · rename_i h
        rw [hdrop, Bool.eq_false_iff.2 h]
    generalize (if comparePktCtrsGte hostSs.mgmtPktCtr desc.params.mgmtPktCtr = true then
      handleOutOfOrderPktCtr desc hostSs else desc) = desc' at hparams hdrop' ⊢
    dsimp only
    rw [hparams, Bool.true_and]
    split
    · rename_i hone
      exact ⟨hdrop', rfl, .inr ⟨rfl, rfl, fun h => h.2.2.2 hone⟩⟩
    · split
      · rename_i hthresh
        exact ⟨hdrop', rfl, .inl ⟨rfl, rfl, rfl, hthresh.1, hthresh.2⟩⟩
      · rename_i hthresh
        exact ⟨hdrop', rfl, .inr ⟨rfl, rfl, fun h => hthresh ⟨h.2.1, h.2.2.1⟩⟩⟩

theorem one_le_of_thresh {thresh : UInt16} (h : thresh ≠ 0) : 1 ≤ thresh.toNat :=
  Nat.one_le_iff_ne_zero.2 fun hzero => h (UInt16.toNat_inj.1 hzero)

/-- **When a dropped frame leaves the snapshot alone**: exactly where the frame is in order. -/
theorem updateHostSnapshot_keeps_iff (thresh : UInt16) (hostSs : SnapshotParams)
    {desc : FrameDescriptor} (hvalid : desc.params.valid = true) (hdrop : desc.drop = false) :
    ((updateHostSnapshot thresh hostSs desc).desc.drop = true →
        (updateHostSnapshot thresh hostSs desc).hostSs = hostSs) ↔
      InOrder thresh hostSs desc.params := by
  obtain ⟨hd, -, hcases⟩ :=
    updateHostSnapshot_cases thresh hostSs hvalid hdrop
  rw [hd, Bool.and_eq_true, and_imp]
  unfold InOrder
  refine forall_congr' fun hhost => forall_congr' fun _ => ?_
  rcases hcases with ⟨-, hss, -, ht, hover⟩ | ⟨-, hss, hnot⟩
  · rw [hss]
    exact ⟨fun _ => .inr ⟨ht, hover⟩, fun _ => rfl⟩
  · rw [hss]
    refine ⟨.inl, fun h => h.elim id ?_⟩
    rintro ⟨ht, hover⟩
    have hone := one_le_of_thresh ht
    exact absurd ⟨hhost, ht, hover, by omega⟩ hnot

theorem subtractPktCtrs_of_ahead {a b : UInt16} (h : comparePktCtrsGte b a = false) :
    1 ≤ subtractPktCtrs a b ∧ subtractPktCtrs a b < 0x8000 := by
  have hnot : ¬ Circle.Gte 0x8000 b.toNat a.toNat := by
    rw [← comparePktCtrsGte_iff, h]
    exact Bool.false_ne_true
  obtain ⟨hdiff, hpos, hlt⟩ := Circle.diff_of_not_gte a.toNat_lt b.toNat_lt hnot
  rw [subtractPktCtrs_eq, hdiff]
  omega

/-- What a frame adds to the counters seen on its link. -/
structure CountsOn (t t' : Tally) (u : HostUpdate) : Prop where
  balanced : t'.deltas - t.deltas = t'.seen - t.seen
  grows : t.seen ≤ t'.seen
  accepted : u.success = true → u.desc.drop = false →
    t'.seen - t.seen = u.desc.pktCtrDelta ∧ 1 ≤ u.desc.pktCtrDelta ∧ u.desc.pktCtrDelta < 0x8000

theorem CountsOn.of_add {t : Tally} {u : HostUpdate} {a c : ℤ} {b : ℕ} (hsum : a = b + c)
    (hpos : 0 ≤ a) (haccepted : u.success = true → u.desc.drop = false →
      a = u.desc.pktCtrDelta ∧ 1 ≤ u.desc.pktCtrDelta ∧ u.desc.pktCtrDelta < 0x8000) :
    CountsOn t { deltas := t.deltas + a, starts := t.starts + b, moved := t.moved + c } u := by
  have hseen : (Tally.mk (t.deltas + a) (t.starts + b) (t.moved + c)).seen = t.seen + a := by
    simp only [Tally.seen, Nat.cast_add]
    omega
  refine ⟨?_, ?_, fun hs hd => ⟨?_, (haccepted hs hd).2⟩⟩
  · rw [hseen]
    show t.deltas + a - t.deltas = _
    omega
  · omega
  · have := (haccepted hs hd).1
    omega

/-- **One frame.**  A frame in order adds to the counters seen what it adds to the deltas: its
own delta where it is accepted, else nothing. -/
theorem Tally.count_of_inOrder {thresh : UInt16} {hostSs : SnapshotParams}
    {desc : FrameDescriptor} (hvalid : desc.params.valid = true) (hdrop : desc.drop = false)
    (h : InOrder thresh hostSs desc.params) (t : Tally) :
    CountsOn t (t.count hostSs (updateHostSnapshot thresh hostSs desc))
      (updateHostSnapshot thresh hostSs desc) := by
  have hkeeps := (updateHostSnapshot_keeps_iff thresh hostSs hvalid hdrop).2 h
  obtain ⟨hd, hdelta, hcases⟩ :=
    updateHostSnapshot_cases thresh hostSs hvalid hdrop
  generalize updateHostSnapshot thresh hostSs desc = u at hkeeps hd hdelta hcases ⊢
  unfold Tally.count
  rcases hcases with ⟨hfail, -⟩ | ⟨hsuccess, hss, -⟩
  · rw [hfail, if_neg Bool.false_ne_true]
    exact ⟨by omega, le_rfl, fun hs => absurd hs (by rw [hfail]; exact Bool.false_ne_true)⟩
  · rw [hsuccess, if_pos rfl]
    cases hhost : hostSs.valid with
    | false =>
      -- the first frame of a link counts for itself
      rw [hhost, Bool.false_and] at hd
      rw [hhost, if_neg Bool.false_ne_true] at hdelta
      rw [hd, hdelta, if_neg Bool.false_ne_true, if_neg Bool.false_ne_true, if_neg Bool.false_ne_true]
      exact .of_add (by omega) (by omega) fun _ _ => by omega
    | true =>
      rw [hhost, Bool.true_and] at hd
      rw [hhost, if_pos rfl] at hdelta
      cases hdropped : u.desc.drop with
      | true =>
        -- a dropped frame leaves the snapshot, so it has not moved
        have hsame : subtractPktCtrs u.hostSs.mgmtPktCtr hostSs.mgmtPktCtr = 0 := by
          rw [hkeeps hdropped]
          exact (subtractPktCtrs_eq_zero_iff _ _).2 rfl
        rw [if_pos rfl, if_pos rfl, if_pos rfl, hsame]
        refine .of_add (by omega) (by omega) fun _ hne => ?_
        rw [hdropped] at hne
        cases hne
      | false =>
        rw [hdropped] at hd
        have hahead := subtractPktCtrs_of_ahead hd.symm
        have hmoved : subtractPktCtrs u.hostSs.mgmtPktCtr hostSs.mgmtPktCtr =
            u.desc.pktCtrDelta := by
          rw [hss, hdelta]
          rfl
        rw [← hdelta] at hahead
        rw [if_neg Bool.false_ne_true, if_pos rfl, if_pos rfl, hmoved]
        exact .of_add (by omega) (by omega) fun _ _ => ⟨rfl, hahead.1, hahead.2⟩

/-! ## Runs -/

/-- The counters of an arrival that has not updated the ingress list yet. -/
def State.owed (s : State) (link : Link) : ℕ :=
  match s.inFlight with
  | some f => f.desc.counters link
  | none => 0

/-- The deltas add up to the counters seen, and entries are lowered by no more of them than
those seen since their frame; what an arrival still owes them is seen already. -/
structure Honest (s : State) : Prop where
  deltas : ∀ link, (s.tally link).deltas = (s.tally link).seen
  lowered : ∀ e ∈ s.entries, ∀ link,
    ((e.lowered link + s.owed link : ℕ) : ℤ) ≤ (s.tally link).seen - e.seenBefore link

def InOrderStep (s : State) : Action → Prop
  | .arrive params _ _ thresh _ _ =>
    params.valid = true → InOrder thresh (s.host params.linkId) params
  | _ => True

def inOrderMachine : Machine State Action :=
  { machine with guard := fun s a => machine.guard s a ∧ InOrderStep s a }

theorem honest_init : Honest .init where
  deltas _ := rfl
  lowered _ h := by cases h

theorem toNat_ofInt_of_lt {n : ℤ} (h : 1 ≤ n) (hlt : n < 0x8000) :
    ((UInt16.ofInt n).toNat : ℤ) = n := by
  rw [UInt16.ofInt, UInt16.toNat_ofNat_of_lt' (show _ < 2 ^ 16 by omega)]
  omega

/-- What a step does to the tallies and to what is owed, as far as entries are concerned. -/
structure StepCounts (s s' : State) (a : Action) : Prop where
  deltas : ∀ link, (s'.tally link).deltas - (s.tally link).deltas =
    (s'.tally link).seen - (s.tally link).seen
  owed : ∀ link, ((s.counters a link + s'.owed link : ℕ) : ℤ) - s.owed link ≤
    (s'.tally link).seen - (s.tally link).seen

theorem StepCounts.of_same {s s' : State} {a : Action} (htally : s'.tally = s.tally)
    (howed : ∀ link, s.counters a link + s'.owed link ≤ s.owed link) : StepCounts s s' a where
  deltas link := by rw [htally, sub_self, sub_self]
  owed link := by
    have h := howed link
    rw [htally]
    omega

theorem arrive_counts {s s' : State} {params : ReoParams} {hostConsumed reoRequired : Bool}
    {thresh : UInt16} {views : Link → LinkView} {entryMade : Bool} (hnone : s.inFlight = none)
    (horder : params.valid = true → InOrder thresh (s.host params.linkId) params)
    (h : algoEntry s (.ofFrame params hostConsumed reoRequired) thresh views entryMade = some s') :
    StepCounts s s' (.arrive params hostConsumed reoRequired thresh views entryMade) := by
  generalize hdesc : FrameDescriptor.ofFrame params hostConsumed reoRequired = desc at h
  have hp : desc.params = params := by rw [← hdesc]; rfl
  have hdrop : desc.drop = false := by rw [← hdesc]; rfl
  rw [← hp] at horder ⊢
  by_cases hvalid : desc.params.valid = true
  · have hcounted := (algoEntry_spec hnone hvalid h).2
    have hcount := Tally.count_of_inOrder hvalid hdrop (horder hvalid)
      (s.tally desc.params.linkId)
    generalize hu : updateHostSnapshot thresh (s.host desc.params.linkId) desc = u
      at hcounted hcount
    have htally : ∀ link, s'.tally link = if link = desc.params.linkId then
        (s.tally desc.params.linkId).count (s.host desc.params.linkId) u else s.tally link := by
      intro link
      rw [hcounted.tally]
      exact Function.update_apply _ _ _ _
    have howed : s.owed = fun _ => 0 := by
      funext link
      simp only [State.owed, hnone]
    refine ⟨fun link => ?_, fun link => ?_⟩
    · rw [htally]
      split
      · rename_i hl
        rw [hl]
        exact hcount.balanced
      · omega
    · rw [htally, howed]
      show ((0 + s'.owed link : ℕ) : ℤ) - 0 ≤ _
      cases hf : s'.inFlight with
      | none =>
        have hzero : s'.owed link = 0 := by simp only [State.owed, hf]
        rw [hzero]
        split
        · rename_i hl
          have := hcount.grows
          rw [hl]
          omega
        · omega
      | some f =>
        obtain ⟨hsuccess, hdropped, hlink, hdelta⟩ := hcounted.inFlight f hf
        obtain ⟨hsum, hpos, hlt⟩ := hcount.accepted hsuccess hdropped
        have hcounters : s'.owed link = if link = desc.params.linkId then
            (UInt16.ofInt u.desc.pktCtrDelta).toNat else 0 := by
          simp only [State.owed, hf, FrameDescriptor.counters, hlink, hdelta]
        have hnat := toNat_ofInt_of_lt hpos hlt
        rw [hcounters]
        split
        · rename_i hl
          rw [hl]
          omega
        · omega
  · unfold algoEntry at h
    rw [Bool.not_eq_true] at hvalid
    rw [hvalid, Bool.not_false, if_pos rfl] at h
    cases h
    exact .of_same rfl fun link => by simp [State.counters]

/-- **One step**: the tallies, and what is owed before and after. -/
theorem step_counts {s s' : State} {a : Action} (horder : InOrderStep s a)
    (h : step s a = some s') : StepCounts s s' a := by
  cases a with
  | arrive params hostConsumed reoRequired thresh views entryMade =>
    unfold step at h
    dsimp only at h
    split at h
    · cases h
    · rename_i hnone
      exact arrive_counts (Option.not_isSome_iff_eq_none.1 hnone) horder h
  | enqueue =>
    unfold step at h
    dsimp only at h
    split at h
    · cases h
    · rename_i f hf
      obtain ⟨l, hl, he⟩ := Option.bind_eq_some_iff.1 h
      cases he
      exact .of_same rfl fun link => by simp [State.counters, State.owed, hf]
  | move =>
    unfold step at h
    dsimp only at h
    split at h
    · cases h
    · cases h
      exact .of_same rfl fun link => by simp [State.counters, State.owed]
  | ageout expired =>
    unfold step at h
    dsimp only at h
    split at h
    · cases h
    · cases h
      exact .of_same rfl fun link => by simp [State.counters, State.owed]
  | release defer =>
    obtain ⟨r, hr, he⟩ := Option.bind_eq_some_iff.1 h
    cases he
    exact .of_same rfl fun link => by simp [State.counters, State.owed]
  | egressInactivity =>
    cases h
    exact .of_same rfl fun link => by simp [State.counters, State.owed]

theorem Honest.step {s s' : State} {a : Action} (hs : Honest s) (horder : InOrderStep s a)
    (h : step s a = some s') : Honest s' := by
  have hcounts := step_counts horder h
  refine ⟨fun link => ?_, fun e he link => ?_⟩
  · have h₁ := hcounts.deltas link
    have h₂ := hs.deltas link
    omega
  · have howed := hcounts.owed link
    rcases step_evolves h with ⟨-, hevolves⟩ | ⟨new, hmade, -, hevolves⟩
    · obtain ⟨e₀, he₀, -, hlowers⟩ := hevolves.from_before e he
      have hle := hlowers.lowered_le link
      have hbound := hs.lowered e₀ he₀ link
      rw [hlowers.seenBefore]
      omega
    · obtain ⟨e₀, he₀, -, hlowers⟩ := hevolves.from_before e he
      have hle := hlowers.lowered_le link
      rw [hlowers.seenBefore]
      rcases List.mem_cons.1 he₀ with rfl | he₀
      · rw [hmade.lowered, Nat.zero_add] at hle
        have hnone : s.owed link = 0 := by simp only [State.owed, hmade.idle]
        rw [hmade.seenBefore]
        dsimp only
        omega
      · have hbound := hs.lowered e₀ he₀ link
        omega

theorem honest_of_reachable {s : State} (h : inOrderMachine.Reachable s) : Honest s :=
  h.invariant (fun _ hinit => by rw [show _ = State.init from hinit]; exact honest_init)
    fun _ _ hs hguard => hs.step hguard.2 (step_of_guard hguard.1)

/-- A frame that is marked as dropped leaves the host's snapshot of its link as it is. -/
def DropKeeps (thresh : UInt16) (hostSs : SnapshotParams) (desc : FrameDescriptor) : Prop :=
  (updateHostSnapshot thresh hostSs desc).desc.drop = true →
    (updateHostSnapshot thresh hostSs desc).hostSs = hostSs

/-- The deltas of the accepted frames add up to the counters seen, and no entry is lowered on a
link by more than the counters seen there since its frame. -/
structure Tallied (s : State) : Prop where
  deltas : ∀ link, (s.tally link).deltas = (s.tally link).seen
  lowered : ∀ e ∈ s.entries, ∀ link,
    (e.lowered link : ℤ) ≤ (s.tally link).seen - e.seenBefore link

/-- **Runs of frames in order.**  In every state that frames in order lead to, whatever the links
show and however deliveries and timers come in between, the deltas of the accepted frames add
up to the counters seen on each link, and no entry is lowered by more counters of a link than
have been seen there since its frame; and the next frame leaves the snapshot when it is dropped
exactly if it is in order as well. -/
theorem counters_of_reachable {s : State} (h : inOrderMachine.Reachable s) :
    Tallied s ∧ ∀ thresh params hostConsumed reoRequired, params.valid = true →
      (DropKeeps thresh (s.host params.linkId) (.ofFrame params hostConsumed reoRequired) ↔
        InOrder thresh (s.host params.linkId) params) := by
  have hs := honest_of_reachable h
  refine ⟨⟨hs.deltas, fun e he link => ?_⟩, fun thresh params hostConsumed reoRequired hvalid => ?_⟩
  · have hlowered := hs.lowered e he link
    omega
  · have hframe : (FrameDescriptor.ofFrame params hostConsumed reoRequired).params.valid = true :=
      hvalid
    exact updateHostSnapshot_keeps_iff thresh _ hframe rfl

/-- Link 0 has received frames up to counter 13, the last of them before timestamp 200. -/
def threeAheadViews : Link → LinkView :=
  fun link => if link = 0 then
    .ready
      { macHw := { valid := true, mgmtPktCtr := 13, globalTimestamp := 190 }
        fwForwarded := { valid := true, mgmtPktCtr := 13, globalTimestamp := 190 }
        fwConsumed := { valid := false, mgmtPktCtr := 0, globalTimestamp := 0 } }
  else .idle

def threeAheadRun : List Action :=
  [.arrive (frameOf 0 10 100) false true 0 (fun _ => .idle) true, .enqueue,
    .arrive (frameOf 1 1 200) true true 0 threeAheadViews true, .enqueue]

/-- An old frame of link 0, which is dropped, and the next frame of that link. -/
def oldFrameRun : List Action :=
  threeAheadRun ++
    [.arrive (frameOf 0 5 90) true true 0 (fun _ => .idle) true,
      .arrive (frameOf 0 11 120) false true 0 (fun _ => .idle) true, .enqueue]

/-- The dropped frame with counter 5 takes the snapshot back from 10, so the frame with counter
11 counts six counters, and the entry of link 1 no longer waits for the two frames of link 0
that are still to come. -/
theorem not_tallied :
    ¬ ∀ s, machine.Reachable s → Tallied s ∧
      ∀ thresh params hostConsumed reoRequired, params.valid = true →
        DropKeeps thresh (s.host params.linkId) (.ofFrame params hostConsumed reoRequired) := by
  intro h
  have hreach : machine.Reachable (machine.exec .init oldFrameRun) :=
    (Machine.Reachable.init rfl).exec oldFrameRun (by decide +kernel)
  have hdeltas := (h _ hreach).1.deltas 0
  revert hdeltas
  decide +kernel

instance (s : State) : (a : Action) → Decidable (InOrderStep s a) := by
  intro a
  cases a <;> dsimp only [InOrderStep] <;> infer_instance

instance (s : State) (a : Action) : Decidable (inOrderMachine.guard s a) :=
  inferInstanceAs (Decidable (machine.guard s a ∧ InOrderStep s a))

def nextFrameRun : List Action :=
  threeAheadRun ++ [.arrive (frameOf 0 11 120) false true 0 (fun _ => .idle) true, .enqueue]

/-- In order, the entry of link 1 is lowered by one counter of link 0, and still waits for two. -/
theorem counters_nextFrame :
    let s := inOrderMachine.exec .init nextFrameRun
    s.ingress.map (fun e => (e.lowered 0, e.waitCount.totalCount)) = [(1, 2)] ∧
      Tallied s ∧ ∀ thresh params hostConsumed reoRequired, params.valid = true →
        (DropKeeps thresh (s.host params.linkId) (.ofFrame params hostConsumed reoRequired) ↔
          InOrder thresh (s.host params.linkId) params) :=
  ⟨by decide +kernel,
    counters_of_reachable ((Machine.Reachable.init rfl).exec nextFrameRun (by decide +kernel))⟩

end MgmtRxReo
