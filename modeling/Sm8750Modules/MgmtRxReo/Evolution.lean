import Sm8750Modules.MgmtRxReo.Lowering

/-!
# Management frame reordering: what the steps do to entries

Every operation on the lists moves entries, drops them or lowers their wait counts, and nothing
else; an entry is never copied.
-/

namespace MgmtRxReo

open KeyedLists Runs List

abbrev EntriesEvolve (d : Link → ℕ) (before after : List Entry) : Prop :=
  Evolves Entry.id (Entry.Lowers d) before after

namespace EntriesEvolve

variable {d : Link → ℕ} {l l' l'' : List Entry}

theorem mono (h : EntriesEvolve (fun _ => 0) l l') (d : Link → ℕ) : EntriesEvolve d l l' :=
  Evolves.mono h fun _ _ hab => hab.mono d

theorem trans_zero (h : EntriesEvolve (fun _ => 0) l l') (h' : EntriesEvolve d l' l'') :
    EntriesEvolve d l l'' := by
  exact Evolves.trans h h' fun a b c hab hbc => hab.trans_zero hbc

theorem of_forall₂ (h : List.Forall₂ (Entry.Lowers d) l l') : EntriesEvolve d l l' :=
  Evolves.of_forall₂ (fun _ _ hab => hab.id) h

theorem of_perm (h : l.Perm l') : EntriesEvolve d l l' :=
  Evolves.of_perm (.refl d) h

theorem of_sublist (h : l'.Sublist l) : EntriesEvolve d l l' :=
  Evolves.of_sublist (.refl d) h

theorem refl (d : Link → ℕ) (l : List Entry) : EntriesEvolve d l l :=
  Evolves.refl (.refl d) l

end EntriesEvolve

theorem forall₂_lowers_refl (d : Link → ℕ) (l : List Entry) : List.Forall₂ (Entry.Lowers d) l l :=
  forall₂_same.2 fun e _ => .refl d e

theorem forall₂_map {R : Entry → Entry → Prop} {f : Entry → Entry} (hf : ∀ e, R e (f e))
    (l : List Entry) : List.Forall₂ R l (l.map f) := by
  induction l with
  | nil => exact .nil
  | cons e rest ih => exact .cons (hf e) ih

/-! ## The egress list -/

theorem markFirst_forall₂ {mark : Entry → Entry}
    (hmark : ∀ e, Entry.Lowers (fun _ => 0) e (mark e)) (n : ℕ) (l : List Entry) :
    List.Forall₂ (Entry.Lowers fun _ => 0) l (markFirst mark n l) := by
  induction n generalizing l with
  | zero => exact forall₂_lowers_refl _ l
  | succ n ih =>
    cases l with
    | nil => exact .nil
    | cons e rest => exact .cons (hmark e) (ih rest)

theorem Entry.markEgressOverflow_lowers (e : Entry) : e.Lowers (fun _ => 0) e.markEgressOverflow :=
  .of_sameCounts ⟨rfl, rfl, rfl, rfl, rfl⟩

theorem Entry.markIngressOverflow_lowers (e : Entry) : e.Lowers (fun _ => 0) e.markIngressOverflow :=
  .of_sameCounts ⟨rfl, rfl, rfl, rfl, rfl⟩

theorem handleEgressOverflow_forall₂ (l : List Entry) :
    List.Forall₂ (Entry.Lowers fun _ => 0) l (handleEgressOverflow l) :=
  markFirst_forall₂ Entry.markEgressOverflow_lowers _ l

theorem insertEgress_evolves (desc : FrameDescriptor) (new : Entry) (smaller : List Entry)
    (leastGreater : Entry) (greater : List Entry) :
    EntriesEvolve (fun _ => 0) (new :: (smaller ++ leastGreater :: greater))
      (insertEgress desc new smaller leastGreater greater).egress := by
  have hperm : (new :: (smaller ++ leastGreater :: greater)).Perm
      (smaller ++ new :: leastGreater :: greater) := perm_middle.symm
  unfold insertEgress
  dsimp only
  refine (EntriesEvolve.of_perm hperm).trans_zero (EntriesEvolve.trans_zero ?_
    (.of_forall₂ (handleEgressOverflow_forall₂ _)))
  refine .of_forall₂ (rel_append (forall₂_lowers_refl _ smaller) (.cons ?_
    (forall₂_lowers_refl _ (leastGreater :: greater))))
  exact Entry.lowers_of_lowerTo (w := leastGreater.waitCount) ⟨rfl, rfl, rfl, rfl, rfl⟩

theorem insertEgress_new (desc : FrameDescriptor) (new : Entry) (smaller : List Entry)
    (leastGreater : Entry) (greater : List Entry) :
    (insertEgress desc new smaller leastGreater greater).new = none :=
  rfl

/-- The descriptor that the egress list is updated for, and the one after. -/
structure SameFrame (desc desc' : FrameDescriptor) : Prop where
  params : desc'.params = desc.params
  pktCtrDelta : desc'.pktCtrDelta = desc.pktCtrDelta

theorem isStaleFrame_same (last : Option ReoParams) (desc : FrameDescriptor) :
    SameFrame desc (isStaleFrame last desc) := by
  unfold isStaleFrame
  cases last with
  | none => exact ⟨rfl, rfl⟩
  | some last =>
    dsimp only
    split
    · exact ⟨rfl, rfl⟩
    · split <;> exact ⟨rfl, rfl⟩

variable {desc : FrameDescriptor} {new : Option Entry}

theorem updateEgressList_spec {last : Option ReoParams} {egress : List Entry}
    {u : EgressUpdate}
    (h : updateEgressList last egress desc new = some u) :
    EntriesEvolve (fun _ => 0) (new.toList ++ egress) (u.new.toList ++ u.egress) ∧
      SameFrame desc u.desc := by
  have hsame := isStaleFrame_same last desc
  generalize hd : isStaleFrame last desc = desc' at hsame
  have hunchanged : ∀ success, EntriesEvolve (fun _ => 0) (new.toList ++ egress)
      ((EgressUpdate.mk success egress desc' new).new.toList ++
        (EgressUpdate.mk success egress desc' new).egress) ∧
        SameFrame desc (EgressUpdate.mk success egress desc' new).desc :=
    fun _ => ⟨.refl _ _, hsame⟩
  unfold updateEgressList at h
  rw [hd] at h
  dsimp only at h
  split at h
  · obtain ⟨_, -, he⟩ := Option.bind_eq_some_iff.1 h
    cases he
    exact hunchanged true
  · split at h
    · rename_i entry lastEntry _
      split at h
      · cases h
        exact hunchanged true
      · split at h
        · cases h
          exact hunchanged false
        · rename_i leastGreater greater hdrop
          cases h
          refine ⟨?_, hsame.params, hsame.pktCtrDelta⟩
          have hlist : egress = egress.takeWhile (Entry.notAfter desc'.params.globalTimestamp) ++
              leastGreater :: greater := by
            rw [← hdrop, takeWhile_append_dropWhile]
          have hins := insertEgress_evolves desc' entry
            (egress.takeWhile (Entry.notAfter desc'.params.globalTimestamp)) leastGreater greater
          rw [← hlist] at hins
          rw [insertEgress_new, Option.toList_none, nil_append]
          exact hins
    · cases h
      exact hunchanged true

theorem newIngressEntry_evolves (desc : FrameDescriptor) (greater : List Entry)
    (new : Option Entry) :
    EntriesEvolve (fun _ => 0) new.toList (newIngressEntry desc greater new).toList := by
  unfold newIngressEntry
  cases new with
  | none => exact .refl _ _
  | some new =>
    dsimp only
    split
    · cases greater with
      | nil =>
        exact .of_forall₂ (.cons (.of_sameCounts ⟨rfl, rfl, rfl, rfl, rfl⟩) .nil)
      | cons leastGreater _ =>
        exact .of_forall₂ (.cons (Entry.lowers_of_lowerTo (w := leastGreater.waitCount)
          ⟨rfl, rfl, rfl, rfl, rfl⟩) .nil)
    · exact .of_sublist (nil_sublist _)

def FrameDescriptor.counters (desc : FrameDescriptor) (link : Link) : ℕ :=
  if link = desc.params.linkId then (UInt16.ofInt desc.pktCtrDelta).toNat else 0

theorem updateIngressList_evolves {ingress l : List Entry}
    (h : updateIngressList ingress desc new = some l) :
    EntriesEvolve desc.counters (new.toList ++ ingress) l := by
  obtain ⟨_, -, he⟩ := Option.bind_eq_some_iff.1 h
  cases he
  generalize hs : ingress.takeWhile (Entry.notAfter desc.params.globalTimestamp) = smaller
  generalize hg : ingress.dropWhile (Entry.notAfter desc.params.globalTimestamp) = greater
  have hlist : ingress = smaller ++ greater := by
    rw [← hs, ← hg, takeWhile_append_dropWhile]
  have hperm : (new.toList ++ ingress).Perm (smaller ++ (new.toList ++ greater)) := by
    rw [hlist, ← append_assoc, ← append_assoc]
    exact perm_append_comm.append_right greater
  have hsmaller : EntriesEvolve desc.counters smaller
      (smaller.map (Entry.lowerTo · desc.waitCount)) :=
    .of_forall₂ (forall₂_map (fun e => (e.lowerTo_lowers _).mono _) smaller)
  have hgreater : EntriesEvolve desc.counters greater (greater.map
      (Entry.lowerBy desc.params.linkId (UInt16.ofInt desc.pktCtrDelta))) :=
    .of_forall₂ (forall₂_map (Entry.lowerBy_lowers _ _) greater)
  exact (EntriesEvolve.of_perm hperm).trans_zero
    (hsmaller.append (((newIngressEntry_evolves desc greater new).mono _).append hgreater))

theorem readyEntries_forall₂ (overflow : ℕ) (l : List Entry) :
    List.Forall₂ (Entry.Lowers fun _ => 0) l
      ((readyEntries overflow l).1 ++ (readyEntries overflow l).2) := by
  induction l generalizing overflow with
  | nil => exact .nil
  | cons e rest ih =>
    have hmark : Entry.Lowers (fun _ => 0) e
        (if overflow > 0 then e.markIngressOverflow else e) := by
      split
      · exact e.markIngressOverflow_lowers
      · exact .refl _ e
    unfold readyEntries
    generalize (if overflow > 0 then e.markIngressOverflow else e) = e' at hmark ⊢
    dsimp only
    split
    · exact .cons hmark (ih (overflow - 1))
    · exact .cons hmark (forall₂_lowers_refl _ rest)

theorem moveEntries_evolves (ingress egress : List Entry) :
    EntriesEvolve (fun _ => 0) (ingress ++ egress)
      ((moveEntries ingress egress).1 ++ (moveEntries ingress egress).2) := by
  unfold moveEntries
  have hready := readyEntries_forall₂ (ingress.length - ingressListMaxSize) ingress
  generalize readyEntries (ingress.length - ingressListMaxSize) ingress = split at hready ⊢
  obtain ⟨ready, stay⟩ := split
  dsimp only at hready ⊢
  have hmark : EntriesEvolve (fun _ => 0) (ingress ++ egress) ((ready ++ stay) ++ egress) :=
    (EntriesEvolve.of_forall₂ hready).append (EntriesEvolve.refl _ egress)
  refine hmark.trans_zero ?_
  by_cases hnil : ready = []
  · rw [if_pos hnil, hnil]
    exact EntriesEvolve.refl _ _
  · rw [if_neg hnil]
    have hperm : (ready ++ stay ++ egress).Perm (stay ++ (egress ++ ready)) := by
      rw [append_assoc, ← append_assoc stay]
      exact perm_append_comm
    exact (EntriesEvolve.of_perm hperm).trans_zero
      ((EntriesEvolve.refl _ stay).append (EntriesEvolve.of_forall₂ (handleEgressOverflow_forall₂ _)))

theorem ageoutEntries_forall₂ (expired : Entry → Bool) (l : List Entry) :
    List.Forall₂ (Entry.Lowers fun _ => 0) l (ageoutEntries expired l) := by
  induction l with
  | nil => exact .nil
  | cons cur rest ih =>
    refine .cons (.of_sameCounts ⟨rfl, rfl, rfl, rfl, ?_⟩) ih
    dsimp only
    split <;> split <;> rfl

theorem releaseEntry_sublist {defer : Bool} {egress : List Entry} {last : Option ReoParams}
    {r : List Entry × Option ReoParams} (h : releaseEntry defer egress last = some r) :
    r.1.Sublist egress := by
  unfold releaseEntry at h
  cases egress with
  | nil =>
    cases h
    exact .refl _
  | cons first rest =>
    dsimp only at h
    split at h
    · cases h
      exact .refl _
    · split at h
      · cases h
        exact .refl _
      · cases last with
        | none =>
          cases h
          exact sublist_cons_self _ _
        | some last =>
          dsimp only at h
          split at h
          · cases h
            exact sublist_cons_self _ _
          · obtain ⟨_, -, he⟩ := Option.bind_eq_some_iff.1 h
            cases he
            exact sublist_cons_self _ _

structure ListsUpdated (s s' : State) (desc : FrameDescriptor) : Prop where
  host : s'.host = s.host
  tally : s'.tally = s.tally
  inFlight : ∀ f, s'.inFlight = some f → SameFrame desc f.desc

variable {s' s : State}

theorem updateLists_spec
    (hnone : s.inFlight = none) (h : updateLists s desc new = some s') :
    EntriesEvolve (fun _ => 0) (new.toList ++ s.entries) s'.entries ∧
      s'.nextId = s.nextId ∧ ListsUpdated s s' desc := by
  obtain ⟨u, hu, he⟩ := Option.bind_eq_some_iff.1 h
  obtain ⟨hevolves, hsame⟩ := updateEgressList_spec hu
  have hentries : s.entries = s.ingress ++ s.egress := by
    rw [State.entries, hnone]
    rfl
  have hswap : ∀ l₁ l₂ l₃ : List Entry, (l₁ ++ (l₂ ++ l₃)).Perm (l₂ ++ (l₁ ++ l₃)) := by
    intro l₁ l₂ l₃
    rw [← append_assoc, ← append_assoc]
    exact perm_append_comm.append_right l₃
  have hall : EntriesEvolve (fun _ => 0) (new.toList ++ s.entries)
      (u.new.toList ++ (s.ingress ++ u.egress)) := by
    rw [hentries]
    have hkept : EntriesEvolve (fun _ => 0) (s.ingress ++ (new.toList ++ s.egress))
        (s.ingress ++ (u.new.toList ++ u.egress)) :=
      (EntriesEvolve.refl _ s.ingress).append hevolves
    exact (EntriesEvolve.of_perm (hswap _ _ _)).trans_zero
      (hkept.trans_zero (.of_perm (hswap _ _ _)))
  dsimp only at he
  split at he
  · cases he
    refine ⟨hall, rfl, rfl, rfl, fun f hf => ?_⟩
    cases hf
    exact hsame
  · cases he
    refine ⟨?_, rfl, rfl, rfl, fun f hf => ?_⟩
    · show EntriesEvolve _ _ ((s.inFlight.bind InFlight.new).toList ++ (s.ingress ++ u.egress))
      rw [hnone]
      exact hall.trans_zero (.of_sublist (sublist_append_right _ _))
    · rw [hnone] at hf
      cases hf

/-- An entry as an arrival makes it, for the counters seen before. -/
structure Made (s : State) (seen : Link → ℤ) (new : Entry) : Prop where
  idle : s.inFlight = none
  id : new.id = s.nextId
  kept : new.Kept
  lowered : new.lowered = fun _ => 0
  seenBefore : new.seenBefore = seen

def ContextEvolves (d : Link → ℕ) (seen : Link → ℤ) (s s' : State) : Prop :=
  (s'.nextId = s.nextId ∧ EntriesEvolve d s.entries s'.entries) ∨
    ∃ new, Made s seen new ∧ s'.nextId = s.nextId + 1 ∧
      EntriesEvolve d (new :: s.entries) s'.entries

theorem ContextEvolves.of_eq {d : Link → ℕ} {seen : Link → ℤ} {s₁ s₂ : State}
    (h : ContextEvolves d seen s₁ s') (hidle : s₁.inFlight = s₂.inFlight)
    (hid : s₁.nextId = s₂.nextId) (hentries : s₁.entries = s₂.entries) :
    ContextEvolves d seen s₂ s' := by
  unfold ContextEvolves at *
  rw [← hid, ← hentries]
  refine h.imp id ?_
  rintro ⟨new, hmade, hrest⟩
  exact ⟨new, ⟨hidle.symm.trans hmade.idle, hmade.id.trans hid, hmade.kept, hmade.lowered,
    hmade.seenBefore⟩, hrest⟩

variable {entryMade : Bool}

theorem prepareAndUpdateLists_spec {seen : Link → ℤ}
    (hnone : s.inFlight = none) (hw : desc.waitCount.Consistent)
    (h : prepareAndUpdateLists s seen desc entryMade = some s') :
    ContextEvolves (fun _ => 0) seen s s' ∧ ListsUpdated s s' desc := by
  unfold prepareAndUpdateLists at h
  split at h
  · split at h
    · obtain ⟨hevolves, hid, hupdated⟩ := updateLists_spec (s := { s with nextId := s.nextId + 1 })
        hnone h
      exact ⟨.inr ⟨_, ⟨hnone, rfl, prepareListEntry_kept s.nextId seen hw, rfl, rfl⟩, hid, hevolves⟩,
        hupdated.host, hupdated.tally, hupdated.inFlight⟩
    · cases h
      refine ⟨.inl ⟨rfl, .refl _ _⟩, rfl, rfl, fun f hf => ?_⟩
      rw [hnone] at hf
      cases hf
  · obtain ⟨hevolves, hid, hupdated⟩ := updateLists_spec hnone h
    exact ⟨.inl ⟨hid, hevolves⟩, hupdated⟩

/-- What an arrival does to the host snapshots and the tallies, up to the calculation of the wait count. -/
structure Counted (s s' : State) (link : Link) (u : HostUpdate) : Prop where
  tally : s'.tally = (s.updateHost link u).tally
  inFlight : ∀ f, s'.inFlight = some f → u.success = true ∧ u.desc.drop = false ∧
    f.desc.params.linkId = link ∧ f.desc.pktCtrDelta = u.desc.pktCtrDelta

theorem updateHostSnapshot_params (thresh : UInt16) (hostSs : SnapshotParams)
    (desc : FrameDescriptor) :
    (updateHostSnapshot thresh hostSs desc).desc.params = desc.params := by
  unfold updateHostSnapshot
  split
  · rfl
  · split
    · rfl
    · dsimp only
      split
      · split
        · rfl
        · split <;> rfl
      · split
        · rfl
        · split <;> rfl

/-- **An arrival**: the entries evolve, an entry may be made, and the tally of the frame's link
counts the frame. -/
theorem algoEntry_spec {thresh : UInt16}
    {views : Link → LinkView} (hnone : s.inFlight = none)
    (hvalid : desc.params.valid = true)
    (h : algoEntry s desc thresh views entryMade = some s') :
    ContextEvolves (fun _ => 0) (fun l => (s.tally l).seen) s s' ∧ Counted s s' desc.params.linkId
      (updateHostSnapshot thresh (s.host desc.params.linkId) desc) := by
  have hparams := updateHostSnapshot_params thresh (s.host desc.params.linkId) desc
  generalize hu : updateHostSnapshot thresh (s.host desc.params.linkId) desc = u at hparams ⊢
  unfold algoEntry at h
  rw [hvalid, Bool.not_true, if_neg Bool.false_ne_true] at h
  dsimp only at h
  rw [hu] at h
  have hstop : ∀ host, ContextEvolves (fun _ => 0) (fun l => (s.tally l).seen) s
        { s.updateHost desc.params.linkId u with host := host } ∧
      Counted s { s.updateHost desc.params.linkId u with host := host } desc.params.linkId u := by
    intro host
    refine ⟨.inl ⟨rfl, .refl _ _⟩, rfl, fun f hf => ?_⟩
    have hf' : s.inFlight = some f := hf
    rw [hnone] at hf'
    cases hf'
  split at h
  · cases h
    exact hstop _
  · rename_i haccepted
    rw [Bool.or_eq_true, not_or, Bool.not_eq_true', Bool.not_eq_false, Bool.not_eq_true]
      at haccepted
    obtain ⟨r, hr, hnext⟩ := Option.bind_eq_some_iff.1 h
    split at hnext
    · obtain ⟨hevolves, hupdated⟩ := prepareAndUpdateLists_spec
        (s := { s.updateHost desc.params.linkId u with host := r.host }) hnone
        (calculateWaitCount_consistent hr) hnext
      refine ⟨hevolves.of_eq rfl rfl rfl, hupdated.tally, fun f hf => ?_⟩
      have hsame := hupdated.inFlight f hf
      refine ⟨haccepted.1, haccepted.2, ?_, hsame.pktCtrDelta⟩
      rw [hsame.params]
      exact congrArg ReoParams.linkId hparams
    · cases hnext
      exact hstop _

/-- The packet counters that lower entries in a step. -/
def State.counters (s : State) : Action → Link → ℕ
  | .enqueue => match s.inFlight with
    | some f => f.desc.counters
    | none => fun _ => 0
  | _ => fun _ => 0

theorem arrive_evolves {thresh : UInt16}
    {views : Link → LinkView} (hnone : s.inFlight = none)
    (h : algoEntry s desc thresh views entryMade = some s') :
    ContextEvolves (fun _ => 0) (fun l => (s.tally l).seen) s s' := by
  by_cases hvalid : desc.params.valid = true
  · exact (algoEntry_spec hnone hvalid h).1
  · unfold algoEntry at h
    rw [Bool.not_eq_true] at hvalid
    rw [hvalid, Bool.not_false, if_pos rfl] at h
    cases h
    exact .inl ⟨rfl, .refl _ _⟩

/-- **A step.** The entries of the context are moved, dropped or lowered, on each link by at most the packet
counters of an arrival. -/
theorem step_evolves {a : Action} (h : step s a = some s') :
    ContextEvolves (s.counters a) (fun l => (s.tally l).seen) s s' := by
  cases a with
  | arrive params hostConsumed reoRequired thresh views entryMade =>
    unfold step at h
    dsimp only at h
    split at h
    · cases h
    · rename_i hnone
      exact arrive_evolves (Option.not_isSome_iff_eq_none.1 hnone) h
  | enqueue =>
    unfold step at h
    dsimp only at h
    split at h
    · cases h
    · rename_i f hf
      obtain ⟨l, hl, he⟩ := Option.bind_eq_some_iff.1 h
      cases he
      refine .inl ⟨rfl, ?_⟩
      have hevolves := updateIngressList_evolves hl
      have hcounters : s.counters .enqueue = f.desc.counters := by
        simp only [State.counters, hf]
      rw [hcounters, State.entries, hf]
      show EntriesEvolve _ (f.new.toList ++ (s.ingress ++ s.egress)) (l ++ s.egress)
      rw [← append_assoc]
      exact hevolves.append (EntriesEvolve.refl _ s.egress)
  | move =>
    unfold step at h
    dsimp only at h
    split at h
    · cases h
    · cases h
      exact .inl ⟨rfl, (EntriesEvolve.refl _ _).append (moveEntries_evolves _ _)⟩
  | ageout expired =>
    unfold step at h
    dsimp only at h
    split at h
    · cases h
    · cases h
      exact .inl ⟨rfl, (EntriesEvolve.refl _ _).append
        (Evolves.append (EntriesEvolve.of_forall₂ (ageoutEntries_forall₂ _ _))
          (EntriesEvolve.refl _ _))⟩
  | release defer =>
    obtain ⟨r, hr, he⟩ := Option.bind_eq_some_iff.1 h
    cases he
    exact .inl ⟨rfl, (EntriesEvolve.refl _ _).append ((EntriesEvolve.refl _ _).append
      (EntriesEvolve.of_sublist (releaseEntry_sublist hr)))⟩
  | egressInactivity =>
    cases h
    exact .inl ⟨rfl, .refl _ _⟩

end MgmtRxReo
