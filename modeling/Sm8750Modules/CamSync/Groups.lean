import Sm8750Modules.CamSync.Steps
import Sm8750Modules.Lib.Runs

/-!
# Camera sync — merged fences over whole runs

A group is complete when all objects it was merged out of have been signalled.
-/

namespace Sm8750Modules.CamSync

open Runs List

/-- The state of a group whose members have all been signalled. -/
structure FinalState (signaledAs : ℕ → Option SyncState) (M : List ℕ) (state : SyncState) : Prop where
  signaled : ∀ b ∈ M, signaledAs b ≠ none
  success : (∀ b ∈ M, signaledAs b = some .signaledSuccess) → state = .signaledSuccess
  failed : ¬(∀ b ∈ M, signaledAs b = some .signaledSuccess) →
    state.Failed ∧ ∃ b ∈ M, signaledAs b = some state

/-- What the rows should say about the groups. -/
structure GroupsOk (s : SyncDev) : Prop where
  remaining : ∀ g, s.IsGroup g →
    (s.table g).remaining.toNat = {c | s.Live c ∧ g ∈ (s.table c).parentsList}.ncard
  canSignal : ∀ g, s.IsGroup g → (s.table g).remaining ≠ 0 →
    ∃ c, s.Waits c ∧ g ∈ (s.table c).parentsList
  parent : ∀ c g, g ∈ (s.table c).parentsList → s.IsGroup g ∧ s.Member c g
  final : ∀ g, s.IsGroup g → (s.table g).remaining = 0 →
    ∃ M, s.hist.members (s.hist.birth g) = some M ∧
      FinalState s.hist.signaledAs M (s.table g).state

/-- Runs of calls that return, as far as they are allowed. -/
def machine (allowed : SyncDev → Call → Prop) : Machine SyncDev Call where
  init s := s = .probe
  guard s a := (s.call a).isSome = true ∧ allowed s a
  next s a := ((s.call a).map (·.2)).getD s

theorem machine_next {allowed : SyncDev → Call → Prop} {s : SyncDev} {a : Call}
    (h : (machine allowed).guard s a) : ∃ rc, s.call a = some (rc, (machine allowed).next s a) := by
  obtain ⟨⟨rc, s'⟩, hcall⟩ := Option.isSome_iff_exists.mp h.1
  refine ⟨rc, ?_⟩
  show _ = some (rc, ((s.call a).map (·.2)).getD s)
  rw [hcall]
  rfl

theorem linked_of_reachable {allowed : SyncDev → Call → Prop} {s : SyncDev}
    (h : (machine allowed).Reachable s) : Linked s := by
  apply h.invariant
  · rintro _ rfl
    exact linked_probe
  · intro s a hs ha
    obtain ⟨rc, hcall⟩ := machine_next ha
    exact hs.call hcall

def SyncDev.run (s : SyncDev) : List Call → SyncDev
  | [] => s
  | a :: rest => (((s.call a).map (·.2)).getD s).run rest

def RunAllowed (allowed : SyncDev → Call → Prop) : SyncDev → List Call → Prop
  | _, [] => True
  | s, a :: rest => ((s.call a).isSome = true ∧ allowed s a) ∧
      RunAllowed allowed (((s.call a).map (·.2)).getD s) rest

theorem reachable_run {allowed : SyncDev → Call → Prop} {s : SyncDev} {calls : List Call}
    (hs : (machine allowed).Reachable s) (h : RunAllowed allowed s calls) :
    (machine allowed).Reachable (s.run calls) := by
  induction calls generalizing s with
  | nil => exact hs
  | cons a rest ih => exact ih (hs.next h.1) h.2

instance decidableRunAllowed (allowed : SyncDev → Call → Prop) [∀ s a, Decidable (allowed s a)]
    (s : SyncDev) : (calls : List Call) → Decidable (RunAllowed allowed s calls)
  | [] => inferInstanceAs (Decidable True)
  | _ :: rest => @instDecidableAnd _ _ inferInstance (decidableRunAllowed allowed _ rest)

def DestroysChild (s : SyncDev) : Call → Prop
  | .destroy obj =>
    InRange obj ∧ (s.table obj.toNat).state = .active ∧ (s.table obj.toNat).parentsList ≠ []
  | _ => False

instance (s : SyncDev) : (a : Call) → Decidable (DestroysChild s a) := by
  intro a
  cases a <;> dsimp only [DestroysChild] <;> infer_instance

def MembersKept (s : SyncDev) : Prop :=
  ∀ g M, s.IsGroup g → s.hist.members (s.hist.birth g) = some M →
    ∀ b ∈ M, s.hist.signaledAs b = none → ∃ c, s.Waits c ∧ s.hist.birth c = b

variable {s s' : SyncDev} {rc : Int}

section

variable (hk : MembersKept s)
include hk

theorem MembersKept.signaledStep (hs : Linked s) {c : ℕ} {st : SyncState}
    (h : SignaledStep s c st s') (hc : s.Waits c) (hst : st.Signaled) : MembersKept s' := by
  intro g M hg hM b hb hnone
  rw [h.members, h.birth] at hM
  rw [h.signaledAs] at hnone
  have hne : b ≠ s.hist.birth c := by
    rintro rfl
    rw [Function.update_self] at hnone
    cases hnone
  rw [Function.update_of_ne hne] at hnone
  obtain ⟨i, hi, rfl⟩ := hk g M ((h.isGroup_iff hs hc hst g).mp hg) hM b hb hnone
  have hic : i ≠ c := fun heq => hne (heq ▸ rfl)
  exact ⟨i, (h.waits_iff hs hc hst i).mpr ⟨hi, hic⟩, by rw [h.birth]⟩

theorem MembersKept.destroyedStep (hs : Linked s) {d : ℕ}
    (h : DestroyedStep s d s')
    (hd : ¬((s.table d).state = .active ∧ (s.table d).parentsList ≠ [])) : MembersKept s' := by
  intro g M hg hM b hb hnone
  obtain ⟨hgroup, hgd⟩ := (h.isGroup_iff g).mp hg
  rw [h.members, h.birth] at hM
  rw [h.signaledAs] at hnone
  obtain ⟨i, hi, rfl⟩ := hk g M hgroup hM b hb hnone
  refine ⟨i, (h.waits_iff i).mpr ⟨hi, ?_⟩, by rw [h.birth]⟩
  rintro rfl
  -- the destroyed object would be a waiting child of `g`
  have hparent := (hs.parent i g).mpr ⟨hi, hgroup, M, hM, hb⟩
  exact hd ⟨hi.1, ne_nil_of_mem hparent⟩

theorem MembersKept.newRowStep (hs : Linked s) {idx : ℕ}
    {ms : Option (List ℕ)} {l : List ℕ} (h : NewRowStep s idx ms l s')
    (hidx : s.bitmap idx = false) : MembersKept s' := by
  have hne : ∀ i, s.Live i → i ≠ idx := by
    rintro i hi rfl
    have hbit := (hs.live i hi).bit
    rw [hidx] at hbit
    cases hbit
  intro g M hg hM b hb hnone
  rw [h.signaledAs] at hnone
  rcases eq_or_ne g idx with rfl | hgi
  · rw [h.birth_same, h.members_same, (h.group hg).1] at hM
    cases hM
    obtain ⟨c, hc, rfl⟩ := mem_map.mp hb
    obtain ⟨hlive, htype⟩ := h.childIndv c hc
    have hcg := hne c hlive
    have hstate : (s.table c).state = .active := by
      have hsig := (hs.indv c hlive htype).state
      rw [hnone] at hsig
      by_contra hneg
      rw [if_neg hneg] at hsig
      cases hsig
    exact ⟨c, (h.waits_iff hcg).mpr ⟨hstate, htype⟩, h.birth_eq hcg⟩
  · have hgroup := (h.isGroup_iff hgi).mp hg
    rw [h.birth_eq hgi, h.members_eq (hs.live g hgroup.1).birth] at hM
    obtain ⟨c, hc, rfl⟩ := hk g M hgroup hM b hb hnone
    have hci := hne c hc.live
    exact ⟨c, (h.waits_iff hci).mpr hc, h.birth_eq hci⟩

theorem MembersKept.congr (h : s'.links = s.links) : MembersKept s' := by
  have hlinks : MembersKept s'.links := h ▸ hk
  exact hlinks

/-- **A call that destroys no waiting child keeps the members of all groups.** -/
theorem MembersKept.call (hs : Linked s) {a : Call}
    (h : s.call a = some (rc, s')) (ha : ¬DestroysChild s a) : MembersKept s' := by
  cases a with
  | create =>
    rcases create_cases hs h with rfl | ⟨idx, hbit, -, hstep⟩
    · exact hk
    · exact hk.newRowStep hs hstep hbit
  | merge mem objs =>
    rcases merge_cases hs h with rfl | ⟨idx, l, hbit, -, hstep⟩
    · exact hk
    · exact hk.newRowStep hs hstep hbit
  | getObjRef obj => exact hk.congr (links_getObjRef h)
  | putObjRef obj => exact hk.congr (links_putObjRef h)
  | signal obj status =>
    rcases signal_cases hs h with rfl | ⟨idx, rfl⟩ | ⟨c, st, hc, hst, hstep⟩
    · exact hk
    · exact hk.congr (links_refCnt ..)
    · exact hk.signaledStep hs hstep hc hst
  | destroy obj =>
    rcases destroy_cases hs h with rfl | ⟨hlive, hstep⟩
    · exact hk
    · apply hk.destroyedStep hs hstep
      intro hd
      have hok := hs.live _ hlive
      refine ha ⟨⟨?_, ?_⟩, hd⟩
      · have hpos := hok.pos
        omega
      · have hlt := hok.lt
        have hpos := hok.pos
        omega
  | registerCallback mem f d obj => exact hk.congr (links_registerCallback h)
  | deregisterCallback f d obj => exact hk.congr (links_deregisterCallback h)
  | registerPayload mem payload obj => exact hk.congr (links_handleRegisterUserPayload h)
  | deregisterPayload payload obj => exact hk.congr (links_handleDeregisterUserPayload h)

end

theorem birth_image_children (hs : Linked s) (hk : MembersKept s) {g : ℕ} {M : List ℕ}
    (hg : s.IsGroup g) (hM : s.hist.members (s.hist.birth g) = some M) :
    s.hist.birth '' {c | s.Live c ∧ g ∈ (s.table c).parentsList} =
      {b | b ∈ waiting s.hist.signaledAs M} := by
  ext b
  rw [Set.mem_image, Set.mem_ofPred_eq, waiting, mem_filter, decide_eq_true_iff]
  constructor
  · rintro ⟨c, ⟨-, hparent⟩, rfl⟩
    obtain ⟨hc, -, M', hM', hmem⟩ := (hs.parent c g).mp hparent
    rw [hM] at hM'
    cases hM'
    refine ⟨hmem, ?_⟩
    rw [(hs.indv c hc.live hc.2).state, if_pos hc.1]
  · rintro ⟨hmem, hnone⟩
    obtain ⟨c, hc, rfl⟩ := hk g M hg hM b hmem hnone
    exact ⟨c, ⟨hc.live, (hs.parent c g).mpr ⟨hc, hg, M, hM, hmem⟩⟩, rfl⟩

theorem GroupOk.finalState {sig : ℕ → Option SyncState} {M : List ℕ} {row : Row}
    (h : GroupOk sig M row) (hsig : ∀ b st, sig b = some st → st.Signaled)
    (hlive : row.state ≠ .invalid) (hzero : row.remaining = 0) : FinalState sig M row.state := by
  have hall : ∀ b ∈ M, sig b ≠ none := by
    have hlen := h.remaining
    rw [hzero] at hlen
    have hnil : waiting sig M = [] := eq_nil_of_length_eq_zero hlen.symm
    intro b hb hnone
    exact filter_eq_nil_iff.mp hnil b hb (by simpa using hnone)
  refine ⟨hall, fun hsuccess => ?_, fun hneg => ?_⟩
  · have hnot : ¬row.state.Failed := by
      intro hfailed
      obtain ⟨b, hb, heq⟩ := h.state.fromMember hfailed
      rw [hsuccess b hb] at heq
      rw [← Option.some.inj heq] at hfailed
      exact absurd hfailed (by decide)
    have hactive := h.state.settled hall
    cases hstate : row.state with
    | invalid => exact absurd hstate hlive
    | active => exact absurd hstate hactive
    | signaledSuccess => rfl
    | signaledError => exact absurd (.inl hstate) hnot
    | signaledCancel => exact absurd (.inr hstate) hnot
  · push Not at hneg
    obtain ⟨b, hb, hne⟩ := hneg
    obtain ⟨st, hst⟩ := Option.ne_none_iff_exists'.mp (hall b hb)
    have hfailed : st.Failed := by
      rcases hsig b st hst with heq | hfailed
      · rw [heq] at hst
        exact absurd hst hne
      · exact hfailed
    have hrow := h.state.failed b hb st hst hfailed
    exact ⟨hrow, h.state.fromMember hrow⟩

theorem Linked.groupsOk (hs : Linked s) (hk : MembersKept s) : GroupsOk s where
  remaining := by
    intro g hg
    obtain ⟨M, hM, hok⟩ := hs.group g hg
    have hinj : Set.InjOn s.hist.birth {c | s.Live c ∧ g ∈ (s.table c).parentsList} :=
      fun i hi j hj heq => hs.inj i j hi.1 hj.1 heq
    have hset : {b | b ∈ waiting s.hist.signaledAs M} =
        ((waiting s.hist.signaledAs M).toFinset : Set ℕ) := by
      ext b
      simp
    rw [hok.remaining, ← hinj.ncard_image, birth_image_children hs hk hg hM, hset, Set.ncard_coe_finset]
    exact (toFinset_card_of_nodup (hok.nodup.filter _)).symm
  canSignal := by
    intro g hg hne
    obtain ⟨M, hM, hok⟩ := hs.group g hg
    have hpos : waiting s.hist.signaledAs M ≠ [] := by
      intro hnil
      have hlen := hok.remaining
      rw [hnil] at hlen
      exact hne (BitVec.eq_of_toNat_eq hlen)
    obtain ⟨b, hb⟩ := exists_mem_of_ne_nil _ hpos
    obtain ⟨hmem, hnone⟩ := mem_filter.mp hb
    obtain ⟨c, hc, rfl⟩ := hk g M hg hM b hmem (by simpa using hnone)
    exact ⟨c, hc, (hs.parent c g).mpr ⟨hc, hg, M, hM, hmem⟩⟩
  parent := fun c g hg => ((hs.parent c g).mp hg).2
  final := by
    intro g hg hzero
    obtain ⟨M, hM, hok⟩ := hs.group g hg
    exact ⟨M, hM, hok.finalState (fun b st hb => (hs.signaled b st hb).1) hg.1 hzero⟩

theorem membersKept_of_reachable
    (h : (machine fun s a => ¬DestroysChild s a).Reachable s) : MembersKept s := by
  have hboth : Linked s ∧ MembersKept s := by
    apply h.invariant
    · rintro _ rfl
      exact ⟨linked_probe, fun g M hg => absurd rfl hg.1⟩
    · rintro s a ⟨hs, hk⟩ ha
      obtain ⟨rc, hcall⟩ := machine_next ha
      exact ⟨hs.call hcall, hk.call hs hcall ha.2⟩
  exact hboth.2

/-- **Merged fences.**  In every state of every run that destroys no active child of a group, a
group's counter is the number of live objects that name it as their parent, each of these belongs to
that very group, and a group whose counter is zero has the state that its members were signalled
with. -/
theorem groupsOk_of_reachable (h : (machine fun s a => ¬DestroysChild s a).Reachable s) : GroupsOk s :=
  (linked_of_reachable h).groupsOk (membersKept_of_reachable h)

/-- Two objects are merged, and the first one is signalled. -/
theorem groupsOk_of_reachable_halfSignaled :
    GroupsOk (SyncDev.probe.run [.create, .create, .merge ⟨fun _ => true, fun _ => true⟩ [1, 2],
      .getObjRef 1, .signal 1 3]) :=
  groupsOk_of_reachable (reachable_run (.init rfl) (by decide))

/-- **A destroyed child is never taken off the counter.**  Two objects are merged and destroyed: the
group still counts two, and no object is left to complete it. -/
theorem not_groupsOk : ¬∀ s, (machine fun _ _ => True).Reachable s → GroupsOk s := by
  intro hall
  have hreach : (machine fun _ _ => True).Reachable (SyncDev.probe.run [.create, .create,
      .merge ⟨fun _ => true, fun _ => true⟩ [1, 2], .destroy 1, .destroy 2]) :=
    reachable_run (.init rfl) (by decide)
  obtain ⟨c, -, hparent⟩ := (hall _ hreach).canSignal 3 ⟨by decide, by decide⟩ (by decide)
  have hchild := (linked_of_reachable hreach).child c 3 hparent
  have hnone : ((SyncDev.probe.run [.create, .create, .merge ⟨fun _ => true, fun _ => true⟩ [1, 2],
      .destroy 1, .destroy 2]).table 3).childrenList = [] := by decide
  rw [hnone] at hchild
  cases hchild

end Sm8750Modules.CamSync
