import Sm8750Modules.CamSync.Groups

/-!
# Camera sync — registrations

Callbacks and payloads are registered on a fence, and delivered when it completes, or at once when it
has completed before.
-/

namespace Sm8750Modules.CamSync

open Function List

/-- An object is complete: it is signalled, or all objects it was merged out of are. -/
def Complete (h : History) (b : ℕ) : Prop :=
  match h.members b with
  | none => h.signaledAs b ≠ none
  | some M => ∀ m ∈ M, h.signaledAs m ≠ none

/-- The state that a complete object ends in. -/
def HasFinalState (h : History) (b : ℕ) (st : SyncState) : Prop :=
  match h.members b with
  | none => h.signaledAs b = some st
  | some M => FinalState h.signaledAs M st

def History.deliveredTickets (h : History) : List ℕ := h.delivered.map (·.ticket)

/-- **What the notifications should be.** -/
structure NotifyOk (s : SyncDev) : Prop where
  once : s.hist.deliveredTickets.Nodup
  final : ∀ d ∈ s.hist.delivered, Complete s.hist (s.hist.owner d.ticket) ∧
    HasFinalState s.hist (s.hist.owner d.ticket) d.status
  row : ∀ d ∈ s.hist.delivered, ∀ i, s.Live i → s.hist.birth i = s.hist.owner d.ticket →
    (s.table i).state = d.status
  delivered : ∀ t < s.hist.tickets, Complete s.hist (s.hist.owner t) →
    t ∈ s.hist.deliveredTickets ∨ t ∈ s.hist.withdrawn
  apart : ∀ t ∈ s.hist.withdrawn, t ∉ s.hist.deliveredTickets

/-- A row whose object has completed, as `cam_sync_register_callback` sees it. -/
def Row.Done (row : Row) : Prop := row.state.Signaled ∧ row.remaining = 0

def SyncDev.pending (s : SyncDev) (i : ℕ) : List ℕ := if s.Live i then (s.table i).tickets else []

/-- **The invariant of the notifications.** -/
structure Notified (s : SyncDev) : Prop where
  owner : ∀ t < s.hist.tickets, s.hist.owner t < s.hist.objects
  pending : ∀ i, ∀ t ∈ s.pending i, t < s.hist.tickets ∧ s.hist.owner t = s.hist.birth i ∧
    t ∉ s.hist.deliveredTickets ∧ t ∉ s.hist.withdrawn
  pendingNodup : ∀ i, (s.pending i).Nodup
  notDone : ∀ i, s.pending i ≠ [] → ¬(s.table i).Done
  somewhere : ∀ t < s.hist.tickets, t ∈ s.hist.deliveredTickets ∨ t ∈ s.hist.withdrawn ∨
    ∃ i, t ∈ s.pending i
  once : s.hist.deliveredTickets.Nodup
  apart : ∀ t ∈ s.hist.withdrawn, t ∉ s.hist.deliveredTickets
  withdrawnLt : ∀ t ∈ s.hist.withdrawn, t < s.hist.tickets
  deliveredLt : ∀ d ∈ s.hist.delivered, d.ticket < s.hist.tickets
  final : ∀ d ∈ s.hist.delivered, HasFinalState s.hist (s.hist.owner d.ticket) d.status
  row : ∀ d ∈ s.hist.delivered, ∀ i, s.Live i → s.hist.birth i = s.hist.owner d.ticket →
    (s.table i).state = d.status

variable {st : SyncState}

theorem HasFinalState.complete {h : History} {b : ℕ} (hf : HasFinalState h b st) : Complete h b := by
  rw [HasFinalState] at hf
  rw [Complete]
  cases hM : h.members b with
  | none =>
    rw [hM] at hf
    intro hnone
    exact absurd (hnone.symm.trans hf) (by simp)
  | some M =>
    rw [hM] at hf
    exact hf.signaled

theorem HasFinalState.mono {h h' : History} {b : ℕ} (hf : HasFinalState h b st)
    (hmembers : h'.members b = h.members b)
    (hsig : ∀ m, h.signaledAs m ≠ none → h'.signaledAs m = h.signaledAs m) :
    HasFinalState h' b st := by
  rw [HasFinalState] at hf ⊢
  rw [hmembers]
  split at hf
  · rw [hsig b (by simp [hf])]
    exact hf
  · have hsame : ∀ m ∈ _, h'.signaledAs m = h.signaledAs m := fun m hm => hsig m (hf.signaled m hm)
    have hiff : (∀ m ∈ _, h'.signaledAs m = some .signaledSuccess) ↔
        ∀ m ∈ _, h.signaledAs m = some .signaledSuccess :=
      forall₂_congr fun m hm => by rw [hsame m hm]
    refine ⟨fun m hm => ?_, fun hall => hf.success (hiff.mp hall), fun hneg => ?_⟩
    · rw [hsame m hm]
      exact hf.signaled m hm
    · obtain ⟨hfailed, m, hm, heq⟩ := hf.failed fun hall => hneg (hiff.mpr hall)
      exact ⟨hfailed, m, hm, (hsame m hm).trans heq⟩

variable {s s' : SyncDev} {rc : Int}

variable {i : ℕ}

theorem Linked.hasFinalState (hs : Linked s) (hlive : s.Live i) (hdone : (s.table i).Done) :
    HasFinalState s.hist (s.hist.birth i) (s.table i).state := by
  rw [HasFinalState]
  cases htype : (s.table i).type with
  | indv =>
    have hok := hs.indv i hlive htype
    rw [hok.members]
    show s.hist.signaledAs _ = _
    rw [hok.state, if_neg hdone.1.ne_active]
  | group =>
    obtain ⟨M, hM, hok⟩ := hs.group i ⟨hlive, htype⟩
    rw [hM]
    exact hok.finalState (fun b st hb => (hs.signaled b st hb).1) hlive hdone.2

theorem Linked.done_of_complete (hs : Linked s) (hlive : s.Live i)
    (hc : Complete s.hist (s.hist.birth i)) : (s.table i).Done := by
  rw [Complete] at hc
  have hsignaled : (s.table i).state ≠ .active → (s.table i).state.Signaled := by
    intro hactive
    cases hstate : (s.table i).state with
    | invalid => exact absurd hstate hlive
    | active => exact absurd hstate hactive
    | signaledSuccess => exact .inl rfl
    | signaledError => exact .inr (.inl rfl)
    | signaledCancel => exact .inr (.inr rfl)
  cases htype : (s.table i).type with
  | indv =>
    have hok := hs.indv i hlive htype
    rw [hok.members] at hc
    refine ⟨hsignaled fun hactive => hc ?_, hok.remaining⟩
    rw [hok.state, if_pos hactive]
  | group =>
    obtain ⟨M, hM, hok⟩ := hs.group i ⟨hlive, htype⟩
    rw [hM] at hc
    refine ⟨hsignaled (hok.state.settled hc), ?_⟩
    have hnil : waiting s.hist.signaledAs M = [] :=
      filter_eq_nil_iff.mpr fun b hb => by simpa using hc b hb
    have hlen := hok.remaining
    rw [hnil] at hlen
    exact BitVec.eq_of_toNat_eq hlen

theorem pending_live (hlive : s.Live i) : s.pending i = (s.table i).tickets := if_pos hlive

theorem live_of_mem_pending {t : ℕ} (h : t ∈ s.pending i) : s.Live i := by
  by_contra hneg
  rw [SyncDev.pending, if_neg hneg] at h
  cases h

theorem pending_congr (hlive : s'.Live i ↔ s.Live i)
    (htickets : (s'.table i).tickets = (s.table i).tickets) : s'.pending i = s.pending i := by
  by_cases hl : s.Live i
  · rw [pending_live hl, pending_live (hlive.mpr hl), htickets]
  · rw [SyncDev.pending, SyncDev.pending, if_neg hl, if_neg fun hl' => hl (hlive.mp hl')]

variable {row : Row} {idx : ℕ}

theorem pending_setRow_other {hist : History} (h : i ≠ idx) :
    ({ s.setRow idx row with hist := hist } : SyncDev).pending i = s.pending i := by
  have hrow : ({ s.setRow idx row with hist := hist } : SyncDev).table i = s.table i :=
    setRow_other s row h
  apply pending_congr
  · rw [SyncDev.Live, SyncDev.Live, hrow]
  · rw [hrow]

theorem pending_setRow_same (s : SyncDev) (idx : ℕ) (hist : History)
    (hlive : row.state ≠ .invalid) :
    ({ s.setRow idx row with hist := hist } : SyncDev).pending idx = row.tickets := by
  have hrow : ({ s.setRow idx row with hist := hist } : SyncDev).table idx = row := setRow_same ..
  rw [pending_live, hrow]
  rw [SyncDev.Live, hrow]
  exact hlive

theorem Notified.notifyOk (hn : Notified s) (hs : Linked s) : NotifyOk s where
  once := hn.once
  final := fun d hd => ⟨(hn.final d hd).complete, hn.final d hd⟩
  row := hn.row
  delivered := by
    intro t ht hc
    rcases hn.somewhere t ht with hd | hw | ⟨i, hi⟩
    · exact .inl hd
    · exact .inr hw
    · rw [(hn.pending i t hi).2.1] at hc
      exact absurd (hs.done_of_complete (live_of_mem_pending hi) hc)
        (hn.notDone i (ne_nil_of_mem hi))
  apart := hn.apart

theorem notified_probe : Notified SyncDev.probe where
  owner := fun _ ht => absurd ht (Nat.not_lt_zero _)
  pending := fun _ _ ht => absurd ht not_mem_nil
  pendingNodup := fun _ => nodup_nil
  notDone := fun _ h => absurd rfl h
  somewhere := fun _ ht => absurd ht (Nat.not_lt_zero _)
  once := nodup_nil
  apart := fun _ ht => absurd ht not_mem_nil
  withdrawnLt := fun _ ht => absurd ht not_mem_nil
  deliveredLt := fun _ hd => absurd hd not_mem_nil
  final := fun _ hd => absurd hd not_mem_nil
  row := fun _ hd => absurd hd not_mem_nil

/-- What every row keeps that the notifications look at, apart from the registrations. -/
structure SameObjects (s s' : SyncDev) : Prop where
  state : ∀ i, (s'.table i).state = (s.table i).state
  remaining : ∀ i, (s'.table i).remaining = (s.table i).remaining
  objects : s'.hist.objects = s.hist.objects
  birth : s'.hist.birth = s.hist.birth
  members : s'.hist.members = s.hist.members
  signaledAs : s'.hist.signaledAs = s.hist.signaledAs

theorem SameObjects.live_iff (h : SameObjects s s') (i : ℕ) : s'.Live i ↔ s.Live i := by
  rw [SyncDev.Live, SyncDev.Live, h.state i]

theorem SameObjects.done_iff (h : SameObjects s s') (i : ℕ) : (s'.table i).Done ↔ (s.table i).Done := by
  rw [Row.Done, Row.Done, h.state i, h.remaining i]

theorem SameObjects.hasFinalState (h : SameObjects s s') {b : ℕ}
    (hf : HasFinalState s.hist b st) : HasFinalState s'.hist b st :=
  hf.mono (by rw [h.members]) fun m _ => by rw [h.signaledAs]

theorem sameObjects_setRow {hist : History}
    (hstate : row.state = (s.table idx).state) (hrem : row.remaining = (s.table idx).remaining)
    (hobjects : hist.objects = s.hist.objects) (hbirth : hist.birth = s.hist.birth)
    (hmembers : hist.members = s.hist.members) (hsig : hist.signaledAs = s.hist.signaledAs) :
    SameObjects s { s.setRow idx row with hist := hist } := by
  refine ⟨fun i => ?_, fun i => ?_, hobjects, hbirth, hmembers, hsig⟩
  · show ((s.setRow idx row).table i).state = _
    rcases eq_or_ne i idx with rfl | hi
    · rw [setRow_same, hstate]
    · rw [setRow_other _ _ hi]
  · show ((s.setRow idx row).table i).remaining = _
    rcases eq_or_ne i idx with rfl | hi
    · rw [setRow_same, hrem]
    · rw [setRow_other _ _ hi]

theorem Notified.pending_inj (hn : Notified s) (hs : Linked s) {j t : ℕ} (hi : t ∈ s.pending i)
    (hj : t ∈ s.pending j) : i = j :=
  hs.inj i j (live_of_mem_pending hi) (live_of_mem_pending hj)
    ((hn.pending i t hi).2.1.symm.trans (hn.pending j t hj).2.1)

theorem Notified.registerPending (hn : Notified s) (hs : Linked s)
    (hlive : s.Live idx) (hstate : row.state = (s.table idx).state)
    (hrem : row.remaining = (s.table idx).remaining) (hdone : ¬(s.table idx).Done)
    (hperm : row.tickets.Perm (s.hist.tickets :: (s.table idx).tickets)) :
    Notified { s.setRow idx row with hist := s.hist.register idx } := by
  have hobj : SameObjects s { s.setRow idx row with hist := s.hist.register idx } :=
    sameObjects_setRow hstate hrem rfl rfl rfl rfl
  have hpend := pending_setRow_same s idx (s.hist.register idx)
    (show row.state ≠ .invalid by rw [hstate]; exact hlive)
  have hold : ∀ t < s.hist.tickets, (s.hist.register idx).owner t = s.hist.owner t := fun t ht =>
    update_of_ne ht.ne ..
  have hnew : (s.hist.register idx).owner s.hist.tickets = s.hist.birth idx :=
    update_self ..
  have hfresh : s.hist.tickets ∉ s.hist.deliveredTickets ∧ s.hist.tickets ∉ s.hist.withdrawn := by
    refine ⟨fun hd => ?_, fun hw => absurd (hn.withdrawnLt _ hw) (Nat.lt_irrefl _)⟩
    obtain ⟨d, hd, heq⟩ := mem_map.mp hd
    exact absurd (heq ▸ hn.deliveredLt d hd) (Nat.lt_irrefl _)
  refine { owner := ?_, pending := ?_, pendingNodup := ?_, notDone := ?_, somewhere := ?_,
           once := hn.once, apart := hn.apart, withdrawnLt := ?_, deliveredLt := ?_, final := ?_,
           row := ?_ }
  · intro t ht
    rcases Nat.lt_succ_iff_lt_or_eq.mp ht with ht | rfl
    · exact (hold t ht) ▸ hn.owner t ht
    · exact hnew ▸ (hs.live idx hlive).birth
  · intro i t hi
    have holdCase : t ∈ s.pending i → t < s.hist.tickets + 1 ∧
        (s.hist.register idx).owner t = s.hist.birth i ∧ t ∉ s.hist.deliveredTickets ∧
          t ∉ s.hist.withdrawn := by
      intro hi
      obtain ⟨hlt, howner, hrest⟩ := hn.pending i t hi
      exact ⟨Nat.lt_succ_of_lt hlt, (hold t hlt).trans howner, hrest⟩
    rcases eq_or_ne i idx with rfl | hne
    · rw [hpend] at hi
      rcases mem_cons.mp (hperm.mem_iff.mp hi) with rfl | hmem
      · exact ⟨Nat.lt_succ_self _, hnew, hfresh⟩
      · exact holdCase (by rw [pending_live hlive]; exact hmem)
    · rw [pending_setRow_other hne] at hi
      exact holdCase hi
  · intro i
    rcases eq_or_ne i idx with rfl | hne
    · rw [hpend, hperm.nodup_iff, nodup_cons, ← pending_live hlive]
      refine ⟨fun hmem => ?_, hn.pendingNodup i⟩
      exact absurd (hn.pending i _ hmem).1 (Nat.lt_irrefl _)
    · rw [pending_setRow_other hne]
      exact hn.pendingNodup i
  · intro i hne
    rw [hobj.done_iff]
    rcases eq_or_ne i idx with rfl | hi
    · exact hdone
    · rw [pending_setRow_other hi] at hne
      exact hn.notDone i hne
  · intro t ht
    rcases Nat.lt_succ_iff_lt_or_eq.mp ht with ht | rfl
    · rcases hn.somewhere t ht with hd | hw | ⟨i, hi⟩
      · exact .inl hd
      · exact .inr (.inl hw)
      · refine .inr (.inr ⟨i, ?_⟩)
        rcases eq_or_ne i idx with rfl | hne
        · rw [pending_live hlive] at hi
          rw [hpend]
          exact hperm.mem_iff.mpr (mem_cons_of_mem _ hi)
        · rw [pending_setRow_other hne]
          exact hi
    · refine .inr (.inr ⟨idx, ?_⟩)
      rw [hpend]
      exact hperm.mem_iff.mpr mem_cons_self
  · exact fun t hw => Nat.lt_succ_of_lt (hn.withdrawnLt t hw)
  · exact fun d hd => Nat.lt_succ_of_lt (hn.deliveredLt d hd)
  · intro d hd
    have heq := hold _ (hn.deliveredLt d hd)
    show HasFinalState _ ((s.hist.register idx).owner d.ticket) _
    rw [heq]
    exact hobj.hasFinalState (hn.final d hd)
  · intro d hd i hi hbirth
    have heq := hold _ (hn.deliveredLt d hd)
    rw [hobj.state i]
    exact hn.row d hd i ((hobj.live_iff i).mp hi) (hbirth.trans heq)

/-- **A registration on a row that is done** is delivered at once. -/
theorem Notified.registerDone (hn : Notified s) (hs : Linked s) (hlive : s.Live idx)
    (hdone : (s.table idx).Done) :
    Notified { s with
      hist := (s.hist.register idx).deliver idx (s.table idx).state [s.hist.tickets] } := by
  have hold : ∀ t < s.hist.tickets, (s.hist.register idx).owner t = s.hist.owner t := fun t ht =>
    update_of_ne ht.ne ..
  have hnew : (s.hist.register idx).owner s.hist.tickets = s.hist.birth idx :=
    update_self ..
  have hdel : ((s.hist.register idx).deliver idx (s.table idx).state
      [s.hist.tickets]).deliveredTickets = s.hist.deliveredTickets ++ [s.hist.tickets] :=
    map_append
  have hfresh : s.hist.tickets ∉ s.hist.deliveredTickets := by
    intro hd
    obtain ⟨d, hd, heq⟩ := mem_map.mp hd
    exact absurd (heq ▸ hn.deliveredLt d hd) (Nat.lt_irrefl _)
  refine { owner := ?_, pending := ?_, pendingNodup := hn.pendingNodup, notDone := hn.notDone,
           somewhere := ?_, once := ?_, apart := ?_, withdrawnLt := ?_, deliveredLt := ?_,
           final := ?_, row := ?_ }
  · intro t ht
    rcases Nat.lt_succ_iff_lt_or_eq.mp ht with ht | rfl
    · exact (hold t ht) ▸ hn.owner t ht
    · exact hnew ▸ (hs.live idx hlive).birth
  · intro i t hi
    obtain ⟨hlt, howner, hd, hw⟩ := hn.pending i t hi
    refine ⟨Nat.lt_succ_of_lt hlt, (hold t hlt).trans howner, ?_, hw⟩
    rw [hdel, mem_append, mem_singleton]
    rintro (hmem | rfl)
    · exact hd hmem
    · exact absurd hlt (Nat.lt_irrefl _)
  · intro t ht
    rw [hdel, mem_append, mem_singleton]
    rcases Nat.lt_succ_iff_lt_or_eq.mp ht with ht | rfl
    · rcases hn.somewhere t ht with hd | hrest
      · exact .inl (.inl hd)
      · exact .inr hrest
    · exact .inl (.inr rfl)
  · rw [hdel]
    apply hn.once.append (nodup_singleton _)
    intro t ht ht'
    rw [mem_singleton] at ht'
    exact hfresh (ht' ▸ ht)
  · intro t hw
    rw [hdel, mem_append, mem_singleton]
    rintro (hmem | rfl)
    · exact hn.apart t hw hmem
    · exact absurd (hn.withdrawnLt _ hw) (Nat.lt_irrefl _)
  · exact fun t hw => Nat.lt_succ_of_lt (hn.withdrawnLt t hw)
  · intro d hd
    rcases mem_append.mp hd with hd | hd
    · exact Nat.lt_succ_of_lt (hn.deliveredLt d hd)
    · rw [map_singleton, mem_singleton] at hd
      subst hd
      exact Nat.lt_succ_self _
  · intro d hd
    show HasFinalState _ ((s.hist.register idx).owner d.ticket) _
    rcases mem_append.mp hd with hd | hd
    · rw [hold _ (hn.deliveredLt d hd)]
      exact (hn.final d hd).mono rfl fun _ _ => rfl
    · rw [map_singleton, mem_singleton] at hd
      subst hd
      rw [hnew]
      exact (hs.hasFinalState hlive hdone).mono rfl fun _ _ => rfl
  · intro d hd i hi hbirth
    rcases mem_append.mp hd with hd | hd
    · exact hn.row d hd i hi (hbirth.trans (hold _ (hn.deliveredLt d hd)))
    · rw [map_singleton, mem_singleton] at hd
      subst hd
      rw [hs.inj i idx hi hlive (hbirth.trans hnew)]

theorem Notified.withdraw (hn : Notified s) (hs : Linked s) {found : List ℕ}
    (hlive : s.Live idx) (hstate : row.state = (s.table idx).state)
    (hrem : row.remaining = (s.table idx).remaining)
    (hperm : (s.table idx).tickets.Perm (found ++ row.tickets)) :
    Notified { s.setRow idx row with hist := s.hist.withdraw found } := by
  have hobj : SameObjects s { s.setRow idx row with hist := s.hist.withdraw found } :=
    sameObjects_setRow hstate hrem rfl rfl rfl rfl
  have hpend := pending_setRow_same s idx (s.hist.withdraw found)
    (show row.state ≠ .invalid by rw [hstate]; exact hlive)
  have hnodup : (found ++ row.tickets).Nodup := by
    rw [← hperm.nodup_iff, ← pending_live hlive]
    exact hn.pendingNodup idx
  have hfound : ∀ t ∈ found, t ∈ s.pending idx := by
    intro t ht
    rw [pending_live hlive]
    exact hperm.mem_iff.mpr (mem_append_left _ ht)
  have hsub : ∀ i, ∀ t, t ∈ ({ s.setRow idx row with hist := s.hist.withdraw found } :
      SyncDev).pending i → t ∈ s.pending i ∧ t ∉ found := by
    intro i t hi
    rcases eq_or_ne i idx with rfl | hne
    · rw [hpend] at hi
      refine ⟨?_, fun ht => (nodup_append'.mp hnodup).2.2 ht hi⟩
      rw [pending_live hlive]
      exact hperm.mem_iff.mpr (mem_append_right _ hi)
    · rw [pending_setRow_other hne] at hi
      exact ⟨hi, fun ht => hne (hn.pending_inj hs hi (hfound t ht))⟩
  refine { owner := hn.owner, pending := ?_, pendingNodup := ?_, notDone := ?_, somewhere := ?_,
           once := hn.once, apart := ?_, withdrawnLt := ?_, deliveredLt := hn.deliveredLt,
           final := ?_, row := ?_ }
  · intro i t hi
    obtain ⟨hi, hnot⟩ := hsub i t hi
    obtain ⟨hlt, howner, hd, hw⟩ := hn.pending i t hi
    refine ⟨hlt, howner, hd, fun hmem => ?_⟩
    rcases mem_append.mp hmem with hmem | hmem
    · exact hw hmem
    · exact hnot hmem
  · intro i
    rcases eq_or_ne i idx with rfl | hne
    · rw [hpend]
      exact (nodup_append'.mp hnodup).2.1
    · rw [pending_setRow_other hne]
      exact hn.pendingNodup i
  · intro i hne
    rw [hobj.done_iff]
    obtain ⟨t, ht⟩ := exists_mem_of_ne_nil _ hne
    exact hn.notDone i (ne_nil_of_mem (hsub i t ht).1)
  · intro t ht
    rcases hn.somewhere t ht with hd | hw | ⟨i, hi⟩
    · exact .inl hd
    · exact .inr (.inl (mem_append_left _ hw))
    · rcases eq_or_ne i idx with rfl | hne
      · rw [pending_live hlive] at hi
        rcases mem_append.mp (hperm.mem_iff.mp hi) with hmem | hmem
        · exact .inr (.inl (mem_append_right _ hmem))
        · exact .inr (.inr ⟨i, by rw [hpend]; exact hmem⟩)
      · exact .inr (.inr ⟨i, by rw [pending_setRow_other hne]; exact hi⟩)
  · intro t hw
    rcases mem_append.mp hw with hw | hw
    · exact hn.apart t hw
    · exact (hn.pending idx t (hfound t hw)).2.2.1
  · intro t hw
    rcases mem_append.mp hw with hw | hw
    · exact hn.withdrawnLt t hw
    · exact (hn.pending idx t (hfound t hw)).1
  · exact fun d hd => hobj.hasFinalState (hn.final d hd)
  · intro d hd i hi hbirth
    rw [hobj.state i]
    exact hn.row d hd i ((hobj.live_iff i).mp hi) hbirth

end Sm8750Modules.CamSync
