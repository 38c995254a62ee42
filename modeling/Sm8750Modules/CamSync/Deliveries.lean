import Sm8750Modules.CamSync.Registrations

/-!
# Camera sync — registrations and objects

What becomes of the registrations when objects are made, destroyed and signalled.
-/

namespace Sm8750Modules.CamSync

open List

variable {s s' : SyncDev}

theorem Notified.newRowStep (hn : Notified s) (hs : Linked s) {idx : ℕ} {ms : Option (List ℕ)}
    {l : List ℕ} (h : NewRowStep s idx ms l s') (hidx : s.bitmap idx = false) : Notified s' := by
  have hdead : ¬s.Live idx := by
    intro hlive
    have hbit := (hs.live idx hlive).bit
    rw [hidx] at hbit
    cases hbit
  have hdel : s'.hist.deliveredTickets = s.hist.deliveredTickets := by
    rw [History.deliveredTickets, h.delivered]
    rfl
  have hpend : ∀ i, s'.pending i = s.pending i := by
    intro i
    rcases eq_or_ne i idx with rfl | hi
    · rw [SyncDev.pending, SyncDev.pending, if_neg hdead]
      split
      · rename_i hlive
        exact h.noTickets hlive
      · rfl
    · apply pending_congr (h.live_iff hi)
      rw [h.others i hi, linkedRows]
      split <;> rfl
  have hlive : ∀ i, s.pending i ≠ [] → i ≠ idx := by
    rintro i hne rfl
    obtain ⟨t, ht⟩ := exists_mem_of_ne_nil _ hne
    exact hdead (live_of_mem_pending ht)
  refine { owner := ?_, pending := ?_, pendingNodup := ?_, notDone := ?_, somewhere := ?_,
           once := hdel ▸ hn.once, apart := ?_, withdrawnLt := ?_, deliveredLt := ?_, final := ?_,
           row := ?_ }
  · intro t ht
    rw [h.tickets] at ht
    rw [h.owner, h.objects]
    exact Nat.lt_succ_of_lt (hn.owner t ht)
  · intro i t hi
    rw [hpend] at hi
    obtain ⟨hlt, howner, hrest⟩ := hn.pending i t hi
    rw [h.tickets, h.owner, h.birth_eq (hlive i (ne_nil_of_mem hi)), hdel, h.withdrawn]
    exact ⟨hlt, howner, hrest⟩
  · intro i
    rw [hpend]
    exact hn.pendingNodup i
  · intro i hne
    rw [hpend] at hne
    have hi := hlive i hne
    rw [Row.Done, h.state_eq hi, h.remaining_eq hi]
    exact hn.notDone i hne
  · intro t ht
    rw [h.tickets] at ht
    rw [hdel, h.withdrawn]
    simp only [hpend]
    exact hn.somewhere t ht
  · rw [hdel, h.withdrawn]
    exact hn.apart
  · rw [h.withdrawn, h.tickets]
    exact hn.withdrawnLt
  · rw [h.delivered, h.tickets]
    exact hn.deliveredLt
  · intro d hd
    rw [h.delivered] at hd
    rw [h.owner]
    exact (hn.final d hd).mono (h.members_eq (hn.owner _ (hn.deliveredLt d hd)))
      fun m _ => by rw [h.signaledAs]
  · intro d hd i hi hbirth
    rw [h.delivered] at hd
    rw [h.owner] at hbirth
    have howner := hn.owner _ (hn.deliveredLt d hd)
    rcases eq_or_ne i idx with rfl | hne
    · rw [h.birth_same] at hbirth
      omega
    · rw [h.birth_eq hne] at hbirth
      rw [h.state_eq hne]
      exact hn.row d hd i ((h.live_iff hne).mp hi) hbirth

theorem Notified.destroyedStep (hn : Notified s) (hs : Linked s) {d : ℕ} (h : DestroyedStep s d s')
    (hlive : s.Live d) : Notified s' := by
  have hdel : s'.hist.deliveredTickets = s.hist.deliveredTickets := by
    rw [History.deliveredTickets, h.delivered]
    rfl
  have hother : ∀ i, i ≠ d → s'.pending i = s.pending i := by
    intro i hi
    obtain ⟨children, hrow, -⟩ := h.others i hi
    apply pending_congr
    · rw [h.live_iff]
      exact ⟨fun hl => hl.1, fun hl => ⟨hl, hi⟩⟩
    · rw [hrow]
      rfl
  have hself : s'.pending d = [] := by
    rw [SyncDev.pending, if_neg]
    intro hl
    exact ((h.live_iff d).mp hl).2 rfl
  have hsub : ∀ i t, t ∈ s'.pending i → t ∈ s.pending i ∧ i ≠ d := by
    intro i t ht
    rcases eq_or_ne i d with rfl | hi
    · rw [hself] at ht
      cases ht
    · exact ⟨hother i hi ▸ ht, hi⟩
  refine { owner := ?_, pending := ?_, pendingNodup := ?_, notDone := ?_, somewhere := ?_,
           once := hdel ▸ hn.once, apart := ?_, withdrawnLt := ?_, deliveredLt := ?_, final := ?_,
           row := ?_ }
  · rw [h.tickets, h.owner, h.objects]
    exact hn.owner
  · intro i t hi
    obtain ⟨hi, hne⟩ := hsub i t hi
    obtain ⟨hlt, howner, hd, hw⟩ := hn.pending i t hi
    rw [h.tickets, h.owner, h.birth, hdel, h.withdrawn]
    refine ⟨hlt, howner, hd, fun hmem => ?_⟩
    rcases mem_append.mp hmem with hmem | hmem
    · exact hw hmem
    · exact hne (hn.pending_inj hs hi (by rw [pending_live hlive]; exact hmem))
  · intro i
    rcases eq_or_ne i d with rfl | hi
    · rw [hself]
      exact nodup_nil
    · rw [hother i hi]
      exact hn.pendingNodup i
  · intro i hne
    obtain ⟨t, ht⟩ := exists_mem_of_ne_nil _ hne
    obtain ⟨hi, hid⟩ := hsub i t ht
    obtain ⟨children, hrow, -⟩ := h.others i hid
    rw [hrow]
    exact hn.notDone i (ne_nil_of_mem hi)
  · intro t ht
    rw [h.tickets] at ht
    rw [hdel, h.withdrawn, mem_append]
    rcases hn.somewhere t ht with hd | hw | ⟨i, hi⟩
    · exact .inl hd
    · exact .inr (.inl (.inl hw))
    · rcases eq_or_ne i d with rfl | hid
      · rw [pending_live hlive] at hi
        exact .inr (.inl (.inr hi))
      · exact .inr (.inr ⟨i, by rw [hother i hid]; exact hi⟩)
  · intro t hw
    rw [h.withdrawn] at hw
    rw [hdel]
    rcases mem_append.mp hw with hw | hw
    · exact hn.apart t hw
    · exact (hn.pending d t (by rw [pending_live hlive]; exact hw)).2.2.1
  · intro t hw
    rw [h.withdrawn] at hw
    rw [h.tickets]
    rcases mem_append.mp hw with hw | hw
    · exact hn.withdrawnLt t hw
    · exact (hn.pending d t (by rw [pending_live hlive]; exact hw)).1
  · rw [h.delivered, h.tickets]
    exact hn.deliveredLt
  · intro e he
    rw [h.delivered] at he
    rw [h.owner]
    exact (hn.final e he).mono (by rw [h.members]) fun m _ => by rw [h.signaledAs]
  · intro e he i hi hbirth
    rw [h.delivered] at he
    rw [h.owner, h.birth] at hbirth
    obtain ⟨hl, hid⟩ := (h.live_iff i).mp hi
    obtain ⟨children, hrow, -⟩ := h.others i hid
    rw [hrow]
    exact hn.row e he i hl hbirth

section Signaled

variable {c : ℕ} {st : SyncState}

theorem Linked.remaining_ne_zero (hs : Linked s) {g : ℕ} (hg : g ∈ (s.table c).parentsList) :
    (s.table g).remaining ≠ 0 := by
  obtain ⟨hc, hgroup, M, hM, hmem⟩ := (hs.parent c g).mp hg
  obtain ⟨M', hM', hok⟩ := hs.group g hgroup
  rw [hM] at hM'
  cases hM'
  intro hzero
  have hlen := hok.remaining
  rw [hzero] at hlen
  have hnil : waiting s.hist.signaledAs M = [] := eq_nil_of_length_eq_zero hlen.symm
  have hnone : s.hist.signaledAs (s.hist.birth c) = none := by
    rw [(hs.indv c hc.live hc.2).state, if_pos hc.1]
  exact filter_eq_nil_iff.mp hnil _ hmem (by simpa using hnone)

theorem parentSignaled_tickets (row : Row) : (parentSignaled st row).tickets =
    if row.remaining - 1 = 0 then [] else row.tickets := by
  simp only [parentSignaled]
  split <;> rfl

theorem SignaledStep.pending_cases (hs : Linked s) (h : SignaledStep s c st s') (hc : s.Waits c)
    (hst : st.Signaled) (i : ℕ) :
    (i = c ∧ s'.pending i = []) ∨
      (i ∈ (s.table c).parentsList ∧ (s.table i).remaining - 1 = 0 ∧ s'.pending i = []) ∨
      (i ≠ c ∧ s'.pending i = s.pending i ∧
        ((s'.table i).Done → (s.table i).Done ∧ s'.table i = s.table i)) := by
  rcases eq_or_ne i c with rfl | hi
  · refine .inl ⟨rfl, ?_⟩
    rw [pending_live ((h.live_iff hs hc hst i).mpr hc.live), h.noTickets]
  · by_cases hp : i ∈ (s.table c).parentsList
    · have hrow := h.others i hi
      rw [if_pos hp] at hrow
      by_cases hzero : (s.table i).remaining - 1 = 0
      · refine .inr (.inl ⟨hp, hzero, ?_⟩)
        rw [SyncDev.pending, hrow, parentSignaled_tickets, if_pos hzero, ite_self]
      · refine .inr (.inr ⟨hi, ?_, fun hdone => ?_⟩)
        · apply pending_congr (h.live_iff hs hc hst i)
          rw [hrow, parentSignaled_tickets, if_neg hzero]
        · rw [hrow, Row.Done, parentSignaled_remaining] at hdone
          exact absurd hdone.2 hzero
    · have hrow := h.others i hi
      rw [if_neg hp] at hrow
      refine .inr (.inr ⟨hi, ?_, fun hdone => ⟨hrow ▸ hdone, hrow⟩⟩)
      exact pending_congr (h.live_iff hs hc hst i) (by rw [hrow])

/-- The registrations that a signal delivers. -/
def flushed (s : SyncDev) (c : ℕ) : List ℕ :=
  (s.table c).tickets ++ (s.table c).parentsList.flatMap fun p =>
    if (s.table p).remaining - 1 = 0 then (s.table p).tickets else []

theorem SignaledStep.deliveredTickets (h : SignaledStep s c st s') :
    s'.hist.deliveredTickets = s.hist.deliveredTickets ++ flushed s c := by
  rw [History.deliveredTickets, h.delivered, map_append, map_append, append_assoc, flushed]
  congr 2
  · rw [map_map]
    exact map_id _
  · rw [map_flatMap]
    apply flatMap_congr
    intro p _
    rw [parentDeliveries]
    split
    · rw [map_map]
      exact map_id _
    · rfl

theorem mem_flushed (hs : Linked s) (hc : s.Waits c) {t : ℕ} (ht : t ∈ flushed s c) :
    ∃ i, t ∈ s.pending i ∧
      (i = c ∨ (i ∈ (s.table c).parentsList ∧ (s.table i).remaining - 1 = 0)) := by
  rcases mem_append.mp ht with ht | ht
  · exact ⟨c, by rw [pending_live hc.live]; exact ht, .inl rfl⟩
  · obtain ⟨p, hp, ht⟩ := mem_flatMap.mp ht
    split at ht
    · rename_i hzero
      refine ⟨p, ?_, .inr ⟨hp, hzero⟩⟩
      rw [pending_live ((hs.parent c p).mp hp).2.1.1]
      exact ht
    · cases ht

theorem Notified.flushed_nodup (hn : Notified s) (hs : Linked s) (hc : s.Waits c) :
    (flushed s c).Nodup := by
  have hlive : ∀ p ∈ (s.table c).parentsList, s.Live p := fun p hp => ((hs.parent c p).mp hp).2.1.1
  have hsub : ∀ p ∈ (s.table c).parentsList, ∀ t,
      t ∈ (if (s.table p).remaining - 1 = 0 then (s.table p).tickets else []) →
        t ∈ s.pending p := by
    intro p hp t ht
    rw [pending_live (hlive p hp)]
    split at ht
    · exact ht
    · cases ht
  rw [flushed]
  apply List.Nodup.append
  · rw [← pending_live hc.live]
    exact hn.pendingNodup c
  · rw [nodup_flatMap]
    refine ⟨fun p hp => ?_, ?_⟩
    · split
      · rw [← pending_live (hlive p hp)]
        exact hn.pendingNodup p
      · exact nodup_nil
    · apply (hs.nodup c).pairwise_of_forall_ne
      intro p hp q hq hne t ht ht'
      exact hne (hn.pending_inj hs (hsub p hp t ht) (hsub q hq t ht'))
  · intro t ht ht'
    obtain ⟨p, hp, ht'⟩ := mem_flatMap.mp ht'
    have hcp := hn.pending_inj hs (by rw [pending_live hc.live]; exact ht) (hsub p hp t ht')
    exact hs.self_notMem hc (hcp ▸ hp)

theorem SignaledStep.mem_delivered (hs : Linked s) (h : SignaledStep s c st s') (hc : s.Waits c)
    (hst : st.Signaled) {d : Delivery} (hd : d ∈ s'.hist.delivered) :
    d ∈ s.hist.delivered ∨ ∃ i, d.ticket ∈ s.pending i ∧ s'.Live i ∧ (s'.table i).Done ∧
      (s'.table i).state = d.status := by
  rw [h.delivered, mem_append, mem_append] at hd
  rcases hd with (hd | hd) | hd
  · exact .inl hd
  · obtain ⟨t, ht, rfl⟩ := mem_map.mp hd
    refine .inr ⟨c, by rw [pending_live hc.live]; exact ht,
      (h.live_iff hs hc hst c).mpr hc.live, ⟨?_, ?_⟩, h.state⟩
    · rw [h.state]
      exact hst
    · rw [h.remaining]
      exact (hs.indv c hc.live hc.2).remaining
  · obtain ⟨p, hp, hd⟩ := mem_flatMap.mp hd
    have hlive := ((hs.parent c p).mp hp).2.1.1
    have hpc : p ≠ c := by
      rintro rfl
      exact hs.self_notMem hc hp
    have hrow := h.others p hpc
    rw [if_pos hp] at hrow
    rw [parentDeliveries] at hd
    split at hd
    · rename_i hzero
      obtain ⟨t, ht, rfl⟩ := mem_map.mp hd
      refine .inr ⟨p, by rw [pending_live hlive]; exact ht, (h.live_iff hs hc hst p).mpr hlive,
        ⟨?_, ?_⟩, ?_⟩
      · rw [hrow, parentSignaled_state, parentState]
        split
        · rename_i hfailed
          exact .inr hfailed
        · exact hst
      · rw [hrow, parentSignaled_remaining]
        exact hzero
      · rw [hrow, parentSignaled_state]
    · cases hd

/-- **A signal** delivers what waits on the object, and on the groups it completes. -/
theorem Notified.signaledStep (hn : Notified s) (hs : Linked s) (h : SignaledStep s c st s')
    (hc : s.Waits c) (hst : st.Signaled) : Notified s' := by
  have hs' := hs.signaledStep h hc hst
  have hdel := h.deliveredTickets
  have hcases := h.pending_cases hs hc hst
  have hsub : ∀ i t, t ∈ s'.pending i → t ∈ s.pending i ∧ t ∉ flushed s c := by
    intro i t ht
    rcases hcases i with ⟨-, hnil⟩ | ⟨-, -, hnil⟩ | ⟨hic, heq, -⟩
    · rw [hnil] at ht
      cases ht
    · rw [hnil] at ht
      cases ht
    · have hpend : t ∈ s.pending i := heq ▸ ht
      refine ⟨hpend, fun hf => ?_⟩
      obtain ⟨j, hj, hjc | ⟨hjp, hzero⟩⟩ := mem_flushed hs hc hf
      · exact hic ((hn.pending_inj hs hpend hj).trans hjc)
      · rw [← hn.pending_inj hs hpend hj] at hjp hzero
        have hrow := h.others i hic
        rw [if_pos hjp] at hrow
        have hnil : s'.pending i = [] := by
          rw [SyncDev.pending, hrow, parentSignaled_tickets, if_pos hzero, ite_self]
        rw [hnil] at ht
        cases ht
  have hflushed : ∀ t ∈ flushed s c, ∃ i, t ∈ s.pending i := fun t ht =>
    (mem_flushed hs hc ht).imp fun _ hi => hi.1
  have hnone : s.hist.signaledAs (s.hist.birth c) = none := by
    rw [(hs.indv c hc.live hc.2).state, if_pos hc.1]
  have hmono : ∀ b stb, HasFinalState s.hist b stb → HasFinalState s'.hist b stb := by
    intro b stb hf
    refine hf.mono (by rw [h.members]) fun m hm => ?_
    rw [h.signaledAs, Function.update_of_ne]
    rintro rfl
    exact hm hnone
  refine { owner := ?_, pending := ?_, pendingNodup := ?_, notDone := ?_, somewhere := ?_,
           once := ?_, apart := ?_, withdrawnLt := ?_, deliveredLt := ?_, final := ?_, row := ?_ }
  · rw [h.tickets, h.owner, h.objects]
    exact hn.owner
  · intro i t ht
    obtain ⟨hpend, hnot⟩ := hsub i t ht
    obtain ⟨hlt, howner, hd, hw⟩ := hn.pending i t hpend
    rw [h.tickets, h.owner, h.birth, hdel, h.withdrawn]
    refine ⟨hlt, howner, fun hmem => ?_, hw⟩
    rcases mem_append.mp hmem with hmem | hmem
    · exact hd hmem
    · exact hnot hmem
  · intro i
    rcases hcases i with ⟨-, hnil⟩ | ⟨-, -, hnil⟩ | ⟨-, heq, -⟩
    · rw [hnil]
      exact nodup_nil
    · rw [hnil]
      exact nodup_nil
    · rw [heq]
      exact hn.pendingNodup i
  · intro i hne hdone
    rcases hcases i with ⟨-, hnil⟩ | ⟨-, -, hnil⟩ | ⟨-, heq, hold⟩
    · exact hne hnil
    · exact hne hnil
    · rw [heq] at hne
      exact hn.notDone i hne (hold hdone).1
  · intro t ht
    rw [h.tickets] at ht
    rw [hdel, h.withdrawn, mem_append]
    rcases hn.somewhere t ht with hd | hw | ⟨i, hi⟩
    · exact .inl (.inl hd)
    · exact .inr (.inl hw)
    · rcases hcases i with ⟨rfl, -⟩ | ⟨hp, hzero, -⟩ | ⟨-, heq, -⟩
      · rw [pending_live hc.live] at hi
        exact .inl (.inr (mem_append_left _ hi))
      · rw [pending_live ((hs.parent c i).mp hp).2.1.1] at hi
        refine .inl (.inr (mem_append_right _ (mem_flatMap.mpr ⟨i, hp, ?_⟩)))
        rw [if_pos hzero]
        exact hi
      · exact .inr (.inr ⟨i, by rw [heq]; exact hi⟩)
  · rw [hdel]
    apply hn.once.append (hn.flushed_nodup hs hc)
    intro t ht ht'
    obtain ⟨i, hi⟩ := hflushed t ht'
    exact (hn.pending i t hi).2.2.1 ht
  · intro t hw
    rw [h.withdrawn] at hw
    rw [hdel, mem_append]
    rintro (hd | hf)
    · exact hn.apart t hw hd
    · obtain ⟨i, hi⟩ := hflushed t hf
      exact (hn.pending i t hi).2.2.2 hw
  · rw [h.withdrawn, h.tickets]
    exact hn.withdrawnLt
  · intro d hd
    rw [h.tickets]
    rcases h.mem_delivered hs hc hst hd with hd | ⟨i, hi, -⟩
    · exact hn.deliveredLt d hd
    · exact (hn.pending i _ hi).1
  · intro d hd
    rw [h.owner]
    rcases h.mem_delivered hs hc hst hd with hd | ⟨i, hi, hlive, hdone, hstate⟩
    · exact hmono _ _ (hn.final d hd)
    · rw [(hn.pending i _ hi).2.1, ← hstate, ← h.birth]
      exact hs'.hasFinalState hlive hdone
  · intro d hd i hi hbirth
    rw [h.owner, h.birth] at hbirth
    have hlive := (h.live_iff hs hc hst i).mp hi
    rcases h.mem_delivered hs hc hst hd with hd | ⟨j, hj, hlivej, hdone, hstate⟩
    · -- a row that is done is neither the signalled one nor one of its parents
      have hdone := hs.done_of_complete hlive (hbirth ▸ (hn.final d hd).complete)
      have hic : i ≠ c := by
        rintro rfl
        exact hdone.1.ne_active hc.1
      have hrow := h.others i hic
      rw [if_neg fun hp => hs.remaining_ne_zero hp hdone.2] at hrow
      rw [hrow]
      exact hn.row d hd i hlive hbirth
    · have hij : i = j := hs.inj i j hlive ((h.live_iff hs hc hst j).mp hlivej)
        (hbirth.trans (hn.pending j _ hj).2.1)
      rw [hij]
      exact hstate

end Signaled

end Sm8750Modules.CamSync
