import Sm8750Modules.CamSync.Links

/-!
# Camera sync — rows given back and taken into use

The two other ways in which the links change: an object is destroyed, or a row gets a new object.
-/

namespace Sm8750Modules.CamSync

open Function List

/-- What happens to the links when the object in row `d` is destroyed. -/
structure DestroyedStep (s : SyncDev) (d : ℕ) (s' : SyncDev) : Prop where
  bitmap : s'.bitmap = Function.update s.bitmap d false
  locked : s'.locked = s.locked
  objects : s'.hist.objects = s.hist.objects
  birth : s'.hist.birth = s.hist.birth
  members : s'.hist.members = s.hist.members
  signaledAs : s'.hist.signaledAs = s.hist.signaledAs
  row : s'.table d = {}
  others : ∀ i, i ≠ d → ∃ children,
    s'.table i = { withoutParent d (s.table i) with childrenList := children } ∧
      ∀ c, c ≠ d → (c ∈ children ↔ c ∈ (s.table i).childrenList)
  tickets : s'.hist.tickets = s.hist.tickets
  owner : s'.hist.owner = s.hist.owner
  withdrawn : s'.hist.withdrawn = s.hist.withdrawn ++ (s.table d).tickets
  delivered : s'.hist.delivered = s.hist.delivered

namespace DestroyedStep

variable {s s' : SyncDev} {d : ℕ}

section

variable (h : DestroyedStep s d s')
include h

theorem live_iff (i : ℕ) : s'.Live i ↔ s.Live i ∧ i ≠ d := by
  rcases eq_or_ne i d with rfl | hi
  · rw [SyncDev.Live, h.row]
    exact ⟨fun hlive => absurd rfl hlive, fun hlive => absurd rfl hlive.2⟩
  · obtain ⟨children, hrow, -⟩ := h.others i hi
    rw [SyncDev.Live, hrow]
    exact ⟨fun hlive => ⟨hlive, hi⟩, fun hlive => hlive.1⟩

theorem isGroup_iff (g : ℕ) : s'.IsGroup g ↔ s.IsGroup g ∧ g ≠ d := by
  rw [SyncDev.IsGroup, h.live_iff]
  constructor
  · rintro ⟨⟨hlive, hg⟩, htype⟩
    obtain ⟨children, hrow, -⟩ := h.others g hg
    rw [hrow] at htype
    exact ⟨⟨hlive, htype⟩, hg⟩
  · rintro ⟨⟨hlive, htype⟩, hg⟩
    obtain ⟨children, hrow, -⟩ := h.others g hg
    exact ⟨⟨hlive, hg⟩, by rw [hrow]; exact htype⟩

theorem waits_iff (c : ℕ) : s'.Waits c ↔ s.Waits c ∧ c ≠ d := by
  rcases eq_or_ne c d with rfl | hc
  · rw [SyncDev.Waits, h.row]
    exact ⟨fun hw => absurd hw.1 (by decide), fun hw => absurd rfl hw.2⟩
  · obtain ⟨children, hrow, -⟩ := h.others c hc
    rw [SyncDev.Waits, hrow]
    exact ⟨fun hw => ⟨hw, hc⟩, fun hw => hw.1⟩

theorem member_iff (c g : ℕ) : s'.Member c g ↔ s.Member c g := by
  rw [SyncDev.Member, SyncDev.Member, h.members, h.birth]

theorem mem_parentsList {c : ℕ} (hc : c ≠ d) (g : ℕ) :
    g ∈ (s'.table c).parentsList ↔ g ∈ (s.table c).parentsList ∧ g ≠ d := by
  obtain ⟨children, hrow, -⟩ := h.others c hc
  rw [hrow]
  show g ∈ (s.table c).parentsList.filter (· ≠ d) ↔ _
  simp [mem_filter]

end

end DestroyedStep

theorem Linked.destroyedStep {s s' : SyncDev} {d : ℕ} (hs : Linked s) (h : DestroyedStep s d s')
    (hd : s.Live d) : Linked s' where
  zero := by
    rw [h.bitmap, update_of_ne (hs.live d hd).pos.ne]
    exact hs.zero
  live := by
    intro i hi
    obtain ⟨hlive, hne⟩ := (h.live_iff i).mp hi
    have hok := hs.live i hlive
    exact ⟨hok.pos, hok.lt, by rw [h.bitmap, update_of_ne hne]; exact hok.bit,
      h.locked ▸ hok.lock, by rw [h.birth, h.objects]; exact hok.birth⟩
  inj := by
    intro i j hi hj heq
    rw [h.birth] at heq
    exact hs.inj i j ((h.live_iff i).mp hi).1 ((h.live_iff j).mp hj).1 heq
  indv := by
    intro i hi htype
    obtain ⟨hlive, hne⟩ := (h.live_iff i).mp hi
    obtain ⟨children, hrow, -⟩ := h.others i hne
    rw [hrow] at htype
    have hok := hs.indv i hlive htype
    rw [h.birth, hrow]
    exact ⟨h.members ▸ hok.members, hok.remaining, h.signaledAs ▸ hok.state⟩
  group := by
    intro g hg
    obtain ⟨hgroup, hne⟩ := (h.isGroup_iff g).mp hg
    obtain ⟨children, hrow, -⟩ := h.others g hne
    obtain ⟨M, hM, hok⟩ := hs.group g hgroup
    rw [h.members, h.birth, h.signaledAs, hrow]
    exact ⟨M, hM, hok.nodup, hok.remaining, hok.state⟩
  nodup := by
    intro c
    rcases eq_or_ne c d with rfl | hc
    · rw [h.row]
      exact nodup_nil
    · obtain ⟨children, hrow, -⟩ := h.others c hc
      rw [hrow]
      exact withoutParent_nodup (hs.nodup c)
  parent := by
    intro c g
    rw [h.waits_iff, h.isGroup_iff, h.member_iff]
    rcases eq_or_ne c d with rfl | hc
    · rw [h.row]
      exact ⟨fun hg => absurd hg not_mem_nil, fun hw => absurd rfl hw.1.2⟩
    · rw [h.mem_parentsList hc, hs.parent c g]
      exact ⟨fun ⟨⟨hw, hg, hm⟩, hne⟩ => ⟨⟨hw, hc⟩, ⟨hg, hne⟩, hm⟩,
        fun ⟨⟨hw, _⟩, ⟨hg, hne⟩, hm⟩ => ⟨⟨hw, hg, hm⟩, hne⟩⟩
  child := by
    intro c g hg
    rcases eq_or_ne c d with rfl | hc
    · rw [h.row] at hg
      exact absurd hg not_mem_nil
    · obtain ⟨hparent, hne⟩ := (h.mem_parentsList hc g).mp hg
      obtain ⟨children, hrow, hmem⟩ := h.others g hne
      rw [hrow]
      exact (hmem c hc).mpr (hs.child c g hparent)
  signaled := by
    intro b st hb
    rw [h.signaledAs] at hb
    rw [h.objects]
    exact hs.signaled b st hb
  memberLt := by
    intro b M hM
    rw [h.members] at hM
    rw [h.objects]
    exact hs.memberLt b M hM

/-! ### Taking a row into use -/

/-- What happens to the links when the row `idx` is given to a new object. -/
structure NewRowStep (s : SyncDev) (idx : ℕ) (ms : Option (List ℕ)) (l : List ℕ)
    (s' : SyncDev) : Prop where
  bitmap : ∀ i, i ≠ idx → s'.bitmap i = s.bitmap i
  locked : ∀ i, i ≠ idx → s'.locked i = s.locked i
  objects : s'.hist.objects = s.hist.objects + 1
  birth : s'.hist.birth = Function.update s.hist.birth idx s.hist.objects
  members : s'.hist.members = Function.update s.hist.members s.hist.objects ms
  signaledAs : s'.hist.signaledAs = s.hist.signaledAs
  others : ∀ i, i ≠ idx → s'.table i = linkedRows s.table idx l i
  parentsList : (s'.table idx).parentsList = []
  live : s'.Live idx → s'.bitmap idx = true ∧ s'.locked idx = false
  unused : ¬s'.Live idx → l = []
  indv : s'.Live idx → (s'.table idx).type = .indv →
    ms = none ∧ (s'.table idx).remaining = 0 ∧ (s'.table idx).state = .active ∧ l = []
  group : s'.IsGroup idx → ms = some (l.map s.hist.birth) ∧
    GroupOk s.hist.signaledAs (l.map s.hist.birth) (s'.table idx)
  child : ∀ c ∈ l, (s.table c).state = .active → c ∈ (s'.table idx).childrenList
  childIndv : ∀ c ∈ l, s.Live c ∧ (s.table c).type = .indv
  memberLt : ∀ M, ms = some M → ∀ m ∈ M, m < s.hist.objects
  noTickets : s'.Live idx → (s'.table idx).tickets = []
  tickets : s'.hist.tickets = s.hist.tickets
  owner : s'.hist.owner = s.hist.owner
  withdrawn : s'.hist.withdrawn = s.hist.withdrawn
  delivered : s'.hist.delivered = s.hist.delivered

namespace NewRowStep

variable {s s' : SyncDev} {idx : ℕ} {ms : Option (List ℕ)} {l : List ℕ}

section

variable (h : NewRowStep s idx ms l s')
include h

theorem type_eq {i : ℕ} (hi : i ≠ idx) : (s'.table i).type = (s.table i).type := by
  rw [h.others i hi, linkedRows]
  split <;> rfl

theorem state_eq {i : ℕ} (hi : i ≠ idx) : (s'.table i).state = (s.table i).state := by
  rw [h.others i hi, linkedRows]
  split <;> rfl

theorem remaining_eq {i : ℕ} (hi : i ≠ idx) : (s'.table i).remaining = (s.table i).remaining := by
  rw [h.others i hi, linkedRows]
  split <;> rfl

theorem childrenList_eq {i : ℕ} (hi : i ≠ idx) :
    (s'.table i).childrenList = (s.table i).childrenList := by
  rw [h.others i hi, linkedRows]
  split <;> rfl

theorem live_iff {i : ℕ} (hi : i ≠ idx) : s'.Live i ↔ s.Live i := by
  rw [SyncDev.Live, SyncDev.Live, h.state_eq hi]

theorem waits_iff {i : ℕ} (hi : i ≠ idx) : s'.Waits i ↔ s.Waits i := by
  rw [SyncDev.Waits, SyncDev.Waits, h.state_eq hi, h.type_eq hi]

theorem isGroup_iff {g : ℕ} (hg : g ≠ idx) : s'.IsGroup g ↔ s.IsGroup g := by
  rw [SyncDev.IsGroup, SyncDev.IsGroup, h.live_iff hg, h.type_eq hg]

theorem birth_same : s'.hist.birth idx = s.hist.objects := by
  rw [h.birth, update_self]

theorem birth_eq {i : ℕ} (hi : i ≠ idx) : s'.hist.birth i = s.hist.birth i := by
  rw [h.birth, update_of_ne hi]

theorem members_eq {b : ℕ} (hb : b < s.hist.objects) : s'.hist.members b = s.hist.members b := by
  rw [h.members, update_of_ne hb.ne]

theorem members_same : s'.hist.members s.hist.objects = ms := by
  rw [h.members, update_self]

end

theorem not_member (hs : Linked s) (h : NewRowStep s idx ms l s') {g : ℕ} (hg : s'.IsGroup g) :
    ¬s'.Member idx g := by
  rintro ⟨M, hM, hmem⟩
  rw [h.birth_same] at hmem
  rcases eq_or_ne g idx with rfl | hne
  · rw [h.birth_same, h.members_same] at hM
    exact absurd (h.memberLt M hM _ hmem) (Nat.lt_irrefl _)
  · have hlive := (h.isGroup_iff hne).mp hg
    rw [h.birth_eq hne, h.members_eq (hs.live g hlive.1).birth] at hM
    exact absurd ((hs.memberLt _ M hM).2 _ hmem) (Nat.lt_irrefl _)

theorem member_iff (hs : Linked s) (h : NewRowStep s idx ms l s') {c g : ℕ} (hc : c ≠ idx)
    (hg : g ≠ idx) (hlive : s.IsGroup g) : s'.Member c g ↔ s.Member c g := by
  rw [SyncDev.Member, SyncDev.Member, h.birth_eq hc, h.birth_eq hg,
    h.members_eq (hs.live g hlive.1).birth]

theorem mem_parentsList (h : NewRowStep s idx ms l s') {c : ℕ} (hc : c ≠ idx) (g : ℕ) :
    g ∈ (s'.table c).parentsList ↔
      g ∈ (s.table c).parentsList ∨ (g = idx ∧ c ∈ l ∧ (s.table c).state = .active) := by
  rw [h.others c hc, linkedRows]
  split
  · rename_i hlink
    rw [withParent]
    simp only [mem_append, mem_singleton, hlink, and_true]
  · rename_i hlink
    simp only [hlink, and_false, or_false]

theorem member_new (hs : Linked s) (h : NewRowStep s idx ms l s') (hg : s'.IsGroup idx) {c : ℕ}
    (hc : c ≠ idx) (hlive : s.Live c) : s'.Member c idx ↔ c ∈ l := by
  rw [SyncDev.Member, h.birth_eq hc, h.birth_same, h.members_same, (h.group hg).1]
  constructor
  · rintro ⟨M, hM, hmem⟩
    cases hM
    obtain ⟨c', hc', heq⟩ := mem_map.mp hmem
    rw [← hs.inj c' c (h.childIndv c' hc').1 hlive heq]
    exact hc'
  · intro hmem
    exact ⟨_, rfl, mem_map.mpr ⟨c, hmem, rfl⟩⟩

end NewRowStep

theorem Linked.newRowStep {s s' : SyncDev} {idx : ℕ} {ms : Option (List ℕ)} {l : List ℕ}
    (hs : Linked s) (h : NewRowStep s idx ms l s') (hidx : s.bitmap idx = false)
    (hlt : idx < camSyncMaxObjs) : Linked s' := by
  have hdead : ¬s.Live idx := by
    intro hlive
    have hbit := (hs.live idx hlive).bit
    rw [hidx] at hbit
    cases hbit
  have hpos : 0 < idx := by
    apply Nat.pos_of_ne_zero
    rintro rfl
    rw [hs.zero] at hidx
    cases hidx
  have hold : ∀ c, idx ∉ (s.table c).parentsList := fun c hmem =>
    hdead ((hs.parent c idx).mp hmem).2.1.1
  have hbirth : ∀ i, i ≠ idx → s.Live i → s'.hist.birth i ≠ s'.hist.birth idx := by
    intro i hi hlive
    rw [h.birth_eq hi, h.birth_same]
    exact (hs.live i hlive).birth.ne
  refine { zero := ?_, live := ?_, inj := ?_, indv := ?_, group := ?_, nodup := ?_, parent := ?_,
           child := ?_, signaled := ?_, memberLt := ?_ }
  · rw [h.bitmap 0 hpos.ne]
    exact hs.zero
  · intro i hi
    rcases eq_or_ne i idx with rfl | hne
    · exact ⟨hpos, hlt, (h.live hi).1, (h.live hi).2, by rw [h.birth_same, h.objects]; omega⟩
    · have hok := hs.live i ((h.live_iff hne).mp hi)
      exact ⟨hok.pos, hok.lt, (h.bitmap i hne).trans hok.bit, (h.locked i hne).trans hok.lock,
        by rw [h.birth_eq hne, h.objects]; exact Nat.lt_succ_of_lt hok.birth⟩
  · intro i j hi hj heq
    rcases eq_or_ne i idx with rfl | hi'
    · rcases eq_or_ne j i with rfl | hj'
      · rfl
      · exact absurd heq.symm (hbirth j hj' ((h.live_iff hj').mp hj))
    · rcases eq_or_ne j idx with rfl | hj'
      · exact absurd heq (hbirth i hi' ((h.live_iff hi').mp hi))
      · rw [h.birth_eq hi', h.birth_eq hj'] at heq
        exact hs.inj i j ((h.live_iff hi').mp hi) ((h.live_iff hj').mp hj) heq
  · intro i hi htype
    rcases eq_or_ne i idx with rfl | hne
    · obtain ⟨hmem, hrem, hstate, -⟩ := h.indv hi htype
      refine ⟨by rw [h.birth_same, h.members_same, hmem], hrem, ?_⟩
      rw [hstate, if_pos rfl, h.birth_same, h.signaledAs]
      cases hsig : s.hist.signaledAs s.hist.objects with
      | none => rfl
      | some st => exact absurd (hs.signaled _ st hsig).2 (Nat.lt_irrefl _)
    · have hlive := (h.live_iff hne).mp hi
      rw [h.type_eq hne] at htype
      have hok := hs.indv i hlive htype
      refine ⟨?_, by rw [h.remaining_eq hne]; exact hok.remaining, ?_⟩
      · rw [h.birth_eq hne, h.members_eq (hs.live i hlive).birth]
        exact hok.members
      · rw [h.birth_eq hne, h.signaledAs, h.state_eq hne]
        exact hok.state
  · intro g hg
    rcases eq_or_ne g idx with rfl | hne
    · obtain ⟨hmem, hok⟩ := h.group hg
      exact ⟨_, by rw [h.birth_same, h.members_same, hmem], h.signaledAs ▸ hok⟩
    · have hgroup := (h.isGroup_iff hne).mp hg
      obtain ⟨M, hM, hok⟩ := hs.group g hgroup
      refine ⟨M, ?_, hok.nodup, ?_, ?_⟩
      · rw [h.birth_eq hne, h.members_eq (hs.live g hgroup.1).birth]
        exact hM
      · rw [h.remaining_eq hne, h.signaledAs]
        exact hok.remaining
      · rw [h.state_eq hne, h.signaledAs]
        exact hok.state
  · intro c
    rcases eq_or_ne c idx with rfl | hc
    · rw [h.parentsList]
      exact nodup_nil
    · rw [h.others c hc, linkedRows]
      split
      · rw [withParent]
        apply (hs.nodup c).append (nodup_singleton _)
        intro p hp hp'
        rw [mem_singleton] at hp'
        exact hold c (hp' ▸ hp)
      · exact hs.nodup c
  · intro c g
    rcases eq_or_ne c idx with rfl | hc
    · rw [h.parentsList]
      exact ⟨fun hg => absurd hg not_mem_nil, fun hw => absurd hw.2.2 (h.not_member hs hw.2.1)⟩
    · rw [h.mem_parentsList hc, h.waits_iff hc]
      rcases eq_or_ne g idx with rfl | hg
      · constructor
        · rintro (hmem | ⟨-, hl, hactive⟩)
          · exact absurd hmem (hold c)
          · obtain ⟨hlive, htype⟩ := h.childIndv c hl
            have hnew : s'.Live g := by
              by_contra hunused
              rw [h.unused hunused] at hl
              cases hl
            have hgroup : s'.IsGroup g := by
              refine ⟨hnew, ?_⟩
              cases htype' : (s'.table g).type with
              | group => rfl
              | indv =>
                rw [(h.indv hnew htype').2.2.2] at hl
                cases hl
            exact ⟨⟨hactive, htype⟩, hgroup, (h.member_new hs hgroup hc hlive).mpr hl⟩
        · rintro ⟨hw, hgroup, hmem⟩
          exact .inr ⟨rfl, (h.member_new hs hgroup hc hw.live).mp hmem, hw.1⟩
      · simp only [hg, false_and, or_false]
        rw [hs.parent c g, h.isGroup_iff hg]
        refine and_congr_right fun _ => and_congr_right fun hgr => ?_
        exact (h.member_iff hs hc hg hgr).symm
  · intro c g hg
    rcases eq_or_ne c idx with rfl | hc
    · rw [h.parentsList] at hg
      exact absurd hg not_mem_nil
    · rcases (h.mem_parentsList hc g).mp hg with hmem | ⟨rfl, hl, hactive⟩
      · have hne : g ≠ idx := fun heq => hold c (heq ▸ hmem)
        rw [h.childrenList_eq hne]
        exact hs.child c g hmem
      · exact h.child c hl hactive
  · intro b st hb
    rw [h.signaledAs] at hb
    rw [h.objects]
    obtain ⟨hst, hlt⟩ := hs.signaled b st hb
    exact ⟨hst, Nat.lt_succ_of_lt hlt⟩
  · intro b M hM
    rw [h.members] at hM
    rw [h.objects]
    rcases eq_or_ne b s.hist.objects with rfl | hne
    · rw [update_self] at hM
      exact ⟨Nat.lt_succ_self _, fun m hm => Nat.lt_succ_of_lt (h.memberLt M hM m hm)⟩
    · rw [update_of_ne hne] at hM
      obtain ⟨hlt, hall⟩ := hs.memberLt b M hM
      exact ⟨Nat.lt_succ_of_lt hlt, fun m hm => Nat.lt_succ_of_lt (hall m hm)⟩

end Sm8750Modules.CamSync
