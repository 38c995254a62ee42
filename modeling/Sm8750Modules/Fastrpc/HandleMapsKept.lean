import Sm8750Modules.Fastrpc.HandleMaps

/-!
# Remote calls to the DSP — maps are kept and released

A flag on a map stands for a reference of the DSP. With it, the references on a map are those of the calls in
progress and that of the DSP, and the sections under the mutex are the operations on counted references.
-/

namespace Fastrpc.HandleMaps

open Runs RefCounts Function List

variable {bufOf : ℤ → Option ℕ} {s s' : State} {c m : ℕ}

def State.flagged (s : State) : Multiset ℕ := (s.store.live.filter fun m => (s.map m).legacy : List ℕ)

def State.owed (s : State) : Multiset ℕ := s.held + s.flagged

/-- The maps are balanced, one for each descriptor; those that the DSP has pages of have the flag, and a flag
lasts until its descriptor is returned. -/
structure Inv (bufOf : ℤ → Option ℕ) (s : State) : Prop where
  balanced : s.store.Balanced s.owed
  fds : ∀ m ∈ s.store.live, ∀ m' ∈ s.store.live, (s.map m).fd = (s.map m').fd → m = m'
  bufs : ∀ m ∈ s.store.live, bufOf (s.map m).fd = some (s.map m).buf
  fresh : ∀ m, m ∈ s.store.live ∨ m ∈ s.store.freed ↔ m < s.next
  pending : ∀ m ∈ s.pending, m ∈ s.store.live ∧ (s.map m).legacy = true
  flag : ∀ m ∈ s.store.live, (s.map m).legacy = true → s.awaiting m = true ∨ s.Returning (s.map m).fd

section References

variable {x : Ctx}

theorem setCtx_ctx (s : State) (c : ℕ) (x : Ctx) : (s.setCtx c x).ctx = update s.ctx c x := rfl

theorem held_setCtx (hc : c < s.calls) (x : Ctx) : (s.setCtx c x).held + (s.ctx c).held = s.held + x.held := by
  have hmem : c ∈ Finset.range s.calls := Finset.mem_range.mpr hc
  have hnew : (s.setCtx c x).held = x.held + ∑ d ∈ Finset.range s.calls \ {c}, (s.ctx d).held := by
    rw [State.held, ← Finset.sum_update_of_mem hmem]
    refine Finset.sum_congr rfl fun d _ => ?_
    rw [setCtx_ctx]
    by_cases hd : d = c
    · rw [hd, update_self, update_self]
    · rw [update_of_ne hd, update_of_ne hd]
  have hold : s.held = (s.ctx c).held + ∑ d ∈ Finset.range s.calls \ {c}, (s.ctx d).held := by
    rw [State.held, ← Finset.sum_update_of_mem hmem, update_eq_self c fun d => (s.ctx d).held]
  rw [hnew, hold]
  abel

theorem held_setCtx_same (hc : c < s.calls) (hx : x.held = (s.ctx c).held) : (s.setCtx c x).held = s.held := by
  have h := held_setCtx hc x
  rw [hx] at h
  exact Multiset.add_left_inj.mp h

theorem held_setCtx_cons (hc : c < s.calls) (hx : x.held = m ::ₘ (s.ctx c).held) :
    (s.setCtx c x).held = m ::ₘ s.held := by
  have h := held_setCtx hc x
  rw [hx, Multiset.add_cons, ← Multiset.cons_add] at h
  exact Multiset.add_left_inj.mp h

theorem held_le (hc : c < s.calls) : (s.ctx c).held ≤ s.held :=
  Finset.single_le_sum (f := fun d => (s.ctx d).held) (fun _ _ => Multiset.zero_le _) (Finset.mem_range.mpr hc)

theorem refs_append_of_le {l : List (Option ℕ)} {n : ℕ} (hn : n ≤ l.length) (y : Option ℕ) :
    ((l ++ [y]).take n).filterMap id = (l.take n).filterMap id := by
  rw [take_append_of_le_length hn]

theorem refs_append_of_lt {l : List (Option ℕ)} {n : ℕ} (hn : l.length < n) (y : Option ℕ) :
    ((l ++ [y]).take n).filterMap id = (l.take n).filterMap id ++ y.toList := by
  rw [take_of_length_le (by rw [length_append]; exact hn), take_of_length_le hn.le,
    filterMap_append]
  cases y <;> rfl

end References

theorem flagged_eq (hnodup : s.store.live.Nodup) (hnodup' : s'.store.live.Nodup)
    (h : ∀ m, m ∈ s'.store.live ∧ (s'.map m).legacy = true ↔ m ∈ s.store.live ∧ (s.map m).legacy = true) :
    s'.flagged = s.flagged := by
  refine Multiset.coe_eq_coe.mpr ((perm_ext_iff_of_nodup (hnodup'.filter _) (hnodup.filter _)).mpr ?_)
  intro m
  rw [mem_filter, mem_filter]
  exact h m

theorem mem_flagged : m ∈ s.flagged ↔ m ∈ s.store.live ∧ (s.map m).legacy = true := by
  rw [State.flagged, Multiset.mem_coe, mem_filter]

theorem count_flagged (hnodup : s.store.live.Nodup) (hm : m ∈ s.store.live) :
    s.flagged.count m = if (s.map m).legacy = true then 1 else 0 := by
  rw [State.flagged, Multiset.coe_count]
  split_ifs with hlegacy
  · exact count_eq_one_of_mem (hnodup.filter _) (mem_filter.mpr ⟨hm, hlegacy⟩)
  · exact count_eq_zero_of_not_mem fun hmem => hlegacy (mem_filter.mp hmem).2

theorem Inv.mem_live (h : Inv bufOf s) : m ∈ s.store.live ↔ m ∈ s.owed := h.balanced.mem_live m

theorem Inv.mapLookup_eq_some (h : Inv bufOf s) (fd : ℤ) (takeRef : Bool) :
    mapLookup bufOf s fd takeRef = some m ↔ m ∈ s.store.live ∧ (s.map m).fd = fd := by
  rw [mapLookup]
  have hpos : ∀ m ∈ s.store.live, s.store.refs m ≠ 0 := by
    intro m hm
    have hmem := h.mem_live.mp hm
    rw [h.balanced.refs m hmem]
    exact (Multiset.count_pos.mpr hmem).ne'
  constructor
  · intro hlookup
    split at hlookup
    · cases hlookup
    · split at hlookup
      · cases hlookup
      · rename_i buf hbuf m' hfind
        split_ifs at hlookup
        obtain rfl := Option.some.inj hlookup
        have hmatch := List.find?_some hfind
        exact ⟨List.mem_of_find?_eq_some hfind, (of_decide_eq_true hmatch).2⟩
  · rintro ⟨hm, rfl⟩
    rw [h.bufs m hm]
    cases hfind : s.store.live.find? fun m' =>
        (s.map m').buf = (s.map m).buf ∧ (s.map m').fd = (s.map m).fd with
    | none =>
      have hnot := List.find?_eq_none.mp hfind m hm
      exact absurd (decide_eq_true ⟨rfl, rfl⟩) hnot
    | some m' =>
      have hlive := List.mem_of_find?_eq_some hfind
      have hmatch := List.find?_some hfind
      obtain rfl := h.fds m' hlive m hm (of_decide_eq_true hmatch).2
      simp only [hfind]
      rw [if_neg fun hboth => hpos m' hlive hboth.2]

theorem Inv.mapLookup_eq_none (h : Inv bufOf s) {fd : ℤ} {takeRef : Bool}
    (hlookup : mapLookup bufOf s fd takeRef = none) : ∀ m ∈ s.store.live, (s.map m).fd ≠ fd := by
  intro m hm hfd
  rw [(h.mapLookup_eq_some fd takeRef).mpr ⟨hm, hfd⟩] at hlookup
  cases hlookup

/-! ## The sections -/

section Sections

variable {x : Ctx} {fd : ℤ}

theorem State.Returning.setCtx (h : s.Returning fd)
    (hx : ∀ fdlist, (s.ctx c).phase = .returning fdlist → fd ∈ fdlist →
      ∃ l, x.phase = .returning l ∧ fd ∈ l) : (s.setCtx c x).Returning fd := by
  obtain ⟨d, hd, fdlist, hphase, hmem⟩ := h
  by_cases hdc : d = c
  · rw [hdc] at hphase
    obtain ⟨l, hl, hmem'⟩ := hx fdlist hphase hmem
    refine ⟨d, hd, l, ?_, hmem'⟩
    rw [setCtx_ctx, hdc, update_self]
    exact hl
  · refine ⟨d, hd, fdlist, ?_, hmem⟩
    rw [setCtx_ctx, update_of_ne hdc]
    exact hphase

theorem Inv.setCtx (h : Inv bufOf s) (hc : c < s.calls) (hheld : x.held = (s.ctx c).held)
    (hphase : ∀ fdlist, (s.ctx c).phase = .returning fdlist → x.phase = .returning fdlist) :
    Inv bufOf (s.setCtx c x) := by
  have howed : (s.setCtx c x).owed = s.owed := by
    rw [State.owed, held_setCtx_same hc hheld]
    rfl
  refine ⟨howed ▸ h.balanced, h.fds, h.bufs, h.fresh, h.pending, fun m hm hlegacy => ?_⟩
  refine (h.flag m hm hlegacy).imp_right fun hret => hret.setCtx fun fdlist hold hmem => ?_
  exact ⟨fdlist, hphase fdlist hold, hmem⟩

theorem Ctx.held_of_phase (hphase : x.phase ≠ .freed) : x.held = x.refs := if_neg hphase

theorem Ctx.held_setPhase {phase : Phase} (hx : x.phase ≠ .freed) (hphase : phase ≠ .freed) :
    ({ x with phase := phase } : Ctx).held = x.held := by
  rw [Ctx.held_of_phase hphase, Ctx.held_of_phase hx]
  rfl

theorem Ctx.refs_append (x : Ctx) (y : Option ℕ) :
    ({ x with maps := x.maps ++ [y] } : Ctx).refs =
      if x.maps.length < x.inv.nbufs then x.refs ++ y.toList else x.refs := by
  rw [Ctx.refs, Ctx.refs]
  split_ifs with hlt
  · exact refs_append_of_lt hlt y
  · exact refs_append_of_le (Nat.le_of_not_lt hlt) y

theorem Ctx.held_append (hphase : x.phase = .mapping) (y : Option ℕ) :
    ({ x with maps := x.maps ++ [y] } : Ctx).held =
      if x.maps.length < x.inv.nbufs then x.held + y.toList else x.held := by
  have hne : x.phase ≠ .freed := by
    rw [hphase]
    exact nofun
  rw [Ctx.held_of_phase hne, Ctx.held_of_phase (x := { x with maps := x.maps ++ [y] }) hne, Ctx.refs_append]
  split_ifs
  · exact (Multiset.coe_add _ _).symm
  · rfl

theorem Inv.getMap (h : Inv bufOf s) (hc : c < s.calls) (hm : m ∈ s.store.live)
    (hheld : x.held = m ::ₘ (s.ctx c).held) (hphase : (s.ctx c).phase = .mapping) :
    Inv bufOf ({ s with store := s.store.get m }.setCtx c x) := by
  have howed : ({ s with store := s.store.get m }.setCtx c x).owed = m ::ₘ s.owed := by
    have hsum : ({ s with store := s.store.get m }.setCtx c x).held = m ::ₘ s.held :=
      held_setCtx_cons (s := { s with store := s.store.get m }) hc hheld
    rw [State.owed, hsum, Multiset.cons_add]
    rfl
  refine ⟨howed ▸ h.balanced.get hm, h.fds, h.bufs, h.fresh, h.pending, fun m' hm' hlegacy => ?_⟩
  refine (h.flag m' hm' hlegacy).imp_right fun hret =>
    State.Returning.setCtx (s := { s with store := s.store.get m }) hret fun fdlist hold => ?_
  have hold' : (s.ctx c).phase = .returning fdlist := hold
  rw [hphase] at hold'
  cases hold'

/-- The process with a new map. -/
def State.withMap (s : State) (fd : ℤ) (buf : ℕ) (takeRef : Bool) : State :=
  { s with
    store := s.store.add s.next
    map := Function.update s.map s.next ⟨fd, buf, !takeRef⟩
    next := s.next + 1
    awaiting := Function.update s.awaiting s.next !takeRef }

theorem Inv.next_notMem (h : Inv bufOf s) : s.next ∉ s.store.live ∧ s.next ∉ s.store.freed :=
  not_or.mp fun hmem => Nat.lt_irrefl _ ((h.fresh s.next).mp hmem)

theorem withMap_map_of_mem (h : Inv bufOf s) {buf : ℕ} {takeRef : Bool} (hm : m ∈ s.store.live) :
    (s.withMap fd buf takeRef).map m = s.map m := by
  refine update_of_ne ?_ ..
  rintro rfl
  exact h.next_notMem.1 hm

theorem withMap_map_next {buf : ℕ} {takeRef : Bool} :
    (s.withMap fd buf takeRef).map s.next = ⟨fd, buf, !takeRef⟩ := update_self ..

section

variable (h : Inv bufOf s)
include h

theorem withMap_flagged {buf : ℕ} (takeRef : Bool) :
    (s.withMap fd buf takeRef).flagged = if takeRef = true then s.flagged else s.next ::ₘ s.flagged := by
  have hfilter : s.store.live.filter (fun m => ((s.withMap fd buf takeRef).map m).legacy) =
      s.store.live.filter fun m => (s.map m).legacy := by
    refine filter_congr fun m hm => ?_
    rw [withMap_map_of_mem h hm]
  show ((s.store.live ++ [s.next]).filter (fun m => ((s.withMap fd buf takeRef).map m).legacy) : Multiset ℕ) = _
  rw [filter_append, hfilter]
  cases takeRef with
  | true =>
    have hlast : [s.next].filter (fun m => ((s.withMap fd buf true).map m).legacy) = [] := by
      rw [filter_singleton, withMap_map_next]
      rfl
    rw [hlast, append_nil, if_pos rfl]
    rfl
  | false =>
    have hlast : [s.next].filter (fun m => ((s.withMap fd buf false).map m).legacy) = [s.next] := by
      rw [filter_singleton, withMap_map_next]
      rfl
    rw [hlast, ← Multiset.coe_add, if_neg Bool.false_ne_true, add_comm]
    rfl

theorem Inv.addMap (hc : c < s.calls) {buf : ℕ} (hbuf : bufOf fd = some buf)
    (hnone : ∀ m ∈ s.store.live, (s.map m).fd ≠ fd) {takeRef : Bool}
    (hheld : x.held = if takeRef = true then s.next ::ₘ (s.ctx c).held else (s.ctx c).held)
    (hphase : (s.ctx c).phase = .mapping) :
    Inv bufOf ((s.withMap fd buf takeRef).setCtx c x) := by
  obtain ⟨hlive, hfreed⟩ := h.next_notMem
  have howed : ((s.withMap fd buf takeRef).setCtx c x).owed = s.next ::ₘ s.owed := by
    have hflagged : ((s.withMap fd buf takeRef).setCtx c x).flagged = (s.withMap fd buf takeRef).flagged := rfl
    rw [State.owed, hflagged, withMap_flagged h]
    cases takeRef with
    | true =>
      rw [if_pos rfl] at hheld ⊢
      have hsum : ((s.withMap fd buf true).setCtx c x).held = s.next ::ₘ s.held :=
        held_setCtx_cons (s := s.withMap fd buf true) hc hheld
      rw [hsum, Multiset.cons_add]
      rfl
    | false =>
      rw [if_neg Bool.false_ne_true] at hheld ⊢
      have hsum : ((s.withMap fd buf false).setCtx c x).held = s.held :=
        held_setCtx_same (s := s.withMap fd buf false) hc hheld
      rw [hsum, Multiset.add_cons]
      rfl
  have hmap : ∀ m ∈ s.store.live, ((s.withMap fd buf takeRef).setCtx c x).map m = s.map m := fun m hm =>
    withMap_map_of_mem h hm
  have hnew : ((s.withMap fd buf takeRef).setCtx c x).map s.next = ⟨fd, buf, !takeRef⟩ := withMap_map_next
  have hsplit : ∀ m ∈ s.store.live ++ [s.next], m ∈ s.store.live ∨ m = s.next := fun m hm =>
    (mem_append.mp hm).imp_right mem_singleton.mp
  refine ⟨howed ▸ h.balanced.add hlive hfreed, fun m hm m' hm' hfd => ?_, fun m hm => ?_, fun m => ?_,
    fun m hm => ?_, fun m hm hlegacy => ?_⟩
  · rcases hsplit m hm with hm | rfl
    · rcases hsplit m' hm' with hm' | rfl
      · rw [hmap m hm, hmap m' hm'] at hfd
        exact h.fds m hm m' hm' hfd
      · rw [hmap m hm, hnew] at hfd
        exact absurd hfd (hnone m hm)
    · rcases hsplit m' hm' with hm' | rfl
      · rw [hmap m' hm', hnew] at hfd
        exact absurd hfd.symm (hnone m' hm')
      · rfl
  · rcases hsplit m hm with hm | rfl
    · rw [hmap m hm]
      exact h.bufs m hm
    · rw [hnew]
      exact hbuf
  · show m ∈ s.store.live ++ [s.next] ∨ m ∈ s.store.freed ↔ m < s.next + 1
    have hfresh := h.fresh m
    rw [mem_append, mem_singleton, or_right_comm, hfresh]
    omega
  · obtain ⟨hm', hlegacy⟩ := h.pending m hm
    rw [hmap m hm']
    exact ⟨mem_append_left _ hm', hlegacy⟩
  · rcases hsplit m hm with hm | rfl
    · rw [hmap m hm] at hlegacy ⊢
      have hne : m ≠ s.next := fun heq => hlive (heq ▸ hm)
      refine (h.flag m hm hlegacy).imp (fun hawait => ?_) fun hret =>
        State.Returning.setCtx (s := s.withMap fd buf takeRef) hret fun fdlist hold => ?_
      · show update s.awaiting s.next _ m = true
        rw [update_of_ne hne]
        exact hawait
      · have hold' : (s.ctx c).phase = .returning fdlist := hold
        rw [hphase] at hold'
        cases hold'
    · rw [hnew] at hlegacy
      refine Or.inl ?_
      show update s.awaiting s.next _ s.next = true
      rw [update_self]
      exact hlegacy

theorem Inv.createMap (hc : c < s.calls) (hphase : (s.ctx c).phase = .mapping) (ok : Bool) :
    Inv bufOf (createMap bufOf s c ok) := by
  have hmapping : ∀ {y : Ctx}, y.held = (s.ctx c).held → Inv bufOf (s.setCtx c y) := fun hy =>
    h.setCtx hc hy fun fdlist hold => by
      rw [hphase] at hold
      cases hold
  have hheld := Ctx.held_append hphase
  simp only [HandleMaps.createMap]
  by_cases hskip : ((s.ctx c).inv.arg (s.ctx c).maps.length).Copied ∨
      ((s.ctx c).inv.arg (s.ctx c).maps.length).length = 0
  · rw [if_pos hskip]
    refine hmapping ?_
    rw [hheld]
    split_ifs
    · exact add_zero _
    · rfl
  · rw [if_neg hskip]
    generalize htake : decide ((s.ctx c).maps.length < (s.ctx c).inv.nbufs) = takeRef
    have hheld' : ∀ m, ({ s.ctx c with maps := (s.ctx c).maps ++ [some m] } : Ctx).held =
        if takeRef = true then m ::ₘ (s.ctx c).held else (s.ctx c).held := by
      intro m
      rw [hheld, ← htake]
      simp only [decide_eq_true_eq]
      split_ifs
      · rw [add_comm]
        rfl
      · rfl
    cases hlookup : mapLookup bufOf s ((s.ctx c).inv.arg (s.ctx c).maps.length).fd takeRef with
    | some m =>
      have hlive := ((h.mapLookup_eq_some _ _).mp hlookup).1
      cases takeRef with
      | true => exact h.getMap hc hlive (hheld' m) hphase
      | false => exact hmapping (hheld' m)
    | none =>
      have hfail : Inv bufOf (s.setCtx c { s.ctx c with phase := .failed }) := by
        refine hmapping (Ctx.held_setPhase ?_ nofun)
        rw [hphase]
        exact nofun
      cases hbuf : bufOf ((s.ctx c).inv.arg (s.ctx c).maps.length).fd with
      | none => exact hfail
      | some buf =>
        cases ok with
        | false => exact hfail
        | true => exact h.addMap hc hbuf (h.mapLookup_eq_none hlookup) (hheld' s.next) hphase

theorem Inv.fillHandle (hc : c < s.calls) (hphase : (s.ctx c).phase = .mapping)
    (hcareful : Careful bufOf s (.fillHandle c)) : Inv bufOf (fillHandle bufOf s c) := by
  have hret : ∀ {t : State} {y : Ctx} {fd : ℤ}, t.ctx c = s.ctx c → t.Returning fd →
      (t.setCtx c y).Returning fd := fun hctx hret => hret.setCtx fun fdlist hold => by
    rw [hctx, hphase] at hold
    cases hold
  have hheld : ∀ y, ({ s.ctx c with pages := y } : Ctx).held = (s.ctx c).held := fun _ => rfl
  simp only [HandleMaps.fillHandle]
  split
  · exact h.setCtx hc (hheld _) fun fdlist hold => hold
  · rename_i m hfound
    split_ifs at hfound with hsome
    have hlegacy := hcareful hsome m hfound
    have hlive := ((h.mapLookup_eq_some _ _).mp hfound).1
    have howed : ({ s with pending := m :: s.pending, awaiting := update s.awaiting m true }.setCtx c
        { s.ctx c with pages := (s.ctx c).pages ++ [some m] }).owed = s.owed := by
      have hsum := held_setCtx_same
        (s := { s with pending := m :: s.pending, awaiting := update s.awaiting m true }) hc
        (hheld ((s.ctx c).pages ++ [some m]))
      rw [State.owed, hsum]
      rfl
    refine ⟨howed ▸ h.balanced, h.fds, h.bufs, h.fresh, fun m' hm' => ?_, fun m' hm' hflag => ?_⟩
    · rcases mem_cons.mp hm' with rfl | hm'
      · exact ⟨hlive, hlegacy⟩
      · exact h.pending m' hm'
    · refine (h.flag m' hm' hflag).imp (fun hawait => ?_) fun hr => hret rfl hr
      show update s.awaiting m true m' = true
      by_cases hmm : m' = m
      · rw [hmm, update_self]
      · rw [update_of_ne hmm]
        exact hawait

theorem Inv.respond (hc : c < s.calls) (hphase : (s.ctx c).phase = .sent)
    (fdlist : List ℤ) (copied : Bool) (hcareful : Careful bufOf s (.respond c fdlist copied)) :
    Inv bufOf (respond s c fdlist copied) := by
  have hne : (s.ctx c).phase ≠ .freed := by
    rw [hphase]
    exact nofun
  have hheld : ({ s.ctx c with
      phase := if copied = true then .returning (readFdlist fdlist) else .failed } : Ctx).held =
      (s.ctx c).held := by
    refine Ctx.held_setPhase hne ?_
    split_ifs
    · exact nofun
    · exact nofun
  have howed : (HandleMaps.respond s c fdlist copied).owed = s.owed := by
    have hsum := held_setCtx_same (s := { s with
      awaiting := fun m => s.awaiting m && !(readFdlist fdlist).contains (s.map m).fd }) hc hheld
    rw [State.owed, HandleMaps.respond, hsum]
    rfl
  refine ⟨howed ▸ h.balanced, h.fds, h.bufs, h.fresh, h.pending, fun m hm hlegacy => ?_⟩
  have hkeep : s.Returning (s.map m).fd → (HandleMaps.respond s c fdlist copied).Returning (s.map m).fd :=
    fun hret => State.Returning.setCtx (s := { s with
      awaiting := fun m => s.awaiting m && !(readFdlist fdlist).contains (s.map m).fd }) hret fun l hold => by
        have hold' : (s.ctx c).phase = .returning l := hold
        rw [hphase] at hold'
        cases hold'
  rcases h.flag m hm hlegacy with hawait | hret
  · by_cases hmem : (s.map m).fd ∈ readFdlist fdlist
    · rcases hcareful with hcopied | hnone
      · refine Or.inr ⟨c, hc, readFdlist fdlist, ?_, hmem⟩
        rw [HandleMaps.respond, setCtx_ctx, update_self]
        exact if_pos hcopied
      · have hfalse := hnone _ hmem m ((h.mapLookup_eq_some _ _).mpr ⟨hm, rfl⟩)
        have htrue : (s.map m).legacy = true := hlegacy
        rw [hfalse] at htrue
        cases htrue
    · refine Or.inl ?_
      show (s.awaiting m && !(readFdlist fdlist).contains (s.map m).fd) = true
      rw [hawait, contains_iff_mem.not.mpr hmem |> Bool.eq_false_iff.mpr]
      rfl
  · exact Or.inr (hkeep hret)

theorem Inv.dropFlag (hm : m ∈ s.store.live) (hlegacy : (s.map m).legacy = true)
    (hpending : m ∉ s.pending) :
    Inv bufOf { s with
      map := update s.map m { s.map m with legacy := false }, store := s.store.put m } := by
  have hmem : m ∈ s.flagged := mem_flagged.mpr ⟨hm, hlegacy⟩
  have hput := h.balanced.put (Multiset.mem_add.mpr (Or.inr hmem))
  rw [State.owed, Multiset.erase_add_right_pos _ hmem] at hput
  have hfd : ∀ m', (update s.map m { s.map m with legacy := false } m').fd = (s.map m').fd ∧
      (update s.map m { s.map m with legacy := false } m').buf = (s.map m').buf := by
    intro m'
    by_cases hmm : m' = m
    · rw [hmm, update_self]
      exact ⟨rfl, rfl⟩
    · rw [update_of_ne hmm]
      exact ⟨rfl, rfl⟩
  have hflag : ∀ m', (update s.map m { s.map m with legacy := false } m').legacy = true ↔
      m' ≠ m ∧ (s.map m').legacy = true := by
    intro m'
    by_cases hmm : m' = m
    · rw [hmm, update_self]
      exact ⟨nofun, fun hboth => absurd rfl hboth.1⟩
    · rw [update_of_ne hmm, and_iff_right hmm]
  have hlive : ∀ m' ∈ (s.store.put m).live, m' ∈ s.store.live := s.store.put_live m
  have hstill : ∀ m', m' ≠ m → m' ∈ s.store.live → m' ∈ (s.store.put m).live := by
    intro m' hne hm'
    rw [Store.put]
    split_ifs
    · exact (mem_erase_of_ne hne).mpr hm'
    · exact hm'
  have hflagged : State.flagged { s with
      map := update s.map m { s.map m with legacy := false }, store := s.store.put m } =
      s.flagged.erase m := by
    have hnodup : s.flagged.Nodup := Multiset.coe_nodup.mpr (h.balanced.nodup.filter _)
    refine (Multiset.Nodup.ext (Multiset.coe_nodup.mpr (hput.nodup.filter _)) (hnodup.erase m)).mpr fun m' => ?_
    rw [hnodup.mem_erase_iff, mem_flagged, Multiset.mem_coe, mem_filter]
    constructor
    · rintro ⟨hm', hl⟩
      obtain ⟨hne, hl'⟩ := (hflag m').mp hl
      exact ⟨hne, hlive m' hm', hl'⟩
    · rintro ⟨hne, hm', hl⟩
      exact ⟨hstill m' hne hm', (hflag m').mpr ⟨hne, hl⟩⟩
  have howed : State.owed { s with
      map := update s.map m { s.map m with legacy := false }, store := s.store.put m } =
      s.held + s.flagged.erase m := by
    rw [State.owed, hflagged]
    rfl
  refine ⟨howed ▸ hput, fun a ha b hb hab => ?_, fun a ha => ?_, fun a => ?_, fun a ha => ?_,
    fun a ha hl => ?_⟩
  · have hab' : (s.map a).fd = (s.map b).fd := by
      rw [← (hfd a).1, ← (hfd b).1]
      exact hab
    exact h.fds a (hlive a ha) b (hlive b hb) hab'
  · show bufOf (update s.map m _ a).fd = some (update s.map m _ a).buf
    rw [(hfd a).1, (hfd a).2]
    exact h.bufs a (hlive a ha)
  · show a ∈ (s.store.put m).live ∨ a ∈ (s.store.put m).freed ↔ a < s.next
    rw [← h.fresh a]
    exact h.balanced.mem_put (Multiset.mem_add.mpr (Or.inr hmem)) a
  · obtain ⟨hm', hl⟩ := h.pending a ha
    have hne : a ≠ m := fun ham => hpending (ham ▸ ha)
    exact ⟨hstill a hne hm', (hflag a).mpr ⟨hne, hl⟩⟩
  · obtain ⟨hne, hl'⟩ := (hflag a).mp hl
    have hret := h.flag a (hlive a ha) hl'
    show s.awaiting a = true ∨ State.Returning _ (update s.map m _ a).fd
    rw [(hfd a).1]
    exact hret

theorem Inv.popFd (hc : c < s.calls) {rest : List ℤ}
    (hphase : (s.ctx c).phase = .returning (fd :: rest))
    (hnone : ∀ m ∈ s.store.live, (s.map m).legacy = true → (s.map m).fd ≠ fd) :
    Inv bufOf (s.setCtx c { s.ctx c with phase := .returning rest }) := by
  have hheld : ({ s.ctx c with phase := .returning rest } : Ctx).held = (s.ctx c).held := by
    refine Ctx.held_setPhase ?_ nofun
    rw [hphase]
    exact nofun
  have howed : (s.setCtx c { s.ctx c with phase := .returning rest }).owed = s.owed := by
    rw [State.owed, held_setCtx_same hc hheld]
    rfl
  refine ⟨howed ▸ h.balanced, h.fds, h.bufs, h.fresh, h.pending, fun m hm hlegacy => ?_⟩
  refine (h.flag m hm hlegacy).imp_right fun hret => hret.setCtx fun fdlist hold hmem => ?_
  rw [hphase] at hold
  obtain rfl := Phase.returning.inj hold
  exact ⟨rest, rfl, (mem_cons.mp hmem).resolve_left (hnone m hm hlegacy)⟩

theorem Inv.filterPending (p : ℕ → Bool) : Inv bufOf { s with pending := s.pending.filter p } :=
  ⟨h.balanced, h.fds, h.bufs, h.fresh, fun m hm => h.pending m (mem_of_mem_filter hm), h.flag⟩

theorem Inv.returnFd (hc : c < s.calls) {rest : List ℤ}
    (hphase : (s.ctx c).phase = .returning (fd :: rest)) : Inv bufOf (returnFd bufOf s c fd rest) := by
  have hfilter := h.filterPending fun m => decide ((s.map m).fd ≠ fd)
  simp only [HandleMaps.returnFd]
  split
  · rename_i hfound
    exact hfilter.popFd hc hphase fun m hm _ => h.mapLookup_eq_none hfound m hm
  · rename_i m hfound
    obtain ⟨hm, hfd⟩ := (h.mapLookup_eq_some _ _).mp hfound
    have hother : ∀ a ∈ s.store.live, a ≠ m → (s.map a).fd ≠ fd := fun a ha hne hafd =>
      hne (h.fds a ha m hm (hafd.trans hfd.symm))
    show Inv bufOf (if (s.map m).legacy = true then _ else _)
    split_ifs with hlegacy
    · have hpending : m ∉ s.pending.filter fun m => decide ((s.map m).fd ≠ fd) := fun hmem =>
        of_decide_eq_true (mem_filter.mp hmem).2 hfd
      refine (hfilter.dropFlag hm hlegacy hpending).popFd hc hphase fun a ha hl => ?_
      have hne : a ≠ m := by
        rintro rfl
        have hl' : (update s.map a { s.map a with legacy := false } a).legacy = true := hl
        rw [update_self] at hl'
        cases hl'
      show (update s.map m _ a).fd ≠ fd
      rw [update_of_ne hne]
      exact hother a (s.store.put_live m a ha) hne
    · refine hfilter.popFd hc hphase fun a ha hl => ?_
      refine hother a ha ?_
      rintro rfl
      exact hlegacy hl

theorem Inv.contextFree (hc : c < s.calls)
    (hphase : (s.ctx c).phase = .returning [] ∨ (s.ctx c).phase = .failed) :
    Inv bufOf (contextFree s c) := by
  have hne : (s.ctx c).phase ≠ .freed := by
    rintro hfreed
    rw [hfreed] at hphase
    rcases hphase with hp | hp <;> cases hp
  have hheld : (s.ctx c).held = ((s.ctx c).refs : Multiset ℕ) := Ctx.held_of_phase hne
  have hle : ((s.ctx c).refs : Multiset ℕ) ≤ s.held := hheld ▸ held_le hc
  have hputs := h.balanced.puts (hle.trans (Multiset.le_add_right _ _))
  have hnew : (HandleMaps.contextFree s c).held = s.held - ((s.ctx c).refs : Multiset ℕ) := by
    have hsum := held_setCtx (s := { s with store := s.store.puts (s.ctx c).refs }) hc
      { s.ctx c with phase := .freed }
    have hzero : ({ s.ctx c with phase := .freed } : Ctx).held = 0 := if_pos rfl
    rw [hzero, add_zero] at hsum
    refine (tsub_eq_of_eq_add ?_).symm
    rw [← hheld]
    exact hsum.symm
  have hsub : s.owed - ((s.ctx c).refs : Multiset ℕ) = (HandleMaps.contextFree s c).held + s.flagged := by
    rw [hnew, State.owed]
    exact tsub_add_eq_add_tsub hle |>.symm
  rw [hsub] at hputs
  have hlive : ∀ m ∈ (s.store.puts (s.ctx c).refs).live, m ∈ s.store.live :=
    s.store.puts_live (s.ctx c).refs
  have hflagged : (HandleMaps.contextFree s c).flagged = s.flagged := by
    refine flagged_eq h.balanced.nodup hputs.nodup fun m => ⟨fun hm => ⟨hlive m hm.1, hm.2⟩, fun hm => ?_⟩
    exact ⟨(hputs.mem_live m).mpr (Multiset.mem_add.mpr (Or.inr (mem_flagged.mpr hm))), hm.2⟩
  have howed : (HandleMaps.contextFree s c).owed = (HandleMaps.contextFree s c).held + s.flagged := by
    rw [State.owed, hflagged]
  refine ⟨howed ▸ hputs, fun a ha b hb => h.fds a (hlive a ha) b (hlive b hb), fun a ha => h.bufs a (hlive a ha),
    fun a => ?_, fun a ha => ?_, fun a ha hl => ?_⟩
  · show a ∈ (s.store.puts (s.ctx c).refs).live ∨ a ∈ (s.store.puts (s.ctx c).refs).freed ↔ a < s.next
    rw [← h.fresh a]
    exact h.balanced.mem_puts (hle.trans (Multiset.le_add_right _ _)) a
  · obtain ⟨hm, hl⟩ := h.pending a ha
    exact ⟨(hputs.mem_live a).mpr (Multiset.mem_add.mpr (Or.inr (mem_flagged.mpr ⟨hm, hl⟩))), hl⟩
  · refine (h.flag a (hlive a ha) hl).imp_right fun hret =>
      State.Returning.setCtx (s := { s with store := s.store.puts (s.ctx c).refs }) hret
        fun fdlist hold hmem => ?_
    have hold' : (s.ctx c).phase = .returning fdlist := hold
    rcases hphase with hp | hp
    · rw [hp] at hold'
      obtain rfl := Phase.returning.inj hold'
      cases hmem
    · rw [hp] at hold'
      cases hold'

end

end Sections

theorem Inv.start (h : Inv bufOf s) (inv : Invocation) : Inv bufOf (next bufOf s (.start inv)) := by
  have hother : ∀ d < s.calls, update s.ctx s.calls ({ inv := inv } : Ctx) d = s.ctx d := fun d hd =>
    update_of_ne hd.ne ..
  have hheld : (next bufOf s (.start inv)).held = s.held := by
    have hnew : (update s.ctx s.calls ({ inv := inv } : Ctx) s.calls).held = 0 := by
      have hne : ({ inv := inv } : Ctx).phase ≠ .freed := nofun
      rw [update_self, Ctx.held_of_phase hne, Ctx.refs, take_nil]
      rfl
    show ∑ c ∈ Finset.range (s.calls + 1), (update s.ctx s.calls ({ inv := inv } : Ctx) c).held = _
    rw [Finset.sum_range_succ, hnew, add_zero]
    exact Finset.sum_congr rfl fun d hd => by rw [hother d (Finset.mem_range.mp hd)]
  have howed : (next bufOf s (.start inv)).owed = s.owed := by
    rw [State.owed, hheld]
    rfl
  refine ⟨howed ▸ h.balanced, h.fds, h.bufs, h.fresh, h.pending, fun m hm hlegacy => ?_⟩
  refine (h.flag m hm hlegacy).imp_right ?_
  rintro ⟨d, hd, fdlist, hphase, hmem⟩
  refine ⟨d, Nat.lt_succ_of_lt hd, fdlist, ?_, hmem⟩
  show (update s.ctx s.calls ({ inv := inv } : Ctx) d).phase = _
  rw [hother d hd]
  exact hphase

theorem Inv.setPhase (h : Inv bufOf s) (hc : c < s.calls) {phase : Phase}
    (hbefore : (s.ctx c).phase = .mapping ∨ (s.ctx c).phase = .sent) (hafter : phase ≠ .freed) :
    Inv bufOf (s.setCtx c { s.ctx c with phase := phase }) := by
  refine h.setCtx hc (Ctx.held_setPhase ?_ hafter) fun l hl => ?_
  · rintro hfreed
    rw [hfreed] at hbefore
    rcases hbefore with hp | hp <;> cases hp
  · rw [hl] at hbefore
    rcases hbefore with hp | hp <;> cases hp

theorem Inv.next {a : Action} (h : Inv bufOf s) (hguard : guard s a) (hcareful : Careful bufOf s a) :
    Inv bufOf (next bufOf s a) := by
  cases a with
  | start inv => exact h.start inv
  | createMap c ok => exact h.createMap hguard.1 hguard.2.1 ok
  | fillHandle c => exact h.fillHandle hguard.1 hguard.2.1 hcareful
  | send c => exact h.setPhase hguard.1 (Or.inl hguard.2.1) (by decide)
  | fail c => exact h.setPhase hguard.1 hguard.2 (by decide)
  | respond c fdlist copied => exact h.respond hguard.1 hguard.2 fdlist copied hcareful
  | returnFd c =>
    obtain ⟨hc, hmatch⟩ := hguard
    rw [HandleMaps.next]
    cases hp : (s.ctx c).phase with
    | returning fdlist =>
      cases fdlist with
      | nil => exact h
      | cons fd rest => exact h.returnFd hc hp
    | mapping => exact h
    | sent => exact h
    | failed => exact h
    | freed => exact h
  | contextFree c => exact h.contextFree hguard.1 hguard.2

theorem Initial.inv (h : Initial s) : Inv bufOf s := by
  have hlive : s.store.live = [] := by rw [h.store]
  have hfreed : s.store.freed = [] := by rw [h.store]
  have hnone : ∀ m, m ∉ s.store.live := fun m hm => by
    rw [hlive] at hm
    cases hm
  have howed : s.owed = 0 := by
    rw [State.owed, State.held, h.calls, Finset.sum_range_zero, zero_add, State.flagged, hlive]
    rfl
  refine ⟨⟨fun m => ?_, fun m hm => ?_, ?_, ?_, fun m _ => hnone m⟩, fun m hm => absurd hm (hnone m),
    fun m hm => absurd hm (hnone m), fun m => ?_, fun m hm => ?_, fun m hm => absurd hm (hnone m)⟩
  · rw [howed]
    exact ⟨fun hm => absurd hm (hnone m), fun hm => absurd hm (Multiset.notMem_zero m)⟩
  · rw [howed] at hm
    exact absurd hm (Multiset.notMem_zero m)
  · rw [hlive]
    exact nodup_nil
  · rw [hfreed]
    exact nodup_nil
  · rw [hlive, hfreed, h.next]
    simp
  · rw [h.pending] at hm
    cases hm

theorem Inv.kept (h : Inv bufOf s) : Kept s where
  pending := fun m hm => (h.pending m hm).1
  freed := ⟨h.balanced.freed, h.balanced.gone⟩
  made := fun m hm => (h.fresh m).mpr hm
  held := fun m hm => h.mem_live.mpr (Multiset.mem_add.mpr (Or.inl hm))
  refs := by
    intro m hm
    rw [h.balanced.refs m (h.mem_live.mp hm), State.owed, Multiset.count_add,
      count_flagged h.balanced.nodup hm]
  released := by
    intro m hm
    rcases Multiset.mem_add.mp (h.mem_live.mp hm) with hheld | hflagged
    · exact Or.inl hheld
    · exact Or.inr (h.flag m hm (mem_flagged.mp hflagged).2)

def careful (bufOf : ℤ → Option ℕ) : Machine State Action :=
  { machine bufOf with guard := fun s a => guard s a ∧ Careful bufOf s a }

/-- **Maps are kept and released**: whatever the calls and however they overlap, as long as a handle only meets
maps with the flag and a returned descriptor is looked at, a map is live while the DSP has its pages, is freed
once, when the DSP has returned it and no call holds it, and its references are dropped once each. -/
theorem kept_of_reachable (h : (careful bufOf).Reachable s) : Kept s := by
  have hinv : Inv bufOf s := h.invariant (I := Inv bufOf) (fun _ hinit => hinit.inv)
    fun _ _ hinv hguard => hinv.next hguard.1 hguard.2
  exact hinv.kept

/-- Descriptor `7` stands for a dma-buf. -/
def oneBuf (fd : ℤ) : Option ℕ := if fd = 7 then some 0 else none

def bufferCall : Invocation := ⟨65536, [⟨4096, 16, 7, by decide, by decide⟩], rfl⟩
def handleCall : Invocation := ⟨16, [⟨4096, 16, 7, by decide, by decide⟩], rfl⟩

def idle : State := { ctx := fun _ => { inv := bufferCall, phase := .freed } }

theorem idle_initial : Initial idle := ⟨rfl, rfl, rfl, rfl⟩

/-- A handle makes the map, a buffer uses it, and the DSP returns it while the buffer is in use. -/
def handleFirst : List Action :=
  [.start handleCall, .createMap 0 true, .fillHandle 0, .send 0, .start bufferCall, .createMap 1 true,
    .send 1, .respond 0 [7] true, .returnFd 0, .contextFree 0, .respond 1 [] true, .contextFree 1]

def bufferFirst : List Action :=
  [.start bufferCall, .createMap 0 true, .send 0, .start handleCall, .createMap 1 true, .fillHandle 1,
    .send 1, .respond 0 [] true, .contextFree 0]

def uncopied : List Action :=
  [.start handleCall, .createMap 0 true, .fillHandle 0, .send 0, .respond 0 [7] false, .contextFree 0]

instance (bufOf : ℤ → Option ℕ) (s : State) (a : Action) : Decidable ((machine bufOf).guard s a) :=
  inferInstanceAs (Decidable (guard s a))

instance (bufOf : ℤ → Option ℕ) (s : State) (a : Action) : Decidable ((careful bufOf).guard s a) :=
  inferInstanceAs (Decidable (guard s a ∧ Careful bufOf s a))

theorem kept_handleFirst :
    Kept ((careful oneBuf).exec idle handleFirst) ∧
      ((careful oneBuf).exec idle handleFirst).store.freed = [0] := by
  have hrun : (careful oneBuf).Reachable ((careful oneBuf).exec idle handleFirst) :=
    (Machine.Reachable.init idle_initial).exec handleFirst (by decide +kernel)
  exact ⟨kept_of_reachable hrun, by decide +kernel⟩

/-- A map is freed while the DSP has its pages; and a map is left that nobody refers to. -/
theorem not_kept :
    ((machine oneBuf).Reachable ((machine oneBuf).exec idle bufferFirst) ∧
        ¬ Kept ((machine oneBuf).exec idle bufferFirst)) ∧
      (machine oneBuf).Reachable ((machine oneBuf).exec idle uncopied) ∧
        ¬ Kept ((machine oneBuf).exec idle uncopied) := by
  refine ⟨⟨(Machine.Reachable.init idle_initial).exec bufferFirst (by decide +kernel), fun h => ?_⟩,
    (Machine.Reachable.init idle_initial).exec uncopied (by decide +kernel), fun h => ?_⟩
  · exact absurd (h.pending 0 (by decide +kernel)) (by decide +kernel)
  · rcases h.released 0 (by decide +kernel) with hheld | hawait | ⟨c, hc, fdlist, hphase, -⟩
    · exact absurd hheld (by decide +kernel)
    · exact absurd hawait (by decide +kernel)
    · have hzero : c = 0 := Nat.lt_one_iff.mp hc
      rw [hzero] at hphase
      exact absurd hphase nofun

end Fastrpc.HandleMaps
