import Sm8750Modules.MgmtRxReo.Evolution

/-!
# Management frame reordering: the books of the entries

In every state that the reordering reaches, the total of an entry's wait count is the sum of the
counts of its links, an entry waits exactly as long as its total is not zero, and no step raises
a count.
-/

namespace MgmtRxReo

open KeyedLists Runs List

structure WellKept (s : State) : Prop where
  ids : (s.entries.map Entry.id).Nodup
  given : ∀ e ∈ s.entries, e.id < s.nextId
  kept : ∀ e ∈ s.entries, e.Kept

theorem wellKept_init : WellKept .init where
  ids := .nil
  given _ h := by cases h
  kept _ h := by cases h

theorem wellKept_of_evolves {d : Link → ℕ} {l : List Entry} {s' : State}
    (h : EntriesEvolve d l s'.entries) (hids : (l.map Entry.id).Nodup)
    (hgiven : ∀ e ∈ l, e.id < s'.nextId) (hkept : ∀ e ∈ l, e.Kept) : WellKept s' where
  ids := h.nodup_keys hids
  given e he := by
    obtain ⟨e₀, he₀, hid, -⟩ := h.from_before e he
    rw [← hid]
    exact hgiven e₀ he₀
  kept e he := by
    obtain ⟨e₀, he₀, -, hlowers⟩ := h.from_before e he
    exact hlowers.kept (hkept e₀ he₀)

theorem WellKept.step {s s' : State} {a : Action} (h : WellKept s) (hs : step s a = some s') :
    WellKept s' := by
  rcases step_evolves hs with ⟨hid, hevolves⟩ | ⟨new, hmade, hid, hevolves⟩
  · exact wellKept_of_evolves hevolves h.ids (by rw [hid]; exact h.given) h.kept
  · refine wellKept_of_evolves hevolves ?_ ?_ ?_
    · rw [map_cons, nodup_cons]
      refine ⟨fun hmem => ?_, h.ids⟩
      obtain ⟨e, he, heid⟩ := mem_map.1 hmem
      have hlt := h.given e he
      rw [heid, hmade.id] at hlt
      exact lt_irrefl _ hlt
    · intro e he
      rw [hid]
      rcases mem_cons.1 he with rfl | he
      · rw [hmade.id]
        exact Nat.lt_succ_self _
      · exact Nat.lt_succ_of_lt (h.given e he)
    · intro e he
      rcases mem_cons.1 he with rfl | he
      · exact hmade.kept
      · exact h.kept e he

theorem step_of_guard {s : State} {a : Action} (h : machine.guard s a) :
    step s a = some (machine.next s a) := by
  obtain ⟨s', hs'⟩ := Option.isSome_iff_exists.1 h
  show step s a = some ((step s a).getD s)
  rw [hs', Option.getD_some]

theorem wellKept_of_reachable {s : State} (h : machine.Reachable s) : WellKept s :=
  h.invariant (fun _ hinit => by rw [show _ = State.init from hinit]; exact wellKept_init)
    fun _ _ hk hguard => hk.step (step_of_guard hguard)

theorem WellKept.count_le {s s' : State} {a : Action} (h : WellKept s)
    (hs : MgmtRxReo.step s a = some s') {e e' : Entry} (he : e ∈ s.entries) (he' : e' ∈ s'.entries)
    (hid : e.id = e'.id) : e'.waitCount.Le e.waitCount := by
  rcases step_evolves hs with ⟨-, hevolves⟩ | ⟨new, hmade, -, hevolves⟩
  · exact (hevolves.related h.ids he he' hid).count_le
  · -- the entry of the new one's identity is not one from before
    obtain ⟨e₀, he₀, hid₀, hlowers⟩ := hevolves.from_before e' he'
    rcases mem_cons.1 he₀ with rfl | he₀
    · have hlt := h.given e he
      rw [hid, ← hid₀, hmade.id] at hlt
      exact absurd hlt (lt_irrefl _)
    · rw [inj_on_of_nodup_map h.ids he he₀ (hid.trans hid₀.symm)]
      exact hlowers.count_le

/-- **The wait-count bookkeeping.**  In every reachable state of the reorder lists the total of
every entry is the sum of its counts, computed without a wrap, an entry of the ingress list
waits for other links exactly where its total is not zero, and no step from there raises a count
of an entry. -/
theorem waitCounts_of_reachable {s : State} (h : machine.Reachable s) :
    (∀ e ∈ s.entries, e.waitCount.totalCount.toNat =
        ∑ link, (e.waitCount.perLinkCount link).toNat) ∧
      (∀ e ∈ s.ingress, e.status.waitForFrameOnOtherLinks = true ↔ e.waitCount.totalCount ≠ 0) ∧
      ∀ a s', step s a = some s' → ∀ e ∈ s.entries, ∀ e' ∈ s'.entries, e.id = e'.id →
        ∀ link, e'.waitCount.perLinkCount link ≤ e.waitCount.perLinkCount link := by
  have hk := wellKept_of_reachable h
  refine ⟨fun e he => (hk.kept e he).total, fun e he => (hk.kept e ?_).waits,
    fun a s' hs e he e' he' hid => hk.count_le hs he he' hid⟩
  exact mem_append_right _ (mem_append_left _ he)

instance (s : State) (a : Action) : Decidable (machine.guard s a) :=
  inferInstanceAs (Decidable ((step s a).isSome = true))

/-- Link 1 has received three frames, of which the host has seen none. -/
def unseenViews : Link → LinkView :=
  fun link => if link = 1 then
    .ready
      { macHw := { valid := true, mgmtPktCtr := 3, globalTimestamp := 90 }
        fwForwarded := { valid := true, mgmtPktCtr := 3, globalTimestamp := 90 }
        fwConsumed := { valid := false, mgmtPktCtr := 0, globalTimestamp := 0 } }
  else .idle

def frameOf (link : Link) (ctr : UInt16) (ts : UInt32) : ReoParams :=
  { valid := true, linkId := link, mgmtPktCtr := ctr, globalTimestamp := ts
    startTimestamp := ts, endTimestamp := ts + 1 }

def waitingRun : List Action :=
  [.arrive (frameOf 0 10 100) true true 0 unseenViews true, .enqueue]

theorem waitCounts_waiting :
    let s := machine.exec .init waitingRun
    s.ingress.map (fun e => e.waitCount.totalCount) = [0xffffffff] ∧
      (∀ e ∈ s.entries, e.waitCount.totalCount.toNat = ∑ link, (e.waitCount.perLinkCount link).toNat) ∧
      (∀ e ∈ s.ingress, e.status.waitForFrameOnOtherLinks = true ↔ e.waitCount.totalCount ≠ 0) ∧
      ∀ a s', step s a = some s' → ∀ e ∈ s.entries, ∀ e' ∈ s'.entries, e.id = e'.id →
        ∀ link, e'.waitCount.perLinkCount link ≤ e.waitCount.perLinkCount link :=
  ⟨by decide +kernel,
    waitCounts_of_reachable ((Machine.Reachable.init rfl).exec waitingRun (by decide +kernel))⟩

end MgmtRxReo
