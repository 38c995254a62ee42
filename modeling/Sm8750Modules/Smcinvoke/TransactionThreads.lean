import Sm8750Modules.Smcinvoke.TransactionStates

/-!
# Callback requests — the steps of server threads

A thread picks a transaction, or puts a response into it and settles whether it counts; no other thread does so
with the same transaction. The end of the server leaves no request that nobody waits for.
-/

namespace Smcinvoke.Txns

open RefCounts Runs Function List

section

variable {ι κ : Type*} {si : ℕ} {ctx : Contexts κ} {s s' : State ι κ} {i : ι} {t : ℕ} {y : CbTxn}

/-! ## Transactions that threads work on -/

/-- How a thread changes a transaction that is not answered. -/
structure Advance (x y : CbTxn) : Prop where
  contextId : y.contextId = x.contextId
  plain : x.contextId = contextIdAny → x.args = [] → y.args = []
  state : x.processing = .pending ∨ x.processing = .processing ∨ x.processing = .timedout
  waiting : x.processing ≠ .timedout →
    y.processing = .pending ∨ y.processing = .processing ∨ y.processing = .processed
  claimed : x.processing = .processing → y.processing = .processing ∨ y.processing = .processed
  timedout : x.processing = .timedout → y.processing = .timedout

theorem Advance.later {x : CbTxn} (h : Advance x y) : Later x y where
  contextId := h.contextId
  processed := fun hp => by
    have hstate := h.state
    rw [hp] at hstate
    rcases hstate with hp' | hp' | hp' <;> cases hp'
  timedout := h.timedout

theorem State.ThreadFits.advance {x : Thread} (h : s.ThreadFits x) (hx : x.responding ≠ some t)
    (hy : Advance (s.txn t) y) (htxn : s'.txn = update s.txn t y) (hlist : s'.cbTxList = s.cbTxList) :
    s'.ThreadFits x := by
  have hclaimed : ∀ u, s.Claimed u → s'.Claimed u := by
    intro u hu
    refine ⟨by rw [hlist]; exact hu.listed, ?_⟩
    by_cases hut : u = t
    · rw [htxn, hut, update_self]
      have hstate := hu.state
      rw [hut] at hstate
      rcases hstate with hp | hp
      · exact hy.claimed hp
      · have hadvance := hy.state
        rw [hp] at hadvance
        rcases hadvance with hp' | hp' | hp' <;> cases hp'
    · rw [htxn, update_of_ne hut]
      exact hu.state
  have hid : ∀ u, (s'.txn u).contextId = (s.txn u).contextId := fun u => by
    rw [htxn]
    exact (later_update hy.later u).contextId
  cases x with
  | picked u =>
    intro hany
    rw [hid] at hany
    exact hclaimed u (h hany)
  | parsed u ok => exact ⟨(hid u).trans h.1, hclaimed u h.2⟩
  | user => trivial
  | waiting => trivial
  | took u r =>
    refine h.congr (fun v hv => ?_) fun v _ hv => by rwa [hlist]
    rw [htxn, update_of_ne]
    rintro rfl
    exact hx (congrArg some (Multiset.mem_singleton.mp hv).symm)
  | marshalled a =>
    refine h.congr (fun v hv => ?_) fun v _ hv => by rwa [hlist]
    rw [htxn, update_of_ne]
    rintro rfl
    exact hx (congrArg some (Multiset.mem_singleton.mp hv).symm)
  | settled a ok =>
    refine h.congr (fun v hv => ?_) fun v _ hv => by rwa [hlist]
    rw [htxn, update_of_ne]
    rintro rfl
    exact hx (congrArg some (Multiset.mem_singleton.mp hv).symm)

theorem State.DispatcherFits.advance {c : κ} {x : Dispatcher} (h : s.DispatcherFits ctx c x)
    (hy : Advance (s.txn t) y) (htxn : s'.txn = update s.txn t y) (hlist : s'.cbTxList = s.cbTxList) :
    s'.DispatcherFits ctx c x := by
  by_cases hx : t ∈ x.held
  · have hself : s'.txn t = y := by rw [htxn, update_self]
    cases x with
    | free => trivial
    | waiting u =>
      obtain rfl := Multiset.mem_singleton.mp hx
      refine ⟨by rw [hself, hy.contextId]; exact h.1, by rw [hlist]; exact h.2.1, ?_⟩
      rw [hself]
      refine hy.waiting fun hp => ?_
      have hstate := h.2.2
      rw [hp] at hstate
      rcases hstate with hp' | hp' | hp' <;> cases hp'
    | woken u errno =>
      obtain rfl := Multiset.mem_singleton.mp hx
      refine ⟨by rw [hself, hy.contextId]; exact h.1, by rw [hlist]; exact h.2.1, ?_⟩
      rcases h.2.2 with ⟨hp, herrno⟩ | ⟨hp, -⟩
      · rw [hself]
        exact Or.inl ⟨hy.timedout hp, herrno⟩
      · have hstate := hy.state
        rw [hp] at hstate
        rcases hstate with hp' | hp' | hp' <;> cases hp'
    | answered u =>
      obtain rfl := Multiset.mem_singleton.mp hx
      have hstate := hy.state
      rw [h.2.2.1] at hstate
      rcases hstate with hp' | hp' | hp' <;> cases hp'
  · refine h.congr (fun u hu => ?_) fun u hu => by rw [hlist]; exact (h.held hu).2
    rw [htxn, update_of_ne]
    rintro rfl
    exact hx hu

theorem Proto.lt_of_state (h : Proto si ctx s) (ht : (s.txn t).processing ≠ .new) : t < s.nextTxn := by
  by_contra hlt
  rw [h.blank t (Nat.le_of_not_lt hlt)] at ht
  exact ht rfl

theorem parseResponse_plain {files : Files} {r : Response} (ht : (s.txn t).args = []) :
    (parseResponse s files t r).2.1 = [] := by
  rw [parseResponse, ht]
  split_ifs
  · rfl
  · rfl
  · rw [marshalOutCbReq]
    split_ifs
    · rfl
    · rfl

theorem State.HistoryFits.answer (h : s.HistoryFits) {a : Answer}
    (hstate : (s.txn a.txn).processing = .processing) (herrno : (s.txn a.txn).errno = a.errno)
    (hargs : a.errno = 0 → (s.txn a.txn).args = a.args)
    (hid : a.response.txnId < 2 ^ 32 → a.response.txnId = (s.txn a.txn).contextId)
    (htxn : s'.txn = update s.txn a.txn { s.txn a.txn with processing := .processed })
    (hanswers : s'.answers = s.answers ++ [a]) (hresults : s'.results = s.results) : s'.HistoryFits := by
  have hother : ∀ u, (s.txn u).processing = .processed ∨ (s.txn u).processing = .timedout →
      s'.txn u = s.txn u := by
    intro u hu
    have hne : u ≠ a.txn := by
      rintro rfl
      rw [hstate] at hu
      rcases hu with hp | hp <;> cases hp
    rw [htxn, update_of_ne hne]
  have hself : s'.txn a.txn = { s.txn a.txn with processing := .processed } := by
    rw [htxn, update_self]
  refine ⟨fun b hb => ?_, fun u hu => ?_, ?_, fun o ho => ?_⟩
  · rw [hanswers] at hb
    rcases mem_append.mp hb with hold | hnew
    · have hfits := h.answers b hold
      rw [hother b.txn (Or.inl hfits.1)]
      exact hfits
    · rw [mem_singleton.mp hnew, hself]
      exact ⟨rfl, herrno, hargs, hid⟩
  · rw [hanswers]
    by_cases hut : u = a.txn
    · exact ⟨a, mem_append_right _ (mem_singleton_self a), hut.symm⟩
    · rw [htxn, update_of_ne hut] at hu
      obtain ⟨b, hb, hbu⟩ := h.processed u hu
      exact ⟨b, mem_append_left _ hb, hbu⟩
  · rw [hanswers, map_append, map_singleton]
    refine nodup_append.mpr ⟨h.once, nodup_singleton _, fun u hu v hv huv => ?_⟩
    obtain ⟨b, hb, rfl⟩ := mem_map.mp hu
    have hprocessed := (h.answers b hb).1
    rw [huv, mem_singleton.mp hv, hstate] at hprocessed
    cases hprocessed
  · rw [hresults] at ho
    have hfits := h.results o ho
    rw [hother o.txn (hfits.symm.imp And.left And.left)]
    exact hfits

section Advance

variable [DecidableEq ι]

section

variable (h : Proto si ctx s)
include h

theorem Proto.advance {x : Thread} (hlt : t < s.nextTxn) (hy : Advance (s.txn t) y)
    (hothers : ∀ j, j ≠ i → (s.threads j).responding ≠ some t)
    (hresponding : x.responding = (s.threads i).responding) (hfits : s'.ThreadFits x)
    (htxn : s'.txn = update s.txn t y) (hnext : s'.nextTxn = s.nextTxn)
    (hlist : s'.cbTxList = s.cbTxList) (hthreads : s'.threads = update s.threads i x)
    (hdispatchers : s'.dispatchers = s.dispatchers) (hdead : s'.objs.dead = s.objs.dead)
    (hhistory : s'.HistoryFits)
    (hpicker : ∀ u ∈ s.cbTxList, (s.txn u).contextId = contextIdAny → y.processing ≠ .pending →
      (s.txn u).processing = .pending → u = t → x.picking = some t)
    (hpicking : ∀ u, (s.txn u).contextId = contextIdAny → (s.threads i).picking = some u → x.picking = some u)
    (hpickers : ∀ u, (s.txn u).contextId = contextIdAny → x.picking = some u → (s.threads i).picking ≠ some u →
      ∀ j, (s.threads j).picking ≠ some u) : Proto si ctx s' := by
  have hid : ∀ u, (s'.txn u).contextId = (s.txn u).contextId := fun u => by
    rw [htxn]
    exact (later_update hy.later u).contextId
  have hothers' : ∀ j, j ≠ i → s'.ThreadFits (s.threads j) := fun j hj =>
    (h.threads j).advance (hothers j hj) hy htxn hlist
  have hsingle : ∀ j u, (s'.threads j).responding = some u → (s.threads j).responding = some u := by
    intro j u hj
    rw [hthreads] at hj
    by_cases hji : j = i
    · rw [hji, update_self, hresponding] at hj
      rw [hji]
      exact hj
    · rwa [update_of_ne hji] at hj
  refine ⟨fun u hu => ?_, ?_, ?_, ?_, fun u hu => ?_, fun j => ?_, fun d => ?_, fun j k u hj hk => ?_,
    fun u hu hany hp => ?_, fun j k u hany hj hk => ?_, hhistory, fun hd u hu => ?_⟩
  · rw [hnext] at hu
    rw [htxn, update_of_ne (Nat.ne_of_gt (Nat.lt_of_lt_of_le hlt hu))]
    exact h.blank u hu
  · rw [hlist]
    exact h.nodup
  · rw [hlist, hnext]
    exact h.listed
  · intro u hu hany
    rw [hlist] at hu
    rw [hid] at hany
    rw [hdispatchers]
    exact h.owner u hu hany
  · rw [hid] at hu
    have hargs := h.plain u hu
    by_cases hut : u = t
    · rw [hut] at hu hargs
      rw [htxn, hut, update_self]
      exact hy.plain hu hargs
    · rw [htxn, update_of_ne hut]
      exact hargs
  · rw [hthreads]
    by_cases hji : j = i
    · rw [hji, update_self]
      exact hfits
    · rw [update_of_ne hji]
      exact hothers' j hji
  · rw [hdispatchers]
    exact (h.dispatchers d).advance hy htxn hlist
  · exact h.single j k u (hsingle j u hj) (hsingle k u hk)
  · rw [hlist] at hu
    rw [hid] at hany
    by_cases hpending : (s.txn u).processing = .pending
    · by_cases hut : u = t
      · rw [htxn, hut, update_self] at hp
        refine ⟨i, ?_⟩
        rw [hthreads, update_self, hut]
        exact hpicker u hu hany hp hpending hut
      · rw [htxn, update_of_ne hut] at hp
        exact absurd hpending hp
    · obtain ⟨j, hj⟩ := h.picker u hu hany hpending
      refine ⟨j, ?_⟩
      rw [hthreads]
      by_cases hji : j = i
      · rw [hji, update_self]
        rw [hji] at hj
        exact hpicking u hany hj
      · rw [update_of_ne hji]
        exact hj
  · rw [hid] at hany
    rw [hthreads] at hj hk
    have hi : ∀ k, k ≠ i → x.picking = some u → (s.threads k).picking = some u → i = k := by
      intro k hki hx hk
      by_cases hpi : (s.threads i).picking = some u
      · exact h.pickers i k u hany hpi hk
      · exact absurd hk (hpickers u hany hx hpi k)
    by_cases hji : j = i
    · by_cases hki : k = i
      · rw [hji, hki]
      · rw [hji, update_self] at hj
        rw [update_of_ne hki] at hk
        rw [hji]
        exact hi k hki hj hk
    · rw [update_of_ne hji] at hj
      by_cases hki : k = i
      · rw [hki, update_self] at hk
        rw [hki]
        exact (hi j hji hk hj).symm
      · rw [update_of_ne hki] at hk
        exact h.pickers j k u hany hj hk
  · rw [hdead] at hd
    rw [hlist] at hu
    rw [hid]
    exact h.gone hd u hu

theorem Proto.marshal (i : ι) (files : Files)
    (hdead : (marshal s i files).objs.dead = s.objs.dead) : Proto si ctx (marshal s i files) := by
  rw [Txns.marshal] at hdead ⊢
  cases hi : s.threads i with
  | user => exact h
  | marshalled a => exact h
  | settled a ok => exact h
  | waiting => exact h
  | picked t => exact h
  | parsed t ok => exact h
  | took t r =>
    rw [hi] at hdead
    dsimp only at hdead ⊢
    have hsub : s.Submitted t r := by
      have hfits := h.threads i
      rwa [hi] at hfits
    have hlt : t < s.nextTxn := h.lt_of_state fun hnew => by
      have hstate := hsub.state
      rw [hnew] at hstate
      rcases hstate with hp | hp <;> cases hp
    have hadvance : Advance (s.txn t) { s.txn t with
        args := (parseResponse s files t r).2.1, errno := (parseResponse s files t r).2.2 } := by
      refine ⟨rfl, fun _ hargs => parseResponse_plain hargs, Or.inr hsub.state, fun hp => ?_, Or.inl, id⟩
      exact Or.inr (Or.inl (hsub.state.resolve_right hp))
    have hself : update s.txn t { s.txn t with
        args := (parseResponse s files t r).2.1, errno := (parseResponse s files t r).2.2 } t = { s.txn t with
        args := (parseResponse s files t r).2.1, errno := (parseResponse s files t r).2.2 } :=
      update_self ..
    refine h.advance hlt hadvance (fun j hji hj => hji ?_) (by rw [hi]; rfl) ?_ rfl rfl rfl rfl rfl hdead
      (h.history.later (later_update hadvance.later) (fun u hu => ?_) rfl rfl) ?_ ?_ nofun
    · exact h.single j i t hj (by rw [hi]; rfl)
    · refine ⟨⟨?_, fun hid hp => ?_, fun hr => ?_⟩, ?_, fun _ => ?_⟩
      · simp only [hself]
        exact hsub.state
      · simp only [hself] at hid hp
        exact hsub.listed hid hp
      · simp only [hself]
        exact hsub.id hr
      · simp only [hself]
      · simp only [hself]
    · by_cases hut : u = t
      · rw [hut] at hu ⊢
        simp only [hself] at hu
        exact hu
      · simp only [update_of_ne hut] at hu
        exact hu
    · intro u _ _ _ hpending hut
      have hstate := hsub.state
      rw [← hut, hpending] at hstate
      rcases hstate with hp | hp <;> cases hp
    · intro u _ hp
      rw [hi] at hp
      cases hp

theorem Proto.settle (i : ι) : Proto si ctx (settle s i) := by
  rw [Txns.settle]
  cases hi : s.threads i with
  | user => exact h
  | took t r => exact h
  | settled a ok => exact h
  | waiting => exact h
  | picked t => exact h
  | parsed t ok => exact h
  | marshalled a =>
    dsimp only
    obtain ⟨hsub, herrno, hargs⟩ : s.Submitted a.txn a.response ∧ (s.txn a.txn).errno = a.errno ∧
        (a.errno = 0 → (s.txn a.txn).args = a.args) := by
      have hfits := h.threads i
      rwa [hi] at hfits
    by_cases hopen : (s.txn a.txn).processing = .processing
    · simp only [setTxnState, if_pos hopen]
      have hadvance : Advance (s.txn a.txn) { s.txn a.txn with processing := .processed } := by
        refine ⟨rfl, fun _ => id, Or.inr (Or.inl hopen), fun _ => Or.inr (Or.inr rfl), fun _ => Or.inr rfl,
          fun hp => ?_⟩
        rw [hopen] at hp
        cases hp
      refine h.advance (h.lt_of_state (by rw [hopen]; nofun)) hadvance (fun j hji hj => hji ?_)
        (by rw [hi]; rfl) ?_ rfl rfl rfl rfl rfl rfl
        (h.history.answer hopen herrno hargs hsub.id rfl rfl rfl) ?_ ?_ nofun
      · exact h.single j i a.txn hj (by rw [hi]; rfl)
      · show (update s.txn a.txn _ a.txn).processing = _
        rw [update_self]
      · intro u _ _ _ hpending hut
        rw [hut, hopen] at hpending
        cases hpending
      · intro u _ hp
        rw [hi] at hp
        cases hp
    · simp only [setTxnState, if_neg hopen]
      exact h.setThread (x := .settled a false) ⟨rfl, rfl, rfl, rfl, rfl, rfl, rfl⟩ rfl
        ⟨hsub.state.resolve_left hopen, hargs⟩ (fun t ht => Or.inl (by rw [hi]; exact ht)) fun t _ => by
          rw [hi]
          exact Iff.rfl

theorem Proto.pick (i : ι) : Proto si ctx (pick s i) := by
  rw [Txns.pick]
  cases hi : s.threads i with
  | user => exact h
  | took t r => exact h
  | marshalled a => exact h
  | settled a ok => exact h
  | picked t => exact h
  | parsed t ok => exact h
  | waiting =>
    dsimp only
    split
    · rename_i t ht
      obtain ⟨hlist, -, hstate⟩ := getTxn_some ht
      have hpending : (s.txn t).processing = .pending :=
        (hstate.resolve_right fun hp => Xst.noConfusion hp.1).2
      have hnone : ∀ j, (s.threads j).responding ≠ some t ∧
          ((s.txn t).contextId = contextIdAny → (s.threads j).picking ≠ some t) := by
        intro j
        have hfits := h.threads j
        cases hx : s.threads j with
        | user => exact ⟨nofun, nofun⟩
        | waiting => exact ⟨nofun, nofun⟩
        | took u r =>
          rw [hx] at hfits
          refine ⟨fun hu => ?_, nofun⟩
          have hstate' := hfits.state
          rw [Option.some.inj hu, hpending] at hstate'
          rcases hstate' with hp | hp <;> cases hp
        | marshalled a =>
          rw [hx] at hfits
          refine ⟨fun hu => ?_, nofun⟩
          have hstate' := hfits.1.state
          rw [Option.some.inj hu, hpending] at hstate'
          rcases hstate' with hp | hp <;> cases hp
        | settled a ok =>
          rw [hx] at hfits
          refine ⟨fun hu => ?_, nofun⟩
          cases ok with
          | true =>
            have hprocessed : (s.txn a.txn).processing = .processed := hfits
            rw [Option.some.inj hu, hpending] at hprocessed
            cases hprocessed
          | false =>
            have htimedout := hfits.1
            rw [Option.some.inj hu, hpending] at htimedout
            cases htimedout
        | picked u =>
          rw [hx] at hfits
          refine ⟨nofun, fun hany hu => ?_⟩
          obtain rfl : u = t := Option.some.inj hu
          have hstate' := (hfits hany).state
          rw [hpending] at hstate'
          rcases hstate' with hp | hp <;> cases hp
        | parsed u ok =>
          rw [hx] at hfits
          refine ⟨nofun, fun hany hu => ?_⟩
          obtain rfl : u = t := Option.some.inj hu
          have hstate' := hfits.2.state
          rw [hpending] at hstate'
          rcases hstate' with hp | hp <;> cases hp
      have hset : (setTxnState (s.txn t) .processing).getD (s.txn t) =
          { s.txn t with processing := .processing } := by
        rw [setTxnState, if_pos hpending]
        rfl
      rw [hset]
      have hadvance : Advance (s.txn t) { s.txn t with processing := .processing } := by
        refine ⟨rfl, fun _ => id, Or.inl hpending, fun _ => Or.inr (Or.inl rfl), fun _ => Or.inl rfl,
          fun hp => ?_⟩
        rw [hpending] at hp
        cases hp
      refine h.advance (x := .picked t) (h.listed t hlist) hadvance (fun j _ => (hnone j).1) (by rw [hi]; rfl)
        (fun _ => ⟨hlist, Or.inl ?_⟩) rfl rfl rfl rfl rfl rfl
        (h.history.later (later_update hadvance.later) (fun u hu => ?_) rfl rfl) (fun _ _ _ _ _ _ => rfl)
        (fun u _ hp => ?_) fun u hany hu _ j => ?_
      · show (update s.txn t _ t).processing = _
        rw [update_self]
      · have hu' : (update s.txn t { s.txn t with processing := .processing } u).processing =
          .processed := hu
        by_cases hut : u = t
        · rw [hut, update_self] at hu'
          cases hu'
        · rwa [update_of_ne hut] at hu'
      · rw [hi] at hp
        cases hp
      · obtain rfl : t = u := Option.some.inj hu
        exact (hnone j).2 hany
    · exact h

theorem Proto.dequeue (i : ι) : Proto si ctx (dequeue s i) := by
  rw [Txns.dequeue]
  cases hi : s.threads i with
  | user => exact h
  | took t r => exact h
  | marshalled a => exact h
  | settled a ok => exact h
  | waiting => exact h
  | picked t => exact h
  | parsed t ok =>
    dsimp only [State.dequeueAndPutTxn]
    obtain ⟨hany, hclaim⟩ : (s.txn t).contextId = contextIdAny ∧ s.Claimed t := by
      have hfits := h.threads i
      rwa [hi] at hfits
    have hnew : (s.txn t).processing ≠ .new := by
      intro hnew
      have hstate := hclaim.state
      rw [hnew] at hstate
      rcases hstate with hp | hp <;> cases hp
    rw [if_pos hnew]
    have hpicking : (s.threads i).picking = some t := by
      rw [hi]
      rfl
    have hafter : ∀ u, (after ok).responding ≠ some u ∧ (after ok).picking ≠ some u := by
      intro u
      rcases after_eq ok with hok | hok
      · rw [hok]
        exact ⟨nofun, nofun⟩
      · rw [hok]
        exact ⟨nofun, nofun⟩
    have hsub : ∀ u ∈ s.cbTxList.erase t, u ∈ s.cbTxList ∧ u ≠ t := fun u hu =>
      ⟨mem_of_mem_erase hu, (h.nodup.mem_erase_iff.mp hu).1⟩
    have hkeep : ∀ u ∈ s.cbTxList, u ≠ t → u ∈ s.cbTxList.erase t := fun u hu hut =>
      (mem_erase_of_ne hut).mpr hu
    refine ⟨h.blank, h.nodup.erase t, fun u hu => h.listed u (hsub u hu).1,
      fun u hu hid => h.owner u (hsub u hu).1 hid, h.plain, fun j => ?_, fun d => ?_, fun j k u hj hk => ?_,
      fun u hu hid hp => ?_, fun j k u hid hj hk => ?_, h.history.later (fun u => .refl _) (fun _ => id) rfl rfl,
      fun hd u hu => h.gone hd u (hsub u hu).1⟩
    · show State.ThreadFits _ (update s.threads i (after ok) j)
      by_cases hji : j = i
      · rw [hji, update_self]
        rcases after_eq ok with hok | hok
        · rw [hok]
          trivial
        · rw [hok]
          trivial
      · rw [update_of_ne hji]
        have hfits := h.threads j
        have hne : ∀ u, (s.txn u).contextId = contextIdAny → (s.threads j).picking = some u → u ≠ t := by
          intro u hu hj hut
          exact hji (h.pickers j i t hany (hut ▸ hj) hpicking)
        cases hx : s.threads j with
        | user => trivial
        | waiting => trivial
        | took u r =>
          rw [hx] at hfits
          exact ⟨hfits.state, fun hid hp => hkeep u (hfits.listed hid hp) fun hut => hid (hut ▸ hany), hfits.id⟩
        | marshalled a =>
          rw [hx] at hfits
          obtain ⟨hsubmitted, hrest⟩ := hfits
          exact ⟨⟨hsubmitted.state, fun hid hp =>
            hkeep a.txn (hsubmitted.listed hid hp) fun hut => hid (hut ▸ hany), hsubmitted.id⟩, hrest⟩
        | settled a ok' =>
          rw [hx] at hfits
          cases ok' with
          | true => exact hfits
          | false => exact hfits
        | picked u =>
          rw [hx] at hfits hne
          intro hid
          exact ⟨hkeep u (hfits hid).listed (hne u hid rfl), (hfits hid).state⟩
        | parsed u ok' =>
          rw [hx] at hfits hne
          exact ⟨hfits.1, hkeep u hfits.2.listed (hne u hfits.1 rfl), hfits.2.state⟩
    · have hfits := h.dispatchers d
      refine hfits.congr (fun u _ => rfl) fun u hu => hkeep u (hfits.held hu).2 ?_
      rintro rfl
      exact ctx.id_ne_any d ((hfits.held hu).1.symm.trans hany)
    · have hold : ∀ j, (update s.threads i (after ok) j).responding = some u →
          (s.threads j).responding = some u := by
        intro j hj
        by_cases hji : j = i
        · rw [hji, update_self] at hj
          exact absurd hj (hafter u).1
        · rwa [update_of_ne hji] at hj
      exact h.single j k u (hold j hj) (hold k hk)
    · obtain ⟨j, hj⟩ := h.picker u (hsub u hu).1 hid hp
      refine ⟨j, ?_⟩
      have hji : j ≠ i := by
        rintro rfl
        rw [hpicking] at hj
        exact (hsub u hu).2 (Option.some.inj hj).symm
      show (update s.threads i (after ok) j).picking = _
      rw [update_of_ne hji]
      exact hj
    · have hold : ∀ j, (update s.threads i (after ok) j).picking = some u →
          (s.threads j).picking = some u := by
        intro j hj
        by_cases hji : j = i
        · rw [hji, update_self] at hj
          exact absurd hj (hafter u).2
        · rwa [update_of_ne hji] at hj
      exact h.pickers j k u hid (hold j hj) (hold k hk)

end

end Advance

theorem Proto.unclaimed (h : Proto si ctx s) (hthreads : ∀ i, s.threads i = .user) (ht : t ∈ s.cbTxList)
    (hany : (s.txn t).contextId = contextIdAny) : s.unclaimed t = true := by
  refine decide_eq_true ⟨hany, ?_⟩
  by_contra hp
  obtain ⟨i, hi⟩ := h.picker t ht hany hp
  rw [hthreads i] at hi
  cases hi

theorem Proto.serverRelease (h : Proto si ctx s) (hthreads : ∀ i, s.threads i = .user) :
    Proto si ctx (serverRelease si s) := by
  have hsub : ∀ t ∈ s.cbTxList.filter fun t => !s.unclaimed t, t ∈ s.cbTxList ∧ s.unclaimed t = false := by
    intro t ht
    obtain ⟨hmem, hclaimed⟩ := mem_filter.mp ht
    exact ⟨hmem, (Bool.not_eq_true' _).mp hclaimed⟩
  rw [Txns.serverRelease]
  refine ⟨h.blank, h.nodup.filter _, fun t ht => h.listed t (hsub t ht).1,
    fun t ht hid => h.owner t (hsub t ht).1 hid, h.plain, fun i => ?_, fun d => ?_, h.single,
    fun t ht hid hp => h.picker t (hsub t ht).1 hid hp, h.pickers,
    h.history.later (fun t => .refl _) (fun _ => id) rfl rfl, fun _ t ht hany => ?_⟩
  · show State.ThreadFits _ (s.threads i)
    rw [hthreads i]
    trivial
  · have hfits := h.dispatchers d
    refine hfits.congr (fun t _ => rfl) fun t ht => mem_filter.mpr ⟨(hfits.held ht).2, ?_⟩
    rw [Bool.not_eq_true']
    refine decide_eq_false fun hunclaimed => ctx.id_ne_any d ?_
    exact (hfits.held ht).1.symm.trans hunclaimed.1
  · have hclaimed := (hsub t ht).2
    rw [h.unclaimed hthreads (hsub t ht).1 hany] at hclaimed
    cases hclaimed

end

end Smcinvoke.Txns
