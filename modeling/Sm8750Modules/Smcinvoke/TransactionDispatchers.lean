import Sm8750Modules.Smcinvoke.TransactionStates

/-!
# Callback requests — the steps of dispatchers

A dispatcher makes a transaction, times it out when it wakes, and leaves with it, at once or when the secure
world is told.
-/

namespace Smcinvoke.Txns

open RefCounts Runs Function List

section

variable {ι κ : Type*} {si : ℕ} {ctx : Contexts κ} {s s' : State ι κ}

/-! ## Transactions that change -/

section Waits

variable {c : κ} {t : ℕ}

theorem State.HistoryFits.result (h : s.HistoryFits) {o : Result}
    (ho : (s.txn o.txn).processing = .timedout ∧ o.errno = erestartsys ∨
      (s.txn o.txn).processing = .processed ∧ o.errno = (s.txn o.txn).errno ∧
        (o.errno = 0 → o.args = (s.txn o.txn).args))
    (htxn : s'.txn = s.txn) (hanswers : s'.answers = s.answers) (hresults : s'.results = s.results ++ [o]) :
    s'.HistoryFits where
  answers := by
    rw [hanswers, htxn]
    exact h.answers
  processed := by
    rw [hanswers, htxn]
    exact h.processed
  once := by
    rw [hanswers]
    exact h.once
  results := by
    rw [hresults, htxn]
    intro o' ho'
    rcases mem_append.mp ho' with hold | hnew
    · exact h.results o' hold
    · rw [mem_singleton.mp hnew]
      exact ho

theorem State.ThreadFits.timeOut {x : Thread} (h : s.ThreadFits x) (hid : (s.txn t).contextId ≠ contextIdAny)
    (hstate : (s.txn t).processing = .pending ∨ (s.txn t).processing = .processing)
    (htxn : s'.txn = update s.txn t { s.txn t with processing := .timedout })
    (hlist : s'.cbTxList = s.cbTxList) : s'.ThreadFits x := by
  have hother : ∀ u, u ≠ t → s'.txn u = s.txn u := fun u hu => by rw [htxn, update_of_ne hu]
  have hself : s'.txn t = { s.txn t with processing := .timedout } := by rw [htxn, update_self]
  by_cases hx : t ∈ x.held
  · cases x with
    | user => trivial
    | waiting => trivial
    | took u r =>
      obtain rfl := Multiset.mem_singleton.mp hx
      refine ⟨Or.inr (by rw [hself]), fun _ hp => ?_, fun hr => ?_⟩
      · rw [hself] at hp
        cases hp
      · rw [hself]
        exact h.id hr
    | marshalled a =>
      obtain rfl := Multiset.mem_singleton.mp hx
      obtain ⟨hsub, herrno, hargs⟩ := h
      refine ⟨⟨Or.inr (by rw [hself]), fun _ hp => ?_, fun hr => ?_⟩, ?_, ?_⟩
      · rw [hself] at hp
        cases hp
      · rw [hself]
        exact hsub.id hr
      · rw [hself]
        exact herrno
      · rw [hself]
        exact hargs
    | settled a ok =>
      obtain rfl := Multiset.mem_singleton.mp hx
      cases ok with
      | true =>
        have hprocessed : (s.txn a.txn).processing = .processed := h
        rw [hprocessed] at hstate
        rcases hstate with hp | hp <;> cases hp
      | false => exact ⟨by rw [hself], by rw [hself]; exact h.2⟩
    | picked u =>
      obtain rfl := Multiset.mem_singleton.mp hx
      intro hany
      rw [hself] at hany
      exact absurd hany hid
    | parsed u ok =>
      obtain rfl := Multiset.mem_singleton.mp hx
      exact absurd h.1 hid
  · exact h.congr (fun u hu => hother u fun hut => hx (hut ▸ hu)) fun u _ hu => by rwa [hlist]

variable [DecidableEq κ]

section

variable (h : Proto si ctx s)
include h

theorem Proto.owner_update {x : Dispatcher} (hc : (s.dispatchers c).held = x.held)
    (hid : ∀ u, (s'.txn u).contextId = (s.txn u).contextId) (hlist : s'.cbTxList = s.cbTxList)
    (hdispatchers : s'.dispatchers = update s.dispatchers c x) :
    ∀ u ∈ s'.cbTxList, (s'.txn u).contextId ≠ contextIdAny → ∃ d, u ∈ (s'.dispatchers d).held := by
  intro u hu hany
  rw [hlist] at hu
  rw [hid u] at hany
  obtain ⟨d, hd⟩ := h.owner u hu hany
  refine ⟨d, ?_⟩
  rw [hdispatchers]
  by_cases hdc : d = c
  · rw [hdc, update_self, ← hc, ← hdc]
    exact hd
  · rw [update_of_ne hdc]
    exact hd

theorem Proto.setDispatcher {x : Dispatcher} (hc : (s.dispatchers c).held = x.held)
    (hfits : s.DispatcherFits ctx c x) (hhistory : s'.HistoryFits) (htxn : s'.txn = s.txn)
    (hnext : s'.nextTxn = s.nextTxn) (hlist : s'.cbTxList = s.cbTxList) (hthreads : s'.threads = s.threads)
    (hdispatchers : s'.dispatchers = update s.dispatchers c x)
    (hdead : s'.objs.dead = s.objs.dead) : Proto si ctx s' where
  blank := by
    rw [htxn, hnext]
    exact h.blank
  nodup := by
    rw [hlist]
    exact h.nodup
  listed := by
    rw [hlist, hnext]
    exact h.listed
  owner := h.owner_update hc (fun u => by rw [htxn]) hlist hdispatchers
  plain := by
    rw [htxn]
    exact h.plain
  threads := fun i => by
    rw [hthreads]
    exact (h.threads i).congr (fun u _ => by rw [htxn]) fun u _ hu => by rwa [hlist]
  dispatchers := by
    have hcongr : ∀ d y, s.DispatcherFits ctx d y → s'.DispatcherFits ctx d y := fun d y hy =>
      hy.congr (fun u _ => by rw [htxn]) fun u hu => by
        rw [hlist]
        exact (hy.held hu).2
    rw [hdispatchers]
    exact forall_update (P := fun d y => s'.DispatcherFits ctx d y) (fun d => hcongr d _ (h.dispatchers d))
      (hcongr c x hfits)
  single := by
    rw [hthreads]
    exact h.single
  picker := by
    rw [hthreads, hlist, htxn]
    exact h.picker
  pickers := by
    rw [hthreads, htxn]
    exact h.pickers
  history := hhistory
  gone := by
    rw [hdead, hlist, htxn]
    exact h.gone

theorem Proto.wake (c : κ) : Proto si ctx (wake s c) := by
  rw [Txns.wake]
  cases hc : s.dispatchers c with
  | free => exact h
  | woken t errno => exact h
  | answered t => exact h
  | waiting t =>
    dsimp only
    obtain ⟨hid, hlist, hstate⟩ : (s.txn t).contextId = ctx.id c ∧ t ∈ s.cbTxList ∧
        ((s.txn t).processing = .pending ∨ (s.txn t).processing = .processing ∨
          (s.txn t).processing = .processed) := by
      have hfits := h.dispatchers c
      rwa [hc] at hfits
    have hany : (s.txn t).contextId ≠ contextIdAny := hid ▸ ctx.id_ne_any c
    have hlt := h.listed t hlist
    split
    · rename_i x hx
      simp only [setTxnState] at hx
      split_ifs at hx with hopen
      obtain rfl := Option.some.inj hx
      have hlater : Later (s.txn t) { s.txn t with processing := .timedout } := by
        refine ⟨rfl, fun hp => ?_, fun _ => rfl⟩
        rw [hp] at hopen
        rcases hopen with hp' | hp' <;> cases hp'
      have hids : ∀ u, (update s.txn t { s.txn t with processing := .timedout } u).contextId =
          (s.txn u).contextId := fun u => (later_update hlater u).contextId
      have hnotany : ∀ u, (s.txn u).contextId = contextIdAny → u ≠ t := fun u hu hut => hany (hut ▸ hu)
      refine ⟨fun u hu => ?_, h.nodup, h.listed, ?_, fun u hu => ?_, fun j => ?_, fun d => ?_, h.single,
        fun u hu hid' hp => ?_, fun i j u hid' => ?_, ?_, fun hdead u hu => ?_⟩
      · have hne : u ≠ t := fun hut => Nat.lt_irrefl _ (Nat.lt_of_lt_of_le (hut ▸ hlt) hu)
        show update s.txn t _ u = _
        rw [update_of_ne hne]
        exact h.blank u hu
      · exact h.owner_update (x := .woken t erestartsys) (by rw [hc]; rfl) hids rfl rfl
      · have hu' : (s.txn u).contextId = contextIdAny := (hids u).symm.trans hu
        show (update s.txn t _ u).args = []
        rw [update_of_ne (hnotany u hu')]
        exact h.plain u hu'
      · exact (h.threads j).timeOut hany hopen rfl rfl
      · show State.DispatcherFits _ ctx d (update s.dispatchers c _ d)
        by_cases hdc : d = c
        · rw [hdc, update_self]
          refine ⟨(hids t).trans hid, hlist, Or.inl ⟨?_, rfl⟩⟩
          show (update s.txn t _ t).processing = _
          rw [update_self]
        · rw [update_of_ne hdc]
          have hfits := h.dispatchers d
          refine hfits.congr (fun u hu => update_of_ne (fun hut => hdc ?_) ..) fun u hu =>
            (hfits.held hu).2
          exact h.dispatcher_unique (hut ▸ hu) (by rw [hc]; exact Multiset.mem_singleton_self t)
      · have hid'' : (s.txn u).contextId = contextIdAny := (hids u).symm.trans hid'
        refine h.picker u hu hid'' fun hpending => hp ?_
        show (update s.txn t _ u).processing = _
        rw [update_of_ne (hnotany u hid'')]
        exact hpending
      · exact h.pickers i j u ((hids u).symm.trans hid')
      · refine h.history.later (later_update hlater) (fun u hu => ?_) rfl rfl
        have hu' : (update s.txn t { s.txn t with processing := .timedout } u).processing =
          .processed := hu
        by_cases hut : u = t
        · rw [hut, update_self] at hu'
          cases hu'
        · rwa [update_of_ne hut] at hu'
      · rw [hids u]
        exact h.gone hdead u hu
    · rename_i hx
      simp only [setTxnState] at hx
      split_ifs at hx with hopen
      rw [not_or] at hopen
      have hprocessed : (s.txn t).processing = .processed :=
        (hstate.resolve_left hopen.1).resolve_left hopen.2
      exact h.setDispatcher (x := .woken t (s.txn t).errno) (by rw [hc]; rfl)
        ⟨hid, hlist, Or.inr ⟨hprocessed, rfl⟩⟩
        (h.history.later (fun u => .refl _) (fun _ => id) rfl rfl) rfl rfl rfl rfl rfl rfl

theorem Proto.leave (hc : (s.dispatchers c).held = {t})
    (hdone : (s.txn t).processing = .timedout ∨ (s.txn t).processing = .processed)
    (hhistory : s'.HistoryFits) (htxn : s'.txn = s.txn) (hnext : s'.nextTxn = s.nextTxn)
    (hlist : s'.cbTxList = s.cbTxList.erase t) (hthreads : s'.threads = s.threads)
    (hdispatchers : s'.dispatchers = update s.dispatchers c .free)
    (hdead : s'.objs.dead = s.objs.dead) : Proto si ctx s' := by
  have htc : t ∈ (s.dispatchers c).held := by
    rw [hc]
    exact Multiset.mem_singleton_self t
  obtain ⟨hid, -⟩ := (h.dispatchers c).held htc
  have hany : (s.txn t).contextId ≠ contextIdAny := hid ▸ ctx.id_ne_any c
  have hsub : ∀ u ∈ s'.cbTxList, u ∈ s.cbTxList ∧ u ≠ t := by
    intro u hu
    rw [hlist] at hu
    exact ⟨mem_of_mem_erase hu, (h.nodup.mem_erase_iff.mp hu).1⟩
  have hkeep : ∀ u ∈ s.cbTxList, u ≠ t → u ∈ s'.cbTxList := by
    intro u hu hut
    rw [hlist]
    exact (mem_erase_of_ne hut).mpr hu
  have hsubmitted : ∀ u r, s.Submitted u r → s'.Submitted u r := by
    intro u r hu
    refine ⟨htxn ▸ hu.state, fun hid' hp => ?_, htxn ▸ hu.id⟩
    rw [htxn] at hid' hp
    refine hkeep u (hu.listed hid' hp) fun hut => ?_
    rw [hut] at hp
    rw [hp] at hdone
    rcases hdone with hd | hd <;> cases hd
  have hclaimed : ∀ u, (s.txn u).contextId = contextIdAny → s.Claimed u → s'.Claimed u := by
    intro u hu hclaim
    exact ⟨hkeep u hclaim.listed fun hut => hany (hut ▸ hu), htxn ▸ hclaim.state⟩
  refine ⟨?_, ?_, fun u hu => ?_, fun u hu hid' => ?_, ?_, fun j => ?_, fun d => ?_, ?_, fun u hu hid' hp => ?_,
    ?_, hhistory, fun hd u hu => ?_⟩
  · rw [htxn, hnext]
    exact h.blank
  · rw [hlist]
    exact h.nodup.erase t
  · rw [hnext]
    exact h.listed u (hsub u hu).1
  · rw [htxn] at hid'
    obtain ⟨d, hd⟩ := h.owner u (hsub u hu).1 hid'
    refine ⟨d, ?_⟩
    have hdc : d ≠ c := by
      rintro rfl
      rw [hc] at hd
      exact (hsub u hu).2 (Multiset.mem_singleton.mp hd)
    rw [hdispatchers, update_of_ne hdc]
    exact hd
  · rw [htxn]
    exact h.plain
  · rw [hthreads]
    have hfits := h.threads j
    cases hx : s.threads j with
    | user => trivial
    | waiting => trivial
    | took u r =>
      rw [hx] at hfits
      exact hsubmitted u r hfits
    | marshalled a =>
      rw [hx] at hfits
      exact ⟨hsubmitted a.txn a.response hfits.1, htxn ▸ hfits.2⟩
    | settled a ok =>
      rw [hx] at hfits
      cases ok with
      | true =>
        have hprocessed : (s.txn a.txn).processing = .processed := hfits
        rw [← htxn] at hprocessed
        exact hprocessed
      | false =>
        obtain ⟨htimedout, hargs⟩ := hfits
        rw [← htxn] at htimedout hargs
        exact ⟨htimedout, hargs⟩
    | picked u =>
      rw [hx] at hfits
      intro hu
      rw [htxn] at hu
      exact hclaimed u hu (hfits hu)
    | parsed u ok =>
      rw [hx] at hfits
      exact ⟨htxn ▸ hfits.1, hclaimed u hfits.1 hfits.2⟩
  · rw [hdispatchers]
    by_cases hdc : d = c
    · rw [hdc, update_self]
      trivial
    · rw [update_of_ne hdc]
      have hfits := h.dispatchers d
      refine hfits.congr (fun u _ => by rw [htxn]) fun u hu => hkeep u (hfits.held hu).2 fun hut => hdc ?_
      exact h.dispatcher_unique (hut ▸ hu) htc
  · rw [hthreads]
    exact h.single
  · rw [htxn] at hid' hp
    rw [hthreads]
    exact h.picker u (hsub u hu).1 hid' hp
  · rw [hthreads, htxn]
    exact h.pickers
  · rw [hdead] at hd
    rw [htxn]
    exact h.gone hd u (hsub u hu).1

theorem Proto.exit (c : κ) : Proto si ctx (exit s c) := by
  rw [Txns.exit]
  cases hc : s.dispatchers c with
  | free => exact h
  | waiting t => exact h
  | answered t => exact h
  | woken t errno =>
    dsimp only
    obtain ⟨hid, hlist, hstate⟩ : (s.txn t).contextId = ctx.id c ∧ t ∈ s.cbTxList ∧
        ((s.txn t).processing = .timedout ∧ errno = erestartsys ∨
          (s.txn t).processing = .processed ∧ errno = (s.txn t).errno) := by
      have hfits := h.dispatchers c
      rwa [hc] at hfits
    by_cases hzero : errno = 0
    · rw [if_pos hzero]
      have hprocessed := hstate.resolve_left fun hp => by
        rw [hzero] at hp
        exact absurd hp.2 (by decide)
      refine h.setDispatcher (x := .answered t) (by rw [hc]; rfl)
        ⟨hid, hlist, hprocessed.1, hprocessed.2.symm.trans hzero⟩ ?_ rfl rfl rfl rfl rfl rfl
      exact h.history.result (Or.inr ⟨hprocessed.1, hprocessed.2, fun _ => rfl⟩) rfl rfl rfl
    · rw [if_neg hzero]
      have hdone : (s.txn t).processing = .timedout ∨ (s.txn t).processing = .processed :=
        hstate.imp And.left And.left
      have hnew : (s.txn t).processing ≠ .new := by
        intro hnew
        rw [hnew] at hdone
        rcases hdone with hd | hd <;> cases hd
      refine h.leave (t := t) (by rw [hc]; rfl) hdone ?_ rfl rfl (if_pos hnew) rfl rfl rfl
      refine h.history.result (o := ⟨t, errno, []⟩) ?_ rfl rfl rfl
      exact hstate.imp id fun hp => ⟨hp.1, hp.2, fun hz => absurd hz hzero⟩

theorem Proto.cboNotify (c : κ) (status : Bool)
    (hdead : (cboNotify ctx s c status).objs.dead = s.objs.dead) : Proto si ctx (cboNotify ctx s c status) := by
  rw [Txns.cboNotify] at hdead ⊢
  have hfits := h.dispatchers c
  cases hc : s.dispatchers c with
  | waiting t => exact h
  | woken t errno => exact h
  | free =>
    cases hfind : s.cbTxList.find? fun t => (s.txn t).contextId = ctx.id c with
    | some t =>
      have hheld := h.find_notified hfind
      rw [hc] at hheld
      exact absurd hheld (Multiset.notMem_zero t)
    | none =>
      exact h.setDispatcher (x := .free) (by rw [hc]) trivial
        (h.history.later (fun u => .refl _) (fun _ => id) rfl rfl) rfl rfl rfl rfl rfl rfl
  | answered u =>
    rw [hc] at hfits hdead
    cases hfind : s.cbTxList.find? fun t => (s.txn t).contextId = ctx.id c with
    | some t =>
      have hheld := h.find_notified hfind
      rw [hc] at hheld
      obtain rfl := Multiset.mem_singleton.mp hheld
      simp only [hfind] at hdead
      exact h.leave (by rw [hc]; rfl) (Or.inr hfits.2.2.1)
        (h.history.later (fun u => .refl _) (fun _ => id) rfl rfl) rfl rfl rfl rfl rfl hdead
    | none => exact absurd (List.find?_eq_none.mp hfind u hfits.2.1) (by rw [decide_eq_true hfits.1]; decide)

end

end Waits

section New

variable {x : CbTxn}

theorem Proto.fresh (h : Proto si ctx s) : s.nextTxn ∉ s.cbTxList ∧ (s.txn s.nextTxn).processing = .new := by
  refine ⟨fun hmem => Nat.lt_irrefl _ (h.listed _ hmem), ?_⟩
  rw [h.blank s.nextTxn (Nat.le_refl _)]

theorem State.HistoryFits.add (h : s.HistoryFits) (hfresh : (s.txn s.nextTxn).processing = .new)
    (hx : x.processing = .new ∨ x.processing = .pending)
    (htxn : s'.txn = update s.txn s.nextTxn x) (hanswers : s'.answers = s.answers)
    (hresults : s'.results = s.results) : s'.HistoryFits := by
  have hother : ∀ u, (s.txn u).processing = .processed ∨ (s.txn u).processing = .timedout →
      s'.txn u = s.txn u := by
    intro u hu
    have hne : u ≠ s.nextTxn := by
      rintro rfl
      rw [hfresh] at hu
      rcases hu with hp | hp <;> cases hp
    rw [htxn, update_of_ne hne]
  refine ⟨fun a ha => ?_, fun u hu => ?_, ?_, fun o ho => ?_⟩
  · rw [hanswers] at ha
    have hfits := h.answers a ha
    rw [hother a.txn (Or.inl hfits.1)]
    exact hfits
  · rw [hanswers]
    by_cases hut : u = s.nextTxn
    · rw [htxn, hut, update_self] at hu
      rw [hu] at hx
      rcases hx with hp | hp <;> cases hp
    · rw [htxn, update_of_ne hut] at hu
      exact h.processed u hu
  · rw [hanswers]
    exact h.once
  · rw [hresults] at ho
    have hfits := h.results o ho
    rw [hother o.txn (hfits.symm.imp And.left And.left)]
    exact hfits

theorem Proto.add (h : Proto si ctx s) (hheld : ∀ i, ∀ t ∈ (s.threads i).held, t < s.nextTxn)
    (hx : x.processing = .new ∨ x.processing = .pending) (hplain : x.contextId = contextIdAny → x.args = [])
    (htxn : s'.txn = update s.txn s.nextTxn x) (hnext : s'.nextTxn = s.nextTxn + 1)
    (hthreads : s'.threads = s.threads) (hnodup : s'.cbTxList.Nodup)
    (hmem : ∀ t ∈ s'.cbTxList, t ∈ s.cbTxList ∨ t = s.nextTxn ∧ x.processing = .pending)
    (hsub : ∀ t ∈ s.cbTxList, t ∈ s'.cbTxList)
    (hdispatchers : ∀ d, s'.dispatchers d = s.dispatchers d ∨
      s'.dispatchers d = .waiting s.nextTxn ∧ s.dispatchers d = .free ∧ x.contextId = ctx.id d ∧
        s.nextTxn ∈ s'.cbTxList)
    (howner : s.nextTxn ∈ s'.cbTxList → x.contextId ≠ contextIdAny →
      ∃ d, s'.dispatchers d = .waiting s.nextTxn)
    (hanswers : s'.answers = s.answers) (hresults : s'.results = s.results)
    (hdead : s'.objs.dead = s.objs.dead) (hgone : s.objs.dead si = true → s.nextTxn ∉ s'.cbTxList) :
    Proto si ctx s' := by
  obtain ⟨hlist, hfresh⟩ := h.fresh
  have hother : ∀ t, t < s.nextTxn → s'.txn t = s.txn t := fun t ht => by
    rw [htxn, update_of_ne (Nat.ne_of_lt ht)]
  have hself : s'.txn s.nextTxn = x := by rw [htxn, update_self]
  refine ⟨fun t ht => ?_, hnodup, fun t ht => ?_, fun t ht hid => ?_, fun t ht => ?_, fun i => ?_, fun d => ?_,
    ?_, fun t ht hid hp => ?_, fun i j t hid hi hj => ?_, h.history.add hfresh hx htxn hanswers hresults,
    fun hd t ht => ?_⟩
  · rw [hnext] at ht
    rw [htxn, update_of_ne (Nat.ne_of_gt ht)]
    exact h.blank t (Nat.le_of_succ_le ht)
  · rw [hnext]
    rcases hmem t ht with hold | ⟨rfl, -⟩
    · exact Nat.lt_succ_of_lt (h.listed t hold)
    · exact Nat.lt_succ_self _
  · rcases hmem t ht with hold | ⟨rfl, -⟩
    · rw [hother t (h.listed t hold)] at hid
      obtain ⟨d, hd⟩ := h.owner t hold hid
      refine ⟨d, ?_⟩
      rcases hdispatchers d with hsame | ⟨-, hfree, -⟩
      · rw [hsame]
        exact hd
      · rw [hfree] at hd
        exact absurd hd (Multiset.notMem_zero t)
    · rw [hself] at hid
      obtain ⟨d, hd⟩ := howner ht hid
      exact ⟨d, by rw [hd]; exact Multiset.mem_singleton_self _⟩
  · by_cases hts : t = s.nextTxn
    · rw [hts, hself] at ht ⊢
      exact hplain ht
    · rw [htxn, update_of_ne hts] at ht ⊢
      exact h.plain t ht
  · rw [hthreads]
    exact (h.threads i).congr (fun t ht => hother t (hheld i t ht)) fun t _ => hsub t
  · rcases hdispatchers d with hsame | ⟨hwaiting, -, hid, hqueued⟩
    · rw [hsame]
      have hfits := h.dispatchers d
      exact hfits.congr (fun t ht => hother t (h.listed t (hfits.held ht).2)) fun t ht =>
        hsub t (hfits.held ht).2
    · rw [hwaiting]
      have hpending := ((hmem s.nextTxn hqueued).resolve_left hlist).2
      exact ⟨by rw [hself, hid], hqueued, Or.inl (by rw [hself, hpending])⟩
  · rw [hthreads]
    exact h.single
  · rw [hthreads]
    rcases hmem t ht with hold | ⟨rfl, hpending⟩
    · rw [hother t (h.listed t hold)] at hid hp
      exact h.picker t hold hid hp
    · rw [hself] at hp
      exact absurd hpending hp
  · rw [hthreads] at hi hj
    have hlt : t < s.nextTxn := by
      refine hheld i t ?_
      cases hy : s.threads i with
      | picked u =>
        rw [hy] at hi
        exact Multiset.mem_singleton.mpr (Option.some.inj hi).symm
      | parsed u ok =>
        rw [hy] at hi
        exact Multiset.mem_singleton.mpr (Option.some.inj hi).symm
      | user => rw [hy] at hi; cases hi
      | waiting => rw [hy] at hi; cases hi
      | took u r => rw [hy] at hi; cases hi
      | marshalled a => rw [hy] at hi; cases hi
      | settled a ok => rw [hy] at hi; cases hi
    rw [hother t hlt] at hid
    exact h.pickers i j t hid hi hj
  · rw [hdead] at hd
    rcases hmem t ht with hold | ⟨rfl, -⟩
    · rw [hother t (h.listed t hold)]
      exact h.gone hd t hold
    · exact absurd ht (hgone hd)

theorem Proto.dispatch [DecidableEq κ] (h : Proto si ctx s)
    (hheld : ∀ i, ∀ t ∈ (s.threads i).held, t < s.nextTxn) (c : κ) (args : List (Option ℕ)) :
    Proto si ctx (dispatch si ctx s c args) := by
  rw [Txns.dispatch]
  cases hc : s.dispatchers c with
  | waiting t => exact h
  | woken t errno => exact h
  | answered t => exact h
  | free =>
    obtain ⟨hlist, -⟩ := h.fresh
    by_cases hdead : s.objs.dead si = true
    · simp only [cboDispatch, hdead, if_true, Bool.false_eq_true, if_false]
      exact h.add (x := { contextId := ctx.id c, args }) hheld (Or.inl rfl)
        (fun hid => absurd hid (ctx.id_ne_any c)) rfl rfl rfl h.nodup (fun t ht => Or.inl ht) (fun t ht => ht)
        (fun d => Or.inl rfl) (fun hmem => absurd hmem hlist) rfl rfl rfl fun _ => hlist
    · simp only [cboDispatch, hdead, if_true, Bool.false_eq_true, if_false]
      refine h.add (x := { contextId := ctx.id c, args, processing := .pending }) hheld (Or.inr rfl)
        (fun hid => absurd hid (ctx.id_ne_any c)) rfl rfl rfl (nodup_cons.mpr ⟨hlist, h.nodup⟩)
        (fun t ht => ?_) (fun t ht => mem_cons_of_mem _ ht) (fun d => ?_) (fun _ _ => ⟨c, ?_⟩) rfl rfl rfl
        fun hd => absurd hd hdead
      · rcases mem_cons.mp ht with rfl | hold
        · exact Or.inr ⟨rfl, rfl⟩
        · exact Or.inl hold
      · show update s.dispatchers c _ d = _ ∨ update s.dispatchers c _ d = _ ∧ _
        by_cases hdc : d = c
        · rw [hdc, update_self]
          exact Or.inr ⟨rfl, hc, rfl, mem_cons_self⟩
        · rw [update_of_ne hdc]
          exact Or.inl rfl
      · exact update_self ..

theorem Proto.release (h : Proto si ctx s) (hheld : ∀ i, ∀ t ∈ (s.threads i).held, t < s.nextTxn) :
    Proto si ctx (release si s) := by
  obtain ⟨hlist, -⟩ := h.fresh
  rw [Txns.release]
  by_cases hdead : s.objs.dead si = true
  · simp only [cboDispatch, hdead, if_true]
    exact h.add (x := {}) hheld (Or.inl rfl) (fun _ => rfl) rfl rfl rfl h.nodup (fun t ht => Or.inl ht)
      (fun t ht => ht) (fun d => Or.inl rfl) (fun hmem => absurd hmem hlist) rfl rfl rfl fun _ => hlist
  · simp only [cboDispatch, hdead]
    refine h.add (x := { processing := .pending }) hheld (Or.inr rfl) (fun _ => rfl) rfl rfl rfl
      (nodup_cons.mpr ⟨hlist, h.nodup⟩) (fun t ht => ?_) (fun t ht => mem_cons_of_mem _ ht)
      (fun d => Or.inl rfl) (fun _ hid => absurd rfl hid) rfl rfl rfl fun hd => absurd hd hdead
    rcases mem_cons.mp ht with rfl | hold
    · exact Or.inr ⟨rfl, rfl⟩
    · exact Or.inl hold

end New

end

end Smcinvoke.Txns
