import Sm8750Modules.Smcinvoke.TransactionDispatchers
import Sm8750Modules.Smcinvoke.TransactionThreads

/-!
# Callback requests — the references on transactions

A transaction has one reference of its dispatcher or of the list, and one of each thread that works on it.
-/

namespace Smcinvoke.Txns

open RefCounts Runs Function List

section

variable {ι κ : Type*} {si : ℕ} {ctx : Contexts κ} {s s' : State ι κ} {i : ι} {c : κ} {t : ℕ}

theorem queued_congr (hlist : s'.cbTxList = s.cbTxList) (hid : ∀ t, (s'.txn t).contextId = (s.txn t).contextId) :
    s'.queued = s.queued := by
  rw [State.queued, State.queued, hlist]
  exact congrArg _ (filter_congr fun t _ => by rw [hid])

theorem queued_update {y : CbTxn} (hlist : s'.cbTxList = s.cbTxList) (htxn : s'.txn = update s.txn t y)
    (hy : y.contextId = (s.txn t).contextId) : s'.queued = s.queued := by
  refine queued_congr hlist fun u => ?_
  rw [htxn]
  by_cases hut : u = t
  · rw [hut, update_self, hy]
  · rw [update_of_ne hut]

theorem queued_erase (ht : t ∈ s.cbTxList) (hlist : s'.cbTxList = s.cbTxList.erase t) (htxn : s'.txn = s.txn) :
    s.queued = (if (s.txn t).contextId = contextIdAny then {t} else 0) + s'.queued := by
  rw [State.queued, State.queued, hlist, htxn, Multiset.coe_eq_coe.mpr ((perm_cons_erase ht).filter _),
    filter_cons]
  by_cases hany : (s.txn t).contextId = contextIdAny
  · rw [if_pos (decide_eq_true hany), if_pos hany, ← Multiset.cons_coe, Multiset.singleton_add]
  · rw [if_neg (by rw [decide_eq_false hany]; exact Bool.false_ne_true), if_neg hany, zero_add]

theorem queued_cons (hproto : Proto si ctx s) {y : CbTxn} (htxn : s'.txn = update s.txn s.nextTxn y)
    (hlist : s'.cbTxList = s.nextTxn :: s.cbTxList) :
    s'.queued = (if y.contextId = contextIdAny then {s.nextTxn} else 0) + s.queued := by
  have hold : s.cbTxList.filter (fun t => (s'.txn t).contextId = contextIdAny) =
      s.cbTxList.filter fun t => (s.txn t).contextId = contextIdAny := by
    refine filter_congr fun t ht => ?_
    rw [htxn, update_of_ne (Nat.ne_of_lt (hproto.listed t ht))]
  have hself : s'.txn s.nextTxn = y := by rw [htxn, update_self]
  rw [State.queued, State.queued, hlist, filter_cons, hold, hself]
  by_cases hany : y.contextId = contextIdAny
  · rw [if_pos (decide_eq_true hany), if_pos hany, ← Multiset.cons_coe, Multiset.singleton_add]
  · rw [if_neg (by rw [decide_eq_false hany]; exact Bool.false_ne_true), if_neg hany, zero_add]

theorem queued_same (hproto : Proto si ctx s) {y : CbTxn} (htxn : s'.txn = update s.txn s.nextTxn y)
    (hlist : s'.cbTxList = s.cbTxList) : s'.queued = s.queued := by
  rw [State.queued, State.queued, hlist]
  refine congrArg _ (filter_congr fun t ht => ?_)
  rw [htxn, update_of_ne (Nat.ne_of_lt (hproto.listed t ht))]

variable [Fintype ι] [Fintype κ]

theorem holders_congr (hthreads : s'.threads = s.threads) (hdispatchers : s'.dispatchers = s.dispatchers)
    (hqueued : s'.queued = s.queued) : s'.holders = s.holders := by
  rw [State.holders, State.holders, hthreads, hdispatchers, hqueued]

theorem holders_setThread [DecidableEq ι] {x : Thread} (hthreads : s'.threads = update s.threads i x)
    (hdispatchers : s'.dispatchers = s.dispatchers) (hqueued : s'.queued = s.queued) :
    s'.holders + (s.threads i).held = s.holders + x.held := by
  have hsum := sum_update Thread.held s.threads i x
  rw [State.holders, State.holders, hdispatchers, hqueued, hthreads]
  calc ∑ j, (update s.threads i x j).held + ∑ d, (s.dispatchers d).held + s.queued + (s.threads i).held
      = ∑ j, (update s.threads i x j).held + (s.threads i).held +
        (∑ d, (s.dispatchers d).held + s.queued) := by abel
    _ = ∑ j, (s.threads j).held + ∑ d, (s.dispatchers d).held + s.queued + x.held := by
      rw [hsum]
      abel

theorem holders_setDispatcher [DecidableEq κ] {x : Dispatcher}
    (hdispatchers : s'.dispatchers = update s.dispatchers c x) (hthreads : s'.threads = s.threads)
    (hqueued : s'.queued = s.queued) : s'.holders + (s.dispatchers c).held = s.holders + x.held := by
  have hsum := sum_update Dispatcher.held s.dispatchers c x
  rw [State.holders, State.holders, hqueued, hthreads, hdispatchers]
  calc ∑ j, (s.threads j).held + ∑ d, (update s.dispatchers c x d).held + s.queued +
        (s.dispatchers c).held
      = ∑ d, (update s.dispatchers c x d).held + (s.dispatchers c).held +
        (∑ j, (s.threads j).held + s.queued) := by abel
    _ = ∑ j, (s.threads j).held + ∑ d, (s.dispatchers d).held + s.queued + x.held := by
      rw [hsum]
      abel

/-- The counts are those of who is going to put the transactions, and all that were made are live or freed. -/
structure Counted (s : State ι κ) : Prop where
  txns : s.txns.Balanced s.holders
  known : ∀ t, t < s.nextTxn ↔ t ∈ s.txns.live ∨ t ∈ s.txns.freed

section

variable (h : Counted s)
include h

theorem Counted.held_lt : ∀ i, ∀ t ∈ (s.threads i).held, t < s.nextTxn := by
  intro i t ht
  refine (h.known t).mpr (Or.inl ((h.txns.mem_live t).mpr ?_))
  rw [State.holders, Multiset.mem_add, Multiset.mem_add]
  exact Or.inl (Or.inl (Multiset.mem_sum.mpr ⟨i, Finset.mem_univ i, ht⟩))

theorem Counted.listed (hproto : Proto si ctx s) (ht : t ∈ s.cbTxList) : t ∈ s.txns.live := by
  refine (h.txns.mem_live t).mpr ?_
  rw [State.holders, Multiset.mem_add, Multiset.mem_add]
  by_cases hany : (s.txn t).contextId = contextIdAny
  · exact Or.inr (Multiset.mem_coe.mpr (mem_filter.mpr ⟨ht, decide_eq_true hany⟩))
  · obtain ⟨c, hc⟩ := hproto.owner t ht hany
    exact Or.inl (Or.inr (Multiset.mem_sum.mpr ⟨c, Finset.mem_univ c, hc⟩))

theorem Counted.keep (htxns : s'.txns = s.txns) (hnext : s'.nextTxn = s.nextTxn)
    (hholders : s'.holders = s.holders) : Counted s' where
  txns := by
    rw [htxns, hholders]
    exact h.txns
  known := by
    rw [htxns, hnext]
    exact h.known

theorem Counted.get (ht : t ∈ s.txns.live) (htxns : s'.txns = s.txns.get t)
    (hnext : s'.nextTxn = s.nextTxn) (hholders : s'.holders = t ::ₘ s.holders) : Counted s' where
  txns := by
    rw [htxns, hholders]
    exact h.txns.get ht
  known := by
    rw [htxns, hnext]
    exact h.known

theorem Counted.put (htxns : s'.txns = s.txns.put t) (hnext : s'.nextTxn = s.nextTxn)
    (hholders : s.holders = t ::ₘ s'.holders) : Counted s' := by
  have hbal := h.txns
  rw [hholders] at hbal
  refine ⟨?_, fun u => ?_⟩
  · have hput := hbal.put (Multiset.mem_cons_self t _)
    rw [Multiset.erase_cons_head] at hput
    rw [htxns]
    exact hput
  · rw [htxns, hnext, hbal.mem_put (Multiset.mem_cons_self t _)]
    exact h.known u

theorem Counted.add (htxns : s'.txns = s.txns.add s.nextTxn)
    (hnext : s'.nextTxn = s.nextTxn + 1) (hholders : s'.holders = s.nextTxn ::ₘ s.holders) : Counted s' := by
  have hnew := (h.known s.nextTxn).not.mp (Nat.lt_irrefl _)
  rw [not_or] at hnew
  refine ⟨?_, fun u => ?_⟩
  · rw [htxns, hholders]
    exact h.txns.add hnew.1 hnew.2
  · rw [htxns, hnext, Nat.lt_succ_iff_lt_or_eq, h.known u]
    show _ ↔ u ∈ s.txns.live ++ [s.nextTxn] ∨ u ∈ s.txns.freed
    rw [mem_append, mem_singleton]
    tauto

theorem Counted.addPut (htxns : s'.txns = (s.txns.add s.nextTxn).put s.nextTxn)
    (hnext : s'.nextTxn = s.nextTxn + 1) (hholders : s'.holders = s.holders) : Counted s' := by
  have hnew := (h.known s.nextTxn).not.mp (Nat.lt_irrefl _)
  rw [not_or] at hnew
  have hadd := h.txns.add hnew.1 hnew.2
  have hput := hadd.put (Multiset.mem_cons_self _ _)
  rw [Multiset.erase_cons_head] at hput
  refine ⟨by rw [htxns, hholders]; exact hput, fun u => ?_⟩
  rw [htxns, hnext, hadd.mem_put (Multiset.mem_cons_self _ _), Nat.lt_succ_iff_lt_or_eq, h.known u]
  show _ ↔ u ∈ s.txns.live ++ [s.nextTxn] ∨ u ∈ s.txns.freed
  rw [mem_append, mem_singleton]
  tauto

theorem Counted.addQueued (hproto : Proto si ctx s) {y : CbTxn} (hy : y.contextId = contextIdAny)
    (htxns : s'.txns = s.txns.add s.nextTxn) (hnext : s'.nextTxn = s.nextTxn + 1)
    (htxn : s'.txn = update s.txn s.nextTxn y) (hlist : s'.cbTxList = s.nextTxn :: s.cbTxList)
    (hdispatchers : s'.dispatchers = s.dispatchers) (hthreads : s'.threads = s.threads) : Counted s' := by
  have hqueued := queued_cons hproto htxn hlist
  rw [if_pos hy, Multiset.singleton_add] at hqueued
  refine h.add htxns hnext ?_
  rw [State.holders, State.holders, hthreads, hdispatchers, hqueued, Multiset.add_cons]

theorem Counted.release (hproto : Proto si ctx s) : Counted (release si s) := by
  rw [Txns.release]
  by_cases hdead : s.objs.dead si = true
  · simp only [cboDispatch, hdead, if_true]
    exact h.addPut rfl rfl (holders_congr rfl rfl (queued_same hproto rfl rfl))
  · simp only [cboDispatch, hdead, Bool.false_eq_true, if_false]
    exact h.addQueued hproto (y := { processing := .pending }) rfl rfl rfl rfl rfl rfl rfl

end

/-! ## The steps of threads -/

section Threads

variable [DecidableEq ι] {x : Thread}

theorem Counted.threadKeep (h : Counted s) (hx : x.held = (s.threads i).held) (htxns : s'.txns = s.txns)
    (hnext : s'.nextTxn = s.nextTxn) (hthreads : s'.threads = update s.threads i x)
    (hdispatchers : s'.dispatchers = s.dispatchers) (hqueued : s'.queued = s.queued) : Counted s' := by
  have hholders := holders_setThread hthreads hdispatchers hqueued
  rw [hx] at hholders
  exact h.keep htxns hnext (add_right_cancel hholders)

theorem Counted.threadGet (h : Counted s) (hi : (s.threads i).held = 0) (hx : x.held = {t})
    (ht : t ∈ s.txns.live) (htxns : s'.txns = s.txns.get t) (hnext : s'.nextTxn = s.nextTxn)
    (hthreads : s'.threads = update s.threads i x) (hdispatchers : s'.dispatchers = s.dispatchers)
    (hqueued : s'.queued = s.queued) : Counted s' := by
  have hholders := holders_setThread hthreads hdispatchers hqueued
  rw [hi, hx, add_zero, add_comm, Multiset.singleton_add] at hholders
  exact h.get ht htxns hnext hholders

theorem Counted.threadPut (h : Counted s) (hi : (s.threads i).held = {t}) (hx : x.held = 0)
    (htxns : s'.txns = s.txns.put t) (hnext : s'.nextTxn = s.nextTxn)
    (hthreads : s'.threads = update s.threads i x) (hdispatchers : s'.dispatchers = s.dispatchers)
    (hqueued : s'.queued = s.queued) : Counted s' := by
  have hholders := holders_setThread hthreads hdispatchers hqueued
  rw [hi, hx, add_zero, add_comm, Multiset.singleton_add] at hholders
  exact h.put htxns hnext hholders.symm

theorem after_held (ok : Bool) : (after ok).held = 0 := by
  rcases after_eq ok with hok | hok
  · rw [hok]
    rfl
  · rw [hok]
    rfl

section

variable (h : Counted s)
include h

theorem Counted.accept (i : ι) : Counted (accept s i) := by
  rw [Txns.accept]
  split
  · rename_i hi
    exact h.threadKeep (x := .waiting) (by rw [hi]; rfl) rfl rfl rfl rfl rfl
  · exact h

theorem Counted.signal (i : ι) : Counted (signal s i) := by
  rw [Txns.signal]
  split
  · rename_i hi
    exact h.threadKeep (x := .user) (by rw [hi]; rfl) rfl rfl rfl rfl rfl
  · exact h

theorem Counted.submit (hproto : Proto si ctx s) (i : ι) (r : Response) : Counted (submit s i r) := by
  rw [Txns.submit]
  split
  · rename_i hi
    by_cases hzero : r.txnId = 0
    · rw [if_pos hzero]
      exact h.threadKeep (x := .waiting) (by rw [hi]; rfl) rfl rfl rfl rfl rfl
    · rw [if_neg hzero]
      split
      · rename_i t ht
        exact h.threadGet (x := .took t r) (by rw [hi]; rfl) rfl (h.listed hproto (getTxn_some ht).1) rfl rfl rfl
          rfl rfl
      · exact h.threadKeep (x := .waiting) (by rw [hi]; rfl) rfl rfl rfl rfl rfl
  · exact h

theorem Counted.marshal (i : ι) (files : Files) : Counted (marshal s i files) := by
  rw [Txns.marshal]
  split
  · rename_i t r hi
    exact h.threadKeep (x := .marshalled _) (by rw [hi]; rfl) rfl rfl rfl rfl (queued_update rfl rfl rfl)
  · exact h

theorem Counted.settle (i : ι) : Counted (settle s i) := by
  rw [Txns.settle]
  split
  · rename_i a hi
    split
    · rename_i y hy
      simp only [setTxnState] at hy
      split_ifs at hy
      obtain rfl := Option.some.inj hy
      exact h.threadKeep (x := .settled a true) (by rw [hi]; rfl) rfl rfl rfl rfl (queued_update rfl rfl rfl)
    · exact h.threadKeep (x := .settled a false) (by rw [hi]; rfl) rfl rfl rfl rfl rfl
  · exact h

theorem Counted.finish (i : ι) : Counted (finish s i) := by
  rw [Txns.finish]
  split
  · rename_i a hi
    exact h.threadPut (x := .waiting) (by rw [hi]; rfl) rfl rfl rfl rfl rfl rfl
  · rename_i a hi
    exact h.threadPut (x := .waiting) (by rw [hi]; rfl) rfl rfl rfl rfl rfl rfl
  · exact h

theorem Counted.pick (hproto : Proto si ctx s) (i : ι) : Counted (pick s i) := by
  rw [Txns.pick]
  split
  · rename_i hi
    split
    · rename_i t ht
      obtain ⟨hlist, -, hstate⟩ := getTxn_some ht
      have hpending : (s.txn t).processing = .pending :=
        (hstate.resolve_right fun hp => Xst.noConfusion hp.1).2
      refine h.threadGet (x := .picked t) (by rw [hi]; rfl) rfl (h.listed hproto hlist) rfl rfl rfl rfl
        (queued_update rfl rfl ?_)
      rw [setTxnState, if_pos hpending]
      rfl
    · exact h
  · exact h

theorem Counted.parse (i : ι) (ok : Bool) : Counted (parse s i ok) := by
  rw [Txns.parse]
  split
  · rename_i t hi
    by_cases hany : (s.txn t).contextId = contextIdAny
    · rw [if_pos hany]
      exact h.threadKeep (x := .parsed t ok) (by rw [hi]; rfl) rfl rfl rfl rfl rfl
    · rw [if_neg hany]
      exact h.threadPut (x := after ok) (by rw [hi]; rfl) (after_held ok) rfl rfl rfl rfl rfl
  · exact h

theorem Counted.dequeue (hproto : Proto si ctx s) (i : ι) : Counted (dequeue s i) := by
  rw [Txns.dequeue]
  split
  · rename_i t ok hi
    obtain ⟨hany, hclaim⟩ : (s.txn t).contextId = contextIdAny ∧ s.Claimed t := by
      have hfits := hproto.threads i
      rwa [hi] at hfits
    have hnew : (s.txn t).processing ≠ .new := by
      intro hnew
      have hstate := hclaim.state
      rw [hnew] at hstate
      rcases hstate with hp | hp <;> cases hp
    have hlist : (s.dequeueAndPutTxn t).cbTxList = s.cbTxList.erase t := if_pos hnew
    have hqueued := queued_erase hclaim.listed hlist rfl
    rw [if_pos hany, Multiset.singleton_add] at hqueued
    have hfirst : Counted (s.dequeueAndPutTxn t) := by
      refine h.put rfl rfl ?_
      rw [State.holders, State.holders, hqueued, Multiset.add_cons]
      rfl
    exact hfirst.threadPut (i := i) (t := t) (x := after ok) (by show (s.threads i).held = _; rw [hi]; rfl)
      (after_held ok) rfl rfl rfl rfl rfl
  · exact h

end

end Threads

section Dispatchers

variable [DecidableEq κ] {x : Dispatcher}

section

variable (h : Counted s)
include h

theorem Counted.dispatcherKeep (hx : x.held = (s.dispatchers c).held) (htxns : s'.txns = s.txns)
    (hnext : s'.nextTxn = s.nextTxn) (hdispatchers : s'.dispatchers = update s.dispatchers c x)
    (hthreads : s'.threads = s.threads) (hqueued : s'.queued = s.queued) : Counted s' := by
  have hholders := holders_setDispatcher hdispatchers hthreads hqueued
  rw [hx] at hholders
  exact h.keep htxns hnext (add_right_cancel hholders)

theorem Counted.leave (hproto : Proto si ctx s) (hc : (s.dispatchers c).held = {t})
    (htxns : s'.txns = s.txns.put t) (hnext : s'.nextTxn = s.nextTxn)
    (hdispatchers : s'.dispatchers = update s.dispatchers c .free) (hthreads : s'.threads = s.threads)
    (hlist : s'.cbTxList = s.cbTxList.erase t) (htxn : s'.txn = s.txn) : Counted s' := by
  obtain ⟨hid, hmem⟩ := (hproto.dispatchers c).held (by rw [hc]; exact Multiset.mem_singleton_self t)
  have hqueued := queued_erase hmem hlist htxn
  rw [if_neg (hid ▸ ctx.id_ne_any c), zero_add] at hqueued
  have hholders := holders_setDispatcher hdispatchers hthreads hqueued.symm
  have hfree : Dispatcher.free.held = 0 := rfl
  rw [hc, hfree, add_zero, add_comm, Multiset.singleton_add] at hholders
  exact h.put htxns hnext hholders.symm

theorem Counted.wake (c : κ) : Counted (wake s c) := by
  rw [Txns.wake]
  cases hc : s.dispatchers c with
  | free => exact h
  | woken t errno => exact h
  | answered t => exact h
  | waiting t =>
    dsimp only
    split
    · rename_i y hy
      simp only [setTxnState] at hy
      split_ifs at hy
      obtain rfl := Option.some.inj hy
      exact h.dispatcherKeep (x := .woken t erestartsys) (by rw [hc]; rfl) rfl rfl rfl rfl
        (queued_update rfl rfl rfl)
    · exact h.dispatcherKeep (x := .woken t (s.txn t).errno) (by rw [hc]; rfl) rfl rfl rfl rfl rfl

theorem Counted.exit (hproto : Proto si ctx s) (c : κ) : Counted (exit s c) := by
  rw [Txns.exit]
  cases hc : s.dispatchers c with
  | free => exact h
  | waiting t => exact h
  | answered t => exact h
  | woken t errno =>
    dsimp only
    by_cases hzero : errno = 0
    · rw [if_pos hzero]
      exact h.dispatcherKeep (x := .answered t) (by rw [hc]; rfl) rfl rfl rfl rfl rfl
    · rw [if_neg hzero]
      have hfits := hproto.dispatchers c
      rw [hc] at hfits
      have hnew : (s.txn t).processing ≠ .new := by
        intro hnew
        have hstate := hfits.2.2
        rw [hnew] at hstate
        rcases hstate with hp | hp <;> cases hp.1
      exact h.leave hproto (by rw [hc]; rfl) rfl rfl rfl rfl (if_pos hnew) rfl

theorem Counted.cboNotify (hproto : Proto si ctx s) (c : κ) (status : Bool) :
    Counted (cboNotify ctx s c status) := by
  rw [Txns.cboNotify]
  have hfits := hproto.dispatchers c
  cases hc : s.dispatchers c with
  | waiting t => exact h
  | woken t errno => exact h
  | free =>
    cases hfind : s.cbTxList.find? fun t => (s.txn t).contextId = ctx.id c with
    | some t =>
      have hheld := hproto.find_notified hfind
      rw [hc] at hheld
      exact absurd hheld (Multiset.notMem_zero t)
    | none => exact h.dispatcherKeep (x := .free) (by rw [hc]) rfl rfl rfl rfl rfl
  | answered u =>
    rw [hc] at hfits
    cases hfind : s.cbTxList.find? fun t => (s.txn t).contextId = ctx.id c with
    | some t =>
      have hheld := hproto.find_notified hfind
      rw [hc] at hheld
      obtain rfl := Multiset.mem_singleton.mp hheld
      exact h.leave hproto (by rw [hc]; rfl) rfl rfl rfl rfl rfl rfl
    | none => exact absurd (List.find?_eq_none.mp hfind u hfits.2.1) (by rw [decide_eq_true hfits.1]; decide)

theorem Counted.addWaiting (hproto : Proto si ctx s) {y : CbTxn} (hy : y.contextId ≠ contextIdAny)
    (hc : (s.dispatchers c).held = 0) (htxns : s'.txns = s.txns.add s.nextTxn)
    (hnext : s'.nextTxn = s.nextTxn + 1) (htxn : s'.txn = update s.txn s.nextTxn y)
    (hlist : s'.cbTxList = s.nextTxn :: s.cbTxList)
    (hdispatchers : s'.dispatchers = update s.dispatchers c (.waiting s.nextTxn))
    (hthreads : s'.threads = s.threads) : Counted s' := by
  have hqueued := queued_cons hproto htxn hlist
  rw [if_neg hy, zero_add] at hqueued
  have hholders := holders_setDispatcher hdispatchers hthreads hqueued
  have hwaiting : (Dispatcher.waiting s.nextTxn).held = {s.nextTxn} := rfl
  rw [hc, add_zero, hwaiting, add_comm, Multiset.singleton_add] at hholders
  exact h.add htxns hnext hholders

theorem Counted.dispatch (hproto : Proto si ctx s) (c : κ) (args : List (Option ℕ)) :
    Counted (dispatch si ctx s c args) := by
  rw [Txns.dispatch]
  cases hc : s.dispatchers c with
  | waiting t => exact h
  | woken t errno => exact h
  | answered t => exact h
  | free =>
    by_cases hdead : s.objs.dead si = true
    · simp only [cboDispatch, hdead, if_true, Bool.false_eq_true, if_false]
      exact h.addPut rfl rfl (holders_congr rfl rfl (queued_same hproto rfl rfl))
    · simp only [cboDispatch, hdead, if_true, Bool.false_eq_true, if_false]
      exact h.addWaiting hproto (y := { contextId := ctx.id c, args, processing := .pending })
        (ctx.id_ne_any c) (by rw [hc]; rfl) rfl rfl rfl rfl rfl rfl

end

end Dispatchers

theorem Counted.serverRelease (h : Counted s) (hproto : Proto si ctx s) (hthreads : ∀ i, s.threads i = .user) :
    Counted (Txns.serverRelease si s) := by
  have hrest : (Txns.serverRelease si s).queued = 0 := by
    rw [State.queued, Multiset.coe_eq_zero, filter_eq_nil_iff]
    intro t ht hany
    obtain ⟨hmem, hclaimed⟩ := mem_filter.mp ht
    rw [hproto.unclaimed hthreads hmem (of_decide_eq_true hany)] at hclaimed
    cases hclaimed
  have hqueued : s.queued = ↑(s.cbTxList.filter s.unclaimed) := by
    rw [State.queued]
    refine congrArg _ (filter_congr fun t ht => ?_)
    by_cases hany : (s.txn t).contextId = contextIdAny
    · rw [hproto.unclaimed hthreads ht hany, decide_eq_true hany]
    · rw [decide_eq_false hany]
      exact (decide_eq_false fun hunclaimed => hany hunclaimed.1).symm
  have hnone : ∑ i, (s.threads i).held = 0 :=
    Finset.sum_eq_zero fun i _ => by rw [hthreads i]; rfl
  have hholders : s.holders = (Txns.serverRelease si s).holders + ↑(s.cbTxList.filter s.unclaimed) := by
    rw [State.holders, State.holders, hrest, add_zero, hqueued]
    rfl
  have hle : (↑(s.cbTxList.filter s.unclaimed) : Multiset ℕ) ≤ s.holders := by
    rw [hholders]
    exact Multiset.le_add_left _ _
  have hone : ∀ t ∈ s.cbTxList.filter s.unclaimed, s.txns.refs t = 1 := by
    intro t ht
    have hmem := Multiset.mem_of_le hle (Multiset.mem_coe.mpr ht)
    have hunclaimed : (s.txn t).contextId = contextIdAny ∧ (s.txn t).processing = .pending :=
      of_decide_eq_true (mem_filter.mp ht).2
    rw [h.txns.refs t hmem, State.holders, hnone, zero_add, hqueued, Multiset.count_add,
      Multiset.count_eq_one_of_mem (Multiset.coe_nodup.mpr (hproto.nodup.filter _)) (Multiset.mem_coe.mpr ht),
      Multiset.count_eq_zero_of_notMem fun hsum => ?_]
    obtain ⟨c, -, hc⟩ := Multiset.mem_sum.mp hsum
    exact ctx.id_ne_any c (((hproto.dispatchers c).held hc).1.symm.trans hunclaimed.1)
  have hfrees : (Txns.serverRelease si s).txns = s.txns.puts (s.cbTxList.filter s.unclaimed) :=
    (s.txns.puts_eq_frees hone).symm
  have hputs := h.txns.puts hle
  refine ⟨?_, fun t => ?_⟩
  · rw [hfrees]
    rw [hholders, add_tsub_cancel_right] at hputs
    exact hputs
  · rw [hfrees, h.txns.mem_puts hle]
    exact h.known t

end

end Smcinvoke.Txns
