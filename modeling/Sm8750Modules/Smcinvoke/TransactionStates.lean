import Sm8750Modules.Smcinvoke.Transactions

/-!
# Callback requests — the states of transactions

What the threads of a server and the dispatchers know about the transactions they work on. A transaction that
was answered or timed out does not change any more, and while a response is submitted no other one is.
-/

namespace Smcinvoke.Txns

open RefCounts Runs Function

def Thread.responding : Thread → Option ℕ
  | .took t _ => some t
  | .marshalled a | .settled a _ => some a.txn
  | .user | .waiting | .picked _ | .parsed _ _ => none

def Thread.picking : Thread → Option ℕ
  | .picked t | .parsed t _ => some t
  | .user | .took _ _ | .marshalled _ | .settled _ _ | .waiting => none

section

variable {ι κ : Type*}

/-- The transaction of a response that was taken up and not settled. -/
structure State.Submitted (s : State ι κ) (t : ℕ) (r : Response) : Prop where
  state : (s.txn t).processing = .processing ∨ (s.txn t).processing = .timedout
  listed : (s.txn t).contextId ≠ contextIdAny → (s.txn t).processing = .processing → t ∈ s.cbTxList
  id : r.txnId < 2 ^ 32 → r.txnId = (s.txn t).contextId

/-- A request that nobody waits for after it was picked. -/
structure State.Claimed (s : State ι κ) (t : ℕ) : Prop where
  listed : t ∈ s.cbTxList
  state : (s.txn t).processing = .processing ∨ (s.txn t).processing = .processed

def State.ThreadFits (s : State ι κ) : Thread → Prop
  | .user | .waiting => True
  | .took t r => s.Submitted t r
  | .marshalled a => s.Submitted a.txn a.response ∧ (s.txn a.txn).errno = a.errno ∧
      (a.errno = 0 → (s.txn a.txn).args = a.args)
  | .settled a true => (s.txn a.txn).processing = .processed
  | .settled a false => (s.txn a.txn).processing = .timedout ∧ (a.errno = 0 → (s.txn a.txn).args = a.args)
  | .picked t => (s.txn t).contextId = contextIdAny → s.Claimed t
  | .parsed t _ => (s.txn t).contextId = contextIdAny ∧ s.Claimed t

def State.DispatcherFits (s : State ι κ) (ctx : Contexts κ) (c : κ) : Dispatcher → Prop
  | .free => True
  | .waiting t => (s.txn t).contextId = ctx.id c ∧ t ∈ s.cbTxList ∧
      ((s.txn t).processing = .pending ∨ (s.txn t).processing = .processing ∨
        (s.txn t).processing = .processed)
  | .woken t errno => (s.txn t).contextId = ctx.id c ∧ t ∈ s.cbTxList ∧
      ((s.txn t).processing = .timedout ∧ errno = erestartsys ∨
        (s.txn t).processing = .processed ∧ errno = (s.txn t).errno)
  | .answered t => (s.txn t).contextId = ctx.id c ∧ t ∈ s.cbTxList ∧
      (s.txn t).processing = .processed ∧ (s.txn t).errno = 0

/-- The responses that counted, and the results. -/
structure State.HistoryFits (s : State ι κ) : Prop where
  answers : ∀ a ∈ s.answers, (s.txn a.txn).processing = .processed ∧ (s.txn a.txn).errno = a.errno ∧
    (a.errno = 0 → (s.txn a.txn).args = a.args) ∧
    (a.response.txnId < 2 ^ 32 → a.response.txnId = (s.txn a.txn).contextId)
  processed : ∀ t, (s.txn t).processing = .processed → ∃ a ∈ s.answers, a.txn = t
  once : (s.answers.map Answer.txn).Nodup
  results : ∀ o ∈ s.results, (s.txn o.txn).processing = .timedout ∧ o.errno = erestartsys ∨
    (s.txn o.txn).processing = .processed ∧ o.errno = (s.txn o.txn).errno ∧
      (o.errno = 0 → o.args = (s.txn o.txn).args)

/-- **The invariant of the states**. -/
structure Proto (si : ℕ) (ctx : Contexts κ) (s : State ι κ) : Prop where
  blank : ∀ t, s.nextTxn ≤ t → s.txn t = {}
  nodup : s.cbTxList.Nodup
  listed : ∀ t ∈ s.cbTxList, t < s.nextTxn
  owner : ∀ t ∈ s.cbTxList, (s.txn t).contextId ≠ contextIdAny → ∃ c, t ∈ (s.dispatchers c).held
  plain : ∀ t, (s.txn t).contextId = contextIdAny → (s.txn t).args = []
  threads : ∀ i, s.ThreadFits (s.threads i)
  dispatchers : ∀ c, s.DispatcherFits ctx c (s.dispatchers c)
  single : ∀ i j t, (s.threads i).responding = some t → (s.threads j).responding = some t → i = j
  picker : ∀ t ∈ s.cbTxList, (s.txn t).contextId = contextIdAny → (s.txn t).processing ≠ .pending →
    ∃ i, (s.threads i).picking = some t
  pickers : ∀ i j t, (s.txn t).contextId = contextIdAny → (s.threads i).picking = some t →
    (s.threads j).picking = some t → i = j
  history : s.HistoryFits
  gone : s.objs.dead si = true → ∀ t ∈ s.cbTxList, (s.txn t).contextId ≠ contextIdAny

variable {si : ℕ} {ctx : Contexts κ} {s s' : State ι κ}

theorem forall_update {α β : Type*} [DecidableEq α] {f : α → β} {P : α → β → Prop} {a : α} {x : β}
    (h : ∀ b, P b (f b)) (hx : P a x) (b : α) : P b (update f a x b) := by
  by_cases hba : b = a
  · rw [hba, update_self]
    exact hx
  · rw [update_of_ne hba]
    exact h b

theorem State.ThreadFits.congr {x : Thread} (h : s.ThreadFits x) (htxn : ∀ t ∈ x.held, s'.txn t = s.txn t)
    (hlist : ∀ t ∈ x.held, t ∈ s.cbTxList → t ∈ s'.cbTxList) : s'.ThreadFits x := by
  cases x with
  | user => trivial
  | waiting => trivial
  | took t r =>
    have ht := htxn t (Multiset.mem_singleton_self t)
    exact ⟨ht ▸ h.state, fun hid hp => hlist t (Multiset.mem_singleton_self t) (h.listed (ht ▸ hid) (ht ▸ hp)),
      fun hr => ht ▸ h.id hr⟩
  | marshalled a =>
    have ht := htxn a.txn (Multiset.mem_singleton_self _)
    obtain ⟨hsub, herrno, hargs⟩ := h
    exact ⟨⟨ht ▸ hsub.state, fun hid hp =>
      hlist a.txn (Multiset.mem_singleton_self _) (hsub.listed (ht ▸ hid) (ht ▸ hp)),
      fun hr => ht ▸ hsub.id hr⟩, ht ▸ herrno, fun hz => ht ▸ hargs hz⟩
  | settled a ok =>
    have ht := htxn a.txn (Multiset.mem_singleton_self _)
    cases ok with
    | true =>
      show (s'.txn a.txn).processing = .processed
      rw [ht]
      exact h
    | false => exact ⟨ht ▸ h.1, fun hz => ht ▸ h.2 hz⟩
  | picked t =>
    have ht := htxn t (Multiset.mem_singleton_self t)
    intro hid
    have hclaimed := h (ht ▸ hid)
    exact ⟨hlist t (Multiset.mem_singleton_self t) hclaimed.listed, ht ▸ hclaimed.state⟩
  | parsed t ok =>
    have ht := htxn t (Multiset.mem_singleton_self t)
    exact ⟨ht ▸ h.1, hlist t (Multiset.mem_singleton_self t) h.2.listed, ht ▸ h.2.state⟩

theorem State.DispatcherFits.congr {c : κ} {x : Dispatcher} (h : s.DispatcherFits ctx c x)
    (htxn : ∀ t ∈ x.held, s'.txn t = s.txn t) (hlist : ∀ t ∈ x.held, t ∈ s'.cbTxList) :
    s'.DispatcherFits ctx c x := by
  cases x with
  | free => trivial
  | waiting t =>
    have ht := htxn t (Multiset.mem_singleton_self t)
    exact ⟨ht ▸ h.1, hlist t (Multiset.mem_singleton_self t), ht ▸ h.2.2⟩
  | woken t errno =>
    have ht := htxn t (Multiset.mem_singleton_self t)
    exact ⟨ht ▸ h.1, hlist t (Multiset.mem_singleton_self t), ht ▸ h.2.2⟩
  | answered t =>
    have ht := htxn t (Multiset.mem_singleton_self t)
    exact ⟨ht ▸ h.1, hlist t (Multiset.mem_singleton_self t), ht ▸ h.2.2⟩

theorem State.DispatcherFits.held {c : κ} {x : Dispatcher} (h : s.DispatcherFits ctx c x) {t : ℕ}
    (ht : t ∈ x.held) : (s.txn t).contextId = ctx.id c ∧ t ∈ s.cbTxList := by
  cases x with
  | free => exact absurd ht (Multiset.notMem_zero t)
  | waiting u => exact Multiset.mem_singleton.mp ht ▸ ⟨h.1, h.2.1⟩
  | woken u errno => exact Multiset.mem_singleton.mp ht ▸ ⟨h.1, h.2.1⟩
  | answered u => exact Multiset.mem_singleton.mp ht ▸ ⟨h.1, h.2.1⟩

theorem Proto.dispatcher_unique (h : Proto si ctx s) {c d : κ} {t : ℕ} (hc : t ∈ (s.dispatchers c).held)
    (hd : t ∈ (s.dispatchers d).held) : c = d :=
  ctx.id_injective (((h.dispatchers c).held hc).1.symm.trans ((h.dispatchers d).held hd).1)

theorem Proto.find_notified (h : Proto si ctx s) {t : ℕ}
    (ht : s.cbTxList.find? (fun t => (s.txn t).contextId = ctx.id c) = some t) : t ∈ (s.dispatchers c).held := by
  have hid := List.find?_some ht
  rw [decide_eq_true_eq] at hid
  obtain ⟨d, hd⟩ := h.owner t (List.mem_of_find?_eq_some ht) (hid ▸ ctx.id_ne_any c)
  have hdc : d = c := ctx.id_injective (((h.dispatchers d).held hd).1.symm.trans hid)
  exact hdc ▸ hd

/-- What a transaction turns into: its identifier stays, once it was answered it stays as it is, and once it timed
out it stays so. -/
structure Later (x x' : CbTxn) : Prop where
  contextId : x'.contextId = x.contextId
  processed : x.processing = .processed → x' = x
  timedout : x.processing = .timedout → x'.processing = .timedout

theorem State.HistoryFits.later (h : s.HistoryFits) (hlater : ∀ t, Later (s.txn t) (s'.txn t))
    (hprocessed : ∀ t, (s'.txn t).processing = .processed → (s.txn t).processing = .processed)
    (hanswers : s'.answers = s.answers) (hresults : s'.results = s.results) : s'.HistoryFits where
  answers := by
    intro a ha
    rw [hanswers] at ha
    have hfits := h.answers a ha
    rw [(hlater a.txn).processed hfits.1]
    exact hfits
  processed := by
    rw [hanswers]
    exact fun t ht => h.processed t (hprocessed t ht)
  once := by
    rw [hanswers]
    exact h.once
  results := by
    intro o ho
    rw [hresults] at ho
    rcases h.results o ho with ⟨htimedout, herrno⟩ | ⟨hprocessed', hresult⟩
    · exact Or.inl ⟨(hlater o.txn).timedout htimedout, herrno⟩
    · refine Or.inr ?_
      rw [(hlater o.txn).processed hprocessed']
      exact ⟨hprocessed', hresult⟩

theorem Later.refl (x : CbTxn) : Later x x := ⟨rfl, fun _ => rfl, id⟩

theorem later_update {t : ℕ} {x : CbTxn} (h : Later (s.txn t) x) (u : ℕ) :
    Later (s.txn u) (update s.txn t x u) :=
  forall_update (P := fun u y => Later (s.txn u) y) (fun u => Later.refl (s.txn u)) h u

/-- The transactions, the list, the dispatchers and the history are the same. -/
structure Same (s s' : State ι κ) : Prop where
  txn : s'.txn = s.txn
  nextTxn : s'.nextTxn = s.nextTxn
  cbTxList : s'.cbTxList = s.cbTxList
  dispatchers : s'.dispatchers = s.dispatchers
  answers : s'.answers = s.answers
  results : s'.results = s.results
  dead : s'.objs.dead = s.objs.dead

theorem getTxn_some {id t : ℕ} {state : Xst} (h : s.getTxnForStateTransition id state = some t) :
    t ∈ s.cbTxList ∧ (id = contextIdAny ∨ (s.txn t).contextId = id) ∧
      (state = .processing ∧ (s.txn t).processing = .pending ∨
        state = .processed ∧ (s.txn t).processing = .processing) := by
  have hfind := (Option.filter_eq_some_iff.mp h).1
  have hprop := List.find?_some hfind
  rw [decide_eq_true_eq] at hprop
  exact ⟨List.mem_of_find?_eq_some hfind, hprop⟩

section Threads

variable [DecidableEq ι] {i : ι} {x : Thread}

theorem Proto.setThread (h : Proto si ctx s) (hsame : Same s s')
    (hthreads : s'.threads = update s.threads i x) (hfits : s.ThreadFits x)
    (hresponding : ∀ t, x.responding = some t →
      (s.threads i).responding = some t ∨ ∀ j, (s.threads j).responding ≠ some t)
    (hpicking : ∀ t, (s.txn t).contextId = contextIdAny →
      (x.picking = some t ↔ (s.threads i).picking = some t)) : Proto si ctx s' := by
  have hcongr : ∀ y : Thread, s.ThreadFits y → s'.ThreadFits y := fun y hy =>
    hy.congr (fun t _ => by rw [hsame.txn]) (fun t _ ht => by rw [hsame.cbTxList]; exact ht)
  have hpick : ∀ j t, (s.txn t).contextId = contextIdAny →
      ((s'.threads j).picking = some t ↔ (s.threads j).picking = some t) := by
    intro j t ht
    rw [hthreads]
    exact forall_update (P := fun j (y : Thread) => y.picking = some t ↔ (s.threads j).picking = some t)
      (fun j => Iff.rfl) (hpicking t ht) j
  refine ⟨?_, ?_, ?_, ?_, ?_, ?_, ?_, ?_, ?_, ?_, ?_, ?_⟩
  · rw [hsame.txn, hsame.nextTxn]
    exact h.blank
  · rw [hsame.cbTxList]
    exact h.nodup
  · rw [hsame.cbTxList, hsame.nextTxn]
    exact h.listed
  · rw [hsame.cbTxList, hsame.txn, hsame.dispatchers]
    exact h.owner
  · rw [hsame.txn]
    exact h.plain
  · rw [hthreads]
    exact forall_update (P := fun _ y => s'.ThreadFits y) (fun j => hcongr _ (h.threads j)) (hcongr x hfits)
  · intro c
    rw [hsame.dispatchers]
    refine (h.dispatchers c).congr (fun t _ => by rw [hsame.txn]) fun t ht => ?_
    rw [hsame.cbTxList]
    exact ((h.dispatchers c).held ht).2
  · intro j k t hj hk
    rw [hthreads] at hj hk
    by_cases hji : j = i
    · by_cases hki : k = i
      · rw [hji, hki]
      · rw [hji, update_self] at hj
        rw [update_of_ne hki] at hk
        rcases hresponding t hj with hi | hnone
        · rw [hji]
          exact h.single i k t hi hk
        · exact absurd hk (hnone k)
    · rw [update_of_ne hji] at hj
      by_cases hki : k = i
      · rw [hki, update_self] at hk
        rcases hresponding t hk with hi | hnone
        · rw [hki]
          exact h.single j i t hj hi
        · exact absurd hj (hnone j)
      · rw [update_of_ne hki] at hk
        exact h.single j k t hj hk
  · intro t ht hany hstate
    rw [hsame.cbTxList] at ht
    rw [hsame.txn] at hany hstate
    obtain ⟨j, hj⟩ := h.picker t ht hany hstate
    exact ⟨j, (hpick j t hany).mpr hj⟩
  · intro j k t hany hj hk
    rw [hsame.txn] at hany
    exact h.pickers j k t hany ((hpick j t hany).mp hj) ((hpick k t hany).mp hk)
  · exact h.history.later (fun t => by rw [hsame.txn]; exact .refl _)
      (fun t ht => by rwa [hsame.txn] at ht) hsame.answers hsame.results
  · rw [hsame.dead, hsame.cbTxList, hsame.txn]
    exact h.gone

theorem Proto.setIdle (h : Proto si ctx s) (hsame : Same s s')
    (hthreads : s'.threads = update s.threads i x) (hx : x = .user ∨ x = .waiting)
    (hpicking : ∀ t, (s.txn t).contextId = contextIdAny → (s.threads i).picking ≠ some t) :
    Proto si ctx s' := by
  refine h.setThread hsame hthreads ?_ (fun t ht => ?_) fun t ht => ?_
  · rcases hx with rfl | rfl
    · trivial
    · trivial
  · rcases hx with rfl | rfl
    · cases ht
    · cases ht
  · refine iff_of_false (fun hp => ?_) (hpicking t ht)
    rcases hx with rfl | rfl
    · cases hp
    · cases hp

theorem after_eq (ok : Bool) : after ok = .user ∨ after ok = .waiting := by
  cases ok
  · exact Or.inr rfl
  · exact Or.inl rfl

section

variable (h : Proto si ctx s)
include h

theorem Proto.accept (i : ι) : Proto si ctx (accept s i) := by
  rw [Txns.accept]
  split
  · rename_i hi
    exact h.setIdle ⟨rfl, rfl, rfl, rfl, rfl, rfl, rfl⟩ rfl (Or.inr rfl) fun t _ => by rw [hi]; nofun
  · exact h

theorem Proto.signal (i : ι) : Proto si ctx (signal s i) := by
  rw [Txns.signal]
  split
  · rename_i hi
    exact h.setIdle ⟨rfl, rfl, rfl, rfl, rfl, rfl, rfl⟩ rfl (Or.inl rfl) fun t _ => by rw [hi]; nofun
  · exact h

theorem Proto.submit (i : ι) (r : Response) (hcalm : Calm s (.submit i r)) :
    Proto si ctx (submit s i r) := by
  rw [Txns.submit]
  split
  · rename_i hi
    have hpicking : ∀ t, (s.txn t).contextId = contextIdAny → (s.threads i).picking ≠ some t := fun t _ => by
      rw [hi]
      nofun
    by_cases hzero : r.txnId = 0
    · rw [if_pos hzero]
      exact h.setIdle ⟨rfl, rfl, rfl, rfl, rfl, rfl, rfl⟩ rfl (Or.inr rfl) hpicking
    · rw [if_neg hzero]
      split
      · rename_i t ht
        obtain ⟨hlist, hid, hstate⟩ := getTxn_some ht
        have hprocessing : (s.txn t).processing = .processing :=
          (hstate.resolve_left fun hp => Xst.noConfusion hp.1).2
        refine h.setThread (x := .took t r) ⟨rfl, rfl, rfl, rfl, rfl, rfl, rfl⟩ rfl
          ⟨Or.inl hprocessing, fun _ _ => hlist, fun hlt => ?_⟩ (fun u hu => Or.inr fun j hj => ?_) fun u hu =>
          iff_of_false nofun (hpicking u hu)
        · rw [Nat.mod_eq_of_lt hlt] at hid
          exact (hid.resolve_left hzero).symm
        · obtain rfl : t = u := Option.some.inj hu
          have hsubmitting := hcalm t hzero ht j
          have hfits := h.threads j
          cases hx : s.threads j with
          | took t' r' =>
            rw [hx] at hj hsubmitting
            exact hsubmitting hj
          | marshalled a =>
            rw [hx] at hj hsubmitting
            exact hsubmitting hj
          | settled a ok =>
            rw [hx] at hj hfits
            obtain rfl : a.txn = t := Option.some.inj hj
            cases ok with
            | true =>
              have hprocessed : (s.txn a.txn).processing = .processed := hfits
              rw [hprocessing] at hprocessed
              cases hprocessed
            | false =>
              have htimedout := hfits.1
              rw [hprocessing] at htimedout
              cases htimedout
          | user => rw [hx] at hj; cases hj
          | waiting => rw [hx] at hj; cases hj
          | picked t' => rw [hx] at hj; cases hj
          | parsed t' ok => rw [hx] at hj; cases hj
      · exact h.setIdle ⟨rfl, rfl, rfl, rfl, rfl, rfl, rfl⟩ rfl (Or.inr rfl) hpicking
  · exact h

theorem Proto.parse (i : ι) (ok : Bool) : Proto si ctx (parse s i ok) := by
  rw [Txns.parse]
  split
  · rename_i t hi
    have hfits := h.threads i
    rw [hi] at hfits
    by_cases hany : (s.txn t).contextId = contextIdAny
    · rw [if_pos hany]
      exact h.setThread (x := .parsed t ok) ⟨rfl, rfl, rfl, rfl, rfl, rfl, rfl⟩ rfl ⟨hany, hfits hany⟩ nofun
        fun u _ => by rw [hi]; exact Iff.rfl
    · rw [if_neg hany]
      refine h.setIdle ⟨rfl, rfl, rfl, rfl, rfl, rfl, rfl⟩ rfl (after_eq ok) fun u hu hp => hany ?_
      rw [hi] at hp
      obtain rfl : t = u := Option.some.inj hp
      exact hu
  · exact h

theorem Proto.finish (i : ι) (hdead : (finish s i).objs.dead = s.objs.dead) :
    Proto si ctx (finish s i) := by
  rw [Txns.finish] at hdead ⊢
  split
  · rename_i a hi
    exact h.setIdle ⟨rfl, rfl, rfl, rfl, rfl, rfl, rfl⟩ rfl (Or.inr rfl) fun t _ => by rw [hi]; nofun
  · rename_i a hi
    rw [hi] at hdead
    exact h.setIdle ⟨rfl, rfl, rfl, rfl, rfl, rfl, hdead⟩ rfl (Or.inr rfl) fun t _ => by rw [hi]; nofun
  · exact h

end

end Threads

end

end Smcinvoke.Txns
