import Sm8750Modules.Smcinvoke.TransactionObjects

/-!
# Callback requests — transactions are answered once

While responses to one transaction do not overlap, and none loses a callback object, a transaction
is answered once, freed once, and the references of each response are dropped or handed over.
-/

namespace Smcinvoke.Txns

open RefCounts Runs List

section

variable {ι κ : Type*} [Fintype ι] [Fintype κ] {si : ℕ} {ctx : Contexts κ} {s : State ι κ}

/-- The states of transactions, the references on them, and the references on objects. -/
structure Inv (si : ℕ) (ctx : Contexts κ) (s : State ι κ) : Prop where
  proto : Proto si ctx s
  counted : Counted s
  owed : Owed si s

theorem inv_init (h : Init si s) : Inv si ctx s := by
  obtain ⟨htxns, hnext, hlist⟩ := h.txns
  obtain ⟨hanswers, hresults⟩ := h.history
  have hblank : ∀ t, s.txn t = {} := fun t => by rw [h.txn]
  have hnothing : ∀ t, t ∉ s.cbTxList := fun t ht => by
    rw [hlist] at ht
    exact not_mem_nil ht
  refine ⟨⟨fun t _ => hblank t, ?_, fun t ht => absurd ht (hnothing t), fun t ht => absurd ht (hnothing t),
    fun t _ => by rw [hblank], fun i => ?_, fun c => ?_, fun i j t hi => ?_, fun t ht => absurd ht (hnothing t),
    fun i j t _ hi => ?_, ⟨?_, fun t ht => ?_, ?_, ?_⟩, fun _ t ht => absurd ht (hnothing t)⟩, ⟨?_, fun t => ?_⟩,
    ⟨?_, h.fresh, h.servers, fun _ => h.opened.1⟩⟩
  · rw [hlist]
    exact nodup_nil
  · rw [h.threads i]
    trivial
  · rw [h.dispatchers c]
    trivial
  · rw [h.threads i] at hi
    cases hi
  · rw [h.threads i] at hi
    cases hi
  · rw [hanswers]
    exact fun a ha => absurd ha not_mem_nil
  · rw [hblank] at ht
    cases ht
  · rw [hanswers]
    exact nodup_nil
  · rw [hresults]
    exact fun r hr => absurd hr not_mem_nil
  · have hholders : s.holders = 0 := by
      have hthreads : ∑ i, (s.threads i).held = 0 :=
        Finset.sum_eq_zero fun i _ => by rw [h.threads i]; rfl
      have hdispatchers : ∑ c, (s.dispatchers c).held = 0 :=
        Finset.sum_eq_zero fun c _ => by rw [h.dispatchers c]; rfl
      rw [State.holders, hthreads, hdispatchers, State.queued, hlist]
      rfl
    rw [htxns, hholders]
    exact Store.Balanced.empty
  · rw [hnext, htxns]
    exact iff_of_false (Nat.not_lt_zero t) fun h => by simp at h
  · have howed : s.owed = 0 := by
      have hthreads : ∑ i, (s.threads i).refs s.objs = 0 :=
        Finset.sum_eq_zero fun i _ => by rw [h.threads i]; rfl
      rw [State.owed, hthreads, State.handed, hanswers]
      rfl
    rw [howed, add_zero]
    exact h.objects

variable [DecidableEq ι] [DecidableEq κ]

theorem inv_next (h : Inv si ctx s) (a : Action ι κ) (henabled : Enabled si s a) (hcalm : Calm s a) :
    Inv si ctx (next si ctx s a) := by
  obtain ⟨hproto, hcounted, howed⟩ := h
  cases a with
  | dispatch c args =>
    exact ⟨hproto.dispatch hcounted.held_lt c args, hcounted.dispatch hproto c args, howed.dispatch hproto c args⟩
  | release =>
    exact ⟨hproto.release hcounted.held_lt, hcounted.release hproto, howed.cboDispatch hproto contextIdAny []⟩
  | wake c killed => exact ⟨hproto.wake c, hcounted.wake c, howed.wake c⟩
  | exit c => exact ⟨hproto.exit c, hcounted.exit hproto c, howed.exit hproto c⟩
  | notify c status =>
    obtain ⟨howed', hdead⟩ := howed.cboNotify hproto c status
    exact ⟨hproto.cboNotify c status hdead, hcounted.cboNotify hproto c status, howed'⟩
  | submit i r => exact ⟨hproto.submit i r hcalm, hcounted.submit hproto i r, howed.submit i r⟩
  | accept i => exact ⟨hproto.accept i, hcounted.accept i, howed.accept i⟩
  | marshal i files =>
    obtain ⟨howed', hdead⟩ := howed.marshal i files henabled hcalm
    exact ⟨hproto.marshal i files hdead, hcounted.marshal i files, howed'⟩
  | settle i => exact ⟨hproto.settle i, hcounted.settle i, howed.settle hproto i⟩
  | finish i =>
    obtain ⟨howed', hdead⟩ := howed.finish hproto i
    exact ⟨hproto.finish i hdead, hcounted.finish i, howed'⟩
  | pick i => exact ⟨hproto.pick i, hcounted.pick hproto i, howed.pick i⟩
  | signal i => exact ⟨hproto.signal i, hcounted.signal i, howed.signal i⟩
  | parse i ok => exact ⟨hproto.parse i ok, hcounted.parse i ok, howed.parse i ok⟩
  | dequeue i => exact ⟨hproto.dequeue i, hcounted.dequeue hproto i, howed.dequeue hproto i⟩
  | serverRelease =>
    obtain ⟨hthreads, hdead⟩ := henabled
    exact ⟨hproto.serverRelease hthreads, hcounted.serverRelease hproto hthreads,
      howed.serverRelease hproto hdead⟩

omit [DecidableEq ι] [DecidableEq κ] in
theorem Inv.answeredOnce (h : Inv si ctx s) : s.AnsweredOnce si where
  txns := h.counted.txns
  known := h.counted.known
  listed := fun t ht => h.counted.listed h.proto ht
  gone := fun hdead => by
    rw [State.queued, Multiset.coe_eq_zero, filter_eq_nil_iff]
    exact fun t ht hany => h.proto.gone hdead t ht (of_decide_eq_true hany)
  once := h.proto.history.once
  results := by
    intro o ho
    rcases h.proto.history.results o ho with ⟨htimedout, herrno⟩ | ⟨hprocessed, herrno, hargs⟩
    · refine Or.inl ⟨herrno, fun a ha hat => ?_⟩
      have hprocessed := (h.proto.history.answers a ha).1
      rw [hat, htimedout] at hprocessed
      cases hprocessed
    · obtain ⟨a, ha, hat⟩ := h.proto.history.processed o.txn hprocessed
      obtain ⟨-, herrno', hargs', -⟩ := h.proto.history.answers a ha
      rw [hat] at herrno' hargs'
      refine Or.inr ⟨a, ha, hat, herrno.trans herrno', fun hzero => ?_⟩
      exact (hargs (herrno.trans (herrno'.trans hzero))).trans (hargs' hzero)
  ids := fun a ha => (h.proto.history.answers a ha).2.2.2
  objects := h.owed.objects
  servers := h.owed.servers

/-- **Transactions are answered once** in every run whose steps are calm. -/
theorem answeredOnce_of_reachable (h : (calm si ctx).Reachable s) : s.AnsweredOnce si := by
  have hinv : Inv si ctx s := h.invariant (fun _ => inv_init) fun s a hs ha => inv_next hs a ha.1 ha.2
  exact hinv.answeredOnce

end

/-! ## Two runs -/

/-- One invocation at a time. -/
def oneContext : Contexts Unit where
  id _ := 1
  id_injective _ _ _ := rfl
  id_ne_any _ := by decide
  id_lt _ := by decide

def oneServer : Files where
  server fd := if fd = 5 then some 100 else none
  dmaBuf _ := false
  qtee _ := none

def opened : State (Fin 2) Unit := { objs := { servers := Store.add {} 100 }, openFiles := {100} }

theorem opened_init : Init 100 opened where
  txns := ⟨rfl, rfl, rfl⟩
  txn := rfl
  threads := fun _ => rfl
  dispatchers := fun _ => rfl
  history := ⟨rfl, rfl⟩
  objects := Store.Balanced.empty
  fresh := fun a ha => by rcases ha with ha | ha <;> exact absurd ha not_mem_nil
  servers := Store.Balanced.empty.add not_mem_nil not_mem_nil
  opened := ⟨Multiset.mem_singleton_self _, rfl⟩

theorem fits_oneServer {s : Smcinvoke.State} (h : s.dead 100 = false) : Fits oneServer {100} 0 s where
  opened := by
    intro fd si hfd
    simp only [oneServer] at hfd
    split_ifs at hfd
    obtain rfl := Option.some.inj hfd
    exact ⟨Multiset.mem_singleton_self _, h⟩
  qtee := nofun

def oneResponse : Response := { txnId := 1, outputs := { handles := fun _ => ⟨-2, 5, true, true⟩ } }

def firstThread : Fin 2 := ⟨0, Nat.zero_lt_two⟩

def secondThread : Fin 2 := ⟨1, Nat.one_lt_two⟩

/-- A request for an object is answered, and the secure world keeps the object. -/
def oneAnswer : List (Action (Fin 2) Unit) :=
  [.dispatch () [none], .accept firstThread, .pick firstThread, .parse firstThread true,
    .submit secondThread oneResponse, .marshal secondThread oneServer, .settle secondThread,
    .wake () true, .exit (), .finish secondThread, .notify () false]

def twoAnswers : List (Action (Fin 2) Unit) :=
  [.dispatch () [none], .accept firstThread, .pick firstThread, .parse firstThread true,
    .submit firstThread oneResponse, .submit secondThread oneResponse, .marshal firstThread oneServer,
    .marshal secondThread oneServer, .settle firstThread, .settle secondThread, .wake () true, .exit (),
    .finish secondThread]

theorem allows_oneAnswer : (calm 100 oneContext).Allows opened oneAnswer := by
  refine ⟨⟨trivial, trivial⟩, ⟨trivial, trivial⟩, ⟨trivial, trivial⟩, ⟨trivial, trivial⟩,
    ⟨rfl, fun t _ _ j hj => ?_⟩, ⟨fits_oneServer rfl, fun t r htook _ _ => ?_⟩, ⟨trivial, trivial⟩,
    ⟨fun _ _ => Or.inl rfl, trivial⟩, ⟨trivial, trivial⟩, ⟨trivial, trivial⟩, ⟨trivial, trivial⟩, trivial⟩
  · have hnone : ∀ j, (((calm 100 oneContext).exec opened (oneAnswer.take 4)).threads j).submitting = none := by
      decide
    cases (hnone j).symm.trans hj
  · have htook' : Thread.took 0 oneResponse = .took t r := htook
    cases htook'
    decide

theorem answeredOnce_oneAnswer : ((calm 100 oneContext).exec opened oneAnswer).AnsweredOnce 100 :=
  answeredOnce_of_reachable ((Machine.Reachable.init opened_init).exec oneAnswer allows_oneAnswer)

/-- The result of the request has the object of the response that did not count, which was freed. -/
theorem not_answeredOnce : ¬ ∀ s, (machine (ι := Fin 2) 100 oneContext).Reachable s → s.AnsweredOnce 100 := by
  intro h
  have hallows : (machine 100 oneContext).Allows opened twoAnswers :=
    ⟨trivial, trivial, trivial, trivial, rfl, rfl, fits_oneServer rfl, fits_oneServer rfl, trivial, trivial,
      fun _ _ => Or.inl rfl, trivial, trivial, trivial⟩
  have hresults := (h _ ((Machine.Reachable.init opened_init).exec twoAnswers hallows)).results
  revert hresults
  decide +kernel

end Smcinvoke.Txns
