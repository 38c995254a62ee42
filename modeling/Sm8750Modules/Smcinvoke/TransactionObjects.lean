import Sm8750Modules.Smcinvoke.TransactionRefs

/-!
# Callback requests — the references on output objects

The references that responses took on objects are those of responses that are being submitted and of results
that the secure world was not told about.
-/

namespace Smcinvoke.Txns

open RefCounts Runs Function List

section

variable {ι κ : Type*} {si : ℕ} {ctx : Contexts κ} {s w : State ι κ} {i : ι} {c : κ} {t : ℕ}

theorem outputRefs_nil (objs : Smcinvoke.State) : objs.outputRefs [] = 0 := rfl

theorem Thread.refs_extends {objs objs' : Smcinvoke.State} {x : Thread} (h : Extends objs objs')
    (hx : ∀ a ∈ x.refs objs, a < objs.next) : x.refs objs' = x.refs objs := by
  have houtputs : ∀ a : Answer, (∀ b ∈ (if a.errno = 0 then objs.outputRefs a.args else 0), b < objs.next) →
      (if a.errno = 0 then objs'.outputRefs a.args else 0) =
        if a.errno = 0 then objs.outputRefs a.args else 0 := by
    intro a ha
    by_cases hzero : a.errno = 0
    · rw [if_pos hzero] at ha ⊢
      rw [if_pos hzero]
      exact (h.outputRefs fun b hb => ha b (Multiset.mem_add.mpr (Or.inl (Multiset.mem_coe.mpr hb)))).2
    · rw [if_neg hzero, if_neg hzero]
  cases x with
  | marshalled a => exact houtputs a hx
  | settled a ok =>
    cases ok with
    | true => rfl
    | false => exact houtputs a hx
  | user => rfl
  | took t r => rfl
  | waiting => rfl
  | picked t => rfl
  | parsed t ok => rfl

theorem handed_congr (hanswers : w.answers = s.answers) (hobjs : w.objs = s.objs)
    (hlist : ∀ a ∈ s.answers, a.errno = 0 → (a.txn ∈ w.cbTxList ↔ a.txn ∈ s.cbTxList) ∨ a.args = []) :
    w.handed = s.handed := by
  rw [State.handed, State.handed, hanswers, hobjs]
  refine congrArg _ (map_congr_left fun a ha => ?_)
  by_cases hzero : a.errno = 0
  · rcases hlist a ha hzero with hiff | hnil
    · simp only [hiff]
    · rw [hnil, outputRefs_nil, ite_self, ite_self]
  · rw [if_neg fun hboth => hzero hboth.1, if_neg fun hboth => hzero hboth.1]

theorem handed_split (hproto : Proto si ctx s) {a : Answer} (ha : a ∈ s.answers) (hzero : a.errno = 0)
    (ht : a.txn ∈ s.cbTxList) (hlist : w.cbTxList = s.cbTxList.erase a.txn) (hanswers : w.answers = s.answers)
    (hobjs : w.objs = s.objs) : s.handed = s.objs.outputRefs a.args + w.handed := by
  obtain ⟨l, r, hlr⟩ := append_of_mem ha
  have honce := hproto.history.once
  rw [hlr, map_append, map_cons, nodup_append, nodup_cons] at honce
  obtain ⟨-, ⟨hr, -⟩, hl⟩ := honce
  have hother : ∀ b : Answer, b.txn ≠ a.txn →
      (if b.errno = 0 ∧ b.txn ∈ w.cbTxList then s.objs.outputRefs b.args else 0) =
        if b.errno = 0 ∧ b.txn ∈ s.cbTxList then s.objs.outputRefs b.args else 0 := by
    intro b hb
    rw [hlist]
    simp only [mem_erase_of_ne hb]
  have hleft : ∀ b ∈ l, b.txn ≠ a.txn := fun b hb =>
    hl b.txn (mem_map_of_mem hb) a.txn mem_cons_self
  have hright : ∀ b ∈ r, b.txn ≠ a.txn := fun b hb hba => hr (hba ▸ mem_map_of_mem hb)
  have hgone : a.txn ∉ w.cbTxList := by
    rw [hlist]
    exact fun hmem => (hproto.nodup.mem_erase_iff.mp hmem).1 rfl
  rw [State.handed, State.handed, hanswers, hobjs, hlr, map_append, map_append, sum_append,
    sum_append, map_cons, map_cons, sum_cons, sum_cons, if_pos ⟨hzero, ht⟩,
    if_neg fun hboth => hgone hboth.2, map_congr_left fun b hb => hother b (hleft b hb),
    map_congr_left fun b hb => hother b (hright b hb)]
  abel

variable [Fintype ι]

/-- The references on objects are those of others and of responses, and those on servers are of their open files
and of objects. -/
structure Owed (si : ℕ) (s : State ι κ) : Prop where
  objects : s.objs.objects.Balanced (s.others + s.owed)
  fresh : ∀ a, a ∈ s.objs.objects.live ∨ a ∈ s.objs.objects.freed → a < s.objs.next
  servers : s.objs.servers.Balanced (s.openFiles + s.objs.owners)
  opened : s.objs.dead si = false → si ∈ s.openFiles

theorem Owed.lt (h : Owed si s) : ∀ a ∈ s.owed, a < s.objs.next := fun a ha =>
  h.fresh a (Or.inl ((h.objects.mem_live a).mpr (Multiset.mem_add.mpr (Or.inr ha))))

theorem Owed.same (h : Owed si s) (hobjs : w.objs = s.objs) (hopen : w.openFiles = s.openFiles)
    (hothers : w.others = s.others) (howed : w.owed = s.owed) : Owed si w where
  objects := by
    rw [hobjs, hothers, howed]
    exact h.objects
  fresh := by
    rw [hobjs]
    exact h.fresh
  servers := by
    rw [hobjs, hopen]
    exact h.servers
  opened := by
    rw [hobjs, hopen]
    exact h.opened

theorem owed_extends (h : Extends s.objs w.objs) (hlt : ∀ a ∈ s.owed, a < s.objs.next)
    (hthreads : w.threads = s.threads) (hanswers : w.answers = s.answers) (hlist : w.cbTxList = s.cbTxList) :
    w.owed = s.owed := by
  have hhanded : w.handed = s.handed := by
    rw [State.handed, State.handed, hanswers, hlist]
    refine congrArg _ (map_congr_left fun a ha => ?_)
    by_cases hboth : a.errno = 0 ∧ a.txn ∈ s.cbTxList
    · rw [if_pos hboth, if_pos hboth]
      refine (h.outputRefs fun b hb => hlt b (Multiset.mem_add.mpr (Or.inr ?_))).2
      refine Multiset.mem_of_le (le_sum_of_mem (mem_map_of_mem ha)) ?_
      rw [if_pos hboth]
      exact Multiset.mem_add.mpr (Or.inl (Multiset.mem_coe.mpr hb))
    · rw [if_neg hboth, if_neg hboth]
  rw [State.owed, State.owed, hhanded, hthreads]
  refine congrArg (· + s.handed) (Finset.sum_congr rfl fun i hi => ?_)
  exact Thread.refs_extends h fun a ha =>
    hlt a (Multiset.mem_add.mpr (Or.inl (Multiset.mem_sum.mpr ⟨i, hi, ha⟩)))

theorem owed_setThread [DecidableEq ι] {x : Thread} (hthreads : w.threads = update s.threads i x)
    (hobjs : w.objs = s.objs) (hhanded : w.handed = s.handed) :
    w.owed + (s.threads i).refs s.objs = s.owed + x.refs s.objs := by
  have hsum := sum_update (Thread.refs s.objs) s.threads i x
  rw [State.owed, State.owed, hhanded, hobjs, hthreads]
  calc ∑ j, (update s.threads i x j).refs s.objs + s.handed + (s.threads i).refs s.objs
      = ∑ j, (update s.threads i x j).refs s.objs + (s.threads i).refs s.objs + s.handed := by abel
    _ = ∑ j, (s.threads j).refs s.objs + s.handed + x.refs s.objs := by
      rw [hsum]
      abel

theorem parseResponse_spec {files : Files} {r : Response} (h : Owed si s)
    (hfits : Fits files s.openFiles s.others s.objs)
    (hsafe : r.result = 0 → r.copyOk = true → files.Safe (s.txn t).args r.outputs) :
    Extends s.objs (parseResponse s files t r).1 ∧
      (∀ a, a ∈ (parseResponse s files t r).1.objects.live ∨ a ∈ (parseResponse s files t r).1.objects.freed →
        a < (parseResponse s files t r).1.next) ∧
      (parseResponse s files t r).1.servers.Balanced (s.openFiles + (parseResponse s files t r).1.owners) ∧
      (parseResponse s files t r).1.objects.Balanced (s.others + s.owed +
        if (parseResponse s files t r).2.2 = 0 then
          (parseResponse s files t r).1.outputRefs (parseResponse s files t r).2.1 else 0) := by
  rw [parseResponse]
  by_cases hresult : r.result ≠ 0
  · rw [if_pos hresult, if_neg hresult, add_zero]
    exact ⟨.refl _, h.fresh, h.servers, h.objects⟩
  · rw [if_neg hresult]
    by_cases hcopy : r.copyOk = false
    · rw [if_pos hcopy, if_neg (show ¬ efault = 0 by decide), add_zero]
      exact ⟨.refl _, h.fresh, h.servers, h.objects⟩
    · rw [if_neg hcopy]
      have hok : s.objs.Ok files s.openFiles (s.others + s.owed) := by
        refine ⟨h.objects, h.fresh, h.servers, hfits.opened, fun fd a ha => ?_⟩
        obtain ⟨hmem, huser⟩ := hfits.qtee fd a ha
        exact ⟨Multiset.mem_add.mpr (Or.inl hmem), huser⟩
      obtain ⟨hext, hfresh, hservers, hobjects⟩ := marshalOutCbReq_spec hok
        (hsafe (not_not.mp hresult) ((Bool.not_eq_false _).mp hcopy))
      refine ⟨hext, hfresh, hservers, ?_⟩
      by_cases herr : (marshalOutCbReq files s.objs (s.txn t).args r.outputs).2.2 = true
      · rw [if_pos herr] at hobjects
        simp only [if_pos herr, if_neg (show ¬ einval = 0 by decide)]
        exact hobjects
      · rw [if_neg herr] at hobjects
        simp only [if_neg herr, if_true]
        exact hobjects

/-! ## The steps of threads -/

section Threads

variable [DecidableEq ι] {x : Thread}

theorem Owed.setThread (h : Owed si s) (hx : x.refs s.objs = (s.threads i).refs s.objs)
    (hthreads : w.threads = update s.threads i x) (hhanded : w.handed = s.handed)
    (hobjs : w.objs = s.objs) (hopen : w.openFiles = s.openFiles) (hothers : w.others = s.others) :
    Owed si w := by
  have howed := owed_setThread hthreads hobjs hhanded
  rw [hx] at howed
  exact h.same hobjs hopen hothers (add_right_cancel howed)

theorem after_refs (objs : Smcinvoke.State) (ok : Bool) : (after ok).refs objs = 0 := by
  rcases after_eq ok with hok | hok
  · rw [hok]
    rfl
  · rw [hok]
    rfl

section

variable (h : Owed si s)
include h

theorem Owed.accept (i : ι) : Owed si (accept s i) := by
  rw [Txns.accept]
  split
  · rename_i hi
    exact h.setThread (x := .waiting) (by rw [hi]; rfl) rfl rfl rfl rfl rfl
  · exact h

theorem Owed.signal (i : ι) : Owed si (signal s i) := by
  rw [Txns.signal]
  split
  · rename_i hi
    exact h.setThread (x := .user) (by rw [hi]; rfl) rfl rfl rfl rfl rfl
  · exact h

theorem Owed.submit (i : ι) (r : Response) : Owed si (submit s i r) := by
  rw [Txns.submit]
  split
  · rename_i hi
    by_cases hzero : r.txnId = 0
    · rw [if_pos hzero]
      exact h.setThread (x := .waiting) (by rw [hi]; rfl) rfl rfl rfl rfl rfl
    · rw [if_neg hzero]
      split
      · rename_i t ht
        exact h.setThread (x := .took t r) (by rw [hi]; rfl) rfl rfl rfl rfl rfl
      · exact h.setThread (x := .waiting) (by rw [hi]; rfl) rfl rfl rfl rfl rfl
  · exact h

theorem Owed.pick (i : ι) : Owed si (pick s i) := by
  rw [Txns.pick]
  split
  · rename_i hi
    split
    · rename_i t ht
      exact h.setThread (x := .picked t) (by rw [hi]; rfl) rfl rfl rfl rfl rfl
    · exact h
  · exact h

theorem Owed.parse (i : ι) (ok : Bool) : Owed si (parse s i ok) := by
  rw [Txns.parse]
  split
  · rename_i t hi
    by_cases hany : (s.txn t).contextId = contextIdAny
    · rw [if_pos hany]
      exact h.setThread (x := .parsed t ok) (by rw [hi]; rfl) rfl rfl rfl rfl rfl
    · rw [if_neg hany]
      exact h.setThread (x := after ok) (by rw [hi, after_refs]; rfl) rfl rfl rfl rfl rfl
  · exact h

theorem Owed.dequeue (hproto : Proto si ctx s) (i : ι) : Owed si (dequeue s i) := by
  rw [Txns.dequeue]
  split
  · rename_i t ok hi
    obtain ⟨hany, hclaim⟩ : (s.txn t).contextId = contextIdAny ∧ s.Claimed t := by
      have hfits := hproto.threads i
      rwa [hi] at hfits
    refine h.setThread (x := after ok) (by rw [hi, after_refs]; rfl) rfl
      (handed_congr rfl rfl fun a ha hzero => ?_) rfl rfl rfl
    by_cases hat : a.txn = t
    · refine Or.inr ?_
      rw [← (hproto.history.answers a ha).2.2.1 hzero, hat]
      exact hproto.plain t hany
    · refine Or.inl ?_
      show a.txn ∈ (if (s.txn t).processing ≠ .new then s.cbTxList.erase t else s.cbTxList) ↔ _
      split_ifs
      · exact mem_erase_of_ne hat
      · exact Iff.rfl
  · exact h

theorem Owed.marshal (i : ι) (files : Files) (hfits : Fits files s.openFiles s.others s.objs)
    (hcalm : Calm s (.marshal i files)) :
    Owed si (marshal s i files) ∧ (marshal s i files).objs.dead = s.objs.dead := by
  have hsafe : ∀ t r, s.threads i = .took t r → r.result = 0 → r.copyOk = true →
      files.Safe (s.txn t).args r.outputs := hcalm
  rw [Txns.marshal]
  cases hi : s.threads i with
  | user => exact ⟨h, rfl⟩
  | marshalled a => exact ⟨h, rfl⟩
  | settled a ok => exact ⟨h, rfl⟩
  | waiting => exact ⟨h, rfl⟩
  | picked t => exact ⟨h, rfl⟩
  | parsed t ok => exact ⟨h, rfl⟩
  | took t r =>
    dsimp only
    obtain ⟨hext, hfresh, hservers, hobjects⟩ := parseResponse_spec h hfits (hsafe t r hi)
    refine ⟨⟨?_, hfresh, hservers, fun hd => ?_⟩, hext.dead⟩
    · have hmade := owed_extends (w := { s with objs := (parseResponse s files t r).1 }) hext h.lt rfl rfl rfl
      have howed := owed_setThread (i := i) (s := { s with objs := (parseResponse s files t r).1 })
        (w := { s with
          objs := (parseResponse s files t r).1
          txn := update s.txn t { s.txn t with
            args := (parseResponse s files t r).2.1, errno := (parseResponse s files t r).2.2 }
          threads := update s.threads i
            (.marshalled ⟨t, r, (parseResponse s files t r).2.2, (parseResponse s files t r).2.1⟩) }) rfl rfl rfl
      have hold : Thread.refs (parseResponse s files t r).1 (s.threads i) = 0 := by
        rw [hi]
        rfl
      rw [hmade, hold, add_zero] at howed
      rw [howed, ← add_assoc]
      exact hobjects
    · rw [hext.dead] at hd
      exact h.opened hd

/-- **A response that counts** hands its references to the result. -/
theorem Owed.settle (hproto : Proto si ctx s) (i : ι) : Owed si (settle s i) := by
  rw [Txns.settle]
  cases hi : s.threads i with
  | user => exact h
  | took t r => exact h
  | settled a ok => exact h
  | waiting => exact h
  | picked t => exact h
  | parsed t ok => exact h
  | marshalled a =>
    dsimp only
    obtain ⟨hsub, -, hargs⟩ : s.Submitted a.txn a.response ∧ (s.txn a.txn).errno = a.errno ∧
        (a.errno = 0 → (s.txn a.txn).args = a.args) := by
      have hfits := hproto.threads i
      rwa [hi] at hfits
    by_cases hopen : (s.txn a.txn).processing = .processing
    · simp only [setTxnState, if_pos hopen]
      refine h.same rfl rfl rfl ?_
      have hterm : (if a.errno = 0 ∧ a.txn ∈ s.cbTxList then s.objs.outputRefs a.args else 0) =
          (Thread.marshalled a).refs s.objs := by
        show _ = if a.errno = 0 then s.objs.outputRefs a.args else 0
        by_cases hzero : a.errno = 0
        · by_cases hany : (s.txn a.txn).contextId = contextIdAny
          · rw [← hargs hzero, hproto.plain a.txn hany, outputRefs_nil, ite_self, ite_self]
          · rw [if_pos ⟨hzero, hsub.listed hany hopen⟩, if_pos hzero]
        · rw [if_neg fun hboth => hzero hboth.1, if_neg hzero]
      have hsum := sum_update (Thread.refs s.objs) s.threads i (.settled a true)
      have hsettled : (Thread.settled a true).refs s.objs = 0 := rfl
      rw [hi, hsettled, add_zero] at hsum
      rw [State.owed, State.owed, State.handed, State.handed, map_append, map_singleton,
        sum_append, sum_singleton]
      show ∑ j, (update s.threads i (.settled a true) j).refs s.objs + (State.handed s +
        if a.errno = 0 ∧ a.txn ∈ s.cbTxList then s.objs.outputRefs a.args else 0) = _
      rw [hterm, ← hsum]
      show _ = _ + State.handed s
      abel
    · simp only [setTxnState, if_neg hopen]
      exact h.setThread (x := .settled a false) (by rw [hi]; rfl) rfl rfl rfl rfl rfl

/-- **A response that does not count** drops its references. -/
theorem Owed.finish (hproto : Proto si ctx s) (i : ι) :
    Owed si (finish s i) ∧ (finish s i).objs.dead = s.objs.dead := by
  rw [Txns.finish]
  split
  · rename_i a hi
    exact ⟨h.setThread (x := .waiting) (by rw [hi]; rfl) rfl rfl rfl rfl rfl, rfl⟩
  · rename_i a hi
    have hfits : (s.txn a.txn).processing = .timedout ∧ (a.errno = 0 → (s.txn a.txn).args = a.args) := by
      have hfits := hproto.threads i
      rwa [hi] at hfits
    have howed := owed_setThread (i := i) (s := s) (x := .waiting)
      (w := { s with threads := update s.threads i .waiting }) rfl rfl rfl
    have hwaiting : Thread.waiting.refs s.objs = 0 := rfl
    rw [hi, hwaiting, add_zero] at howed
    by_cases hzero : a.errno = 0
    · simp only [hzero, if_true]
      have hrefs : (Thread.settled a false).refs s.objs = s.objs.outputRefs (s.txn a.txn).args := by
        rw [hfits.2 hzero]
        exact if_pos hzero
      rw [hrefs] at howed
      have hobjects := h.objects
      have hlt := h.lt
      rw [← howed] at hlt
      rw [← howed, ← add_assoc] at hobjects
      obtain ⟨hkeeps, hbal, hservers⟩ := undoOutputs_spec hobjects h.servers
      refine ⟨⟨?_, fun b hb => ?_, hservers, fun hd => ?_⟩, hkeeps.dead⟩
      · have hsame := owed_extends (s := { s with threads := update s.threads i .waiting })
          (w := { s with
            objs := undoOutputs s.objs (s.txn a.txn).args
            txns := s.txns.put a.txn
            threads := update s.threads i .waiting }) hkeeps.extends
          (fun b hb => hlt b (Multiset.mem_add.mpr (Or.inl hb))) rfl rfl rfl
        rw [hsame]
        exact hbal
      · rw [hkeeps.next]
        exact h.fresh b ((hkeeps.known b).mp hb)
      · rw [hkeeps.dead] at hd
        exact h.opened hd
    · rw [if_neg hzero]
      refine ⟨h.setThread (x := .waiting) ?_ rfl rfl rfl rfl rfl, rfl⟩
      rw [hi]
      exact (if_neg hzero).symm
  · exact ⟨h, rfl⟩

end

end Threads

section Dispatchers

theorem Owed.cboDispatch (h : Owed si s) (hproto : Proto si ctx s) (contextId : ℕ) (args : List (Option ℕ)) :
    Owed si (cboDispatch si s contextId args).1 := by
  rw [Txns.cboDispatch]
  split_ifs
  · exact h.same rfl rfl rfl rfl
  · refine h.same rfl rfl rfl (congrArg (_ + ·) (handed_congr rfl rfl fun a ha _ => Or.inl ?_))
    have hne : a.txn ≠ s.nextTxn := fun hat => by
      have hprocessed := (hproto.history.answers a ha).1
      rw [hat, hproto.fresh.2] at hprocessed
      cases hprocessed
    show a.txn ∈ s.nextTxn :: s.cbTxList ↔ _
    rw [mem_cons]
    exact or_iff_right hne

variable [DecidableEq κ]

theorem Owed.dispatch (h : Owed si s) (hproto : Proto si ctx s) (c : κ) (args : List (Option ℕ)) :
    Owed si (dispatch si ctx s c args) := by
  rw [Txns.dispatch]
  cases hc : s.dispatchers c with
  | waiting t => exact h
  | woken t errno => exact h
  | answered t => exact h
  | free =>
    have hqueue := h.cboDispatch hproto (ctx.id c) args
    dsimp only
    split_ifs
    · exact hqueue.same rfl rfl rfl rfl
    · exact hqueue

theorem Owed.wake (h : Owed si s) (c : κ) : Owed si (wake s c) := by
  rw [Txns.wake]
  cases hc : s.dispatchers c with
  | free => exact h
  | woken t errno => exact h
  | answered t => exact h
  | waiting t =>
    dsimp only
    split
    · exact h.same rfl rfl rfl rfl
    · exact h.same rfl rfl rfl rfl

theorem Owed.exit (h : Owed si s) (hproto : Proto si ctx s) (c : κ) : Owed si (exit s c) := by
  rw [Txns.exit]
  cases hc : s.dispatchers c with
  | free => exact h
  | waiting t => exact h
  | answered t => exact h
  | woken t errno =>
    dsimp only
    by_cases hzero : errno = 0
    · rw [if_pos hzero]
      exact h.same rfl rfl rfl rfl
    · rw [if_neg hzero]
      have hfits := hproto.dispatchers c
      rw [hc] at hfits
      refine h.same rfl rfl rfl (congrArg (_ + ·) (handed_congr rfl rfl fun a ha hok => Or.inl ?_))
      have hne : a.txn ≠ t := fun hat => by
        obtain ⟨hprocessed, herrno, -⟩ := hproto.history.answers a ha
        rw [hat] at hprocessed herrno
        rcases hfits.2.2 with ⟨htimedout, -⟩ | ⟨-, hresult⟩
        · rw [hprocessed] at htimedout
          cases htimedout
        · exact hzero (hresult.trans (herrno.trans hok))
      show a.txn ∈ (if (s.txn t).processing ≠ .new then s.cbTxList.erase t else s.cbTxList) ↔ _
      split_ifs
      · exact mem_erase_of_ne hne
      · exact Iff.rfl

/-- **The notification** drops the references of the result, but for those that the secure world keeps. -/
theorem Owed.cboNotify (h : Owed si s) (hproto : Proto si ctx s) (c : κ) (status : Bool) :
    Owed si (cboNotify ctx s c status) ∧ (cboNotify ctx s c status).objs.dead = s.objs.dead := by
  rw [Txns.cboNotify]
  have hfits := hproto.dispatchers c
  cases hc : s.dispatchers c with
  | waiting t => exact ⟨h, rfl⟩
  | woken t errno => exact ⟨h, rfl⟩
  | free =>
    cases hfind : s.cbTxList.find? fun t => (s.txn t).contextId = ctx.id c with
    | some t =>
      have hheld := hproto.find_notified hfind
      rw [hc] at hheld
      exact absurd hheld (Multiset.notMem_zero t)
    | none => exact ⟨h.same rfl rfl rfl rfl, rfl⟩
  | answered u =>
    rw [hc] at hfits
    cases hfind : s.cbTxList.find? fun t => (s.txn t).contextId = ctx.id c with
    | none => exact absurd (List.find?_eq_none.mp hfind u hfits.2.1) (by rw [decide_eq_true hfits.1]; decide)
    | some t =>
      have hheld := hproto.find_notified hfind
      rw [hc] at hheld
      obtain rfl := Multiset.mem_singleton.mp hheld
      dsimp only
      obtain ⟨-, hlist, hprocessed, herrno⟩ := hfits
      obtain ⟨a, ha, hat⟩ := hproto.history.processed t hprocessed
      obtain ⟨-, herrno', hargs, -⟩ := hproto.history.answers a ha
      have hzero : a.errno = 0 := by rw [← herrno', hat, herrno]
      have hsplit := handed_split (w := { s with cbTxList := s.cbTxList.erase t }) hproto ha hzero
        (hat ▸ hlist) (by rw [hat]) rfl rfl
      rw [← hargs hzero, hat] at hsplit
      have howed : s.owed = State.owed { s with cbTxList := s.cbTxList.erase t } +
          s.objs.outputRefs (s.txn t).args := by
        rw [State.owed, State.owed, hsplit]
        abel
      have hobjects := h.objects
      have hlt := h.lt
      rw [howed] at hlt
      rw [howed, ← add_assoc] at hobjects
      obtain ⟨hkeeps, hbal, hservers⟩ :
          Keeps s.objs (notifyOutputs s.objs (s.txn t).args status) ∧ _ :=
        notifyOutputs_spec hobjects h.servers
      refine ⟨⟨?_, fun b hb => ?_, hservers, fun hd => ?_⟩, hkeeps.dead⟩
      · have hsame := owed_extends (s := { s with cbTxList := s.cbTxList.erase t })
          (w := { s with
            cbTxList := s.cbTxList.erase t
            objs := notifyOutputs s.objs (s.txn t).args status
            others := s.others + if status = true then 0 else s.objs.kept (s.txn t).args
            txns := s.txns.put t
            dispatchers := update s.dispatchers c .free }) hkeeps.extends
          (fun b hb => hlt b (Multiset.mem_add.mpr (Or.inl hb))) rfl rfl rfl
        rw [hsame, add_right_comm]
        exact hbal
      · rw [hkeeps.next]
        exact h.fresh b ((hkeeps.known b).mp hb)
      · rw [hkeeps.dead] at hd
        exact h.opened hd

end Dispatchers

theorem Owed.serverRelease (h : Owed si s) (hproto : Proto si ctx s) (hdead : s.objs.dead si = false) :
    Owed si (serverRelease si s) := by
  have hopen := h.opened hdead
  have howed : (Txns.serverRelease si s).owed = s.owed := by
    have hhanded : State.handed { s with cbTxList := s.cbTxList.filter fun t => !s.unclaimed t } = s.handed := by
      refine handed_congr rfl rfl fun a ha _ => Or.inl ?_
      show a.txn ∈ s.cbTxList.filter _ ↔ _
      rw [mem_filter]
      refine and_iff_left ?_
      rw [Bool.not_eq_true']
      refine decide_eq_false fun hunclaimed => ?_
      have hprocessed := (hproto.history.answers a ha).1
      rw [hunclaimed.2] at hprocessed
      cases hprocessed
    have hsame := owed_extends (s := { s with cbTxList := s.cbTxList.filter fun t => !s.unclaimed t })
      (w := { s with
        cbTxList := s.cbTxList.filter fun t => !s.unclaimed t
        objs := { s.objs with servers := s.objs.servers.put si } })
      ⟨Nat.le_refl _, rfl, fun _ _ => rfl⟩ (fun b hb => h.lt b (by rwa [State.owed, hhanded] at hb)) rfl rfl rfl
    rw [State.owed, State.owed, hhanded] at hsame
    exact hsame
  have hservers := h.servers.put (Multiset.mem_add.mpr (Or.inl hopen))
  rw [Multiset.erase_add_left_pos _ hopen] at hservers
  refine ⟨?_, h.fresh, hservers, fun hd => ?_⟩
  · rw [howed]
    exact h.objects
  · have hself : update s.objs.dead si true si = false := hd
    rw [update_self] at hself
    cases hself

end

end Smcinvoke.Txns
