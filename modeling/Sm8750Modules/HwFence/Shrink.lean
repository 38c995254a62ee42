import Sm8750Modules.HwFence.Wait
import Sm8750Modules.HwFence.Create

/-!
# Hardware fences — what an operation does to the keys of the table

Apart from the search of a create, no operation makes an entry valid or changes the key of a valid one.
-/

namespace Sm8750Modules.HwFence.DriverData

open Function

variable {d d' d'' : DriverData} {k : Key} {hash : ℕ}

/-- An entry keeps its numbers, or it is freed and has none. -/
def Kept (e e' : MsmHwFence) : Prop :=
  (e'.valid = e.valid ∧ e'.ctxId = e.ctxId ∧ e'.seqId = e.seqId) ∨
    (e'.valid = false ∧ e'.ctxId = 0 ∧ e'.seqId = 0)

theorem Kept.refl (e : MsmHwFence) : Kept e e := .inl ⟨rfl, rfl, rfl⟩

theorem Kept.trans {e e' e'' : MsmHwFence} (h : Kept e e') (h' : Kept e' e'') : Kept e e'' := by
  rcases h' with ⟨hv', hc', hs'⟩ | h'
  · rcases h with ⟨hv, hc, hs⟩ | ⟨hv, hc, hs⟩
    · exact .inl ⟨hv'.trans hv, hc'.trans hc, hs'.trans hs⟩
    · exact .inr ⟨hv'.trans hv, hc'.trans hc, hs'.trans hs⟩
  · exact .inr h'

theorem kept_freeIfZero (e : MsmHwFence) : Kept e (freeIfZero e) := by
  rw [freeIfZero]
  split
  · exact .inr ⟨rfl, rfl, rfl⟩
  · exact .refl e

/-- No entry becomes valid and no valid one changes its key. -/
structure Shrinks (d d' : DriverData) : Prop where
  tblCnt : d'.tblCnt = d.tblCnt
  entry : ∀ h, Kept (d.tbl h) (d'.tbl h)
  hlosKey : ∀ h, (d'.tbl h).valid = true → d'.hlosKeyTbl h = d.hlosKeyTbl h

namespace Shrinks

theorem refl (d : DriverData) : Shrinks d d := ⟨rfl, fun h => .refl (d.tbl h), fun _ _ => rfl⟩

theorem trans (h : Shrinks d d') (h' : Shrinks d' d'') : Shrinks d d'' := by
  refine ⟨h'.tblCnt.trans h.tblCnt, fun i => (h.entry i).trans (h'.entry i), fun i hi => ?_⟩
  rw [h'.hlosKey i hi]
  apply h.hlosKey
  rcases h'.entry i with ⟨hv, -, -⟩ | ⟨hv, -, -⟩
  · rw [← hv]
    exact hi
  · rw [hv] at hi
    cases hi

theorem setFence {e : MsmHwFence} (he : Kept (d.tbl hash) e) : Shrinks d (d.setFence hash e) := by
  refine ⟨rfl, fun h => ?_, fun _ _ => rfl⟩
  show Kept (d.tbl h) (update d.tbl hash e h)
  rcases eq_or_ne h hash with rfl | hne
  · rw [update_self]
    exact he
  · rw [update_of_ne hne]
    exact .refl _

theorem setFenceFree {e : MsmHwFence} (he : Kept (d.tbl hash) e) :
    Shrinks d (d.setFence hash (freeIfZero e)) := setFence (he.trans (kept_freeIfZero e))

theorem of_tbl (htbl : d'.tbl = d.tbl) (hkey : d'.hlosKeyTbl = d.hlosKeyTbl)
    (hcnt : d'.tblCnt = d.tblCnt) : Shrinks d d' := by
  refine ⟨hcnt, fun h => ?_, fun h _ => ?_⟩
  · rw [htbl]
    exact .refl _
  · rw [hkey]

theorem foldl {α : Type*} {f : DriverData → α → DriverData} (hf : ∀ d a, Shrinks d (f d a))
    (l : List α) (d : DriverData) : Shrinks d (l.foldl f d) := by
  induction l generalizing d with
  | nil => exact .refl d
  | cons a l ih => exact (hf d a).trans (ih (f d a))

end Shrinks

theorem shrinks_unreserveHwFence (d : DriverData) (hash : ℕ) :
    Shrinks d (d.unreserveHwFence hash).1 := by
  simp only [unreserveHwFence]
  split
  · exact .refl d
  · have hset : Shrinks d (d.setFence hash (freeIfZero
        { d.tbl hash with refcount.hlos := (d.tbl hash).refcount.hlos - 1 })) :=
      Shrinks.setFenceFree (.inl ⟨rfl, rfl, rfl⟩)
    split
    · rename_i hzero
      -- the key is cleared with the entry
      refine ⟨rfl, hset.entry, fun h hv => ?_⟩
      show update d.hlosKeyTbl hash 0 h = d.hlosKeyTbl h
      rcases eq_or_ne h hash with rfl | hne
      · have hfree : (update d.tbl h (freeIfZero { d.tbl h with
            refcount.hlos := (d.tbl h).refcount.hlos - 1 }) h).valid = true := hv
        rw [update_self, freeIfZero, if_pos hzero] at hfree
        cases hfree
      · rw [update_of_ne hne]
    · exact hset

theorem shrinks_destroyRefcount (d : DriverData) (hash : ℕ) (ref : RefFlag) :
    Shrinks d (d.destroyRefcount hash ref).1 := by
  rw [destroyRefcount, getHwFence]
  split
  · exact .refl d
  · rename_i e he
    split at he
    · cases he
      split
      · exact .setFenceFree (.inl ⟨rfl, rfl, rfl⟩)
      · exact .refl d
    · cases he

theorem shrinks_fenceFound (d : DriverData) (hash : ℕ) : Shrinks d (d.fenceFound hash).1 := by
  simp only [fenceFound]
  split
  · exact .refl d
  · exact .setFence (.inl ⟨rfl, rfl, rfl⟩)

theorem shrinks_dmaFencePut (d : DriverData) (f : HwDmaFence) : Shrinks d (d.dmaFencePut f) := by
  have hset : ∀ fences, Shrinks d (d.setDmaFences fences) := fun _ => .of_tbl rfl rfl rfl
  rw [dmaFencePut]
  split
  · exact (hset _).trans (shrinks_destroyRefcount _ _ _)
  · exact hset _

theorem shrinks_dmaFenceTableDel (d : DriverData) (hash : ℕ) : Shrinks d (d.dmaFenceTableDel hash) := by
  have hset : ∀ fences, Shrinks d (d.setDmaFences fences) := fun _ => .of_tbl rfl rfl rfl
  rw [dmaFenceTableDel]
  split
  · exact .refl d
  · exact (hset _).trans (shrinks_dmaFencePut _ _)

theorem shrinks_putAndUnlock (d : DriverData) (hash : ℕ) : Shrinks d (d.putAndUnlock hash).1 := by
  simp only [putAndUnlock]
  split
  · exact .refl d
  · split
    · refine Shrinks.trans ?_ (shrinks_dmaFenceTableDel _ _)
      exact .setFenceFree (.inl ⟨rfl, rfl, rfl⟩)
    · exact .setFenceFree (.inl ⟨rfl, rfl, rfl⟩)

theorem shrinks_destroyWithHash (d : DriverData) (hash : ℕ) : Shrinks d (d.destroyWithHash hash).1 := by
  rw [destroyWithHash]
  split
  · exact .refl d
  · exact shrinks_putAndUnlock d hash

/-! ### Signals -/

theorem shrinks_fenceCtlSignal (d : DriverData) (client : Client) (hash : ℕ) (data : UInt64)
    (error : UInt32) (fromImport : Bool) :
    Shrinks d (d.fenceCtlSignal client hash data error fromImport).1 := by
  simp only [fenceCtlSignal]
  split
  · exact .of_tbl rfl rfl rfl
  · split
    · exact .refl d
    · split
      · exact .of_tbl rfl rfl rfl
      · exact .refl d

theorem shrinks_signalWaitClients (hash : ℕ) (mask : Finset ℕ) (error : UInt32) (ids : List ℕ)
    (data : UInt64) (d : DriverData) : Shrinks d (d.signalWaitClients hash mask error ids data) := by
  induction ids generalizing d data with
  | nil => exact .refl d
  | cons id ids ih =>
    rw [signalWaitClients]
    split
    · split
      · exact ih data d
      · exact (shrinks_fenceCtlSignal _ _ _ _ _ _).trans (ih _ _)
    · exact ih data d

theorem shrinks_signalAllWaitClients (d : DriverData) (hash : ℕ) (mask : Finset ℕ) (error : UInt32) :
    Shrinks d (d.signalAllWaitClients hash mask error) := shrinks_signalWaitClients _ _ _ _ _ _

theorem shrinks_updateJoinFence (d : DriverData) (hash : ℕ) (error : UInt32) :
    Shrinks d (d.updateJoinFence hash error).1 := .setFence (.inl ⟨rfl, rfl, rfl⟩)

theorem shrinks_signalParentFence (d : DriverData) (error : UInt32) (parent : Option ℕ) :
    Shrinks d (d.signalParentFence error parent) := by
  unfold signalParentFence
  split
  · exact .refl d
  · rename_i parentHash
    split
    · exact .refl d
    · have hupdate := shrinks_updateJoinFence d parentHash error
      rcases heq : d.updateJoinFence parentHash error with ⟨d₁, _ | _⟩
      · rw [heq] at hupdate
        exact hupdate
      · rw [heq] at hupdate
        exact (hupdate.trans (shrinks_signalAllWaitClients _ _ _ _)).trans
          (shrinks_destroyRefcount _ _ _)

theorem shrinks_signalParentFences (d : DriverData) (hash cnt : ℕ) (error : UInt32) :
    Shrinks d (d.signalParentFences hash cnt error) :=
  .foldl (fun d parent => shrinks_signalParentFence d error parent) _ d

theorem shrinks_takeSignal (d : DriverData) (hash : ℕ) (error : UInt32) :
    Shrinks d (d.takeSignal hash error).1 := by
  simp only [takeSignal]
  split
  · exact .refl d
  · exact .setFence (.inl ⟨rfl, rfl, rfl⟩)

theorem shrinks_signalFenceIfUnsignaled (d : DriverData) (hash : ℕ) (error : UInt32)
    (releaseRef : Bool) : Shrinks d (d.signalFenceIfUnsignaled hash error releaseRef) := by
  have htake := shrinks_takeSignal d hash error
  rw [signalFenceIfUnsignaled]
  rcases heq : d.takeSignal hash error with ⟨d₁, _ | ⟨mask, cnt⟩⟩
  · rw [heq] at htake
    exact htake
  · rw [heq] at htake
    have hsignal := (htake.trans (shrinks_signalParentFences d₁ hash cnt error)).trans
      (shrinks_signalAllWaitClients _ hash mask error)
    simp only
    split
    · exact hsignal.trans (shrinks_destroyRefcount _ _ _)
    · exact hsignal

theorem shrinks_signalFence (d : DriverData) (fence : Option DmaFence) (hash : ℕ) (error : UInt32)
    (releaseRef : Bool) : Shrinks d (d.signalFence fence hash error releaseRef).1 := by
  rw [signalFence]
  split
  · exact .refl d
  · split
    · exact shrinks_signalFenceIfUnsignaled _ _ _ _
    · split
      · exact .refl d
      · exact shrinks_signalFenceIfUnsignaled _ _ _ _

theorem shrinks_signalCallback (d : DriverData) (fence : DmaFence) (hash : ℕ) :
    Shrinks d (d.signalCallback fence hash) := by
  have hsignal := shrinks_signalFence d (some fence) hash fence.error false
  rw [signalCallback]
  split
  · rename_i heq
    rw [heq] at hsignal
    exact hsignal
  · rename_i heq
    rw [heq] at hsignal
    exact hsignal.trans (shrinks_destroyRefcount _ _ _)

theorem shrinks_setDmaFenceRefcount (d : DriverData) (hash : ℕ) (internalOwned : Bool) :
    Shrinks d (d.setDmaFenceRefcount hash internalOwned) := .setFence (.inl ⟨rfl, rfl, rfl⟩)

theorem shrinks_cleanupFence (d : DriverData) (clientId : ℕ) (withoutError withoutDestroy : Bool)
    (hash : ℕ) : Shrinks d (d.cleanupFence clientId withoutError withoutDestroy hash) := by
  have hmask : Shrinks d (if clientId ∈ (d.tbl hash).waitClientMask then
      d.setFence hash { d.tbl hash with
        waitClientMask := (d.tbl hash).waitClientMask.erase clientId } else d) := by
    split
    · exact .setFence (.inl ⟨rfl, rfl, rfl⟩)
    · exact .refl d
  simp only [cleanupFence]
  split
  · exact hmask.trans (shrinks_putAndUnlock _ _)
  · split
    · have hsignal := hmask.trans
        (shrinks_signalFenceIfUnsignaled _ hash (if withoutError then 0 else errorReset) true)
      split
      · exact hsignal
      · exact hsignal.trans (shrinks_destroyWithHash _ _)
    · exact hmask

theorem shrinks_resetClient (d : DriverData) (clientId : ℕ) (withoutError withoutDestroy : Bool) :
    Shrinks d (d.resetClient clientId withoutError withoutDestroy) :=
  .foldl (fun d hash => shrinks_cleanupFence d clientId withoutError withoutDestroy hash) _ d

theorem shrinks_ssrCleanupTable (d : DriverData) : Shrinks d d.ssrCleanupTable :=
  .foldl (fun d hash => shrinks_signalFenceIfUnsignaled d hash errorReset false) _ d

theorem shrinks_lookupAndProcessRange (k : Key) (first last : ℕ)
    {fn : DriverData → ℕ → DriverData × Ret} (hfn : ∀ d h, Shrinks d (fn d h).1) (d : DriverData) :
    Shrinks d (d.lookupAndProcessRange k first last fn).1 := by
  rw [lookupAndProcessRange]
  split
  · exact .refl d
  · rename_i h _
    have hrun := hfn d h
    split
    · rename_i heq
      rw [heq] at hrun
      exact hrun
    · rename_i heq
      rw [heq] at hrun
      exact hrun

theorem lookupAndProcessRange_none {first last : ℕ}
    (h : d.lookupAndProcessRange k first last fenceFound = (d', none)) : d' = d := by
  rw [lookupAndProcessRange] at h
  split at h
  · cases h
    rfl
  · rename_i s _
    split at h
    · cases h
    · rename_i heq
      cases h
      simp only [fenceFound] at heq
      split at heq
      · cases heq
        rfl
      · cases heq

theorem findRanges_cases {fence : DmaFence} {fuel step i : ℕ} {r : Found}
    (h : d.findRanges fence fuel step i = (d', r)) :
    Shrinks d d' ∧ ((∀ s, r ≠ .found s) → d' = d) := by
  induction fuel generalizing step i with
  | zero =>
    cases h
    exact ⟨.refl d, fun _ => rfl⟩
  | succ fuel ih =>
    rw [findRanges] at h
    split at h
    · cases h
      exact ⟨.refl d, fun _ => rfl⟩
    · have hrange := shrinks_lookupAndProcessRange fence.key step (min (step + findThreshold) d.tblCnt)
        shrinks_fenceFound d
      split at h
      · rename_i s heq
        rw [heq] at hrange
        cases h
        exact ⟨hrange, fun hr => absurd rfl (hr s)⟩
      · rename_i heq
        have hsame := lookupAndProcessRange_none heq
        subst hsame
        split at h
        · cases h
          exact ⟨.refl _, fun _ => rfl⟩
        · exact ih h

theorem shrinks_hwFenceDestroy (d : DriverData) (k : Key) : Shrinks d (d.hwFenceDestroy k).1 := by
  have hrange := shrinks_lookupAndProcessRange k 0 d.tblCnt shrinks_unreserveHwFence d
  rw [hwFenceDestroy, lookupAndProcess]
  split
  · rename_i heq
    rw [heq] at hrange
    exact hrange
  · rename_i heq
    rw [heq] at hrange
    exact hrange

def Created (d d' : DriverData) (k : Key) : Prop :=
  Shrinks d d' ∨ (d.tbl (d.createEnd k)).valid = false ∧
    ∃ clientId cnt, Shrinks (d.reserveHwFence (d.createEnd k) clientId k cnt) d'

theorem Created.trans (h : Created d d' k) (h' : Shrinks d' d'') : Created d d'' k := by
  rcases h with h | ⟨hfree, clientId, cnt, h⟩
  · exact .inl (h.trans h')
  · exact .inr ⟨hfree, clientId, cnt, h.trans h'⟩

theorem created_lookupAndCreateRange (clientId cnt hash : ℕ) (signaled : Bool) (d : DriverData)
    (k : Key) : Created d (d.lookupAndCreateRange clientId k cnt hash 0 d.tblCnt signaled).1 k := by
  rw [lookupAndCreateRange, forEachHwFence_round]
  rcases hs : Probing.search d.tblCnt (calculateHash k.context k.seqno d.tblCnt)
    (fun h => !(d.tbl h).valid || d.hwFenceMatch k h) 0 d.tblCnt with ⟨h, _ | _⟩
  · exact .inl (.refl d)
  · have hend : d.createEnd k = h := by rw [createEnd, hs]
    simp only
    split
    · rename_i hfree
      refine .inr ⟨?_, clientId, cnt, ?_⟩
      · rw [hend]
        exact hfree
      · rw [hend]
        exact .refl _
    · have hfound := shrinks_fenceFound d h
      left
      split
      · split
        · rename_i heq
          rw [heq] at hfound
          exact hfound
        · rename_i heq
          rw [heq] at hfound
          exact hfound
      · exact .refl d

theorem created_lookupAndCreate (d : DriverData) (clientId : ℕ) (k : Key) (cnt hash : ℕ) :
    Created d (d.lookupAndCreate clientId k cnt hash).1 k :=
  created_lookupAndCreateRange clientId cnt hash false d k

theorem created_hwFenceCreate (d : DriverData) (client : Client) (k : Key) (hash : ℕ) :
    Created d (d.hwFenceCreate client k hash).1 k := by
  have hlookup := created_lookupAndCreate d client.clientId k 0 hash
  rw [hwFenceCreate]
  rcases heq : d.lookupAndCreate client.clientId k 0 hash with ⟨d₁, h, status⟩
  rw [heq] at hlookup
  simp only
  split
  · exact (hlookup.trans (shrinks_destroyRefcount _ _ _)).trans (shrinks_destroyWithHash _ _)
  · split
    · have hdrop := shrinks_destroyRefcount d₁ h .fctl
      rcases hd : d₁.destroyRefcount h .fctl with ⟨d₂, ret⟩
      rw [hd] at hdrop
      exact hlookup.trans hdrop
    · exact hlookup

theorem created_createSignaledHwFence (d : DriverData) (clientId : ℕ) (fence : DmaFence) :
    Created d (d.createSignaledHwFence clientId fence).1 fence.key := by
  have hlookup := created_lookupAndCreateRange clientId 0 0 true d fence.key
  rw [createSignaledHwFence]
  split
  · rename_i heq
    rw [heq] at hlookup
    exact hlookup.trans (shrinks_signalFenceIfUnsignaled _ _ _ _)
  · rename_i heq
    rw [heq] at hlookup
    exact hlookup

theorem findWithDmaFence_cases {clientId : ℕ} {fence : DmaFence} {create : Bool} {h : Option ℕ}
    {signaled : Bool} (hf : d.findWithDmaFence clientId fence create = (d', h, signaled)) :
    Shrinks d d' ∨ create = true ∧ (d.findRanges fence d.tblCnt 0 1).2 = .signaled ∧
      Created d d' fence.key := by
  rw [findWithDmaFence] at hf
  split at hf
  · cases hf
    exact .inl (.refl d)
  · split at hf
    · rename_i heq
      cases hf
      exact .inl (findRanges_cases heq).1
    · rename_i d₁ heq
      obtain ⟨hshrink, hsame⟩ := findRanges_cases heq
      have hsame := hsame fun s hs => by cases hs
      subst hsame
      have hcreated := created_createSignaledHwFence d₁ clientId fence
      split at hf
      · rename_i hcreate
        cases hf
        exact .inr ⟨hcreate, by rw [heq], hcreated⟩
      · cases hf
        exact .inl hshrink
    · rename_i heq
      cases hf
      exact .inl (findRanges_cases heq).1

theorem shrinks_findWithDmaFence (d : DriverData) (clientId : ℕ) (fence : DmaFence) :
    Shrinks d (d.findWithDmaFence clientId fence false).1 := by
  rcases hf : d.findWithDmaFence clientId fence false with ⟨d', h, signaled⟩
  rcases findWithDmaFence_cases hf with hs | ⟨hc, -, -⟩
  · exact hs
  · cases hc

end Sm8750Modules.HwFence.DriverData
