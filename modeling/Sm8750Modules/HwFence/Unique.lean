import Sm8750Modules.HwFence.Shrink
import Sm8750Modules.Lib.Runs

/-!
# Hardware fences — one entry for each fence

A create stops at the first free slot of its probe path. Where a slot in front of the entry of a
fence was freed, a second create of the fence takes that slot, and the table holds the fence
twice.
-/

namespace Sm8750Modules.HwFence.DriverData

variable {d d' : DriverData} {k : Key} {hash : ℕ} {client : Client}

theorem shrinks_registerWait (d : DriverData) (client : Client) (hash : ℕ) (data : UInt64)
    (signaled : Bool) : Shrinks d (d.registerWait client hash data signaled).1 := by
  simp only [registerWait]
  split
  · exact .setFence (.inl ⟨rfl, rfl, rfl⟩)
  · exact .setFence (.inl ⟨rfl, rfl, rfl⟩)

theorem shrinks_registerFound (d : DriverData) (client : Client) (hash : ℕ) (data : UInt64)
    (signaled : Bool) : Shrinks d (d.registerFound client hash data signaled).1 := by
  have hregister := shrinks_registerWait d client hash data signaled
  rw [registerFound]
  rcases hr : d.registerWait client hash data signaled with ⟨d₁, _ | _⟩
  · rw [hr] at hregister
    exact hregister
  · rw [hr] at hregister
    have hsignal := shrinks_fenceCtlSignal d₁ client hash data (d₁.tbl hash).error true
    simp only
    rcases hs : d₁.fenceCtlSignal client hash data (d₁.tbl hash).error true with ⟨d₂, _ | _⟩
    · rw [hs] at hsignal
      exact (hregister.trans hsignal).trans (shrinks_destroyWithHash _ _)
    · rw [hs] at hsignal
      exact hregister.trans hsignal

/-- The fence that a registration may create an entry for. -/
def registerCreates (d : DriverData) (on : WaitOn) (client : Client) (clientData : UInt64) :
    Option Key :=
  match on with
  | .numbers _ _ => none
  | .fence f =>
    if clientData ≠ 0 ∧ client.hasClientData = false then none
    else if (d.findRanges f d.tblCnt 0 1).2 = .signaled then some f.key else none

theorem registerWaitClient_cases (d : DriverData) (on : WaitOn) (client : Client) (data : UInt64) :
    Shrinks d (d.registerWaitClient on client data).1 ∨
      ∃ k, d.registerCreates on client data = some k ∧
        Created d (d.registerWaitClient on client data).1 k := by
  unfold registerWaitClient registerCreates
  split
  · exact .inl (.refl d)
  · rename_i hdata
    cases on with
    | numbers context seqno =>
      left
      have hfind := shrinks_lookupAndProcessRange ⟨context, seqno, context⟩ 0 d.tblCnt
        shrinks_fenceFound d
      rw [← lookupAndProcess] at hfind
      simp only
      rcases hl : d.lookupAndProcess ⟨context, seqno, context⟩ fenceFound with ⟨d₁, _ | h⟩
      · rw [hl] at hfind
        exact hfind
      · rw [hl] at hfind
        exact hfind.trans (shrinks_registerFound d₁ client h data false)
    | fence f =>
      simp only
      rcases hf : d.findWithDmaFence client.clientId f true with ⟨d₁, _ | h, signaled⟩
      · rcases findWithDmaFence_cases hf with hs | ⟨-, hsignaled, hc⟩
        · exact .inl hs
        · exact .inr ⟨f.key, if_pos hsignaled, hc⟩
      · have hfound := shrinks_registerFound d₁ client h data signaled
        rcases findWithDmaFence_cases hf with hs | ⟨-, hsignaled, hc⟩
        · exact .inl (hs.trans hfound)
        · exact .inr ⟨f.key, if_pos hsignaled, hc.trans hfound⟩

theorem kept_removeParent (joinHash j : ℕ) (e : MsmHwFence) : Kept e (removeParent joinHash j e) := by
  induction j generalizing e with
  | zero => exact .refl e
  | succ j ih =>
    rw [removeParent]
    split
    · exact Kept.trans (.inl ⟨rfl, rfl, rfl⟩) (ih _)
    · exact ih e

theorem shrinks_cleanupChild (d : DriverData) (client : Client) (joinHash : ℕ) (child : Option Child) :
    Shrinks d (d.cleanupChild client joinHash child) := by
  unfold cleanupChild
  split
  · exact .refl d
  · rename_i c
    have hfind := shrinks_findWithDmaFence d client.clientId
      { c.fence with isSignaled := c.isSignaledAtCleanup }
    split
    · rename_i heq
      rw [heq] at hfind
      exact (hfind.trans (.setFence (kept_removeParent _ _ _))).trans (shrinks_putAndUnlock _ _)
    · rename_i heq
      rw [heq] at hfind
      exact hfind

theorem shrinks_cleanupJoinAndChildFences (d : DriverData) (client : Client) (i : ℕ)
    (array : FenceArray) (joinHash : ℕ) :
    Shrinks d (d.cleanupJoinAndChildFences client i array joinHash) := by
  refine Shrinks.trans ?_ (shrinks_destroyRefcount _ _ _)
  exact .foldl (fun d child => shrinks_cleanupChild d client joinHash child) _ d

theorem shrinks_addParent (d : DriverData) (joinHash hash : ℕ) :
    Shrinks d (d.addParent joinHash hash).1 := by
  simp only [addParent]
  split
  · exact shrinks_putAndUnlock _ _
  · refine Shrinks.trans ?_ (shrinks_putAndUnlock _ _)
    exact .setFence (.inl ⟨rfl, rfl, rfl⟩)

theorem shrinks_processChild (d : DriverData) (client : Client) (joinHash : ℕ) (child : Option Child) :
    Shrinks d (d.processChild client joinHash child).1 := by
  unfold processChild
  split
  · exact .refl d
  · rename_i c
    split
    · exact .refl d
    · have hfind := shrinks_findWithDmaFence d client.clientId c.fence
      rcases hf : d.findWithDmaFence client.clientId c.fence false with ⟨d₁, h, signaled⟩
      rw [hf] at hfind
      cases signaled with
      | true => exact hfind.trans (shrinks_updateJoinFence d₁ joinHash c.fence.error)
      | false =>
        cases h with
        | none => exact hfind
        | some h =>
          simp only
          split
          · exact (hfind.trans (shrinks_updateJoinFence d₁ joinHash (d₁.tbl h).error)).trans
              (shrinks_putAndUnlock _ _)
          · have hadd := shrinks_addParent d₁ joinHash h
            rcases ha : d₁.addParent joinHash h with ⟨d₂, _ | _⟩
            · rw [ha] at hadd
              exact hfind.trans hadd
            · rw [ha] at hadd
              exact hfind.trans hadd

theorem shrinks_processChildren (client : Client) (joinHash : ℕ) (children : List (Option Child))
    (i : ℕ) (signal : Bool) (d : DriverData) :
    Shrinks d (processChildren client joinHash children i signal d).1 := by
  induction children generalizing i signal d with
  | nil => exact .refl d
  | cons child children ih =>
    have hchild := shrinks_processChild d client joinHash child
    rw [processChildren]
    rcases hc : d.processChild client joinHash child with ⟨d₁, _ | last | _⟩
    · rw [hc] at hchild
      exact hchild
    · rw [hc] at hchild
      exact hchild.trans (ih _ _ _)
    · rw [hc] at hchild
      exact hchild.trans (ih _ _ _)

def arrayCreates (client : Client) (array : FenceArray) (clientData : UInt64) : Option Key :=
  if clientData ≠ 0 ∧ client.hasClientData = false then none else some array.key

theorem processFenceArray_cases (d : DriverData) (client : Client) (array : FenceArray)
    (data : UInt64) : Shrinks d (d.processFenceArray client array data).1 ∨
      ∃ k, arrayCreates client array data = some k ∧
        Created d (d.processFenceArray client array data).1 k := by
  rw [processFenceArray, arrayCreates]
  split
  · exact .inl (.refl d)
  · refine .inr ⟨array.key, rfl, ?_⟩
    have hlookup := created_lookupAndCreate d joinFenceClientId array.key array.fences.length 0
    rcases hl : d.lookupAndCreate joinFenceClientId array.key array.fences.length 0 with
      ⟨d₁, joinHash, status⟩
    rw [hl] at hlookup
    cases status with
    | failed => exact hlookup
    | ealready => exact hlookup
    | success =>
      simp only
      have hmask : Shrinks d₁ (d₁.setFence joinHash { d₁.tbl joinHash with
          waitClientMask := insert client.clientId (d₁.tbl joinHash).waitClientMask }) :=
        .setFence (.inl ⟨rfl, rfl, rfl⟩)
      have hchildren := hmask.trans (shrinks_processChildren client joinHash array.fences 0 false _)
      rcases hp : processChildren client joinHash array.fences 0 false (d₁.setFence joinHash
        { d₁.tbl joinHash with
          waitClientMask := insert client.clientId (d₁.tbl joinHash).waitClientMask }) with
        ⟨d₂, signal, _ | i⟩
      · rw [hp] at hchildren
        have hdata : Shrinks d₂ (if data ≠ 0 then
            d₂.setFence joinHash { d₂.tbl joinHash with clientData := data } else d₂) := by
          split
          · exact .setFence (.inl ⟨rfl, rfl, rfl⟩)
          · exact .refl d₂
        simp only
        split
        · exact hlookup.trans ((hchildren.trans hdata).trans
            ((shrinks_fenceCtlSignal _ _ _ _ _ _).trans (shrinks_destroyRefcount _ _ _)))
        · split
          · exact hlookup.trans ((hchildren.trans hdata).trans
              (shrinks_cleanupJoinAndChildFences _ _ _ _ _))
          · exact hlookup.trans (hchildren.trans hdata)
      · rw [hp] at hchildren
        exact hlookup.trans (hchildren.trans (shrinks_cleanupJoinAndChildFences _ _ _ _ _))

def Holds (d : DriverData) (k : Key) (h : ℕ) : Prop :=
  h < d.tblCnt ∧ (d.tbl h).valid = true ∧ d.hwFenceMatch k h = true
deriving Decidable

/-- Each fence has one entry at most, and an entry that is free has no numbers. -/
structure Unique (d : DriverData) : Prop where
  one : ∀ k h h', d.Holds k h → d.Holds k h' → h = h'
  blank : ∀ h, (d.tbl h).valid = false → (d.tbl h).ctxId = 0 ∧ (d.tbl h).seqId = 0

def pathSlot (d : DriverData) (k : Key) (i : ℕ) : ℕ :=
  Probing.slot d.tblCnt (calculateHash k.context k.seqno d.tblCnt) i

def NoHole (d : DriverData) (k : Key) : Prop :=
  ∀ i < d.tblCnt, d.Holds k (d.pathSlot k i) → ∀ j < i, (d.tbl (d.pathSlot k j)).valid = true

theorem Shrinks.holds (h : Shrinks d d') {i : ℕ} (hh : d'.Holds k i) : d.Holds k i := by
  obtain ⟨hlt, hvalid, hmatch⟩ := hh
  rw [h.tblCnt] at hlt
  have hkey := h.hlosKey i hvalid
  rcases h.entry i with ⟨hv, hc, hs⟩ | ⟨hv, -, -⟩
  · refine ⟨hlt, hv ▸ hvalid, ?_⟩
    rwa [hwFenceMatch, hc, hs, hkey] at hmatch
  · rw [hv] at hvalid
    cases hvalid

theorem Shrinks.unique (h : Shrinks d d') (hu : Unique d) : Unique d' where
  one k i j hi hj := hu.one k i j (h.holds hi) (h.holds hj)
  blank i hi := by
    rcases h.entry i with ⟨hv, hc, hs⟩ | ⟨-, hc, hs⟩
    · rw [hc, hs]
      exact hu.blank i (hv ▸ hi)
    · exact ⟨hc, hs⟩

theorem NoHole.not_holds (h : NoHole d k) (hfree : (d.tbl (d.createEnd k)).valid = false) (i : ℕ) :
    ¬d.Holds k i := by
  rintro ⟨hlt, hvalid, hmatch⟩
  rcases hs : Probing.search d.tblCnt (calculateHash k.context k.seqno d.tblCnt)
    (fun h => !(d.tbl h).valid || d.hwFenceMatch k h) 0 d.tblCnt with ⟨s, b⟩
  obtain ⟨first, -, -, hslot, hbefore, -, -⟩ := Probing.search_slot d.tblCnt_pos hs
  rw [createEnd, hs] at hfree
  have hfree : (d.tbl s).valid = false := hfree
  obtain ⟨step, hstep, rfl⟩ := Probing.slot_surjective (calculateHash k.context k.seqno d.tblCnt) hlt
  rcases Nat.lt_trichotomy step first with hless | rfl | hmore
  · have hskip := hbefore step (Nat.zero_le _) hless
    rw [hmatch, Bool.or_true] at hskip
    cases hskip
  · rw [← hslot, hfree] at hvalid
    cases hvalid
  · have hfull := h step hstep ⟨hlt, hvalid, hmatch⟩ first hmore
    rw [pathSlot, ← hslot, hfree] at hfull
    cases hfull

theorem holds_reserveHwFence {clientId cnt : ℕ} {k' : Key} {i : ℕ}
    (h : (d.reserveHwFence hash clientId k cnt).Holds k' i) : i = hash ∧ k' = k ∨ d.Holds k' i := by
  obtain ⟨hlt, hvalid, hmatch⟩ := h
  rcases eq_or_ne i hash with rfl | hne
  · left
    simp only [hwFenceMatch, reserveHwFence, setHlosKey, setFence, Function.update_self,
      Bool.and_eq_true, beq_iff_eq] at hmatch
    obtain ⟨⟨hc, hs⟩, hk⟩ := hmatch
    refine ⟨rfl, ?_⟩
    cases k
    cases k'
    simp only [Key.mk.injEq]
    exact ⟨hc.symm, hs.symm, hk.symm⟩
  · right
    simp only [hwFenceMatch, reserveHwFence, setHlosKey, setFence,
      Function.update_of_ne hne] at hmatch hvalid
    exact ⟨hlt, hvalid, hmatch⟩

theorem unique_reserveHwFence (hu : Unique d) {clientId cnt : ℕ} (hnew : ∀ i, ¬d.Holds k i) :
    Unique (d.reserveHwFence hash clientId k cnt) where
  one k' i j hi hj := by
    rcases holds_reserveHwFence hi with ⟨rfl, rfl⟩ | hi
    · rcases holds_reserveHwFence hj with ⟨rfl, -⟩ | hj
      · rfl
      · exact absurd hj (hnew j)
    · rcases holds_reserveHwFence hj with ⟨-, hk⟩ | hj
      · exact absurd (hk ▸ hi) (hnew i)
      · exact hu.one k' i j hi hj
  blank i hi := by
    rcases eq_or_ne i hash with rfl | hne
    · simp only [reserveHwFence, setHlosKey, setFence, Function.update_self] at hi
      cases hi
    · simp only [reserveHwFence, setHlosKey, setFence, Function.update_of_ne hne] at hi ⊢
      exact hu.blank i hi

/-- **A create keeps the fences apart** if its search meets no hole. -/
theorem Created.unique (h : Created d d' k) (hu : Unique d) (hhole : NoHole d k) : Unique d' := by
  rcases h with h | ⟨hfree, clientId, cnt, h⟩
  · exact h.unique hu
  · exact h.unique (unique_reserveHwFence hu (hhole.not_holds hfree))

/-! ### Runs -/

/-- The operations on the table, as any sequence of calls, callbacks and messages of the controller makes
them. -/
inductive Event where
  | create (client : Client) (k : Key) (hash : ℕ)
  | destroy (k : Key)
  | destroyWithHash (hash : ℕ)
  | destroyRefcount (hash : ℕ) (ref : RefFlag)
  | setDmaFence (hash : ℕ) (internalOwned : Bool)
  | dmaFences (fences : List HwDmaFence)
  | dmaFencePut (f : HwDmaFence)
  | importFence (on : WaitOn) (client : Client) (clientData : UInt64)
  | waitArray (client : Client) (array : FenceArray) (clientData : UInt64)
  | find (k : Key)
  | signal (fence : Option DmaFence) (hash : ℕ) (error : UInt32) (releaseRef : Bool)
  | callback (fence : DmaFence) (hash : ℕ)
  | reset (clientId : ℕ) (withoutError withoutDestroy : Bool)
  | fctlReady (ready : Bool)
  | rxqRoom (room : ℕ → Bool)
  | ssr

/-- The table after an operation. -/
def next (d : DriverData) : Event → DriverData
  | .create client k hash => (d.hwFenceCreate client k hash).1
  | .destroy k => (d.hwFenceDestroy k).1
  | .destroyWithHash hash => (d.destroyWithHash hash).1
  | .destroyRefcount hash ref => (d.destroyRefcount hash ref).1
  | .setDmaFence hash internalOwned => d.setDmaFenceRefcount hash internalOwned
  | .dmaFences fences => d.setDmaFences fences
  | .dmaFencePut f => d.dmaFencePut f
  | .importFence on client clientData => (d.registerWaitClient on client clientData).1
  | .waitArray client array clientData => (d.processFenceArray client array clientData).1
  | .find k => (d.lookupAndProcess k fenceFound).1
  | .signal fence hash error releaseRef => (d.signalFence fence hash error releaseRef).1
  | .callback fence hash => d.signalCallback fence hash
  | .reset clientId withoutError withoutDestroy => d.resetClient clientId withoutError withoutDestroy
  | .fctlReady ready => { d with fctlReady := ready }
  | .rxqRoom room => { d with rxqRoom := room }
  | .ssr => d.ssrCleanupTable

/-- The fence that an operation looks for a free slot for, if it gets to that. -/
def Event.creates (d : DriverData) : Event → Option Key
  | .create _ k _ => some k
  | .importFence on client clientData => d.registerCreates on client clientData
  | .waitArray client array clientData => arrayCreates client array clientData
  | _ => none

theorem next_cases (d : DriverData) (e : Event) :
    Shrinks d (d.next e) ∨ ∃ k, e.creates d = some k ∧ Created d (d.next e) k := by
  cases e with
  | create client k hash => exact .inr ⟨k, rfl, created_hwFenceCreate d client k hash⟩
  | destroy k => exact .inl (shrinks_hwFenceDestroy d k)
  | destroyWithHash hash => exact .inl (shrinks_destroyWithHash d hash)
  | destroyRefcount hash ref => exact .inl (shrinks_destroyRefcount d hash ref)
  | setDmaFence hash internalOwned => exact .inl (shrinks_setDmaFenceRefcount d hash internalOwned)
  | dmaFences fences => exact .inl (.of_tbl rfl rfl rfl)
  | dmaFencePut f => exact .inl (shrinks_dmaFencePut d f)
  | importFence on client data => exact registerWaitClient_cases d on client data
  | waitArray client array data => exact processFenceArray_cases d client array data
  | find k => exact .inl (shrinks_lookupAndProcessRange k 0 d.tblCnt shrinks_fenceFound d)
  | signal fence hash error releaseRef => exact .inl (shrinks_signalFence d fence hash error releaseRef)
  | callback fence hash => exact .inl (shrinks_signalCallback d fence hash)
  | reset clientId withoutError withoutDestroy =>
    exact .inl (shrinks_resetClient d clientId withoutError withoutDestroy)
  | fctlReady ready => exact .inl (.of_tbl rfl rfl rfl)
  | rxqRoom room => exact .inl (.of_tbl rfl rfl rfl)
  | ssr => exact .inl (shrinks_ssrCleanupTable d)

/-- The runs of the table from its initialisation, as far as they are allowed. -/
def machine (allowed : DriverData → Event → Prop) : Runs.Machine DriverData Event where
  init d := ∃ tblCnt h clients rxqClientsNum, d = init tblCnt h clients rxqClientsNum
  guard := allowed
  next := next

def CreatesFresh (d : DriverData) (e : Event) : Prop := ∀ k ∈ e.creates d, d.NoHole k

theorem unique_of_reachable (h : (machine CreatesFresh).Reachable d) : Unique d := by
  apply h.invariant
  · rintro _ ⟨tblCnt, hpos, clients, rxqClientsNum, rfl⟩
    exact ⟨fun k i j hi _ => (by cases hi.2.1), fun i _ => ⟨rfl, rfl⟩⟩
  · intro d e hu hfresh
    rcases next_cases d e with hs | ⟨k, hk, hc⟩
    · exact hs.unique hu
    · exact hc.unique hu (hfresh k hk)

/-- What should hold of the table. -/
structure TableUnique (d : DriverData) : Prop where
  one : ∀ k h h', d.Holds k h → d.Holds k h' → h = h'
  create : ∀ k h clientId cnt hash, d.Holds k h → d.NoHole k →
    d.lookupAndCreate clientId k cnt hash = (d, h, .ealready)
  process : ∀ k h fn, d.Holds k h → k.context ≠ 0 ∨ k.seqno ≠ 0 →
    d.lookupAndProcess k fn = ((fn d h).1, if (fn d h).2 = none then some h else none)
  find : ∀ f clientId create h, d.Holds f.key h → f.key.context ≠ 0 ∨ f.key.seqno ≠ 0 →
    (∀ i, f.isSignaled i = false) → (d.tbl h).refcount.hlos ≠ hlosRefcountMask →
    d.findWithDmaFence clientId f create = ((d.fenceFound h).1, some h, false)

theorem Unique.match_iff (hu : Unique d) (hh : d.Holds k hash) (hk : k.context ≠ 0 ∨ k.seqno ≠ 0)
    {i : ℕ} (hi : i < d.tblCnt) : d.hwFenceMatch k i = true ↔ i = hash := by
  constructor
  · intro hm
    cases hv : (d.tbl i).valid with
    | true => exact hu.one k i hash ⟨hi, hv, hm⟩ hh
    | false =>
      obtain ⟨hc, hs⟩ := hu.blank i hv
      simp only [hwFenceMatch, Bool.and_eq_true, beq_iff_eq] at hm
      rcases hk with hk | hk
      · exact absurd (hm.1.1.symm.trans hc) hk
      · exact absurd (hm.1.2.symm.trans hs) hk
  · rintro rfl
    exact hh.2.2

theorem Unique.lookupAndProcessRange (hu : Unique d) {i first last : ℕ} (hi : i < d.tblCnt)
    (hh : d.Holds k (d.pathSlot k i)) (hk : k.context ≠ 0 ∨ k.seqno ≠ 0) (hlt : first < last)
    (hle : last ≤ d.tblCnt) (fn : DriverData → ℕ → DriverData × Ret) :
    d.lookupAndProcessRange k first last fn =
      if first ≤ i ∧ i < last then
        ((fn d (d.pathSlot k i)).1, if (fn d (d.pathSlot k i)).2 = none then some (d.pathSlot k i)
          else none)
      else (d, none) := by
  have hunique : ∀ j < last, d.hwFenceMatch k (d.pathSlot k j) = true → j = i := by
    intro j hj hm
    have hlt := Probing.slot_lt d.tblCnt_pos (calculateHash k.context k.seqno d.tblCnt) j
    exact Probing.slot_injective (Nat.lt_of_lt_of_le hj hle) hi ((hu.match_iff hh hk hlt).mp hm)
  obtain ⟨hin, hout⟩ := Probing.search_unique hh.2.2 hunique hlt
  rw [DriverData.lookupAndProcessRange, forEachHwFence, if_neg (by omega)]
  by_cases hrange : first ≤ i ∧ i < last
  · rw [hin hrange.1 hrange.2, if_pos hrange]
    rw [pathSlot]
    rcases hrun : fn d (Probing.slot d.tblCnt (calculateHash k.context k.seqno d.tblCnt) i) with
      ⟨d', _ | err⟩
    · simp only [hrun, if_true]
    · simp only [hrun, reduceCtorEq, if_false]
  · have hfalse := hout (by omega)
    rw [if_neg hrange]
    rcases hs : Probing.search d.tblCnt (calculateHash k.context k.seqno d.tblCnt)
      (fun h => d.hwFenceMatch k h) first last with ⟨s, b⟩
    rw [hs] at hfalse
    rw [show b = false from hfalse]

theorem Unique.findRanges (hu : Unique d) {f : DmaFence} {i : ℕ} (hi : i < d.tblCnt)
    (hh : d.Holds f.key (d.pathSlot f.key i)) (hk : f.key.context ≠ 0 ∨ f.key.seqno ≠ 0)
    (hsig : ∀ i, f.isSignaled i = false)
    (hroom : (d.tbl (d.pathSlot f.key i)).refcount.hlos ≠ hlosRefcountMask) {fuel step : ℕ}
    (hstep : step ≤ i) (hfuel : i < step + fuel) (n : ℕ) :
    d.findRanges f fuel step n =
      ((d.fenceFound (d.pathSlot f.key i)).1, .found (d.pathSlot f.key i)) := by
  induction fuel generalizing step n with
  | zero => omega
  | succ fuel ih =>
    have hthreshold : 0 < findThreshold := by decide
    rw [DriverData.findRanges, if_neg (by omega),
      hu.lookupAndProcessRange hi hh hk (by omega) (Nat.min_le_right _ _)]
    by_cases hrange : step ≤ i ∧ i < min (step + findThreshold) d.tblCnt
    · rw [if_pos hrange]
      have hnone : (d.fenceFound (d.pathSlot f.key i)).2 = none := by
        rw [fenceFound, if_neg hroom]
      rw [hnone]
      rfl
    · rw [if_neg hrange]
      simp only [hsig, Bool.false_eq_true, if_false]
      exact ih (by omega) (by omega) _

theorem Unique.tableUnique (hu : Unique d) : TableUnique d where
  one := hu.one
  create k h clientId cnt hash hh hhole := by
    rcases hs : Probing.search d.tblCnt (calculateHash k.context k.seqno d.tblCnt)
      (fun h => !(d.tbl h).valid || d.hwFenceMatch k h) 0 d.tblCnt with ⟨s, b⟩
    obtain ⟨i, -, -, hslot, -, haccept, -⟩ := Probing.search_slot d.tblCnt_pos hs
    have hlt : s < d.tblCnt := by
      rw [hslot]
      exact Probing.slot_lt d.tblCnt_pos _ _
    have hb : b = true := by
      cases b with
      | true => rfl
      | false =>
        have hnone := Probing.search_round_false d.tblCnt_pos hs h hh.1
        rw [hh.2.2, Bool.or_true] at hnone
        cases hnone
    subst hb
    have hvalid : (d.tbl s).valid = true := by
      by_contra hfree
      rw [Bool.not_eq_true] at hfree
      have hend : d.createEnd k = s := by rw [createEnd, hs]
      exact hhole.not_holds (by rw [hend]; exact hfree) h hh
    rw [hvalid, Bool.not_true, Bool.false_or] at haccept
    have hsh : s = h := hu.one k s h ⟨hlt, hvalid, haccept⟩ hh
    subst hsh
    rw [lookupAndCreate, lookupAndCreateRange, forEachHwFence_round, hs]
    simp only [hvalid, Bool.true_eq_false, Bool.false_eq_true, if_false]
  process k h fn hh hk := by
    obtain ⟨i, hi, hslot⟩ :=
      Probing.slot_surjective (calculateHash k.context k.seqno d.tblCnt) hh.1
    have hh' : d.Holds k (d.pathSlot k i) := by
      rw [pathSlot, hslot]
      exact hh
    rw [lookupAndProcess, hu.lookupAndProcessRange hi hh' hk d.tblCnt_pos le_rfl,
      if_pos ⟨Nat.zero_le i, hi⟩, pathSlot, hslot]
  find f clientId create h hh hk hsig hroom := by
    obtain ⟨i, hi, hslot⟩ :=
      Probing.slot_surjective (calculateHash f.key.context f.key.seqno d.tblCnt) hh.1
    have hpath : d.pathSlot f.key i = h := hslot
    have hfind := hu.findRanges hi (by rw [hpath]; exact hh) hk hsig (by rw [hpath]; exact hroom)
      (Nat.zero_le i) (by omega : i < 0 + d.tblCnt) 1
    rw [findWithDmaFence, if_neg (by rw [hsig]; exact fun h => Bool.false_ne_true h.2), hfind, hpath]

instance (d : DriverData) (k : Key) : Decidable (d.NoHole k) := by
  unfold NoHole
  infer_instance

instance (d : DriverData) (e : Event) : Decidable (CreatesFresh d e) := by
  unfold CreatesFresh
  infer_instance

instance (allowed : DriverData → Event → Prop) [∀ d e, Decidable (allowed d e)] (d : DriverData)
    (e : Event) : Decidable ((machine allowed).guard d e) := inferInstanceAs (Decidable (allowed d e))

/-- A fence whose first slot is that of `firstKey`. -/
def secondKey : Key := ⟨5, 5, 104⟩

/-- Two fences with the same first slot are created, and the first one is released. -/
def leaveHole : List Event :=
  [.create displayClient firstKey 0, .create displayClient secondKey 0,
    .destroyRefcount 0 .fctl, .destroyWithHash 0]

theorem reachable_emptyTable (allowed : DriverData → Event → Prop) :
    (machine allowed).Reachable emptyTable :=
  .init ⟨4, by decide, fun _ => none, 0, rfl⟩

end Sm8750Modules.HwFence.DriverData
