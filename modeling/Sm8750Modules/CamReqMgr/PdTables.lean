import Mathlib.Data.List.Pairwise
import Mathlib.Data.Nat.Bitwise

/-!
# Camera request manager — the pipeline delay tables of a link

A link keeps one request table for each pipeline delay of its devices, in a list with the greatest
delay first. Each table stores the distance from its own delay to that of the next table.
-/

namespace Sm8750Modules.CamReqMgr

open List

def maxReqSlots : Int := 48

def camPipelineDelayMax : Int := 3

inductive CrmReqState
  | empty
  | pending
  | ready
  | invalid
  deriving DecidableEq

/-- `struct cam_req_mgr_tbl_slot`: the fields that linking and traversing read. -/
structure TblSlot where
  state : CrmReqState
  reqReadyMap : ℕ

/-- `struct cam_req_mgr_req_tbl`; the list holds the `next` pointers. -/
structure ReqTbl where
  pd : Int
  devCount : ℕ
  devMask : ℕ
  skipTraverse : Int
  pdDelta : Int
  numSlots : Int
  slot : Int → TblSlot

/-- The while loop of `__cam_req_mgr_add_tbl_to_link`, which has reached `tbl` with `rest` behind it. -/
def insertAfter (tbl : ReqTbl) (rest : List ReqTbl) (newTbl : ReqTbl) : List ReqTbl :=
  match rest with
  | [] => [{ tbl with pdDelta := tbl.pd - newTbl.pd }, { newTbl with pdDelta := 0 }]
  | next :: rest =>
    if newTbl.pd < next.pd then tbl :: insertAfter next rest newTbl
    else
      { tbl with pdDelta := tbl.pd - newTbl.pd } ::
        { newTbl with pdDelta := newTbl.pd - next.pd } :: next :: rest

def addTblToLink (lTbl : List ReqTbl) (newTbl : ReqTbl) : List ReqTbl :=
  match lTbl with
  | [] => [newTbl]
  | tbl :: rest =>
    if tbl.pd < newTbl.pd then { newTbl with pdDelta := newTbl.pd - tbl.pd } :: tbl :: rest
    else insertAfter tbl rest newTbl

/-- `__cam_req_mgr_create_pd_tbl`: zeroed memory with its number of slots. -/
def createPdTbl (pd : Int) : ReqTbl where
  pd := pd
  devCount := 0
  devMask := 0
  skipTraverse := 0
  pdDelta := 0
  numSlots := maxReqSlots
  slot := fun _ => ⟨.empty, 0⟩

/-- The part of a link that its devices set up. -/
structure LinkReq where
  lTbl : List ReqTbl
  pdMask : ℕ

/-- A device joins the table of its delay: it gets the next device bit. -/
def attachDev (pd : Int) (tbl : ReqTbl) : ReqTbl :=
  if tbl.pd = pd then
    { tbl with devCount := tbl.devCount + 1, devMask := (tbl.devMask ||| 2 ^ tbl.devCount) % 2 ^ 32 }
  else tbl

/-- One turn of the second loop of `__cam_req_mgr_setup_link_info`, for a device of delay `pd`. -/
def setupDevice (link : LinkReq) (pd : Int) : Option LinkReq :=
  if link.pdMask.testBit pd.toNat then
    if link.lTbl.any (fun tbl => tbl.pd = pd) then
      some { link with lTbl := link.lTbl.map (attachDev pd) }
    else none
  else
    some { lTbl := (addTblToLink link.lTbl (createPdTbl pd)).map (attachDev pd)
           pdMask := link.pdMask ||| 2 ^ pd.toNat }

/-- `__cam_req_mgr_setup_link_info` on the pipeline delays of the devices. -/
def setupLinkInfo (devices : List Int) : Option LinkReq :=
  if devices.all (fun pd => 0 ≤ pd ∧ pd < camPipelineDelayMax) then
    devices.foldlM setupDevice { lTbl := [], pdMask := 0 }
  else none

/-- Strictly descending delays, each delta the distance to the next table and 0 for the last. -/
def DescendingDeltas : List ReqTbl → Prop
  | [] => True
  | [tbl] => tbl.pdDelta = 0
  | tbl :: next :: rest =>
    next.pd < tbl.pd ∧ tbl.pdDelta = tbl.pd - next.pd ∧ DescendingDeltas (next :: rest)

theorem DescendingDeltas.insertAfter {tbl : ReqTbl} {rest : List ReqTbl} {newTbl : ReqTbl}
    (h : DescendingDeltas (tbl :: rest)) (hlt : newTbl.pd < tbl.pd)
    (hne : ∀ t ∈ rest, t.pd ≠ newTbl.pd) :
    DescendingDeltas (insertAfter tbl rest newTbl) ∧
      ∃ hd tl, insertAfter tbl rest newTbl = hd :: tl ∧ hd.pd = tbl.pd := by
  induction rest generalizing tbl with
  | nil => exact ⟨⟨hlt, rfl, rfl⟩, _, _, rfl, rfl⟩
  | cons next rest ih =>
    obtain ⟨hpd, hdelta, htail⟩ := h
    have hnext : next.pd ≠ newTbl.pd := hne next mem_cons_self
    rw [CamReqMgr.insertAfter]
    by_cases hbelow : newTbl.pd < next.pd
    · rw [if_pos hbelow]
      obtain ⟨hdesc, hd, tl, heq, hhd⟩ := ih htail hbelow fun t ht => hne t (mem_cons_of_mem _ ht)
      rw [heq] at hdesc ⊢
      exact ⟨⟨hhd ▸ hpd, hhd ▸ hdelta, hdesc⟩, _, _, rfl, rfl⟩
    · rw [if_neg hbelow]
      have habove : next.pd < newTbl.pd := by omega
      exact ⟨⟨hlt, rfl, habove, rfl, htail⟩, _, _, rfl, rfl⟩

/-- **Insertion keeps the order.** A table of a new delay goes to its place and both deltas around it
are set. -/
theorem DescendingDeltas.addTblToLink {lTbl : List ReqTbl} {newTbl : ReqTbl}
    (h : DescendingDeltas lTbl) (hdelta : newTbl.pdDelta = 0)
    (hne : ∀ t ∈ lTbl, t.pd ≠ newTbl.pd) : DescendingDeltas (addTblToLink lTbl newTbl) := by
  cases lTbl with
  | nil => exact hdelta
  | cons tbl rest =>
    rw [CamReqMgr.addTblToLink]
    by_cases habove : tbl.pd < newTbl.pd
    · rw [if_pos habove]
      exact ⟨habove, rfl, h⟩
    · rw [if_neg habove]
      have htbl : tbl.pd ≠ newTbl.pd := hne tbl mem_cons_self
      have hbelow : newTbl.pd < tbl.pd := by omega
      exact (h.insertAfter hbelow fun t ht => hne t (mem_cons_of_mem _ ht)).1

theorem mem_insertAfter_pd (tbl : ReqTbl) (rest : List ReqTbl) (newTbl : ReqTbl) (p : Int) :
    (∃ t ∈ insertAfter tbl rest newTbl, t.pd = p)
      ↔ p = newTbl.pd ∨ ∃ t ∈ tbl :: rest, t.pd = p := by
  induction rest generalizing tbl with
  | nil =>
    simp only [insertAfter, mem_cons, not_mem_nil, or_false, exists_eq_or_imp, exists_eq_left]
    tauto
  | cons next rest ih =>
    rw [insertAfter]
    split
    · simp only [mem_cons, exists_eq_or_imp] at ih ⊢
      rw [ih]
      tauto
    · simp only [mem_cons, exists_eq_or_imp]
      tauto

theorem mem_addTblToLink_pd (lTbl : List ReqTbl) (newTbl : ReqTbl) (p : Int) :
    (∃ t ∈ addTblToLink lTbl newTbl, t.pd = p) ↔ p = newTbl.pd ∨ ∃ t ∈ lTbl, t.pd = p := by
  cases lTbl with
  | nil => simp [addTblToLink, eq_comm]
  | cons tbl rest =>
    rw [addTblToLink]
    split
    · simp only [mem_cons, exists_eq_or_imp]
      tauto
    · exact mem_insertAfter_pd tbl rest newTbl p

def layout (tbl : ReqTbl) : Int × Int × Int := (tbl.pd, tbl.pdDelta, tbl.numSlots)

theorem DescendingDeltas.congr {l l' : List ReqTbl} (h : DescendingDeltas l)
    (heq : l'.map layout = l.map layout) : DescendingDeltas l' := by
  induction l generalizing l' with
  | nil =>
    rw [map_nil, map_eq_nil_iff] at heq
    rw [heq]
    trivial
  | cons t rest ih =>
    cases l' with
    | nil => cases heq
    | cons t' rest' =>
      simp only [map_cons, List.cons.injEq, layout, Prod.mk.injEq] at heq
      obtain ⟨⟨hpd, hdelta, -⟩, hrest⟩ := heq
      cases rest with
      | nil =>
        rw [map_nil, map_eq_nil_iff] at hrest
        subst hrest
        exact hdelta.trans h
      | cons u us =>
        cases rest' with
        | nil => cases hrest
        | cons u' us' =>
          have hu : u'.pd = u.pd := by
            simp only [map_cons, List.cons.injEq, layout, Prod.mk.injEq] at hrest
            exact hrest.1.1
          obtain ⟨hlt, hd, htail⟩ := h
          refine ⟨by rw [hu, hpd]; exact hlt, by rw [hu, hpd, hdelta]; exact hd, ?_⟩
          exact ih htail hrest

theorem layout_attachDev (pd : Int) (tbl : ReqTbl) : layout (attachDev pd tbl) = layout tbl := by
  rw [attachDev]
  split <;> rfl

theorem map_layout_attachDev (pd : Int) (l : List ReqTbl) :
    (l.map (attachDev pd)).map layout = l.map layout := by
  rw [map_map]
  apply map_congr_left
  intro t _
  exact layout_attachDev pd t

theorem exists_pd_congr {l l' : List ReqTbl} (heq : l'.map layout = l.map layout) (p : Int) :
    (∃ t ∈ l', t.pd = p) ↔ ∃ t ∈ l, t.pd = p := by
  have hpds : l'.map (·.pd) = l.map (·.pd) := by
    have hfst := congrArg (List.map Prod.fst) heq
    rwa [map_map, map_map] at hfst
  rw [← mem_map, hpds, mem_map]

def ValidDelay (pd : Int) : Prop := 0 ≤ pd ∧ pd < camPipelineDelayMax

def ReqTbl.Fits (tbl : ReqTbl) : Prop := tbl.numSlots = maxReqSlots ∧ ValidDelay tbl.pd

/-- The state of the second loop. -/
structure LinkReq.Ordered (link : LinkReq) : Prop where
  desc : DescendingDeltas link.lTbl
  mask : ∀ p, 0 ≤ p → (link.pdMask.testBit p.toNat = true ↔ ∃ t ∈ link.lTbl, t.pd = p)
  fits : ∀ t ∈ link.lTbl, t.Fits

theorem fits_insertAfter (tbl : ReqTbl) (rest : List ReqTbl) (newTbl : ReqTbl) (hnew : newTbl.Fits)
    (h : ∀ t ∈ tbl :: rest, t.Fits) : ∀ t ∈ insertAfter tbl rest newTbl, t.Fits := by
  induction rest generalizing tbl with
  | nil =>
    intro t ht
    rcases mem_cons.mp ht with rfl | ht
    · exact h tbl mem_cons_self
    · rw [mem_singleton.mp ht]
      exact hnew
  | cons next rest ih =>
    intro t ht
    rw [insertAfter] at ht
    split at ht
    · rcases mem_cons.mp ht with rfl | ht
      · exact h _ mem_cons_self
      · exact ih next (fun u hu => h u (mem_cons_of_mem _ hu)) t ht
    · rcases mem_cons.mp ht with rfl | ht
      · exact h tbl mem_cons_self
      · rcases mem_cons.mp ht with rfl | ht
        · exact hnew
        · exact h t (mem_cons_of_mem _ ht)

theorem fits_addTblToLink (lTbl : List ReqTbl) (newTbl : ReqTbl) (hnew : newTbl.Fits)
    (h : ∀ t ∈ lTbl, t.Fits) : ∀ t ∈ addTblToLink lTbl newTbl, t.Fits := by
  cases lTbl with
  | nil =>
    intro t ht
    rw [mem_singleton.mp ht]
    exact hnew
  | cons tbl rest =>
    intro t ht
    rw [addTblToLink] at ht
    split at ht
    · rcases mem_cons.mp ht with rfl | ht
      · exact hnew
      · exact h t ht
    · exact fits_insertAfter tbl rest newTbl hnew h t ht

theorem fits_attachDev (pd : Int) {l : List ReqTbl} (h : ∀ t ∈ l, t.Fits) :
    ∀ t ∈ l.map (attachDev pd), t.Fits := by
  intro t ht
  obtain ⟨u, hu, rfl⟩ := mem_map.mp ht
  have hlayout := layout_attachDev pd u
  simp only [layout, Prod.mk.injEq] at hlayout
  rw [ReqTbl.Fits, hlayout.1, hlayout.2.2]
  exact h u hu

/-- **One device.** A device of a valid delay always finds or gets its table, and the order is kept. -/
theorem LinkReq.Ordered.setupDevice {link : LinkReq} (h : link.Ordered) {pd : Int}
    (hpd : ValidDelay pd) :
    ∃ link', setupDevice link pd = some link' ∧ link'.Ordered ∧
      ∀ p, (∃ t ∈ link'.lTbl, t.pd = p) ↔ p = pd ∨ ∃ t ∈ link.lTbl, t.pd = p := by
  rw [CamReqMgr.setupDevice]
  by_cases hbit : link.pdMask.testBit pd.toNat = true
  · have hfound := (h.mask pd hpd.1).mp hbit
    have hany : link.lTbl.any (fun tbl => tbl.pd = pd) = true := by
      simpa [any_eq_true] using hfound
    rw [if_pos hbit, if_pos hany]
    have hlayout := map_layout_attachDev pd link.lTbl
    refine ⟨_, rfl, ⟨h.desc.congr hlayout, fun p hp => ?_, fits_attachDev pd h.fits⟩, ?_⟩
    · rw [h.mask p hp]
      exact (exists_pd_congr hlayout p).symm
    · intro p
      rw [exists_pd_congr hlayout p]
      constructor
      · exact Or.inr
      · rintro (rfl | hold)
        · exact hfound
        · exact hold
  · have hnew : ∀ t ∈ link.lTbl, t.pd ≠ pd := by
      intro t ht heq
      exact hbit ((h.mask pd hpd.1).mpr ⟨t, ht, heq⟩)
    rw [if_neg hbit]
    have hlayout := map_layout_attachDev pd (addTblToLink link.lTbl (createPdTbl pd))
    have hmem := fun p => (exists_pd_congr hlayout p).trans
      (mem_addTblToLink_pd link.lTbl (createPdTbl pd) p)
    refine ⟨_, rfl, ⟨(h.desc.addTblToLink rfl hnew).congr hlayout, fun p hp => ?_, ?_⟩, ?_⟩
    · rw [hmem p, Nat.testBit_or, Bool.or_eq_true, h.mask p hp, Nat.testBit_two_pow,
        decide_eq_true_eq]
      have hnat : pd.toNat = p.toNat ↔ p = pd := by
        have := hpd.1
        omega
      rw [hnat]
      exact or_comm
    · apply fits_attachDev
      exact fits_addTblToLink link.lTbl (createPdTbl pd) ⟨rfl, hpd⟩ h.fits
    · exact hmem

theorem LinkReq.Ordered.foldlM_setupDevice {link : LinkReq} (h : link.Ordered) (devices : List Int)
    (hpd : ∀ pd ∈ devices, ValidDelay pd) :
    ∃ link', devices.foldlM CamReqMgr.setupDevice link = some link' ∧ link'.Ordered ∧
      ∀ p, (∃ t ∈ link'.lTbl, t.pd = p) ↔ p ∈ devices ∨ ∃ t ∈ link.lTbl, t.pd = p := by
  induction devices generalizing link with
  | nil => exact ⟨link, rfl, h, fun p => by simp⟩
  | cons pd rest ih =>
    obtain ⟨next, hnext, hordered, hpds⟩ := h.setupDevice (hpd pd mem_cons_self)
    obtain ⟨link', hlink', hdone, hpds'⟩ := ih hordered fun q hq => hpd q (mem_cons_of_mem _ hq)
    refine ⟨link', by rw [foldlM_cons, hnext]; exact hlink', hdone, fun p => ?_⟩
    rw [hpds' p, hpds p, mem_cons]
    tauto

/-- **Linking sorts.** Whatever the order of the devices, the setup succeeds exactly for valid delays. -/
theorem setupLinkInfo_sorted (devices : List Int) :
    ((∃ link, setupLinkInfo devices = some link) ↔ ∀ pd ∈ devices, ValidDelay pd) ∧
      ∀ link, setupLinkInfo devices = some link →
        link.Ordered ∧ ∀ p, (∃ t ∈ link.lTbl, t.pd = p) ↔ p ∈ devices := by
  have hempty : ({ lTbl := [], pdMask := 0 } : LinkReq).Ordered := by
    refine ⟨trivial, fun p _ => ?_, fun t ht => by cases ht⟩
    simp
  by_cases hall : devices.all (fun pd => 0 ≤ pd ∧ pd < camPipelineDelayMax) = true
  · have hvalid : ∀ pd ∈ devices, ValidDelay pd := by
      simpa [all_eq_true, ValidDelay] using hall
    obtain ⟨link', hlink', hordered, hpds⟩ := hempty.foldlM_setupDevice devices hvalid
    rw [setupLinkInfo, if_pos hall, hlink']
    refine ⟨⟨fun _ => hvalid, fun _ => ⟨link', rfl⟩⟩, fun link heq => ?_⟩
    rw [← Option.some.inj heq]
    refine ⟨hordered, fun p => ?_⟩
    rw [hpds p]
    simp
  · rw [setupLinkInfo, if_neg hall]
    refine ⟨⟨?_, fun hvalid => ?_⟩, ?_⟩
    · rintro ⟨link, heq⟩
      cases heq
    · exact absurd (by simpa [all_eq_true, ValidDelay] using hvalid) hall
    · intro link heq
      cases heq

end Sm8750Modules.CamReqMgr
