import Sm8750Modules.Fastrpc.Faithful

/-!
# Remote calls to the DSP — the pages of mapped buffers

A buffer in a map is not copied: the DSP gets its pages. The driver takes their place in the dma-buf from
the area that the caller's pointer is in.
-/

namespace Fastrpc

open Function List

/-! ## Address spaces -/

/-- An area, with the page of the file that it begins with. -/
structure Vma extends VmArea where
  pgoff : ℕ

def taskSize : ℕ := 2 ^ 52

/-- The areas of a process: whole pages, one behind the other. -/
structure AddressSpace where
  vmas : List Vma
  start_lt : ∀ v ∈ vmas, v.start < v.stop
  stop_le : ∀ v ∈ vmas, v.stop ≤ taskSize
  start_page : ∀ v ∈ vmas, pageSize ∣ v.start
  stop_page : ∀ v ∈ vmas, pageSize ∣ v.stop
  sorted : vmas.Pairwise fun v w => v.stop ≤ w.start

namespace AddressSpace

variable (s : AddressSpace)

/-- `find_vma`: the first area that ends behind an address. -/
def findVma (a : ℕ) : Option VmArea := (s.vmas.find? fun v => a < v.stop).map Vma.toVmArea

def Maps (a file n : ℕ) : Prop :=
  ∃ v ∈ s.vmas, v.start ≤ a ∧ a < v.stop ∧ v.file = file ∧ n = v.pgoff + (a - v.start) / pageSize

/-- **The pages of a buffer are right**. -/
structure RightPages (a : InvokeArg) (map : Map) (page : PhyPage) : Prop where
  inside : map.phys ≤ page.addr ∧ page.addr + page.size ≤ map.phys + map.size
  page : ∀ k, k * pageSize < page.size → ∃ n, s.Maps (a.ptr / pageSize * pageSize + k * pageSize) map.file n ∧
    page.addr + k * pageSize = map.phys + n * pageSize

/-- The area of the pointer maps the dma-buf from its first page on, and the buffer ends in the area, or else
the page behind the area continues it. -/
def FromFirstPage (a : InvokeArg) (file : ℕ) : Prop :=
  ∃ v ∈ s.vmas, v.start ≤ a.ptr ∧ a.ptr < v.stop ∧ v.pgoff = 0 ∧
    (a.ptr + a.length ≤ v.stop ∨ s.Maps v.stop file ((v.stop - v.start) / pageSize))

variable {s} {v w : Vma}

theorem vma_unique {l : List Vma} (hsorted : l.Pairwise fun v w => v.stop ≤ w.start) (hv : v ∈ l)
    (hw : w ∈ l) {a : ℕ} (ha : v.start ≤ a ∧ a < v.stop) (hb : w.start ≤ a ∧ a < w.stop) : v = w := by
  induction l with
  | nil => cases hv
  | cons x rest ih =>
    obtain ⟨hx, hrest⟩ := pairwise_cons.mp hsorted
    rcases mem_cons.mp hv with rfl | hv'
    · rcases mem_cons.mp hw with rfl | hw'
      · rfl
      · have hle := hx w hw'
        omega
    · rcases mem_cons.mp hw with rfl | hw'
      · have hle := hx v hv'
        omega
      · exact ih hrest hv' hw'

theorem mem_of_findVma {a : ℕ} {area : VmArea} (h : s.findVma a = some area) :
    ∃ v ∈ s.vmas, v.toVmArea = area ∧ a < v.stop := by
  obtain ⟨v, hfind, harea⟩ := Option.map_eq_some_iff.mp h
  have hlt := List.find?_some hfind
  exact ⟨v, List.mem_of_find?_eq_some hfind, harea, of_decide_eq_true hlt⟩

theorem maps_iff (hv : v ∈ s.vmas) {a file n : ℕ} (ha : v.start ≤ a ∧ a < v.stop) :
    s.Maps a file n ↔ v.file = file ∧ n = v.pgoff + (a - v.start) / pageSize := by
  constructor
  · rintro ⟨w, hw, hlo, hhi, hfile, hn⟩
    obtain rfl := vma_unique s.sorted hv hw ha ⟨hlo, hhi⟩
    exact ⟨hfile, hn⟩
  · intro h
    exact ⟨v, hv, ha.1, ha.2, h.1, h.2⟩

end AddressSpace

section Driver

variable {c : Call} {s : AddressSpace} {a : InvokeArg} {map : Map} {page : PhyPage}

theorem getBufferOffset_spec (hvma : c.findVma = s.findVma) (hend : a.ptr + a.length ≤ u64Max)
    (hlen : a.length ≠ 0) (hnova : map.nova = false) {offset : ℕ}
    (h : c.getBufferOffset a map = some offset) :
    ∃ v ∈ s.vmas, v.start ≤ a.ptr / pageSize * pageSize ∧ a.ptr < v.stop ∧ v.file = map.file ∧
      a.ptr / pageSize * pageSize + a.length ≤ v.stop ∧
      offset = a.ptr / pageSize * pageSize - v.start ∧ offset + a.length ≤ map.size := by
  have hbase : a.ptr / pageSize * pageSize ≤ a.ptr := Nat.div_mul_le_self _ _
  have hadd : add64 (a.ptr / pageSize * pageSize) a.length = a.ptr / pageSize * pageSize + a.length :=
    add64_of_le (by omega)
  rw [Call.getBufferOffset, hnova, if_neg Bool.false_ne_true, hvma] at h
  simp only [hadd] at h
  cases harea : s.findVma a.ptr with
  | none =>
    rw [harea, if_pos] at h
    · cases h
    · refine Or.inr (Or.inr (Or.inl ?_))
      show 0 < _
      omega
  | some area =>
    rw [harea] at h
    obtain ⟨v, hv, rfl, hstop⟩ := s.mem_of_findVma harea
    split_ifs at h with hcheck
    simp only [Option.getD_some, not_or, not_not, not_lt] at hcheck
    obtain ⟨hfile, hstart, hle, hsize⟩ := hcheck
    rw [add64_of_le (by omega)] at hsize
    exact ⟨v, hv, hstart, hstop, hfile.symm, hle, (Option.some.inj h).symm, by
      rw [← Option.some.inj h]
      exact hsize⟩

theorem mappedPage_spec (hvma : c.findVma = s.findVma) (hend : a.ptr + a.length ≤ u64Max)
    (hlen : a.length ≠ 0) (hnova : map.nova = false) (hmap : map.phys + map.size ≤ u64Max + 1)
    (h : c.mappedPage a map = some page) :
    ∃ v ∈ s.vmas, v.start ≤ a.ptr / pageSize * pageSize ∧ a.ptr < v.stop ∧ v.file = map.file ∧
      a.ptr / pageSize * pageSize + a.length ≤ v.stop ∧
      page.addr = map.phys + (a.ptr / pageSize * pageSize - v.start) ∧
      a.ptr / pageSize * pageSize + page.size = (a.ptr + a.length - 1) / pageSize * pageSize + pageSize ∧
      page.addr + page.size ≤ map.phys + map.size := by
  rw [Call.mappedPage] at h
  split_ifs at h with hsize
  cases hoffset : c.getBufferOffset a map with
  | none =>
    rw [hoffset] at h
    cases h
  | some offset =>
    rw [hoffset] at h
    obtain ⟨v, hv, hstart, hstop, hfile, hle, hoff, hfits⟩ :=
      getBufferOffset_spec hvma hend hlen hnova hoffset
    have htask : v.stop ≤ 4503599627370496 := s.stop_le v hv
    have hspan : a.ptr / pageSize * pageSize + pageSpan a.ptr a.length =
        (a.ptr + a.length - 1) / pageSize * pageSize + pageSize := by
      rw [pageSpan, add64_of_le hend, sub64_of_le (by omega) hend]
      rw [pageSize] at hle ⊢
      omega
    have haddr : add64 map.phys offset = map.phys + offset := add64_of_le (by omega)
    simp only [haddr] at h
    split_ifs at h with hcheck
    obtain rfl := Option.some.inj h
    obtain ⟨hover, hinside⟩ := not_or.mp hcheck
    refine ⟨v, hv, hstart, hstop, hfile, hle, by rw [hoff], hspan, ?_⟩
    show map.phys + offset + pageSpan a.ptr a.length ≤ map.phys + map.size
    have hspan_le : pageSpan a.ptr a.length ≤ u64Max :=
      Nat.le_of_lt_succ (Nat.mod_lt _ (by decide))
    rw [not_lt, add64_of_le (a := map.phys + offset) (by omega)] at hinside
    have hmod : add64 map.phys map.size ≤ map.phys + map.size := Nat.mod_le _ _
    omega

variable {m m' : Marshal} {o : Overlap}

theorem copyIn_pages {i : ℕ} (h : c.copyIn i m = .ok m') : m'.pages = m.pages := by
  rw [Call.copyIn] at h
  split_ifs at h
  · obtain rfl := Except.ok.inj h
    rfl
  · obtain rfl := Except.ok.inj h
    rfl

theorem getArg_pages (h : c.getArg o m = .ok m') :
    (∀ i, i ≠ o.raix → m'.pages i = m.pages i) ∧
      ∀ map, c.maps o.raix = some map → (c.inv.arg o.raix).length ≠ 0 →
        c.mappedPage (c.inv.arg o.raix) map = some (m'.pages o.raix) := by
  simp only [Call.getArg] at h
  by_cases hlen : (c.inv.arg o.raix).length = 0
  · rw [if_pos hlen] at h
    obtain rfl := Except.ok.inj h
    exact ⟨fun _ _ => rfl, fun _ _ hne => absurd hlen hne⟩
  · rw [if_neg hlen] at h
    cases hmap : c.maps o.raix with
    | some map =>
      simp only [hmap] at h
      cases hpage : c.mappedPage (c.inv.arg o.raix) map with
      | none =>
        rw [hpage] at h
        cases h
      | some page =>
        rw [hpage] at h
        obtain rfl := Except.ok.inj h
        refine ⟨fun i hi => update_of_ne hi .., fun map' hmap' _ => ?_⟩
        obtain rfl := Option.some.inj hmap'
        rw [hpage]
        show some page = some (update (c.enter o.raix m).pages o.raix page o.raix)
        rw [update_self]
    | none =>
      simp only [hmap] at h
      refine ⟨fun i hi => ?_, fun _ hmap' => by cases hmap'⟩
      generalize (if o.offset = 0 then align64 (c.enter o.raix m).args else (c.enter o.raix m).args) = args at h
      generalize (if o.offset = 0 then _ else _) = rlen at h
      split_ifs at h
      rw [copyIn_pages h]
      exact update_of_ne hi ..

theorem getBufs_mappedPage {l : List Overlap} (hnodup : (l.map (·.raix)).Nodup)
    (h : c.getBufs m l = .ok m') :
    (∀ i, i ∉ l.map (·.raix) → m'.pages i = m.pages i) ∧
      ∀ i ∈ l.map (·.raix), ∀ map, c.maps i = some map → (c.inv.arg i).length ≠ 0 →
        c.mappedPage (c.inv.arg i) map = some (m'.pages i) := by
  induction l generalizing m with
  | nil =>
    obtain rfl := Except.ok.inj h
    exact ⟨fun _ _ => rfl, nofun⟩
  | cons o rest ih =>
    rw [map_cons, nodup_cons] at hnodup
    rw [Call.getBufs] at h
    cases hturn : c.getArg o m with
    | error e =>
      rw [hturn] at h
      cases h
    | ok m₁ =>
      rw [hturn] at h
      obtain ⟨hkeep, hset⟩ := getArg_pages hturn
      obtain ⟨hkeeps, hsets⟩ := ih hnodup.2 h
      refine ⟨fun i hi => ?_, fun i hi map hmap hlen => ?_⟩
      · rw [map_cons, mem_cons, not_or] at hi
        rw [hkeeps i hi.2, hkeep i hi.1]
      · rcases mem_cons.mp (map_cons ▸ hi) with rfl | hrest
        · rw [hkeeps _ hnodup.1]
          exact hset map hmap hlen
        · exact hsets i hrest map hmap hlen

theorem scan_raix (inv : Invocation) (e last : ℕ) (l : List Overlap) :
    (scan inv e last l).map (·.raix) = l.map (·.raix) := by
  induction l generalizing e last with
  | nil => rfl
  | cons o rest ih =>
    rw [scan]
    split_ifs
    · rw [map_cons, map_cons, ih, place_raix]
    · rw [map_cons, map_cons, ih, place_raix]

theorem rightPages_iff_of_mappedPage (hvma : c.findVma = s.findVma) (hend : a.ptr + a.length ≤ u64Max)
    (hlen : a.length ≠ 0) (hnova : map.nova = false) (hmap : map.phys + map.size ≤ u64Max + 1)
    (h : c.mappedPage a map = some page) :
    s.RightPages a map page ↔ s.FromFirstPage a map.file := by
  obtain ⟨v, hv, hstart, hstop, hfile, hle, haddr, hsize, hinside⟩ :=
    mappedPage_spec hvma hend hlen hnova hmap h
  obtain ⟨first, hfirst⟩ := s.start_page v hv
  obtain ⟨last, hlast⟩ := s.stop_page v hv
  have hbase : a.ptr / pageSize * pageSize ≤ a.ptr := Nat.div_mul_le_self _ _
  -- the pages up to the end of the area, and at most one behind
  have hin : v.start ≤ a.ptr ∧ a.ptr < v.stop := ⟨hstart.trans hbase, hstop⟩
  have hmaps : ∀ k, a.ptr / pageSize * pageSize + k * pageSize < v.stop → ∀ n,
      s.Maps (a.ptr / pageSize * pageSize + k * pageSize) map.file n ↔
        n = v.pgoff + (a.ptr / pageSize - first + k) := by
    intro k hk n
    rw [s.maps_iff hv ⟨by omega, hk⟩, and_iff_right hfile, hfirst]
    have hdiv : (a.ptr / pageSize * pageSize + k * pageSize - pageSize * first) / pageSize =
        a.ptr / pageSize - first + k := by
      rw [hfirst] at hstart
      rw [pageSize] at hstart ⊢
      omega
    rw [hdiv]
  constructor
  · intro hright
    have hzero : a.ptr / pageSize * pageSize + 0 * pageSize < v.stop := by omega
    have hspan : a.ptr / pageSize * pageSize ≤ (a.ptr + a.length - 1) / pageSize * pageSize :=
      Nat.mul_le_mul_right _ (Nat.div_le_div_right (by omega))
    have hpos : 0 < pageSize := by decide
    obtain ⟨n, hn, hphys⟩ := hright.page 0 (by omega)
    rw [hmaps 0 hzero] at hn
    refine ⟨v, hv, hin.1, hin.2, ?_, ?_⟩
    · rw [hfirst] at hstart haddr
      rw [pageSize] at *
      omega
    · by_cases hfit : a.ptr + a.length ≤ v.stop
      · exact Or.inl hfit
      · refine Or.inr ?_
        have hk : a.ptr / pageSize * pageSize + (last - a.ptr / pageSize) * pageSize = v.stop := by
          rw [hlast] at hstop ⊢
          rw [pageSize] at *
          omega
        have hbehind : v.stop ≤ (a.ptr + a.length - 1) / pageSize * pageSize := by
          rw [hlast, Nat.mul_comm]
          refine Nat.mul_le_mul_right _ ((Nat.le_div_iff_mul_le hpos).mpr ?_)
          rw [Nat.mul_comm, ← hlast]
          omega
        obtain ⟨n', hn', hphys'⟩ := hright.page (last - a.ptr / pageSize) (by omega)
        rw [hk] at hn'
        have hpage : n' = (v.stop - v.start) / pageSize := by
          rw [hfirst] at hstart haddr ⊢
          rw [hlast] at hstop hk ⊢
          rw [pageSize] at *
          omega
        rwa [← hpage]
  · rintro ⟨w, hw, hwstart, hwstop, hoff, hrest⟩
    obtain rfl := AddressSpace.vma_unique s.sorted hv hw hin ⟨hwstart, hwstop⟩
    refine ⟨⟨by omega, hinside⟩, fun k hk => ?_⟩
    by_cases hbefore : a.ptr / pageSize * pageSize + k * pageSize < v.stop
    · refine ⟨_, (hmaps k hbefore _).mpr rfl, ?_⟩
      rw [hoff, haddr, hfirst]
      rw [hfirst] at hstart
      rw [pageSize] at *
      omega
    · have hat : a.ptr / pageSize * pageSize + k * pageSize = v.stop := by
        rw [hlast] at hbefore hle ⊢
        rw [pageSize] at *
        omega
      have hcross : ¬ a.ptr + a.length ≤ v.stop := by
        intro hfit
        rw [hlast] at hfit hat
        rw [pageSize] at *
        omega
      rw [hat]
      refine ⟨_, hrest.resolve_left hcross, ?_⟩
      rw [haddr]
      rw [hfirst] at hstart ⊢
      rw [hlast] at hat ⊢
      rw [pageSize] at *
      omega

end Driver

section Whole

variable {k : Kernel} {inv : Invocation} {sort : List Overlap → List Overlap} {olaps : List Overlap}
  {c : Call} {m : Marshal} {map : Map}

theorem getBufs_of_getArgs {reverse kernel : Bool} (h : getArgs k reverse kernel inv olaps = .ok (c, m)) :
    c.inv = inv ∧ c.findVma = k.findVma ∧ ∃ m₀, c.getBufs c.start olaps = .ok m₀ ∧ m = c.getHandles m₀ := by
  simp only [getArgs] at h
  split_ifs at h
  cases hmaps : createMaps k.mapCreate reverse inv with
  | none =>
    rw [hmaps] at h
    cases h
  | some maps =>
    cases hbuf : k.bufAlloc (getPayloadSize inv (getMetaSize inv) olaps) with
    | none =>
      rw [hmaps, hbuf] at h
      cases h
    | some addr =>
      rw [hmaps, hbuf] at h
      simp only at h
      split at h
      · cases h
      · rename_i m₀ hm₀
        obtain ⟨rfl, rfl⟩ := Prod.mk.inj (Except.ok.inj h)
        exact ⟨rfl, rfl, m₀, hm₀, rfl⟩

/-- **The pages of mapped buffers**: whatever areas the caller has, if `fastrpc_get_args` succeeds then the
pages of a mapped buffer are right exactly if its area begins with the first page of the dma-buf and what
is behind the area continues it. -/
theorem rightPages_iff (s : AddressSpace) (hvma : k.findVma = s.findVma) (hsort : Sorts sort)
    (reverse kernel : Bool) (holaps : getBuffOverlaps sort inv = some olaps)
    (h : getArgs k reverse kernel inv olaps = .ok (c, m)) {i : ℕ} (hi : i < inv.nbufs)
    (hlen : (inv.arg i).length ≠ 0) (hmap : c.maps i = some map) (hnova : map.nova = false)
    (hrange : map.phys + map.size ≤ u64Max + 1) :
    s.RightPages (inv.arg i) map (m.pages i) ↔ s.FromFirstPage (inv.arg i) map.file := by
  have hend := arg_range_le holaps hi
  obtain ⟨l, hl, rfl, hall⟩ := sortedBufs_of_getBuffOverlaps hsort holaps
  obtain ⟨hinv, hfind, m₀, hbufs, rfl⟩ := getBufs_of_getArgs h
  have hraix := scan_raix inv 0 0 l
  have hmem : i ∈ (scan inv 0 0 l).map (·.raix) := by
    obtain ⟨o, ho, hoi⟩ := hall i hi
    rw [hraix]
    exact mem_map.mpr ⟨o, ho, hoi⟩
  have hpage := (getBufs_mappedPage (hraix ▸ hl.nodup) hbufs).2 i hmem map hmap (by rwa [hinv])
  have hkeep : (c.getHandles m₀).pages i = m₀.pages i := by
    refine if_neg fun hhandle => ?_
    rw [hinv] at hhandle
    exact absurd hhandle.1.1 (Nat.not_le.mpr hi)
  rw [hinv] at hpage
  rw [hkeep]
  exact rightPages_iff_of_mappedPage (hfind.trans hvma) hend hlen hnova hrange hpage

end Whole

/-- One area of one page, which maps a page of file `5`. -/
def onePage (pgoff : ℕ) : AddressSpace where
  vmas := [⟨⟨65536, 69632, 5⟩, pgoff⟩]
  start_lt := List.forall_mem_singleton.mpr (show (65536 : ℕ) < 69632 by decide)
  stop_le := List.forall_mem_singleton.mpr (show 69632 ≤ taskSize by decide)
  start_page := List.forall_mem_singleton.mpr (show pageSize ∣ 65536 by decide)
  stop_page := List.forall_mem_singleton.mpr (show pageSize ∣ 69632 by decide)
  sorted := List.pairwise_singleton ..

def twoPages : Map := ⟨1048576, 8192, 5, false⟩

def mappingKernel (s : AddressSpace) : Kernel :=
  { plainKernel with mapCreate := fun _ => some twoPages, findVma := s.findVma }

def mappedCall (ptr length : ℕ) (hptr : ptr ≤ u64Max) (hlength : length ≤ u64Max) : Invocation where
  sc := 65536
  args := [⟨ptr, length, 7, hptr, hlength⟩]
  length := rfl

theorem rightPages_onePage : ∃ olaps c m,
    getBuffOverlaps insertionSort (mappedCall 65600 100 (by decide) (by decide)) = some olaps ∧
    getArgs (mappingKernel (onePage 0)) false false (mappedCall 65600 100 (by decide) (by decide)) olaps =
      .ok (c, m) ∧
    (onePage 0).RightPages ((mappedCall 65600 100 (by decide) (by decide)).arg 0) twoPages (m.pages 0) := by
  cases holaps : getBuffOverlaps insertionSort (mappedCall 65600 100 (by decide) (by decide)) with
  | none => exact absurd holaps (by decide)
  | some olaps =>
    have hmaps : (getArgs (mappingKernel (onePage 0)) false false
        (mappedCall 65600 100 (by decide) (by decide)) olaps).map (fun r => r.1.maps 0) =
        .ok (some twoPages) := by
      cases holaps
      rfl
    cases hargs : getArgs (mappingKernel (onePage 0)) false false
        (mappedCall 65600 100 (by decide) (by decide)) olaps with
    | error err =>
      rw [hargs] at hmaps
      cases hmaps
    | ok r =>
      rw [hargs] at hmaps
      exact ⟨olaps, r.1, r.2, rfl, hargs, (rightPages_iff (onePage 0) rfl sorts_insertionSort false false
        holaps hargs (by decide) (by decide) (Except.ok.inj hmaps) rfl (by decide)).mpr
          ⟨_, mem_singleton_self _, by decide, by decide, rfl, Or.inl (by decide)⟩⟩

/-- What the DSP gets for the input of `mappedCall`. -/
def mappedPages (s : AddressSpace) (inv : Invocation) : Option PhyPage :=
  (getBuffOverlaps insertionSort inv).bind fun olaps =>
    (getArgs (mappingKernel s) false false inv olaps).toOption.map fun r => r.2.pages 0

/-- An area that begins with the second page of the dma-buf, and a buffer that begins on its last byte and has
its other byte behind it. -/
theorem not_rightPages :
    (mappedPages (onePage 1) (mappedCall 65600 100 (by decide) (by decide)) = some ⟨1048576, 4096⟩ ∧
        ¬ (onePage 1).RightPages ((mappedCall 65600 100 (by decide) (by decide)).arg 0) twoPages
          ⟨1048576, 4096⟩) ∧
      mappedPages (onePage 0) (mappedCall 69631 2 (by decide) (by decide)) = some ⟨1048576, 8192⟩ ∧
        ¬ (onePage 0).RightPages ((mappedCall 69631 2 (by decide) (by decide)).arg 0) twoPages
          ⟨1048576, 8192⟩ := by
  refine ⟨⟨rfl, fun h => ?_⟩, rfl, fun h => ?_⟩
  · obtain ⟨n, ⟨v, hv, -, -, -, hn⟩, hphys⟩ := h.page 0 (by decide)
    obtain rfl := mem_singleton.mp hv
    rw [hn] at hphys
    exact absurd hphys (by decide)
  · obtain ⟨n, ⟨v, hv, -, hstop, -⟩, -⟩ := h.page 1 (by decide)
    obtain rfl := mem_singleton.mp hv
    exact absurd hstop (by decide)

end Fastrpc
