import Sm8750Modules.Fastrpc.Args

/-!
# Remote calls to the DSP — the payload is faithful

The loop that fills the payload walks the buffers in the order of the scan, and comes to the
positions that the size was computed from.
-/

namespace Fastrpc

open Packing Function List

/-- What the kernel promises: a map needs a valid file descriptor, and a buffer does not wrap, is aligned,
and begins at the same place of a page for the driver and for the DSP. -/
structure Kernel.Ok (k : Kernel) : Prop where
  fd : ∀ a map, k.mapCreate a = some map → 0 ≤ a.fd
  buf : ∀ size virt phys, k.bufAlloc size = some (virt, phys) →
    size ≤ 2147483647 ∧ 128 ∣ virt ∧ virt + size ≤ u64Max ∧ phys + size ≤ u64Max ∧
      virt % pageSize = phys % pageSize

structure Call.Ok (c : Call) : Prop where
  size : c.pktSize ≤ 2147483647
  align : 128 ∣ c.virt
  virt : c.virt + c.pktSize ≤ u64Max
  phys : c.phys + c.pktSize ≤ u64Max
  page : c.virt % pageSize = c.phys % pageSize
  mapped : ∀ i < c.inv.nbufs, ∀ map, c.maps i = some map → 0 < (c.inv.arg i).fd
  copied : ∀ i < c.inv.nbufs, c.maps i = none → (c.inv.arg i).length ≠ 0 → (c.inv.arg i).Copied

def Call.block (c : Call) (m : Marshal) (i : ℕ) : Block :=
  ⟨(c.inv.arg i).ptr, (c.inv.arg i).length, (m.rpra i).pv⟩

def Call.PagesOk (c : Call) (i pv : ℕ) (page : PhyPage) : Prop :=
  page.addr = (c.phys + (pv - c.virt)) / pageSize * pageSize ∧
  page.addr + page.size =
    ((c.phys + (pv - c.virt) + (c.inv.arg i).length - 1) / pageSize + 1) * pageSize

/-- The payload amid the loop: the buffers of `done` are stored, the scan has come to the end `e`, the
size to `size`, and the last run of overlapping buffers begins at `cs` and at `cp`. -/
structure Inv (c : Call) (e size cs cp : ℕ) (done : List ℕ) (m : Marshal) : Prop where
  packed : Packed (c.virt + getMetaSize c.inv) e m.args cs cp (done.map (c.block m))
  room : m.rlen + m.args = c.virt + c.pktSize
  size : m.args ≤ c.virt + size
  stored : ∀ i ∈ done, c.Stored i
  len : ∀ i ∈ done, (m.rpra i).len = (c.inv.arg i).length
  pages : ∀ i ∈ done, c.PagesOk i (m.rpra i).pv (m.pages i)
  inputs : ∀ i ∈ done, i < c.inv.inbufs → ∀ k < (c.inv.arg i).length,
    m.mem ((m.rpra i).pv + k) = c.byte ((c.inv.arg i).ptr + k)
  outputs : ∀ i ∈ done, c.inv.inbufs ≤ i → m.outbufs (i - c.inv.inbufs) = m.rpra i
  rest : ∀ i ∉ done, c.inv.inbufs ≤ i → m.outbufs (i - c.inv.inbufs) = ⟨0, 0⟩

section Turns

variable {c : Call} {e size size' cs cp : ℕ} {done : List ℕ} {m m' : Marshal} {o : Overlap}

section

variable (h : Inv c e size cs cp done m)
include h

theorem Inv.congr (hrpra : ∀ i ∈ done, m'.rpra i = m.rpra i)
    (hpages : ∀ i ∈ done, m'.pages i = m.pages i) (hout : m'.outbufs = m.outbufs) (hmem : m'.mem = m.mem)
    (hargs : m'.args = m.args) (hrlen : m'.rlen = m.rlen) : Inv c e size cs cp done m' := by
  have hblocks : done.map (c.block m') = done.map (c.block m) := by
    refine map_congr_left fun i hi => ?_
    rw [Call.block, Call.block, hrpra i hi]
  refine ⟨?_, ?_, ?_, h.stored, fun i hi => ?_, fun i hi => ?_, fun i hi => ?_, fun i hi => ?_, ?_⟩
  · rw [hblocks, hargs]
    exact h.packed
  · rw [hrlen, hargs]
    exact h.room
  · rw [hargs]
    exact h.size
  · rw [hrpra i hi]
    exact h.len i hi
  · rw [hpages i hi, hrpra i hi]
    exact h.pages i hi
  · rw [hmem, hrpra i hi]
    exact h.inputs i hi
  · rw [hout, hrpra i hi]
    exact h.outputs i hi
  · rw [hout]
    exact h.rest

theorem Inv.enter {i : ℕ} (hi : i ∉ done) : Inv c e size cs cp done (c.enter i m) := by
  refine h.congr (fun j hj => ?_) (fun _ _ => rfl) rfl rfl rfl rfl
  exact update_of_ne (fun hji : j = i => hi (hji ▸ hj)) _ _

theorem Inv.size_le (hsize : size ≤ size') : Inv c e size' cs cp done m :=
  { h with size := h.size.trans (Nat.add_le_add_left hsize _) }

/-- **A buffer without a length** may end a run, but is not stored. -/
theorem Inv.skip (ho : o.Raw c.inv) (hlen : (c.inv.arg o.raix).length = 0)
    (hstarts : cs ≤ o.start) : ∃ cs' cp', Inv c (o.last e) size cs' cp' done m ∧ cs' ≤ o.start := by
  have hstop : o.stop = o.start := by rw [ho.stop, ho.start, hlen, Nat.add_zero]
  rw [Overlap.last, hstop]
  by_cases hlt : o.start < e
  · rw [if_pos hlt, if_neg (Nat.not_lt.mpr hlt.le)]
    exact ⟨cs, cp, h, hstarts⟩
  · rw [if_neg hlt]
    exact ⟨o.start, m.args, { h with packed := h.packed.skip (Nat.le_of_not_lt hlt) }, le_rfl⟩

theorem Inv.mapped {i : ℕ} (hi : i ∉ done) (buf : RemoteBuf)
    (page : PhyPage) : Inv c e size cs cp done
      { m with rpra := update m.rpra i buf, pages := update m.pages i page } := by
  refine h.congr (fun j hj => ?_) (fun j hj => ?_) rfl rfl rfl rfl
  · exact update_of_ne (fun hji : j = i => hi (hji ▸ hj)) _ _
  · exact update_of_ne (fun hji : j = i => hi (hji ▸ hj)) _ _

end

theorem add64_sub64 {a b d : ℕ} (hb : b ≤ u64Max) (h : a + d ≤ u64Max) :
    add64 (sub64 a b) (d + b) = a + d := by
  rw [u64Max] at hb h
  rw [add64, sub64]
  omega

theorem pages_of_range (hok : c.Ok) {pv len rlen offset args : ℕ} (hlen : len ≠ 0) (hv : c.virt ≤ pv)
    (htop : pv + len ≤ c.virt + c.pktSize) (hpv : pv + offset = args)
    (hroom : rlen + args = c.virt + c.pktSize) :
    add64 (sub64 c.phys offset) (sub64 c.pktSize rlen) = c.phys + (pv - c.virt) ∧
      (c.phys + (pv - c.virt)) / pageSize * pageSize + pageSpan pv len =
        ((c.phys + (pv - c.virt) + len - 1) / pageSize + 1) * pageSize := by
  have hsize := hok.size
  have hvirt := hok.virt
  have hphys := hok.phys
  have hpage := hok.page
  rw [u64Max] at hvirt hphys
  obtain ⟨d, rfl⟩ : ∃ d, pv = c.virt + d := ⟨pv - c.virt, by omega⟩
  rw [Nat.add_sub_cancel_left]
  constructor
  · have hsub : sub64 c.pktSize rlen = d + offset := by
      rw [sub64_of_le (by omega) (by rw [u64Max]; omega)]
      omega
    rw [hsub, add64_sub64 (by rw [u64Max]; omega) (by rw [u64Max]; omega)]
  · rw [pageSpan, add64_of_le (by rw [u64Max]; omega), sub64_of_le (by omega) (by rw [u64Max]; omega),
      pageSize]
    rw [pageSize] at hpage
    rw [Nat.mod_eq_of_lt (by omega)]
    omega

/-- Where a buffer goes: at position `q` with `rlen` bytes left, of which it takes some. -/
structure Fits (c : Call) (o : Overlap) (q rlen size e cs cp : ℕ) (blocks : List Block) : Prop where
  stored : c.Stored o.raix
  room : rlen + q = c.virt + c.pktSize
  le : size ≤ c.pktSize
  size : q + sub64 o.mend o.mstart ≤ c.virt + size
  offset : o.offset ≤ q
  packed : Packed (c.virt + getMetaSize c.inv) e (q + sub64 o.mend o.mstart) cs cp
    (⟨(c.inv.arg o.raix).ptr, (c.inv.arg o.raix).length, q - o.offset⟩ :: blocks)

section Store

variable {q rlen : ℕ}

theorem place_rpra_of_mem (hi : o.raix ∉ done) {j : ℕ} (hj : j ∈ done) :
    (c.place o q rlen m).rpra j = m.rpra j :=
  update_of_ne (fun hji : j = o.raix => hi (hji ▸ hj)) _ _

variable (hok : c.Ok) (hf : Fits c o q rlen size' e cs cp (done.map (c.block m)))
include hok hf

theorem Fits.place_rpra : (c.place o q rlen m).rpra o.raix = ⟨q - o.offset, (c.inv.arg o.raix).length⟩ := by
  have hroom := hf.room
  have hvirt := hok.virt
  show update m.rpra o.raix _ o.raix = _
  rw [update_self, sub64_of_le hf.offset (by omega)]

variable (hi : o.raix ∉ done)
include hi

theorem Fits.blocks : (o.raix :: done).map (c.block (c.place o q rlen m)) =
    ⟨(c.inv.arg o.raix).ptr, (c.inv.arg o.raix).length, q - o.offset⟩ :: done.map (c.block m) := by
  rw [map_cons, Call.block, hf.place_rpra hok]
  congr 1
  refine map_congr_left fun j hj => ?_
  rw [Call.block, Call.block, place_rpra_of_mem hi hj]

/-- **A copied buffer** is stored, once its bytes are in place. -/
theorem Inv.store {e₀ size₀ cs₀ cp₀ : ℕ} (h : Inv c e₀ size₀ cs₀ cp₀ done m) {mem : ℕ → UInt8}
    (hmem : ∀ j ∈ o.raix :: done, j < c.inv.inbufs → ∀ k < (c.inv.arg j).length,
      mem (((c.place o q rlen m).rpra j).pv + k) = c.byte ((c.inv.arg j).ptr + k)) :
    Inv c e size' cs cp (o.raix :: done) { c.place o q rlen m with mem := mem } := by
  have hvirt := hok.virt
  have hroom := hf.room
  have hsize := hf.size
  have hle := hf.le
  have hargs : add64 q (sub64 o.mend o.mstart) = q + sub64 o.mend o.mstart := add64_of_le (by omega)
  have hself := hf.place_rpra hok
  have hpacked := hf.packed
  have hnew := (hpacked.block _ mem_cons_self).1
  have htop := (hpacked.le_free mem_cons_self).1
  refine ⟨?_, ?_, ?_, fun j hj => ?_, fun j hj => ?_, fun j hj => ?_, hmem, fun j hj hin => ?_,
    fun j hj hin => ?_⟩
  · show Packed _ e (add64 q (sub64 o.mend o.mstart)) cs cp
      ((o.raix :: done).map (c.block (c.place o q rlen m)))
    rw [hargs, hf.blocks hok hi]
    exact hpacked
  · show rlen - sub64 o.mend o.mstart + add64 q (sub64 o.mend o.mstart) = _
    rw [hargs]
    omega
  · show add64 q (sub64 o.mend o.mstart) ≤ _
    rw [hargs]
    exact hsize
  · rcases mem_cons.mp hj with rfl | hjd
    · exact hf.stored
    · exact h.stored j hjd
  · show ((c.place o q rlen m).rpra j).len = _
    rcases mem_cons.mp hj with rfl | hjd
    · rw [hself]
    · rw [place_rpra_of_mem hi hjd]
      exact h.len j hjd
  · rcases mem_cons.mp hj with rfl | hjd
    · have hpages : (c.place o q rlen m).pages o.raix =
          ⟨add64 (sub64 c.phys o.offset) (sub64 c.pktSize rlen) / pageSize * pageSize,
            pageSpan (q - o.offset) (c.inv.arg o.raix).length⟩ := by
        show update m.pages o.raix _ o.raix = _
        rw [update_self, sub64_of_le hf.offset (by omega)]
      have hoff := hf.offset
      have hrange := pages_of_range hok hf.stored.2.1
        (show c.virt ≤ q - o.offset by exact (Nat.le_add_right _ _).trans hnew)
        (htop.trans (by omega)) (Nat.sub_add_cancel hoff) hroom
      show c.PagesOk _ ((c.place o q rlen m).rpra o.raix).pv ((c.place o q rlen m).pages o.raix)
      rw [hpages, hself, Call.PagesOk, hrange.1]
      exact ⟨rfl, hrange.2⟩
    · have hne : j ≠ o.raix := fun hji => hi (hji ▸ hjd)
      have hpages : (c.place o q rlen m).pages j = m.pages j := update_of_ne hne _ _
      show c.PagesOk _ ((c.place o q rlen m).rpra j).pv ((c.place o q rlen m).pages j)
      rw [hpages, place_rpra_of_mem hi hjd]
      exact h.pages j hjd
  · show (if c.inv.inbufs ≤ o.raix then _ else m.outbufs) (j - c.inv.inbufs) = (c.place o q rlen m).rpra j
    rcases mem_cons.mp hj with rfl | hjd
    · rw [if_pos hin, update_self, hself, sub64_of_le hf.offset (by omega)]
    · have hne : j ≠ o.raix := fun hji => hi (hji ▸ hjd)
      rw [place_rpra_of_mem hi hjd, ← h.outputs j hjd hin]
      split
      · rw [update_of_ne (by omega)]
      · rfl
  · show (if c.inv.inbufs ≤ o.raix then _ else m.outbufs) (j - c.inv.inbufs) = _
    have hne : j ≠ o.raix := fun hji => hj (hji ▸ mem_cons_self)
    have hjd : j ∉ done := fun hjd => hj (mem_cons_of_mem _ hjd)
    rw [← h.rest j hjd hin]
    split
    · rw [update_of_ne (by omega)]
    · rfl

theorem Inv.copyIn {e₀ size₀ cs₀ cp₀ : ℕ} (h : Inv c e₀ size₀ cs₀ cp₀ done m) :
    match c.copyIn o.raix (c.place o q rlen m) with
    | .error err => err ≠ .payload
    | .ok m' => Inv c e size' cs cp (o.raix :: done) m' := by
  have hself := hf.place_rpra hok
  have hagree := hf.packed.agree
  rw [← hf.blocks hok hi] at hagree
  rw [Call.copyIn]
  by_cases hin : o.raix < c.inv.inbufs
  · rw [if_pos hin]
    split
    · rename_i herr
      split at herr
      · cases herr
        exact fun hc => by cases hc
      · cases herr
    · rename_i m' hm
      split at hm
      · cases hm
      · cases hm
        refine h.store hok hf hi fun j hj hjin k hk => ?_
        have hshares := hagree _ (mem_map_of_mem hj) _ (mem_map_of_mem mem_cons_self)
        split
        · rename_i hrange
          obtain ⟨l, hl⟩ := Nat.exists_eq_add_of_le hrange.1
          rw [hl, Nat.add_sub_cancel_left]
          have hlt : l < (c.inv.arg o.raix).length := by omega
          have heq : (c.inv.arg j).ptr + k = (c.inv.arg o.raix).ptr + l :=
            (hshares.shares_iff hk hlt).mp hl
          rw [heq]
        · rename_i hrange
          rcases mem_cons.mp hj with rfl | hjd
          · exact absurd ⟨Nat.le_add_right _ _, Nat.add_lt_add_left hk _⟩ hrange
          · rw [place_rpra_of_mem hi hjd]
            exact h.inputs j hjd hjin k hk
  · rw [if_neg hin]
    refine h.store hok hf hi fun j hj hjin k hk => ?_
    rcases mem_cons.mp hj with rfl | hjd
    · exact absurd hjin hin
    · rw [place_rpra_of_mem hi hjd]
      exact h.inputs j hjd hjin k hk

end Store

theorem place_raix (o : Overlap) (last : ℕ) : (o.place last).raix = o.raix := by
  rw [Overlap.place]
  split_ifs <;> rfl

/-- **A copied buffer has a place**, behind the others or in the run that it overlaps. -/
theorem Inv.fits (h : Inv c e size cs cp done m) (hok : c.Ok) (ho : o.Raw c.inv)
    (hs : c.Stored o.raix) (hcs : cs ≤ o.start) {padded : ℕ}
    (hpadded : padded = if (o.place e).offset = 0 then align64 size else size) (hpad : size ≤ padded)
    (hle : padded + sub64 (o.place e).mend (o.place e).mstart ≤ c.pktSize) :
    ∃ cs' cp', cs' ≤ o.start ∧ Fits c (o.place e)
      (if (o.place e).offset = 0 then align64 m.args else m.args)
      (if (o.place e).offset = 0 then sub64 m.rlen (sub64 (align64 m.args) m.args) else m.rlen)
      (padded + sub64 (o.place e).mend (o.place e).mstart) (o.last e) cs' cp' (done.map (c.block m)) := by
  have hvirt := hok.virt
  have hroom := h.room
  have hsize := h.size
  have hstart := ho.start
  have hstop := ho.stop
  have hstople := ho.le
  by_cases hlt : o.start < e
  · -- the buffer begins inside of the last run
    have hoffset : (o.place e).offset = e - o.start := by
      rw [Overlap.place, if_pos hlt]
      split <;> rfl
    have hmlen : sub64 (o.place e).mend (o.place e).mstart = o.stop - e := by
      rw [Overlap.place, if_pos hlt]
      split
      · rename_i hlong
        exact sub64_of_le hlong.le hstople
      · show sub64 0 0 = o.stop - e
        rw [sub64_of_le le_rfl (Nat.zero_le _)]
        omega
    have hlast : o.last e = max e o.stop := by
      rw [Overlap.last, if_pos hlt]
      split <;> omega
    have hne : (o.place e).offset ≠ 0 := by omega
    rw [if_neg hne] at hpadded ⊢
    rw [if_neg hne]
    have hfree := h.packed.free
    have hlow := h.packed.low
    have hrun := h.packed.overlap hcs hlt.le (c.inv.arg o.raix).length
    refine ⟨cs, cp, hcs, ⟨?_, hroom, hle, ?_, ?_, ?_⟩⟩
    · rw [place_raix]
      exact hs
    · omega
    · omega
    · rw [hmlen, hoffset, place_raix, hlast, hstop, ← hstart]
      exact hrun
  · -- it begins behind all others
    have hoffset : (o.place e).offset = 0 := by rw [Overlap.place, if_neg hlt]
    have hmlen : sub64 (o.place e).mend (o.place e).mstart = (c.inv.arg o.raix).length := by
      rw [Overlap.place, if_neg hlt]
      show sub64 o.stop o.start = _
      rw [sub64_of_le (by omega) hstople]
      omega
    have hlast : o.last e = o.start + (c.inv.arg o.raix).length := by
      rw [Overlap.last, if_neg hlt]
      omega
    rw [if_pos hoffset] at hpadded ⊢
    rw [if_pos hoffset]
    rw [hmlen] at hle
    have hdvd : 128 ∣ c.virt + padded := hpadded ▸ Nat.dvd_add hok.align (dvd_align64 size)
    have hend := le_of_dvd hdvd (by omega)
    have hq : align64 m.args ≤ c.virt + padded := by
      calc align64 m.args ≤ align64 (c.virt + size) := align64_mono hsize (by omega)
        _ = c.virt + align64 size := align64_add hok.align (by omega)
        _ = c.virt + padded := by rw [hpadded]
    have hge : m.args ≤ align64 m.args := le_align64 (by omega)
    have hrlen : sub64 m.rlen (sub64 (align64 m.args) m.args) = m.rlen - (align64 m.args - m.args) := by
      rw [sub64_of_le hge (by omega), sub64_of_le (by omega) (by omega)]
    have hrun := h.packed.fresh (Nat.le_of_not_lt hlt) hge (c.inv.arg o.raix).length
    refine ⟨o.start, align64 m.args, le_rfl, ⟨?_, ?_, ?_, ?_, ?_, ?_⟩⟩
    · rw [place_raix]
      exact hs
    · rw [hrlen]
      omega
    · rw [hmlen]
      exact hle
    · rw [hmlen]
      omega
    · rw [hoffset]
      exact Nat.zero_le _
    · rw [hmlen, hoffset, place_raix, hlast, Nat.sub_zero, ← hstart]
      exact hrun

end Turns

section Loop

variable {c : Call} {e size cs cp ion : ℕ} {done : List ℕ} {m : Marshal} {l : List Overlap}

/-- The loop ends in an error that is not about the room, or with all buffers stored. -/
def Call.Stores (c : Call) (done : List ℕ) (l : List Overlap) : Except GetError Marshal → Prop
  | .error err => err ≠ .payload
  | .ok m' => ∃ e cs cp done', Inv c e c.pktSize cs cp done' m' ∧ done ⊆ done' ∧
      ∀ o ∈ l, c.Stored o.raix → o.raix ∈ done'

theorem Call.Stores.cons {o : Overlap} {done' : List ℕ} {r : Except GetError Marshal}
    (h : c.Stores done' l r) (hdone : done ⊆ done') (ho : c.Stored o.raix → o.raix ∈ done') :
    c.Stores done (o :: l) r := by
  cases r with
  | error err => exact h
  | ok m' =>
    obtain ⟨e, cs, cp, done'', hinv, hsub, hall⟩ := h
    refine ⟨e, cs, cp, done'', hinv, fun i hi => hsub (hdone hi), fun x hx hs => ?_⟩
    rcases mem_cons.mp hx with rfl | hx
    · exact hsub (ho hs)
    · exact hall x hx hs

theorem getArg_empty {o : Overlap} (h : (c.inv.arg o.raix).length = 0) :
    c.getArg o m = .ok (c.enter o.raix m) := by
  simp only [Call.getArg]
  rw [if_pos h]

theorem getArg_copied {o : Overlap} (hok : c.Ok) (h : Inv c e size cs cp done m) (ho : o.Raw c.inv)
    (hi : o.raix ∉ done) (hcs : cs ≤ o.start) (hs : c.Stored o.raix) (hmap : c.maps o.raix = none)
    {padded : ℕ} (hpadded : padded = if (o.place e).offset = 0 then align64 size else size)
    (hpad : size ≤ padded) (hle : padded + sub64 (o.place e).mend (o.place e).mstart ≤ c.pktSize) :
    match c.getArg (o.place e) m with
    | .error err => err ≠ .payload
    | .ok m' => ∃ cs' cp', cs' ≤ o.start ∧ Inv c (o.last e)
        (padded + sub64 (o.place e).mend (o.place e).mstart) cs' cp' (o.raix :: done) m' := by
  have henter := h.enter hi
  obtain ⟨cs', cp', hcs', hfits⟩ := henter.fits hok ho hs hcs hpadded hpad hle
  have hroom := hfits.room
  have hsize := hfits.size
  have hraix := place_raix o e
  have hlen : (c.inv.arg (o.place e).raix).length ≠ 0 := hfits.stored.2.1
  simp only [Call.getArg]
  rw [if_neg hlen, hraix, hmap]
  simp only
  rw [if_neg (by omega)]
  have hcopy := henter.copyIn hok hfits (hraix.symm ▸ hi)
  rw [hraix] at hcopy
  cases hr : c.copyIn o.raix _ with
  | error err =>
    rw [hr] at hcopy
    exact hcopy
  | ok m' =>
    rw [hr] at hcopy
    exact ⟨cs', cp', hcs', hcopy⟩

/-- **The loop over the buffers** stores those that are copied and never runs out of the payload. -/
theorem getBufs_spec (hok : c.Ok) (h : Inv c e size cs cp done m) (hl : SortedBufs c.inv l)
    (hdone : ∀ o ∈ l, o.raix ∉ done) (hcs : ∀ o ∈ l, cs ≤ o.start) (htop : size ≤ u64Max)
    (hsize : payloadLoop c.inv size (scan c.inv e ion l) = c.pktSize) (hpos : c.pktSize ≠ 0) :
    c.Stores done l (c.getBufs m (scan c.inv e ion l)) := by
  induction l generalizing e size cs cp ion done m with
  | nil =>
    rw [scan, payloadLoop] at hsize
    exact ⟨e, cs, cp, done, hsize ▸ h, fun _ hi => hi, fun _ ho => by cases ho⟩
  | cons o rest ih =>
    have ho := hl.raw o mem_cons_self
    have hi := hdone o mem_cons_self
    have hstart := hcs o mem_cons_self
    have hraw : ∀ x ∈ rest, x.Raw c.inv := fun x hx => hl.raw x (mem_cons_of_mem _ hx)
    have hnodup := nodup_cons.mp hl.nodup
    have hsorted := pairwise_cons.mp hl.starts
    have hrest : SortedBufs c.inv rest := ⟨hraw, hnodup.2, hsorted.2⟩
    have hdone' : ∀ x ∈ rest, x.raix ∉ done := fun x hx => hdone x (mem_cons_of_mem _ hx)
    have hdone'' : ∀ x ∈ rest, x.raix ∉ o.raix :: done := by
      intro x hx hmem
      rcases mem_cons.mp hmem with heq | hmem
      · exact hnodup.1 (mem_map.mpr ⟨x, hx, heq⟩)
      · exact hdone' x hx hmem
    have hcs' : ∀ {cs'}, cs' ≤ o.start → ∀ x ∈ rest, cs' ≤ x.start := fun hle x hx =>
      hle.trans (hsorted.1 x hx)
    by_cases hfd : (c.inv.arg o.raix).fd ≤ 0
    · rw [scan, if_pos hfd] at hsize ⊢
      rw [Call.getBufs]
      by_cases hlen : (c.inv.arg o.raix).length = 0
      · rw [getArg_empty (place_raix o e ▸ hlen), place_raix]
        obtain ⟨cs', cp', hskip, hle⟩ := (h.enter hi).skip ho hlen hstart
        obtain ⟨size', hge, htop', hsize'⟩ := payloadLoop_turn (hsize.trans_ne hpos) htop
        rw [hsize'] at hsize
        exact (ih (hskip.size_le hge) hrest hdone' (hcs' hle) htop' hsize).cons (fun _ hx => hx)
          fun hs => absurd hlen hs.2.1
      · have hmap : c.maps o.raix = none := by
          cases hm : c.maps o.raix with
          | none => rfl
          | some map => exact absurd (hok.mapped _ ho.lt map hm) (Int.not_lt.mpr hfd)
        have hcopied := hok.copied _ ho.lt hmap hlen
        obtain ⟨padded, hpadded, hpad, htop', hsize'⟩ :=
          payloadLoop_cons (hsize.trans_ne hpos) ((place_raix o e).symm ▸ hcopied)
        rw [hsize'] at hsize
        have hle := payloadLoop_le (hsize.trans_ne hpos) htop'
        rw [hsize] at hle
        have hturn := getArg_copied hok h ho hi hstart ⟨ho.lt, hlen, hcopied⟩ hmap hpadded hpad hle
        cases hr : c.getArg (o.place e) m with
        | error err =>
          rw [hr] at hturn
          exact hturn
        | ok m' =>
          rw [hr] at hturn
          obtain ⟨cs', cp', hle', hinv⟩ := hturn
          exact (ih hinv hrest hdone'' (hcs' hle') htop' hsize).cons (subset_cons_self _ _)
            fun _ => mem_cons_self
    · have hnot : ¬ (c.inv.arg o.raix).Copied := by
        rintro (h0 | h1) <;> omega
      rw [scan, if_neg hfd] at hsize ⊢
      rw [payloadLoop, place_raix, if_neg hnot] at hsize
      rw [Call.getBufs]
      by_cases hlen : (c.inv.arg o.raix).length = 0
      · rw [getArg_empty (place_raix o ion ▸ hlen), place_raix]
        exact (ih (h.enter hi) hrest hdone' (hcs' hstart) htop hsize).cons (fun _ hx => hx)
          fun hs => absurd hlen hs.2.1
      · cases hm : c.maps o.raix with
        | none => exact absurd (hok.copied _ ho.lt hm hlen) hnot
        | some map =>
          simp only [Call.getArg, place_raix, hm]
          rw [if_neg hlen]
          cases c.mappedPage (c.inv.arg o.raix) map with
          | none => exact fun hc => by cases hc
          | some page =>
            exact (ih ((h.enter hi).mapped hi _ page) hrest hdone' (hcs' hstart) htop hsize).cons
              (fun _ hx => hx) fun hs => absurd hs.2.2 hnot

end Loop

section Outputs

variable {c : Call} {e size cs cp : ℕ} {done : List ℕ} {m : Marshal} {payload : ℕ → UInt8}
  {writable : ℕ → Bool} {user user' : ℕ → UInt8} {i j : ℕ}

def Call.Returned (c : Call) (m : Marshal) (payload user : ℕ → UInt8) (i : ℕ) : Prop :=
  ∀ k < (c.inv.arg i).length, user ((c.inv.arg i).ptr + k) = payload ((m.rpra i).pv + k)

theorem Call.Stored.unmapped (hok : c.Ok) (hs : c.Stored i) : c.maps i = none := by
  cases hm : c.maps i with
  | none => rfl
  | some map =>
    have hfd := hok.mapped i hs.1 map hm
    rcases hs.2.2 with h0 | h1 <;> omega

/-- **An output is copied back** and does not spoil those that it overlaps. -/
theorem returned_of_putArg (hok : c.Ok) (h : Inv c e size cs cp done m)
    (hput : c.putArg m payload writable user j = some user') (hj : c.inv.inbufs ≤ j) :
    (j ∈ done → c.Returned m payload user' j) ∧
      ∀ i ∈ done, c.Returned m payload user i → c.Returned m payload user' i := by
  by_cases hjd : j ∈ done
  · have hout := h.outputs j hjd hj
    have hlen := h.len j hjd
    rw [Call.putArg, (h.stored j hjd).unmapped hok] at hput
    simp only [Option.isSome_none, Bool.false_eq_true, if_false, hout, hlen] at hput
    split at hput
    · cases hput
    · cases hput
      refine ⟨fun _ k hk => ?_, fun i hid hret k hk => ?_⟩
      · show (if _ ∧ _ then _ else _) = _
        rw [if_pos ⟨Nat.le_add_right _ _, Nat.add_lt_add_left hk _⟩, Nat.add_sub_cancel_left]
      · show (if _ ∧ _ then _ else _) = _
        have hagree := h.packed.agree _ (mem_map_of_mem hid) _ (mem_map_of_mem hjd)
        split
        · rename_i hrange
          obtain ⟨l, hl⟩ := Nat.exists_eq_add_of_le hrange.1
          have hlt : l < (c.inv.arg j).length := by omega
          have hpv : (m.rpra i).pv + k = (m.rpra j).pv + l := (hagree.shares_iff hk hlt).mpr hl
          rw [hl, Nat.add_sub_cancel_left, hpv]
        · exact hret k hk
  · refine ⟨fun hd => absurd hd hjd, fun i _ hret k hk => ?_⟩
    rw [Call.putArg, h.rest j hjd hj] at hput
    split at hput
    · cases hput
      exact hret k hk
    · simp only at hput
      split at hput
      · cases hput
      · cases hput
        show (if _ ∧ _ then _ else _) = _
        rw [if_neg (by omega)]
        exact hret k hk

theorem returned_of_putBufs (hok : c.Ok) (h : Inv c e size cs cp done m) {l : List ℕ} (kept : List ℕ)
    (hl : ∀ i ∈ l, c.inv.inbufs ≤ i) (hput : c.putBufs m payload writable user l = some user')
    (hkept : ∀ i ∈ kept, i ∈ done ∧ c.Returned m payload user i) :
    ∀ i ∈ done, i ∈ kept ∨ i ∈ l → c.Returned m payload user' i := by
  induction l generalizing user kept with
  | nil =>
    cases hput
    intro i _ hi
    exact (hkept i (hi.resolve_right fun hc => nomatch hc)).2
  | cons j rest ih =>
    rw [Call.putBufs] at hput
    cases hj : c.putArg m payload writable user j with
    | none =>
      rw [hj] at hput
      cases hput
    | some user₁ =>
      rw [hj] at hput
      have hturn := returned_of_putArg hok h hj (hl j mem_cons_self)
      intro i hid hi
      have hrest : ∀ x ∈ rest, c.inv.inbufs ≤ x := fun x hx => hl x (mem_cons_of_mem _ hx)
      have hkept' : ∀ x ∈ kept, x ∈ done ∧ c.Returned m payload user₁ x := fun x hx =>
        ⟨(hkept x hx).1, hturn.2 x (hkept x hx).1 (hkept x hx).2⟩
      by_cases hij : i = j
      · refine ih (i :: kept) hrest hput (fun x hx => ?_) i hid (.inl mem_cons_self)
        rcases mem_cons.mp hx with rfl | hx
        · exact ⟨hid, hij ▸ hturn.1 (hij ▸ hid)⟩
        · exact hkept' x hx
      · refine ih kept hrest hput hkept' i hid (hi.imp_right fun hmem => ?_)
        exact (mem_cons.mp hmem).resolve_left hij

end Outputs

section Whole

variable {c : Call} {e size cs cp : ℕ} {done : List ℕ} {m : Marshal} {k : Kernel} {inv : Invocation}
  {olaps : List Overlap} {sort : List Overlap → List Overlap}

theorem getMetaSize_le (inv : Invocation) : getMetaSize inv ≤ 22084 := by
  rw [getMetaSize, Invocation.nscalars, remoteScalarsLength, remoteScalarsInbufs, remoteScalarsOutbufs]
  omega

theorem inv_start (hok : c.Ok) (hpos : c.pktSize ≠ 0)
    (hsize : getPayloadSize c.inv (getMetaSize c.inv) olaps = c.pktSize) :
    Inv c 0 (align64 (getMetaSize c.inv)) 0 (c.virt + getMetaSize c.inv) [] c.start := by
  have hmeta := getMetaSize_le c.inv
  have hvirt := hok.virt
  have hle : getMetaSize c.inv ≤ align64 (getMetaSize c.inv) := le_align64 (by rw [u64Max]; omega)
  have htop : align64 (getMetaSize c.inv) ≤ u64Max := by
    rw [align64, add64_of_le (by rw [u64Max]; omega), u64Max]
    omega
  have hpkt := payloadLoop_le (hsize.trans_ne hpos) htop
  have hsize' : payloadLoop c.inv (align64 (getMetaSize c.inv)) olaps = c.pktSize := hsize
  rw [hsize'] at hpkt
  have hargs : c.start.args = c.virt + getMetaSize c.inv := add64_of_le (by omega)
  have hrlen : c.start.rlen = c.pktSize - getMetaSize c.inv := sub64_of_le (by omega) (by omega)
  refine ⟨?_, ?_, ?_, fun _ h => absurd h not_mem_nil, fun _ h => absurd h not_mem_nil,
    fun _ h => absurd h not_mem_nil, fun _ h => absurd h not_mem_nil,
    fun _ h => absurd h not_mem_nil, fun _ _ _ => rfl⟩
  · rw [hargs]
    exact Packed.nil _
  · rw [hargs, hrlen]
    omega
  · rw [hargs]
    omega

theorem Inv.handles (h : Inv c e size cs cp done m) : Inv c e size cs cp done (c.getHandles m) := by
  refine h.congr (fun _ _ => rfl) (fun i hi => ?_) rfl rfl rfl rfl
  have hlt := (h.stored i hi).1
  show (if (c.inv.nbufs ≤ i ∧ i < c.inv.nscalars) ∧ (c.maps i).isSome then _ else m.pages i) = m.pages i
  rw [if_neg fun hc => Nat.not_le.mpr hlt hc.1.1]

theorem Inv.faithful (h : Inv c e c.pktSize cs cp done m) (hok : c.Ok)
    (hall : ∀ i, c.Stored i → i ∈ done) : c.Faithful m := by
  have hsize := h.size
  refine ⟨fun i hi => ?_, fun i j hi hj n hn l hl => ?_, fun i j hi hj hij hji => ?_, fun i hi => ?_,
    fun i hi => ?_, fun payload writable user user' hput i hi hin => ?_⟩
  · have hmem := mem_map_of_mem (f := c.block m) (hall i hi)
    exact ⟨(h.packed.block _ hmem).1, (h.packed.le_free hmem).1.trans hsize, h.len i (hall i hi)⟩
  · exact (h.packed.agree _ (mem_map_of_mem (hall i hi)) _
      (mem_map_of_mem (hall j hj))).shares_iff hn hl
  · exact (h.packed.agree _ (mem_map_of_mem (hall i hi)) _
      (mem_map_of_mem (hall j hj))).distance hij hji
  · exact h.pages i (hall i hi)
  · exact h.inputs i (hall i hi)
  · refine returned_of_putBufs hok h [] (fun j hj => ?_) hput (fun _ hx => (nomatch hx)) i
      (hall i hi) (.inr ?_)
    · exact (List.mem_range'_1.mp hj).1
    · have hlt := hi.1
      exact List.mem_range'_1.mpr ⟨hin, by omega⟩

theorem call_ok (hk : k.Ok) {reverse : Bool} (kernel : Bool) {maps : ℕ → Option Map} {virt phys pktSize : ℕ}
    (hmaps : createMaps k.mapCreate reverse inv = some maps)
    (hbuf : k.bufAlloc pktSize = some (virt, phys)) :
    ({ k with
      inv := inv, maps := maps, kernel := kernel, virt := virt, phys := phys, pktSize := pktSize } :
        Call).Ok := by
  obtain ⟨hsize, halign, hvirt, hphys, hpage⟩ := hk.buf _ _ _ hbuf
  rw [createMaps] at hmaps
  split at hmaps
  · rename_i hall
    cases hmaps
    refine ⟨hsize, halign, hvirt, hphys, hpage, fun i hi map hm => ?_, fun i hi hm hlen => ?_⟩
    · have hm' : (createMap k.mapCreate reverse inv i).getD none = some map := hm
      rw [createMap] at hm'
      split at hm'
      · cases hm'
      · rename_i hnot
        cases hcreate : k.mapCreate (inv.arg i) with
        | none =>
          rw [hcreate] at hm'
          cases hm'
        | some x =>
          have hfd := hk.fd _ _ hcreate
          have hne : (inv.arg i).fd ≠ 0 := fun h0 => hnot (.inl (.inl h0))
          show 0 < (inv.arg i).fd
          omega
    · have hlt : i < inv.nscalars := by
        have hi' : i < inv.nbufs := hi
        rw [Invocation.nbufs] at hi'
        rw [Invocation.nscalars, remoteScalarsLength]
        omega
      have hsome := all_eq_true.mp hall i (mem_range.mpr hlt)
      have hm' : (createMap k.mapCreate reverse inv i).getD none = none := hm
      rw [createMap] at hm' hsome
      split at hm'
      · rename_i hcases
        rcases hcases with hcopied | ⟨hge, -⟩ | hzero
        · exact hcopied
        · exact absurd hi (Nat.not_lt.mpr hge)
        · exact absurd hzero hlen
      · rename_i hnot
        rw [if_neg hnot] at hsome
        cases hcreate : k.mapCreate (inv.arg i) with
        | none =>
          rw [hcreate] at hsome
          cases hsome
        | some x =>
          rw [hcreate] at hm'
          cases hm'
  · cases hmaps

/-- **The payload is faithful**: for any buffers that do not wrap, whatever is copied, mapped or empty and
however it overlaps, there is room for what is copied, and if the call gets its maps and its memory then
the payload is what it is to be. -/
theorem faithful_of_getArgs (hk : k.Ok) (hsort : Sorts sort) (reverse kernel : Bool)
    (h : getBuffOverlaps sort inv = some olaps) :
    match getArgs k reverse kernel inv olaps with
    | .error err => err ≠ .payload
    | .ok (c, m) => c.inv = inv ∧ c.toKernel = k ∧ c.kernel = kernel ∧ c.Faithful m := by
  obtain ⟨l, hl, rfl, hall⟩ := sortedBufs_of_getBuffOverlaps hsort h
  rw [getArgs]
  by_cases hpos : getPayloadSize inv (getMetaSize inv) (scan inv 0 0 l) = 0
  · rw [if_pos hpos]
    exact fun hc => nomatch hc
  rw [if_neg hpos]
  cases hmaps : createMaps k.mapCreate reverse inv with
  | none => exact fun hc => nomatch hc
  | some maps =>
    cases hbuf : k.bufAlloc (getPayloadSize inv (getMetaSize inv) (scan inv 0 0 l)) with
    | none => exact fun hc => nomatch hc
    | some addr =>
      obtain ⟨virt, phys⟩ := addr
      have hok := call_ok hk kernel hmaps hbuf
      have hstart := inv_start hok hpos (show getPayloadSize inv (getMetaSize inv) (scan inv 0 0 l) = _ from rfl)
      have hmeta := getMetaSize_le inv
      have hstores := getBufs_spec hok hstart hl (fun _ _ hc => (nomatch hc)) (fun _ _ => Nat.zero_le _)
        (by
          show align64 (getMetaSize inv) ≤ u64Max
          rw [align64, add64_of_le (by rw [u64Max]; omega), u64Max]
          omega) rfl hpos
      simp only
      revert hstores
      cases Call.getBufs _ _ _ with
      | error err => exact fun herr => herr
      | ok m =>
        rintro ⟨e, cs, cp, done, hinv, -, hstored⟩
        refine ⟨rfl, rfl, rfl, hinv.handles.faithful hok fun i hi => ?_⟩
        obtain ⟨o, ho, rfl⟩ := hall i hi.1
        exact hstored o ho hi

end Whole

def insertionSort (l : List Overlap) : List Overlap := l.insertionSort fun a b => olapsCmp a b ≤ 0

theorem sorts_insertionSort : Sorts insertionSort := by
  have htotal : Std.Total fun a b : Overlap => olapsCmp a b ≤ 0 := by
    refine ⟨fun a b => ?_⟩
    rw [olapsCmp_nonpos, olapsCmp_nonpos]
    omega
  have htrans : IsTrans Overlap fun a b => olapsCmp a b ≤ 0 := by
    refine ⟨fun a b d hab hbd => ?_⟩
    rw [olapsCmp_nonpos] at hab hbd ⊢
    omega
  exact ⟨fun l => l.perm_insertionSort _, fun l => l.pairwise_insertionSort _⟩

/-- All descriptors have maps, all memory is there, and the payload is at a page. -/
def plainKernel : Kernel where
  mapCreate a := if 0 ≤ a.fd then some ⟨8192, 4096, 0, true⟩ else none
  mapLookup _ := none
  findVma _ := none
  user a := some (UInt8.ofNat a)
  bufAlloc size := if size ≤ 2147483647 then some (65536, 4096) else none

theorem plainKernel_ok : plainKernel.Ok := by
  refine ⟨fun a map h => ?_, fun size virt phys h => ?_⟩
  · simp only [plainKernel] at h
    split at h
    · assumption
    · cases h
  · simp only [plainKernel] at h
    split at h
    · cases h
      refine ⟨by assumption, by decide, ?_, ?_, rfl⟩
      · rw [u64Max]
        omega
      · rw [u64Max]
        omega
    · cases h

/-- Two inputs that overlap, an empty one, a mapped one, and an output inside of the first input. -/
def overlappingCall : Invocation where
  sc := 4 * 65536 + 256
  args := [⟨1000, 100, -1, by decide, by decide⟩, ⟨1050, 200, 0, by decide, by decide⟩,
    ⟨1060, 0, -1, by decide, by decide⟩, ⟨1020, 300, 7, by decide, by decide⟩,
    ⟨1010, 20, -1, by decide, by decide⟩]
  length := rfl

theorem faithful_overlappingCall : ∃ olaps c m, getBuffOverlaps insertionSort overlappingCall = some olaps ∧
    getArgs plainKernel false false overlappingCall olaps = .ok (c, m) ∧ c.Faithful m ∧
    (m.rpra 1).pv = (m.rpra 0).pv + 50 := by
  cases holaps : getBuffOverlaps insertionSort overlappingCall with
  | none => exact absurd holaps (by decide)
  | some olaps =>
    have h := faithful_of_getArgs plainKernel_ok sorts_insertionSort false false holaps
    have hisOk : (getArgs plainKernel false false overlappingCall olaps).isOk = true := by
      cases holaps
      decide +kernel
    cases hargs : getArgs plainKernel false false overlappingCall olaps with
    | error err =>
      rw [hargs] at hisOk
      cases hisOk
    | ok r =>
      rw [hargs] at h
      obtain ⟨hinv, -, -, hf⟩ := h
      have hstored₀ : r.1.Stored 0 := by
        rw [Call.Stored, hinv]
        decide
      have hstored₁ : r.1.Stored 1 := by
        rw [Call.Stored, hinv]
        decide
      have hdistance := hf.distance 1 0 hstored₁ hstored₀
      rw [hinv] at hdistance
      have heq := hdistance (by decide) (by decide)
      refine ⟨olaps, r.1, r.2, rfl, hargs, hf, ?_⟩
      change (r.2.rpra 1).pv + 1000 = (r.2.rpra 0).pv + 1050 at heq
      omega

end Fastrpc
