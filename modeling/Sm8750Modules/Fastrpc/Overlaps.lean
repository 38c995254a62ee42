import Mathlib
import Sm8750Modules.Lib.Packing

/-!
# Remote calls to the DSP — overlaps and sizes

The buffers of a remote call are copied into a payload behind its metadata, unless they come with
a file descriptor and are mapped.
-/

namespace Fastrpc

open List

/-- `ULLONG_MAX` -/
def u64Max : ℕ := 18446744073709551615

def add64 (a b : ℕ) : ℕ := (a + b) % 18446744073709551616

def sub64 (a b : ℕ) : ℕ := (a + (18446744073709551616 - b)) % 18446744073709551616

def align64 (x : ℕ) : ℕ := add64 x 127 / 128 * 128

theorem add64_of_le {a b : ℕ} (h : a + b ≤ u64Max) : add64 a b = a + b := by
  rw [u64Max] at h
  rw [add64]
  omega

theorem sub64_of_le {a b : ℕ} (h : b ≤ a) (ha : a ≤ u64Max) : sub64 a b = a - b := by
  rw [u64Max] at ha
  rw [sub64]
  omega

theorem le_align64 {x : ℕ} (h : x + 127 ≤ u64Max) : x ≤ align64 x := by
  rw [align64, add64_of_le h]
  omega

theorem align64_mono {x y : ℕ} (hxy : x ≤ y) (hy : y + 127 ≤ u64Max) : align64 x ≤ align64 y := by
  rw [align64, align64, add64_of_le hy, add64_of_le (by omega)]
  omega

theorem dvd_align64 (x : ℕ) : 128 ∣ align64 x := Nat.dvd_mul_left _ _

theorem le_of_dvd {x : ℕ} (h : 128 ∣ x) (hx : x ≤ u64Max) : x + 127 ≤ u64Max := by
  rw [u64Max] at hx ⊢
  omega

theorem align64_add {b x : ℕ} (hb : 128 ∣ b) (h : b + x + 127 ≤ u64Max) :
    align64 (b + x) = b + align64 x := by
  rw [align64, align64, add64_of_le h, add64_of_le (by omega)]
  omega

/-! ## Arguments -/

structure InvokeArg where
  ptr : ℕ
  length : ℕ
  fd : ℤ
  ptr_le : ptr ≤ u64Max
  length_le : length ≤ u64Max

def InvokeArg.zero : InvokeArg := ⟨0, 0, 0, Nat.zero_le _, Nat.zero_le _⟩

def remoteScalarsInbufs (sc : ℕ) : ℕ := sc / 65536 % 256

def remoteScalarsOutbufs (sc : ℕ) : ℕ := sc / 256 % 256

def remoteScalarsLength (sc : ℕ) : ℕ :=
  remoteScalarsInbufs sc + remoteScalarsOutbufs sc + sc / 16 % 16 + sc % 16

/-- The scalars of a call, and as many arguments. -/
structure Invocation where
  sc : ℕ
  args : List InvokeArg
  length : args.length = remoteScalarsLength sc

structure Overlap where
  start : ℕ
  stop : ℕ
  raix : ℕ
  mstart : ℕ
  mend : ℕ
  offset : ℕ

/-- `struct fastrpc_map`, with the file of its buffer and whether `FASTRPC_ATTR_NOVA` is set. -/
structure Map where
  phys : ℕ
  size : ℕ
  file : ℕ
  nova : Bool

namespace Invocation

variable (inv : Invocation)

def inbufs : ℕ := remoteScalarsInbufs inv.sc

/-- `ctx->nbufs` -/
def nbufs : ℕ := remoteScalarsInbufs inv.sc + remoteScalarsOutbufs inv.sc

/-- `ctx->nscalars` -/
def nscalars : ℕ := remoteScalarsLength inv.sc

def arg (i : ℕ) : InvokeArg := inv.args.getD i .zero

/-- `ctx->olaps[i]` before the sort. -/
def overlap (i : ℕ) : Overlap :=
  ⟨(inv.arg i).ptr, add64 (inv.arg i).ptr (inv.arg i).length, i, 0, 0, 0⟩

end Invocation

def cmp (a b : ℕ) : ℤ := if a = b then 0 else if a < b then -1 else 1

def olapsCmp (a b : Overlap) : ℤ :=
  if cmp a.start b.start = 0 then cmp b.stop a.stop else cmp a.start b.start

/-- A buffer behind the end of those before it, and one that begins before that end. -/
def Overlap.place (o : Overlap) (last : ℕ) : Overlap :=
  if o.start < last then
    if last < o.stop then { o with mstart := last, mend := o.stop, offset := last - o.start }
    else { o with mstart := 0, mend := 0, offset := last - o.start }
  else { o with mstart := o.start, mend := o.stop, offset := 0 }

def Overlap.last (o : Overlap) (last : ℕ) : ℕ :=
  if o.start < last then if last < o.stop then o.stop else last else o.stop

/-- The second loop of `fastrpc_get_buff_overlaps`, with the ends of the buffers without and with a file
descriptor. -/
def scan (inv : Invocation) : ℕ → ℕ → List Overlap → List Overlap
  | _, _, [] => []
  | nonIon, ion, o :: rest =>
    if (inv.arg o.raix).fd ≤ 0 then o.place nonIon :: scan inv (o.last nonIon) ion rest
    else o.place ion :: scan inv nonIon (o.last ion) rest

def getBuffOverlaps (sort : List Overlap → List Overlap) (inv : Invocation) : Option (List Overlap) :=
  if (List.range inv.nbufs).any fun i => u64Max - (inv.arg i).length < (inv.arg i).ptr then none
  else some (scan inv 0 0 (sort ((List.range inv.nbufs).map inv.overlap)))

def getMetaSize (inv : Invocation) : ℕ := (16 + 8 + 16) * inv.nscalars + 8 * 16 + 4 * 64 + 4 + 8 * 12

def InvokeArg.Copied (a : InvokeArg) : Prop := a.fd = 0 ∨ a.fd = -1
deriving Decidable

/-- The loop of `fastrpc_get_payload_size`. -/
def payloadLoop (inv : Invocation) : ℕ → List Overlap → ℕ
  | size, [] => size
  | size, o :: rest =>
    if (inv.arg o.raix).Copied then
      if o.offset = 0 ∧ u64Max - 127 < size then 0
      else
        let size := if o.offset = 0 then align64 size else size
        if u64Max - sub64 o.mend o.mstart < size then 0
        else payloadLoop inv (size + sub64 o.mend o.mstart) rest
    else payloadLoop inv size rest

def getPayloadSize (inv : Invocation) (metalen : ℕ) (olaps : List Overlap) : ℕ :=
  payloadLoop inv (align64 metalen) olaps

section Maps

variable (mapCreate : InvokeArg → Option Map) (reverse : Bool) (inv : Invocation)

/-- A turn of `fastrpc_create_maps`. -/
def createMap (i : ℕ) : Option (Option Map) :=
  if (inv.arg i).Copied ∨ (inv.nbufs ≤ i ∧ reverse = true) ∨ (inv.arg i).length = 0 then some none
  else (mapCreate (inv.arg i)).map some

/-- `fastrpc_create_maps`, where handles need no map if the DSP has `DMA_HANDLE_REVERSE_RPC_CAP`. -/
def createMaps : Option (ℕ → Option Map) :=
  if (List.range inv.nscalars).all fun i => (createMap mapCreate reverse inv i).isSome then
    some fun i => (createMap mapCreate reverse inv i).getD none
  else none

end Maps

/-- The sort of the kernel, on buffers. -/
structure Sorts (sort : List Overlap → List Overlap) : Prop where
  perm : ∀ l, (sort l).Perm l
  sorted : ∀ l, (sort l).Pairwise fun a b => olapsCmp a b ≤ 0

/-- A buffer before its overlaps are known. -/
structure Overlap.Raw (inv : Invocation) (o : Overlap) : Prop where
  lt : o.raix < inv.nbufs
  start : o.start = (inv.arg o.raix).ptr
  stop : o.stop = (inv.arg o.raix).ptr + (inv.arg o.raix).length
  le : o.stop ≤ u64Max

/-- The buffers by their starts, each once. -/
structure SortedBufs (inv : Invocation) (l : List Overlap) : Prop where
  raw : ∀ o ∈ l, o.Raw inv
  nodup : (l.map (·.raix)).Nodup
  starts : l.Pairwise fun a b => a.start ≤ b.start

section Passes

variable {inv : Invocation} {sort : List Overlap → List Overlap} {olaps : List Overlap}

theorem cmp_nonpos (a b : ℕ) : cmp a b ≤ 0 ↔ a ≤ b := by
  rw [cmp]
  split_ifs with heq hlt
  · exact ⟨fun _ => heq.le, fun _ => le_rfl⟩
  · exact ⟨fun _ => hlt.le, fun _ => by decide⟩
  · exact ⟨fun h => absurd h (by decide), fun h => absurd (lt_of_le_of_ne h heq) hlt⟩

theorem cmp_eq_zero (a b : ℕ) : cmp a b = 0 ↔ a = b := by
  rw [cmp]
  split_ifs with heq hlt
  · exact ⟨fun _ => heq, fun _ => rfl⟩
  · exact ⟨fun h => absurd h (by decide), fun h => absurd h heq⟩
  · exact ⟨fun h => absurd h (by decide), fun h => absurd h heq⟩

theorem olapsCmp_nonpos (a b : Overlap) :
    olapsCmp a b ≤ 0 ↔ a.start < b.start ∨ (a.start = b.start ∧ b.stop ≤ a.stop) := by
  rw [olapsCmp]
  split
  · rename_i heq
    rw [cmp_nonpos]
    rw [cmp_eq_zero] at heq
    omega
  · rename_i hne
    rw [cmp_nonpos]
    rw [cmp_eq_zero] at hne
    omega

theorem start_le_of_olapsCmp {a b : Overlap} (h : olapsCmp a b ≤ 0) : a.start ≤ b.start := by
  rw [olapsCmp_nonpos] at h
  omega

theorem arg_range_le {i : ℕ} (h : getBuffOverlaps sort inv = some olaps) (hi : i < inv.nbufs) :
    (inv.arg i).ptr + (inv.arg i).length ≤ u64Max := by
  rw [getBuffOverlaps] at h
  split at h
  · cases h
  · rename_i hany
    have hi' := fun hgt => hany (any_eq_true.mpr ⟨i, mem_range.mpr hi, hgt⟩)
    have hle := (inv.arg i).length_le
    have hnot : ¬ u64Max - (inv.arg i).length < (inv.arg i).ptr := fun hgt =>
      hi' (decide_eq_true hgt)
    omega

theorem sortedBufs_of_getBuffOverlaps (hsort : Sorts sort) (h : getBuffOverlaps sort inv = some olaps) :
    ∃ l, SortedBufs inv l ∧ olaps = scan inv 0 0 l ∧ ∀ i < inv.nbufs, ∃ o ∈ l, o.raix = i := by
  have hrange := fun i => arg_range_le (i := i) h
  rw [getBuffOverlaps] at h
  split at h
  · cases h
  refine ⟨_, ⟨fun o ho => ?_, ?_, ?_⟩, (Option.some.inj h).symm, fun i hi => ?_⟩
  · obtain ⟨i, hi, rfl⟩ := mem_map.mp ((hsort.perm _).mem_iff.mp ho)
    have hlt := mem_range.mp hi
    have hstop : (inv.overlap i).stop = (inv.arg i).ptr + (inv.arg i).length :=
      add64_of_le (hrange i hlt)
    exact ⟨hlt, rfl, hstop, hstop ▸ hrange i hlt⟩
  · refine (((hsort.perm _).map (·.raix)).nodup_iff).mpr ?_
    rw [map_map]
    refine (nodup_range).map fun a b hab => hab
  · exact (hsort.sorted _).imp start_le_of_olapsCmp
  · exact ⟨inv.overlap i, (hsort.perm _).mem_iff.mpr (mem_map_of_mem (mem_range.mpr hi)), rfl⟩

theorem payloadLoop_cons {o : Overlap} {rest : List Overlap} {size : ℕ}
    (h : payloadLoop inv size (o :: rest) ≠ 0) (hcopied : (inv.arg o.raix).Copied) :
    ∃ padded, padded = (if o.offset = 0 then align64 size else size) ∧ size ≤ padded ∧
      padded + sub64 o.mend o.mstart ≤ u64Max ∧
      payloadLoop inv size (o :: rest) = payloadLoop inv (padded + sub64 o.mend o.mstart) rest := by
  rw [payloadLoop, if_pos hcopied] at h ⊢
  by_cases hpad : o.offset = 0 ∧ u64Max - 127 < size
  · rw [if_pos hpad] at h
    exact absurd rfl h
  rw [if_neg hpad] at h ⊢
  have hle : size ≤ if o.offset = 0 then align64 size else size := by
    split
    · rename_i hzero
      have hroom : ¬ u64Max - 127 < size := fun hgt => hpad ⟨hzero, hgt⟩
      exact le_align64 (by rw [u64Max] at hroom ⊢; omega)
    · exact le_rfl
  by_cases hlen : u64Max - sub64 o.mend o.mstart < if o.offset = 0 then align64 size else size
  · rw [if_pos hlen] at h
    exact absurd rfl h
  have hlt : sub64 o.mend o.mstart < 18446744073709551616 := Nat.mod_lt _ (by decide)
  exact ⟨_, rfl, hle, by rw [u64Max] at hlen ⊢; omega, if_neg hlen⟩

theorem payloadLoop_turn {o : Overlap} {rest : List Overlap} {size : ℕ}
    (h : payloadLoop inv size (o :: rest) ≠ 0) (hsize : size ≤ u64Max) :
    ∃ size', size ≤ size' ∧ size' ≤ u64Max ∧
      payloadLoop inv size (o :: rest) = payloadLoop inv size' rest := by
  by_cases hcopied : (inv.arg o.raix).Copied
  · obtain ⟨padded, -, hle, htop, heq⟩ := payloadLoop_cons h hcopied
    exact ⟨_, hle.trans (Nat.le_add_right _ _), htop, heq⟩
  · exact ⟨size, le_rfl, hsize, by rw [payloadLoop, if_neg hcopied]⟩

theorem payloadLoop_le {l : List Overlap} {size : ℕ} (h : payloadLoop inv size l ≠ 0)
    (hsize : size ≤ u64Max) : size ≤ payloadLoop inv size l := by
  induction l generalizing size with
  | nil => exact le_rfl
  | cons o rest ih =>
    obtain ⟨size', hle, htop, heq⟩ := payloadLoop_turn h hsize
    rw [heq] at h ⊢
    exact hle.trans (ih h htop)

end Passes

end Fastrpc
