import Sm8750Modules.Lib.Runs

/-!
# Remote calls to the DSP — what is mapped on a context bank

Buffers and maps take room on a context bank, which counts the bytes they take, rounded up to the
pages of the IOMMU. A bank is chosen by what its counter leaves.
-/

namespace Fastrpc.Banks

open Runs List

/-! ## Data -/

/-- `enum fastrpc_buf_type`, and the -1 of a cached buffer. -/
inductive BufType where
  | metadata
  | copydata
  | initMem
  | user
  | remoteHeap
  | rootHeap
  | cached
deriving DecidableEq

/-- `struct fastrpc_buf`; a buffer of the remote heap has no bank. -/
structure Buf where
  fl : ℕ
  size : ℕ
  type : BufType
  smmucb : ℕ
deriving DecidableEq

/-- `struct fastrpc_map`: `secureMap` and `nomap` are two attributes, `fdNomap` is the flag
`FASTRPC_MAP_FD_NOMAP`. -/
structure FMap where
  fl : ℕ
  size : ℕ
  secureMap : Bool
  nomap : Bool
  fdNomap : Bool
  smmucb : ℕ
deriving DecidableEq

def FMap.unmapped (m : FMap) : Bool := m.nomap || m.fdNomap

structure Smmu where
  allocatedbytes : ℕ
  minallocsize : ℕ
  maxallocsize : ℕ

abbrev CachedBuf := { x : Buf // x.type = .cached }

/-- The banks, the buffers in use and in the caches of their users, the maps, and the maps whose memory could
not be taken back from the DSP when they were freed. -/
structure State where
  banks : ℕ → Smmu
  bufs : List Buf
  cached : List CachedBuf
  maps : List FMap
  stuck : List FMap

def smmuAlign (size : ℕ) : ℕ :=
  let align := if size > 0x40000000 then 0x40000000 else if size > 0x200000 then 0x200000 else 0x1000
  (size + align - 1) / align * align

/-- `SMMU_4GB_ADDRESS_SPACE`, the `totalbytes` of every bank. -/
def totalbytes : ℕ := 0xFFFFFFFF

def Buf.weight (w : ℕ → ℕ) (b : ℕ) (x : Buf) : ℕ :=
  if x.type ≠ .remoteHeap ∧ x.smmucb = b then w x.size else 0

def FMap.weight (w : ℕ → ℕ) (b : ℕ) (m : FMap) : ℕ :=
  if m.unmapped = false ∧ m.smmucb = b then w m.size else 0

namespace State

variable (σ : State)

/-- The sum of a measure over what is mapped on a bank. -/
def total (w : ℕ → ℕ) (b : ℕ) : ℕ :=
  (σ.bufs.map (Buf.weight w b)).sum + (σ.cached.map fun x => x.1.weight w b).sum +
    ((σ.maps ++ σ.stuck).map (FMap.weight w b)).sum

def setAllocated (b bytes : ℕ) : State :=
  { σ with banks := Function.update σ.banks b ⟨bytes, (σ.banks b).minallocsize, (σ.banks b).maxallocsize⟩ }

theorem allocatedbytes_setAllocated (b bytes b' : ℕ) : ((σ.setAllocated b bytes).banks b').allocatedbytes =
    if b' = b then bytes else (σ.banks b').allocatedbytes := by
  rw [setAllocated]
  dsimp only
  rw [Function.update_apply]
  split <;> rfl

def charge (b size : ℕ) : State :=
  σ.setAllocated b (((σ.banks b).allocatedbytes + smmuAlign size) % 2 ^ 64)

def uncharge (b size : ℕ) : State :=
  σ.setAllocated b (((σ.banks b).allocatedbytes + (2 ^ 64 - smmuAlign size)) % 2 ^ 64)

def dmaFits (b size : ℕ) : Bool := σ.total id b + size ≤ 2 ^ 32

/-- The test that `fastrpc_smmu_device_lookup` makes of a bank. -/
def refuses (b size : ℕ) : Bool :=
  let smmucb := σ.banks b
  smmucb.maxallocsize ≠ 0 &&
    !(smmucb.minallocsize ≤ size && size < (totalbytes + 2 ^ 64 - smmucb.allocatedbytes) % 2 ^ 64)

/-- `fastrpc_smmu_device_lookup`: the banks of a pool from the chosen one on. -/
def deviceLookup (size : ℕ) (pool : List ℕ) : List ℕ := pool.dropWhile fun b => σ.refuses b size

/-! ## Buffers -/

def freeNow (x : Buf) : State := if x.type = .remoteHeap then σ else σ.uncharge x.smmucb x.size

def cachedBufListAdd (x : Buf) : State :=
  if x.size < 8 * 1024 * 1024 ∧ (σ.cached.filter fun y => y.1.fl = x.fl).length ≤ 32 then
    { σ with cached := σ.cached ++ [⟨{ x with type := .cached }, rfl⟩] }
  else σ.freeNow x

def bufFree (x : Buf) (cache : Bool) : State :=
  let σ := { σ with bufs := σ.bufs.erase x }
  if cache then σ.cachedBufListAdd x else σ.freeNow x

/-- `fastrpc_buf_list_free` on the cache of a user. -/
def bufListFree (fl : ℕ) : ℕ → State → State
  | 0, σ => σ
  | n + 1, σ =>
    match σ.cached.find? fun x => x.1.fl = fl with
    | none => σ
    | some x => bufListFree fl n ({ σ with cached := σ.cached.erase x }.freeNow x.1)

/-- `__fastrpc_buf_alloc`, where `given` says whether there is memory. -/
def bufAllocOne (fl b size : ℕ) (type : BufType) (given : Bool) : State × ℤ :=
  let buf : Buf := ⟨fl, size, type, b⟩
  if size = 0 ∨ size > 2 ^ 31 - 1 then (σ, -14)
  else if type = .remoteHeap then
    if given then ({ σ with bufs := buf :: σ.bufs }, 0) else (σ, -12)
  else if given && σ.dmaFits b size then ({ σ.charge b size with bufs := buf :: σ.bufs }, 0)
  else (σ, -12)

def getCachedBuf (fl size : ℕ) (type : BufType) : Option CachedBuf :=
  if type = .user ∨ type = .remoteHeap then none
  else (σ.cached.filter fun x => decide (x.1.fl = fl) && decide (size ≤ x.1.size)).argmin fun x => x.1.size

/-- `fastrpc_buf_alloc`, where `given` says for both attempts whether there is memory. -/
def bufAlloc (fl b size : ℕ) (type : BufType) (given : Bool → Bool) : State × ℤ :=
  match σ.getCachedBuf fl size type with
  | some x => ({ σ with cached := σ.cached.erase x, bufs := { x.1 with type := type } :: σ.bufs }, 0)
  | none =>
    let first := σ.bufAllocOne fl b size type (given false)
    if first.2 = -12 then (bufListFree fl σ.cached.length first.1).bufAllocOne fl b size type (given true)
    else first

/-- `fastrpc_smmu_buf_alloc`: the banks from `pool` on are tried. -/
def smmuBufAlloc (fl size : ℕ) (type : BufType) (given : ℕ → Bool → Bool) : ℕ → List ℕ → State → State × ℤ
  | 0, _, σ => (σ, -63)
  | tries + 1, pool, σ =>
    match σ.deviceLookup size pool with
    | [] => (σ, -63)
    | b :: rest =>
      let r := σ.bufAlloc fl b size type (given b)
      if r.2 = -12 then smmuBufAlloc fl size type given tries rest r.1 else r

end State

/-- What comes of attaching and mapping on a device. -/
inductive Attach where
  | mapped
  | retry
  | failed
deriving DecidableEq

namespace State

variable (σ : State)

/-- The loop of `fastrpc_map_create`: the bank that the map ends on. -/
def mapBank (m : FMap) (len : ℕ) (attach : ℕ → Attach) : ℕ → List ℕ → Option ℕ
  | 0, _ => none
  | tries + 1, pool =>
    match σ.deviceLookup len pool with
    | [] => none
    | b :: rest =>
      match attach b with
      | .failed => none
      | .retry => mapBank m len attach tries rest
      | .mapped => if m.unmapped || σ.dmaFits b m.size then some b else mapBank m len attach tries rest

/-- `fastrpc_map_create` from the choice of the pool on; `assigned` says whether the DSP could be given the
memory of a secure map. -/
def mapCreate (m : FMap) (len : ℕ) (pool : List ℕ) (attach : ℕ → Attach) (assigned : Bool) : State :=
  match σ.mapBank m len attach (pool.length + 1) pool with
  | none => σ
  | some b =>
    let m := { m with smmucb := b }
    if m.secureMap then
      if assigned then { σ.charge b m.size with maps := m :: σ.maps } else σ.charge b m.size
    else if m.unmapped then { σ with maps := m :: σ.maps }
    else { σ.charge b m.size with maps := m :: σ.maps }

/-- `__fastrpc_free_map`; `assigned` says whether the memory of a secure map could be taken back. -/
def freeMap (m : FMap) (assigned : Bool) : State :=
  let σ := { σ with maps := σ.maps.erase m }
  if m.secureMap && !assigned then { σ with stuck := m :: σ.stuck }
  else if m.unmapped then σ
  else σ.uncharge m.smmucb m.size

end State

/-- A call that allocates, frees or maps. -/
inductive Event where
  | alloc (fl size : ℕ) (type : BufType) (pool : List ℕ) (given : ℕ → Bool → Bool)
  | allocAt (fl b size : ℕ) (type : BufType) (given : Bool → Bool)
  | allocOne (fl b size : ℕ) (type : BufType) (given : Bool)
  | bufFree (x : Buf) (cache : Bool)
  | mapCreate (m : FMap) (len : ℕ) (pool : List ℕ) (attach : ℕ → Attach) (assigned : Bool)
  | mapFree (m : FMap) (assigned : Bool)

def State.next (σ : State) : Event → State
  | .alloc fl size type pool given => (smmuBufAlloc fl size type given (pool.length + 1) pool σ).1
  | .allocAt fl b size type given => (σ.bufAlloc fl b size type given).1
  | .allocOne fl b size type given => (σ.bufAllocOne fl b size type given).1
  | .bufFree x cache => σ.bufFree x cache
  | .mapCreate m len pool attach assigned => σ.mapCreate m len pool attach assigned
  | .mapFree m assigned => σ.freeMap m assigned

/-- What is freed exists, and only the buffer of a call is cached, which is none of the remote heap. -/
def Event.Enabled (σ : State) : Event → Prop
  | .bufFree x cache => x ∈ σ.bufs ∧ (cache = true → x.type ≠ .remoteHeap)
  | .mapFree m _ => m ∈ σ.maps
  | _ => True

/-- A secure map that gets to a bank is mapped on it, and the DSP is given its memory. -/
def Event.Paired (σ : State) : Event → Prop
  | .mapCreate m len pool attach assigned => m.secureMap = true →
      σ.mapBank m len attach (pool.length + 1) pool ≠ none → m.unmapped = false ∧ assigned = true
  | _ => True

/-- Buffers and maps come and go on registered banks. -/
def accounting (guard : State → Event → Prop) : Machine State Event where
  init σ := (∀ b, (σ.banks b).allocatedbytes = 0) ∧ σ.bufs = [] ∧ σ.cached = [] ∧ σ.maps = [] ∧ σ.stuck = []
  guard σ e := e.Enabled σ ∧ guard σ e
  next := State.next

/-- The counter of each bank is the sum over what is mapped on it, and a bank that has the room is not
refused. -/
structure Counted (σ : State) : Prop where
  allocatedbytes : ∀ b, (σ.banks b).allocatedbytes = σ.total smmuAlign b
  no_wrap : ∀ b, σ.total smmuAlign b < 2 ^ 64
  found : ∀ b size, (σ.banks b).minallocsize ≤ size → size + σ.total smmuAlign b < totalbytes →
    σ.refuses b size = false

section Steps

variable {σ σ' : State} {b size : ℕ}

theorem smmuAlign_le (size : ℕ) : smmuAlign size ≤ 4096 * size := by
  simp only [smmuAlign]
  split
  · omega
  · split <;> omega

theorem total_smmuAlign_le (σ : State) (b : ℕ) : σ.total smmuAlign b ≤ 4096 * σ.total id b := by
  have hlist : ∀ (α : Type) (l : List α) (f g : α → ℕ), (∀ x, f x ≤ 4096 * g x) →
      (l.map f).sum ≤ 4096 * (l.map g).sum := by
    intro α l f g h
    induction l with
    | nil => simp
    | cons x l ih =>
      have := h x
      simp only [map_cons, sum_cons]
      omega
  rw [State.total, State.total, Nat.mul_add]
  have hbuf : ∀ x : Buf, x.weight smmuAlign b ≤ 4096 * x.weight id b := by
    intro x
    unfold Buf.weight
    split
    · exact smmuAlign_le x.size
    · omega
  rw [Nat.mul_add]
  refine Nat.add_le_add (Nat.add_le_add (hlist _ _ _ _ hbuf) (hlist _ _ _ _ fun x => hbuf x.1))
    (hlist _ _ _ _ fun m => ?_)
  · unfold FMap.weight
    split
    · exact smmuAlign_le m.size
    · omega

/-- The counters are the sums, and what is mapped fits into the addresses of its bank. -/
structure Exact (σ : State) : Prop where
  allocatedbytes : ∀ b, (σ.banks b).allocatedbytes = σ.total smmuAlign b
  fits : ∀ b, σ.total id b ≤ 2 ^ 32

theorem Exact.lt (h : Exact σ) (b : ℕ) : σ.total smmuAlign b < 2 ^ 64 := by
  have hle := total_smmuAlign_le σ b
  have hfits := h.fits b
  omega

theorem Exact.counted (h : Exact σ) : Counted σ := by
  refine ⟨h.allocatedbytes, h.lt, fun b size hmin hroom => ?_⟩
  have hsub : (totalbytes + 2 ^ 64 - σ.total smmuAlign b) % 2 ^ 64 = totalbytes - σ.total smmuAlign b := by
    unfold totalbytes at hroom ⊢
    omega
  simp only [State.refuses, h.allocatedbytes, hsub, hmin, decide_true, Bool.true_and]
  rw [decide_eq_true (by omega : size < totalbytes - σ.total smmuAlign b)]
  simp

theorem Exact.same (h : Exact σ) (hbanks : σ'.banks = σ.banks)
    (htotal : ∀ w b, σ'.total w b = σ.total w b) : Exact σ' :=
  ⟨fun b => by rw [hbanks, htotal, h.allocatedbytes], fun b => by rw [htotal]; exact h.fits b⟩

theorem Exact.charge (h : Exact σ) (hbanks : σ'.banks = (σ.charge b size).banks)
    (htotal : ∀ w b', σ'.total w b' = σ.total w b' + if b' = b then w size else 0)
    (hfits : σ.dmaFits b size = true) : Exact σ' := by
  have hfits' : ∀ b', σ'.total id b' ≤ 2 ^ 32 := by
    intro b'
    rw [htotal]
    split
    · subst b'
      simpa [State.dmaFits] using hfits
    · exact h.fits b'
  refine ⟨fun b' => ?_, hfits'⟩
  have hle := total_smmuAlign_le σ' b'
  have hfit := hfits' b'
  rw [hbanks, State.charge, State.allocatedbytes_setAllocated, h.allocatedbytes, h.allocatedbytes]
  rw [htotal smmuAlign b'] at hle ⊢
  split
  · subst b'
    rw [if_pos rfl] at hle
    omega
  · simp

theorem Exact.uncharge (h : Exact σ) (hbanks : σ'.banks = (σ.uncharge b size).banks)
    (htotal : ∀ w b', σ.total w b' = σ'.total w b' + if b' = b then w size else 0) : Exact σ' := by
  refine ⟨fun b' => ?_, fun b' => ?_⟩
  · have hlt := h.lt b'
    rw [hbanks, State.uncharge, State.allocatedbytes_setAllocated, h.allocatedbytes, h.allocatedbytes]
    split
    · subst b'
      rw [htotal, if_pos rfl] at hlt ⊢
      omega
    · rw [htotal, if_neg (by assumption), Nat.add_zero]
  · have hfits := h.fits b'
    rw [htotal] at hfits
    omega

theorem sum_map_erase {α : Type} [BEq α] [LawfulBEq α] {l : List α} {x : α} (h : x ∈ l) (f : α → ℕ) :
    (l.map f).sum = ((l.erase x).map f).sum + f x := by
  rw [((perm_cons_erase h).map f).sum_eq, map_cons, sum_cons, Nat.add_comm]

theorem weight_of_ne {x : Buf} (h : x.type ≠ .remoteHeap) (w : ℕ → ℕ) (b : ℕ) :
    x.weight w b = if b = x.smmucb then w x.size else 0 := by
  simp [Buf.weight, h, eq_comm]

theorem FMap.weight_of_mapped {m : FMap} (h : m.unmapped = false) (w : ℕ → ℕ) (b : ℕ) :
    m.weight w b = if b = m.smmucb then w m.size else 0 := by
  simp [FMap.weight, h, eq_comm]

theorem FMap.weight_of_unmapped {m : FMap} (h : m.unmapped = true) (w : ℕ → ℕ) (b : ℕ) :
    m.weight w b = 0 := by
  simp [FMap.weight, h]

/-! ### Buffers -/

theorem Exact.freeNow {x : Buf} (h : Exact σ) (hbanks : σ'.banks = σ.banks)
    (htotal : ∀ w b, σ.total w b = σ'.total w b + x.weight w b) : Exact (σ'.freeNow x) := by
  rw [State.freeNow]
  by_cases htype : x.type = .remoteHeap
  · rw [if_pos htype]
    exact h.same hbanks fun w b => by simp [htotal, Buf.weight, htype]
  · rw [if_neg htype]
    have hsame : (σ'.uncharge x.smmucb x.size).banks = (σ.uncharge x.smmucb x.size).banks := by
      simp [State.uncharge, State.setAllocated, hbanks]
    refine h.uncharge hsame fun w b => ?_
    rw [htotal, weight_of_ne htype]
    rfl

theorem total_erase_bufs {x : Buf} (h : x ∈ σ.bufs) (w : ℕ → ℕ) (b : ℕ) :
    σ.total w b = { σ with bufs := σ.bufs.erase x }.total w b + x.weight w b := by
  simp only [State.total, map_append, sum_append, sum_map_erase h]
  omega

theorem total_erase_cached {x : CachedBuf} (h : x ∈ σ.cached) (w : ℕ → ℕ) (b : ℕ) :
    σ.total w b = { σ with cached := σ.cached.erase x }.total w b + x.1.weight w b := by
  simp only [State.total, map_append, sum_append, sum_map_erase h]
  omega

theorem Exact.bufFree {x : Buf} (h : Exact σ) (hx : x ∈ σ.bufs) {cache : Bool}
    (hcache : cache = true → x.type ≠ .remoteHeap) : Exact (σ.bufFree x cache) := by
  have hfree : Exact ({ σ with bufs := σ.bufs.erase x }.freeNow x) := h.freeNow rfl (total_erase_bufs hx)
  unfold State.bufFree
  cases hc : cache with
  | false => exact hfree
  | true =>
    simp only [if_true, State.cachedBufListAdd]
    split
    · refine h.same rfl fun w b => ?_
      rw [total_erase_bufs hx]
      simp only [State.total, map_append, sum_append, map_cons, sum_cons, map_nil, sum_nil]
      rw [weight_of_ne (hcache hc), weight_of_ne (by simp)]
      dsimp only
      omega
    · exact hfree

theorem Exact.bufListFree (h : Exact σ) (fl n : ℕ) : Exact (State.bufListFree fl n σ) := by
  induction n generalizing σ with
  | zero => exact h
  | succ n ih =>
    rw [State.bufListFree]
    split
    · exact h
    · rename_i x hx
      exact ih (h.freeNow rfl (total_erase_cached (List.mem_of_find?_eq_some hx)))

theorem Exact.bufAllocOne (h : Exact σ) (fl b size : ℕ) (type : BufType) (given : Bool) :
    Exact (σ.bufAllocOne fl b size type given).1 := by
  unfold State.bufAllocOne
  split
  · exact h
  by_cases htype : type = .remoteHeap
  · rw [if_pos htype]
    split
    · exact h.same rfl fun w b' => by simp [State.total, Buf.weight, htype]
    · exact h
  · rw [if_neg htype]
    split
    · rename_i hgiven
      rw [Bool.and_eq_true] at hgiven
      refine h.charge rfl (fun w b' => ?_) hgiven.2
      simp only [State.total, map_cons, sum_cons, State.charge, State.setAllocated]
      rw [weight_of_ne htype]
      dsimp only
      omega
    · exact h

theorem Exact.bufAlloc (h : Exact σ) (fl b size : ℕ) (type : BufType) (given : Bool → Bool) :
    Exact (σ.bufAlloc fl b size type given).1 := by
  unfold State.bufAlloc
  cases hcached : σ.getCachedBuf fl size type with
  | some x =>
    unfold State.getCachedBuf at hcached
    split at hcached
    · cases hcached
    · rename_i htype
      have hmem := mem_of_mem_filter (argmin_mem hcached)
      refine h.same rfl fun w b' => ?_
      rw [total_erase_cached hmem]
      simp only [State.total, map_cons, sum_cons]
      rw [weight_of_ne (fun htype' => htype (.inr htype')), weight_of_ne (by rw [x.2]; decide)]
      dsimp only
      omega
  | none =>
    dsimp only
    split
    · exact ((h.bufAllocOne fl b size type _).bufListFree fl _).bufAllocOne fl b size type _
    · exact h.bufAllocOne fl b size type _

theorem Exact.smmuBufAlloc (h : Exact σ) (fl size : ℕ) (type : BufType) (given : ℕ → Bool → Bool)
    (tries : ℕ) (pool : List ℕ) : Exact (State.smmuBufAlloc fl size type given tries pool σ).1 := by
  induction tries generalizing pool σ with
  | zero => exact h
  | succ tries ih =>
    rw [State.smmuBufAlloc]
    split
    · exact h
    · dsimp only
      split
      · exact ih (h.bufAlloc fl _ size type _) _
      · exact h.bufAlloc fl _ size type _

theorem dmaFits_of_mapBank {m : FMap} {len : ℕ} {attach : ℕ → Attach} {tries : ℕ} {pool : List ℕ}
    (h : σ.mapBank m len attach tries pool = some b) (hmapped : m.unmapped = false) :
    σ.dmaFits b m.size = true := by
  induction tries generalizing pool with
  | zero => simp [State.mapBank] at h
  | succ tries ih =>
    rw [State.mapBank] at h
    split at h
    · cases h
    · split at h
      · cases h
      · exact ih h
      · split at h
        · rename_i hfits
          rw [hmapped, Bool.false_or] at hfits
          rwa [← Option.some.inj h]
        · exact ih h

theorem Exact.mapCreate (h : Exact σ) (m : FMap) (len : ℕ) (pool : List ℕ) (attach : ℕ → Attach)
    (assigned : Bool) (hpaired : Event.Paired σ (.mapCreate m len pool attach assigned)) :
    Exact (σ.mapCreate m len pool attach assigned) := by
  unfold State.mapCreate
  cases hbank : σ.mapBank m len attach (pool.length + 1) pool with
  | none => exact h
  | some b =>
    have hcharge : m.unmapped = false →
        Exact { σ.charge b m.size with maps := { m with smmucb := b } :: σ.maps } := by
      intro hmapped
      refine h.charge rfl (fun w b' => ?_) (dmaFits_of_mapBank hbank hmapped)
      simp only [State.total, cons_append, map_cons, sum_cons, State.charge, State.setAllocated]
      rw [FMap.weight_of_mapped (by exact hmapped)]
      dsimp only
      omega
    dsimp only
    split
    · rename_i hsecure
      obtain ⟨hmapped, hassigned⟩ := hpaired hsecure (by rw [hbank]; simp)
      rw [if_pos hassigned]
      exact hcharge hmapped
    · split
      · rename_i hunmapped
        refine h.same rfl fun w b' => ?_
        simp only [State.total, cons_append, map_cons, sum_cons]
        rw [FMap.weight_of_unmapped hunmapped, Nat.zero_add]
      · rename_i hmapped
        exact hcharge (by simpa [FMap.unmapped] using hmapped)

theorem Exact.freeMap {m : FMap} (h : Exact σ) (hm : m ∈ σ.maps) (assigned : Bool) :
    Exact (σ.freeMap m assigned) := by
  have herase : ∀ w b, σ.total w b = { σ with maps := σ.maps.erase m }.total w b + m.weight w b := by
    intro w b
    simp only [State.total, map_append, sum_append, sum_map_erase hm]
    omega
  unfold State.freeMap
  dsimp only
  split
  · refine h.same rfl fun w b => ?_
    rw [herase]
    simp only [State.total, map_append, sum_append, map_cons, sum_cons]
    omega
  · split
    · rename_i hunmapped
      exact h.same rfl fun w b => by rw [herase, FMap.weight_of_unmapped hunmapped, Nat.add_zero]
    · rename_i hmapped
      refine h.uncharge rfl fun w b => ?_
      rw [herase, FMap.weight_of_mapped (by simpa using hmapped)]
      rfl

theorem Exact.next (h : Exact σ) {e : Event} (he : e.Enabled σ) (hpaired : e.Paired σ) :
    Exact (σ.next e) := by
  cases e with
  | alloc fl size type pool given => exact h.smmuBufAlloc fl size type given _ pool
  | allocAt fl b size type given => exact h.bufAlloc fl b size type given
  | allocOne fl b size type given => exact h.bufAllocOne fl b size type given
  | bufFree x cache => exact h.bufFree he.1 he.2
  | mapCreate m len pool attach assigned => exact h.mapCreate m len pool attach assigned hpaired
  | mapFree m assigned => exact h.freeMap he assigned

end Steps

/-- **In every run whose secure maps are mapped on their banks and given to the DSP the counters are exact**,
and no bank that has the room is refused. -/
theorem counted_of_reachable {σ : State} (h : (accounting Event.Paired).Reachable σ) : Counted σ := by
  refine Exact.counted (h.invariant (fun σ hinit => ?_) fun _ _ hσ he => hσ.next he.1 he.2)
  obtain ⟨hbanks, hbufs, hcached, hmaps, hstuck⟩ := hinit
  have htotal : ∀ w b, σ.total w b = 0 := fun w b => by simp [State.total, hbufs, hcached, hmaps, hstuck]
  exact ⟨fun b => by rw [hbanks, htotal], fun b => by rw [htotal]; omega⟩

def idle : State := ⟨fun _ => ⟨0, 0, 0⟩, [], [], [], []⟩

theorem accounting_idle (guard : State → Event → Prop) : (accounting guard).init idle :=
  ⟨fun _ => rfl, rfl, rfl, rfl, rfl⟩

def secureNomap : Event :=
  .mapCreate ⟨1, 4096, true, true, false, 0⟩ 4096 [0] (fun _ => .mapped) true

def refusedSecure : Event :=
  .mapCreate ⟨1, 4096, true, false, false, 0⟩ 4096 [0] (fun _ => .mapped) false

/-- Both are charged to the bank, and neither is mapped on it. -/
theorem not_counted : (¬∀ σ, (accounting fun _ _ => True).Reachable σ → Counted σ) ∧
    ¬Counted (idle.next secureNomap) ∧ ¬Counted (idle.next refusedSecure) := by
  have hnomap : ¬Counted (idle.next secureNomap) := fun h => absurd (h.allocatedbytes 0) (by decide)
  refine ⟨fun h => hnomap ?_, hnomap, fun h => absurd (h.allocatedbytes 0) (by decide)⟩
  have hguard : (accounting fun _ _ => True).guard idle secureNomap := ⟨trivial, trivial⟩
  exact h _ ((Machine.Reachable.init (accounting_idle _)).next hguard)

/-- A buffer of a call is allocated and cached, and a secure buffer is mapped. -/
theorem counted_of_reachable_cached : Counted ((accounting Event.Paired).exec idle
    [.alloc 1 4096 .metadata [0] fun _ _ => true, .bufFree ⟨1, 4096, .metadata, 0⟩ true,
      .mapCreate ⟨1, 4096, true, false, false, 0⟩ 4096 [0] (fun _ => .mapped) true]) := by
  refine counted_of_reachable ((Machine.Reachable.init (accounting_idle _)).exec _ ?_)
  refine ⟨⟨trivial, trivial⟩, ⟨⟨by decide, by decide⟩, trivial⟩, ⟨trivial, ?_⟩, trivial⟩
  exact fun _ _ => ⟨rfl, rfl⟩

end Fastrpc.Banks
