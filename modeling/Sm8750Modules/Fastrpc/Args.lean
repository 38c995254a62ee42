import Sm8750Modules.Fastrpc.Overlaps

/-!
# Remote calls to the DSP — the payload

A buffer that is copied gets its place behind those before it; one that begins inside of another gets the
place that it has in the other. The DSP finds the places in the metadata, writes its outputs to them, and
the driver copies these back.
-/

namespace Fastrpc

def pageSize : ℕ := 4096

structure RemoteBuf where
  pv : ℕ
  len : ℕ

structure InvokeBuf where
  num : ℕ
  pgidx : ℕ

structure PhyPage where
  addr : ℕ
  size : ℕ

structure RemoteDmahandle where
  fd : ℤ
  offset : ℕ
  len : ℕ

structure VmArea where
  start : ℕ
  stop : ℕ
  file : ℕ

/-- What the driver asks the kernel for. -/
structure Kernel where
  mapCreate : InvokeArg → Option Map
  mapLookup : InvokeArg → Option Map
  findVma : ℕ → Option VmArea
  user : ℕ → Option UInt8
  bufAlloc : ℕ → Option (ℕ × ℕ)

/-- A call whose maps and whose payload buffer were obtained; `kernel` is set for calls of the driver. -/
structure Call extends Kernel where
  inv : Invocation
  maps : ℕ → Option Map
  kernel : Bool
  virt : ℕ
  phys : ℕ
  pktSize : ℕ

/-- What `fastrpc_get_args` fills in, the bytes of the payload by their addresses, and its position and
what is left. -/
structure Marshal where
  rpra : ℕ → RemoteBuf
  dma : ℕ → RemoteDmahandle
  list : ℕ → InvokeBuf
  pages : ℕ → PhyPage
  outbufs : ℕ → RemoteBuf
  mem : ℕ → UInt8
  args : ℕ
  rlen : ℕ

/-- The exits of `fastrpc_get_args`. -/
inductive GetError where
  | invalidPayload
  | map
  | alloc
  | buffer
  | payload
  | copy
deriving DecidableEq

def pageSpan (addr len : ℕ) : ℕ :=
  (sub64 (add64 addr len) 1 / pageSize - addr / pageSize + 1) * pageSize % 18446744073709551616

namespace Call

variable (c : Call)

/-! ## The passes over the buffers -/

def getBufferOffset (a : InvokeArg) (map : Map) : Option ℕ :=
  if map.nova then some 0
  else
    let addr := a.ptr / pageSize * pageSize
    let vma := (c.findVma a.ptr).getD ⟨0, 0, 0⟩
    if map.file ≠ vma.file ∨ addr < vma.start ∨ vma.stop < add64 addr a.length ∨
        map.size < add64 (addr - vma.start) a.length then none
    else some (addr - vma.start)

def mappedPage (a : InvokeArg) (map : Map) : Option PhyPage :=
  if map.size < a.length then none
  else
    match c.getBufferOffset a map with
    | none => none
    | some offset =>
      let addr := add64 map.phys offset
      let size := pageSpan a.ptr a.length
      if u64Max - size < addr ∨ add64 map.phys map.size < add64 addr size then none
      else some ⟨addr, size⟩

def byte (a : ℕ) : UInt8 := (c.user a).getD 0

/-- `copy_from_user` or `memcpy` of an input buffer to its place. -/
def copyIn (i : ℕ) (m : Marshal) : Except GetError Marshal :=
  if i < c.inv.inbufs then
    if c.kernel = false ∧ ¬ ∀ k < (c.inv.arg i).length, (c.user ((c.inv.arg i).ptr + k)).isSome then
      .error .copy
    else
      .ok { m with
        mem := fun a =>
          if (m.rpra i).pv ≤ a ∧ a < (m.rpra i).pv + (c.inv.arg i).length then
            c.byte ((c.inv.arg i).ptr + (a - (m.rpra i).pv))
          else m.mem a }
  else .ok m

/-- A copied buffer gets its place, at position `args` with `rlen` bytes left. -/
def place (o : Overlap) (args rlen : ℕ) (m : Marshal) : Marshal :=
  let i := o.raix
  let len := (c.inv.arg i).length
  let pv := sub64 args o.offset
  { m with
    outbufs :=
      if c.inv.inbufs ≤ i then Function.update m.outbufs (i - c.inv.inbufs) ⟨pv, len⟩ else m.outbufs
    rpra := Function.update m.rpra i ⟨pv, len⟩
    pages := Function.update m.pages i
      ⟨add64 (sub64 c.phys o.offset) (sub64 c.pktSize rlen) / pageSize * pageSize, pageSpan pv len⟩
    args := add64 args (sub64 o.mend o.mstart)
    rlen := rlen - sub64 o.mend o.mstart }

/-- The entries of a buffer in the metadata. -/
def enter (i : ℕ) (m : Marshal) : Marshal :=
  { m with
    rpra := Function.update m.rpra i ⟨0, (c.inv.arg i).length⟩
    list := Function.update m.list i ⟨if (c.inv.arg i).length = 0 then 0 else 1, i⟩ }

/-- A turn of the loop of `fastrpc_get_args` over the buffers. -/
def getArg (o : Overlap) (m : Marshal) : Except GetError Marshal :=
  let i := o.raix
  let a := c.inv.arg i
  let m := c.enter i m
  if a.length = 0 then .ok m
  else
    match c.maps i with
    | some map =>
      match c.mappedPage a map with
      | none => .error .buffer
      | some page =>
        .ok { m with
          rpra := Function.update m.rpra i ⟨a.ptr, a.length⟩
          pages := Function.update m.pages i page }
    | none =>
      let args := if o.offset = 0 then align64 m.args else m.args
      let rlen := if o.offset = 0 then sub64 m.rlen (sub64 (align64 m.args) m.args) else m.rlen
      if rlen < sub64 o.mend o.mstart then .error .payload
      else c.copyIn i (c.place o args rlen m)

def getBufs (m : Marshal) : List Overlap → Except GetError Marshal
  | [] => .ok m
  | o :: rest =>
    match c.getArg o m with
    | .error e => .error e
    | .ok m => getBufs m rest

/-- The loop of `fastrpc_get_args` over the handles. -/
def getHandles (m : Marshal) : Marshal :=
  let handle i := c.inv.nbufs ≤ i ∧ i < c.inv.nscalars
  { m with
    list := fun i => if handle i then ⟨if (c.inv.arg i).length = 0 then 0 else 1, i⟩ else m.list i
    pages := fun i =>
      if handle i ∧ (c.maps i).isSome then
        match c.mapLookup (c.inv.arg i) with
        | none => m.pages i
        | some map => ⟨map.phys, map.size⟩
      else m.pages i
    dma := fun i =>
      if handle i then
        ⟨(c.inv.arg i).fd, (c.inv.arg i).ptr % 4294967296, (c.inv.arg i).length % 4294967296⟩
      else m.dma i }

/-- The payload after the `memset`. -/
def start : Marshal where
  rpra _ := ⟨0, 0⟩
  dma _ := ⟨0, 0, 0⟩
  list _ := ⟨0, 0⟩
  pages _ := ⟨0, 0⟩
  outbufs _ := ⟨0, 0⟩
  mem _ := 0
  args := add64 c.virt (getMetaSize c.inv)
  rlen := sub64 c.pktSize (getMetaSize c.inv)

end Call

def getArgs (k : Kernel) (reverse kernel : Bool) (inv : Invocation) (olaps : List Overlap) :
    Except GetError (Call × Marshal) :=
  let pktSize := getPayloadSize inv (getMetaSize inv) olaps
  if pktSize = 0 then .error .invalidPayload
  else
    match createMaps k.mapCreate reverse inv with
    | none => .error .map
    | some maps =>
      match k.bufAlloc pktSize with
      | none => .error .alloc
      | some (virt, phys) =>
        let c : Call := { k with
          inv := inv, maps := maps, kernel := kernel, virt := virt, phys := phys, pktSize := pktSize }
        match c.getBufs c.start olaps with
        | .error e => .error e
        | .ok m => .ok (c, c.getHandles m)

namespace Call

variable (c : Call) (m : Marshal) (payload : ℕ → UInt8) (writable : ℕ → Bool)

/-- `copy_to_user` or `memcpy` of an output buffer from its place. -/
def putArg (user : ℕ → UInt8) (i : ℕ) : Option (ℕ → UInt8) :=
  if (c.maps i).isSome then some user
  else
    let src := m.outbufs (i - c.inv.inbufs)
    let dst := (c.inv.arg i).ptr
    if c.kernel = false ∧ ¬ ∀ k < src.len, writable (dst + k) then none
    else some fun a => if dst ≤ a ∧ a < dst + src.len then payload (src.pv + (a - dst)) else user a

/-- The first loop of `fastrpc_put_args`, from output `i` on. -/
def putBufs (user : ℕ → UInt8) : List ℕ → Option (ℕ → UInt8)
  | [] => some user
  | i :: rest =>
    match c.putArg m payload writable user i with
    | none => none
    | some user => putBufs user rest

/-- The copies of `fastrpc_put_args`. -/
def putArgs (user : ℕ → UInt8) : Option (ℕ → UInt8) :=
  c.putBufs m payload writable user (List.range' c.inv.inbufs (c.inv.nbufs - c.inv.inbufs))

def Stored (i : ℕ) : Prop := i < c.inv.nbufs ∧ (c.inv.arg i).length ≠ 0 ∧ (c.inv.arg i).Copied

/-- **The promise**: stored buffers are in the payload behind the metadata and share bytes exactly where the
caller's buffers overlap, at their distance. -/
structure Faithful (c : Call) (m : Marshal) : Prop where
  inside : ∀ i, c.Stored i → c.virt + getMetaSize c.inv ≤ (m.rpra i).pv ∧
    (m.rpra i).pv + (c.inv.arg i).length ≤ c.virt + c.pktSize ∧ (m.rpra i).len = (c.inv.arg i).length
  shares : ∀ i j, c.Stored i → c.Stored j → ∀ k < (c.inv.arg i).length, ∀ l < (c.inv.arg j).length,
    ((m.rpra i).pv + k = (m.rpra j).pv + l ↔ (c.inv.arg i).ptr + k = (c.inv.arg j).ptr + l)
  distance : ∀ i j, c.Stored i → c.Stored j → (c.inv.arg i).ptr < (c.inv.arg j).ptr + (c.inv.arg j).length →
    (c.inv.arg j).ptr < (c.inv.arg i).ptr + (c.inv.arg i).length →
    (m.rpra i).pv + (c.inv.arg j).ptr = (m.rpra j).pv + (c.inv.arg i).ptr
  pages : ∀ i, c.Stored i →
    (m.pages i).addr = (c.phys + ((m.rpra i).pv - c.virt)) / pageSize * pageSize ∧
    (m.pages i).addr + (m.pages i).size =
      ((c.phys + ((m.rpra i).pv - c.virt) + (c.inv.arg i).length - 1) / pageSize + 1) * pageSize
  inputs : ∀ i, c.Stored i → i < c.inv.inbufs → ∀ k < (c.inv.arg i).length,
    m.mem ((m.rpra i).pv + k) = c.byte ((c.inv.arg i).ptr + k)
  outputs : ∀ payload writable user user', c.putArgs m payload writable user = some user' →
    ∀ i, c.Stored i → c.inv.inbufs ≤ i → ∀ k < (c.inv.arg i).length,
      user' ((c.inv.arg i).ptr + k) = payload ((m.rpra i).pv + k)

end Call

end Fastrpc
