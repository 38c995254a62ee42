import Sm8750Modules.Fastrpc.Overlaps
import Sm8750Modules.Lib.RefCounts
import Sm8750Modules.Lib.Runs

/-!
# Remote calls to the DSP — maps of buffers and of DMA handles

The calls of a process share one list of maps. A buffer takes a reference on its map and drops it
when the call ends.
-/

namespace Fastrpc.HandleMaps

open Runs RefCounts

/-- `struct fastrpc_map`: `legacy` stands for the flag `FASTRPC_MAP_LEGACY_DMA_HANDLE`. -/
structure FastrpcMap where
  fd : ℤ
  buf : ℕ
  legacy : Bool

/-- How far a call is; `returning` holds the descriptors of its `fdlist` that are not looked at yet. -/
inductive Phase where
  | mapping
  | sent
  | returning (fdlist : List ℤ)
  | failed
  | freed
deriving DecidableEq

/-- `struct fastrpc_invoke_ctx`: `maps` as far as `fastrpc_create_maps` has come, and `pages` as far as the
handles have their pages. -/
structure Ctx where
  inv : Invocation
  phase : Phase := .mapping
  maps : List (Option ℕ) := []
  pages : List (Option ℕ) := []

/-- `struct fastrpc_user`: the maps by their addresses, and its calls. `pending` are the maps whose pages the
DSP was given for a handle since it last returned their descriptor; `awaiting` those that were made or given
for a handle since a response last had their descriptor. -/
structure State where
  store : Store ℕ := {}
  map : ℕ → FastrpcMap := fun _ => ⟨0, 0, false⟩
  next : ℕ := 0
  ctx : ℕ → Ctx
  calls : ℕ := 0
  pending : List ℕ := []
  awaiting : ℕ → Bool := fun _ => false

def maxFdlist : ℕ := 16

variable (s : State)

def State.setCtx (c : ℕ) (x : Ctx) : State := { s with ctx := Function.update s.ctx c x }

def Ctx.refs (x : Ctx) : List ℕ := (x.maps.take x.inv.nbufs).filterMap id

section Sections

variable (bufOf : ℤ → Option ℕ) (s : State)

/-- `fastrpc_map_lookup`, apart from the reference that it takes. -/
def mapLookup (fd : ℤ) (takeRef : Bool) : Option ℕ :=
  match bufOf fd with
  | none => none
  | some buf =>
    match s.store.live.find? fun m => (s.map m).buf = buf ∧ (s.map m).fd = fd with
    | none => none
    | some m => if takeRef = true ∧ s.store.refs m = 0 then none else some m

variable (c : ℕ)

/-- A turn of `fastrpc_create_maps`, with `fastrpc_map_create`; `ok` says whether a new map can be made. -/
def createMap (ok : Bool) : State :=
  let x := s.ctx c
  let i := x.maps.length
  let a := x.inv.arg i
  if a.Copied ∨ a.length = 0 then s.setCtx c { x with maps := x.maps ++ [none] }
  else
    let takeRef := decide (i < x.inv.nbufs)
    match mapLookup bufOf s a.fd takeRef with
    | some m =>
      let s := if takeRef = true then { s with store := s.store.get m } else s
      s.setCtx c { x with maps := x.maps ++ [some m] }
    | none =>
      match bufOf a.fd, ok with
      | some buf, true =>
        { s with
          store := s.store.add s.next
          map := Function.update s.map s.next ⟨a.fd, buf, !takeRef⟩
          next := s.next + 1
          awaiting := Function.update s.awaiting s.next !takeRef }.setCtx c
            { x with maps := x.maps ++ [some s.next] }
      | _, _ => s.setCtx c { x with phase := .failed }

/-- A turn of the loop of `fastrpc_get_args` over the handles. -/
def fillHandle : State :=
  let x := s.ctx c
  let i := x.inv.nbufs + x.pages.length
  let found := if (x.maps.getD i none).isSome then mapLookup bufOf s (x.inv.arg i).fd false else none
  match found with
  | none => s.setCtx c { x with pages := x.pages ++ [none] }
  | some m =>
    { s with pending := m :: s.pending, awaiting := Function.update s.awaiting m true }.setCtx c
      { x with pages := x.pages ++ [some m] }

/-- The descriptors that `fastrpc_put_args` looks at. -/
def readFdlist (fdlist : List ℤ) : List ℤ := (fdlist.take maxFdlist).takeWhile (· ≠ 0)

/-- The response of the DSP: the outputs are copied first, and if that fails the call ends. -/
def respond (fdlist : List ℤ) (copied : Bool) : State :=
  { s with awaiting := fun m => s.awaiting m && !(readFdlist fdlist).contains (s.map m).fd }.setCtx c
    { s.ctx c with phase := if copied = true then .returning (readFdlist fdlist) else .failed }

/-- A turn of the loop of `fastrpc_put_args` over `fdlist`. -/
def returnFd (fd : ℤ) (rest : List ℤ) : State :=
  let s := s.setCtx c { s.ctx c with phase := .returning rest }
  let s := { s with pending := s.pending.filter fun m => (s.map m).fd ≠ fd }
  match mapLookup bufOf s fd false with
  | none => s
  | some m =>
    if (s.map m).legacy = true then
      { s with map := Function.update s.map m { s.map m with legacy := false }, store := s.store.put m }
    else s

def contextFree : State :=
  { s with store := s.store.puts (s.ctx c).refs }.setCtx c { s.ctx c with phase := .freed }

end Sections

/-- The steps of the calls; `fail` is any error before the response. -/
inductive Action where
  | start (inv : Invocation)
  | createMap (c : ℕ) (ok : Bool)
  | fillHandle (c : ℕ)
  | send (c : ℕ)
  | fail (c : ℕ)
  | respond (c : ℕ) (fdlist : List ℤ) (copied : Bool)
  | returnFd (c : ℕ)
  | contextFree (c : ℕ)

def guard : Action → Prop
  | .start _ => True
  | .createMap c _ => c < s.calls ∧ (s.ctx c).phase = .mapping ∧ (s.ctx c).maps.length < (s.ctx c).inv.nscalars
  | .fillHandle c => c < s.calls ∧ (s.ctx c).phase = .mapping ∧
      (s.ctx c).maps.length = (s.ctx c).inv.nscalars ∧
      (s.ctx c).inv.nbufs + (s.ctx c).pages.length < (s.ctx c).inv.nscalars
  | .send c => c < s.calls ∧ (s.ctx c).phase = .mapping ∧
      (s.ctx c).maps.length = (s.ctx c).inv.nscalars ∧
      (s.ctx c).inv.nscalars ≤ (s.ctx c).inv.nbufs + (s.ctx c).pages.length
  | .fail c => c < s.calls ∧ ((s.ctx c).phase = .mapping ∨ (s.ctx c).phase = .sent)
  | .respond c _ _ => c < s.calls ∧ (s.ctx c).phase = .sent
  | .returnFd c => c < s.calls ∧
      match (s.ctx c).phase with
      | .returning (_ :: _) => True
      | _ => False
  | .contextFree c => c < s.calls ∧ ((s.ctx c).phase = .returning [] ∨ (s.ctx c).phase = .failed)

instance (s : State) (a : Action) : Decidable (guard s a) :=
  match a with
  | .start _ => inferInstanceAs (Decidable True)
  | .createMap .. | .fillHandle .. | .send .. => inferInstanceAs (Decidable (_ ∧ _ ∧ _))
  | .fail .. | .respond .. | .contextFree .. => inferInstanceAs (Decidable (_ ∧ _))
  | .returnFd c =>
    match h : (s.ctx c).phase with
    | .returning (_ :: _) => decidable_of_iff (c < s.calls) (by simp [guard, h])
    | .returning [] | .mapping | .sent | .failed | .freed => isFalse (by simp [guard, h])

variable (bufOf : ℤ → Option ℕ)

def next (s : State) : Action → State
  | .start inv => { s with ctx := Function.update s.ctx s.calls { inv := inv }, calls := s.calls + 1 }
  | .createMap c ok => createMap bufOf s c ok
  | .fillHandle c => fillHandle bufOf s c
  | .send c => s.setCtx c { s.ctx c with phase := .sent }
  | .fail c => s.setCtx c { s.ctx c with phase := .failed }
  | .respond c fdlist copied => respond s c fdlist copied
  | .returnFd c =>
    match (s.ctx c).phase with
    | .returning (fd :: rest) => returnFd bufOf s c fd rest
    | _ => s
  | .contextFree c => contextFree s c

/-- No maps and no calls. -/
structure Initial (s : State) : Prop where
  store : s.store = {}
  next : s.next = 0
  calls : s.calls = 0
  pending : s.pending = []

/-- The calls of a process, whose descriptors stand for the buffers of `bufOf`. -/
def machine : Machine State Action where
  init := Initial
  guard := guard
  next := next bufOf

def Ctx.held (x : Ctx) : Multiset ℕ := if x.phase = .freed then 0 else x.refs

def State.held : Multiset ℕ := ∑ c ∈ Finset.range s.calls, (s.ctx c).held

def State.Returning (fd : ℤ) : Prop :=
  ∃ c < s.calls, ∃ fdlist, (s.ctx c).phase = .returning fdlist ∧ fd ∈ fdlist

/-- **Maps are kept and released**: a map whose pages the DSP has for a handle is live; a map is freed once; the
count of a live map is the number of references of the calls in progress, and one for its flag; a live map is
held by a call, or its descriptor has not been returned, or is about to be looked at. -/
structure Kept (s : State) : Prop where
  pending : ∀ m ∈ s.pending, m ∈ s.store.live
  freed : s.store.freed.Nodup ∧ ∀ m ∈ s.store.freed, m ∉ s.store.live
  made : ∀ m < s.next, m ∈ s.store.live ∨ m ∈ s.store.freed
  held : ∀ m ∈ s.held, m ∈ s.store.live
  refs : ∀ m ∈ s.store.live, s.store.refs m = s.held.count m + if (s.map m).legacy = true then 1 else 0
  released : ∀ m ∈ s.store.live, m ∈ s.held ∨ s.awaiting m = true ∨ s.Returning (s.map m).fd

/-- A handle gets the pages of a map with the flag, and where the outputs of a call cannot be copied, the DSP
has not returned the descriptor of such a map. -/
def Careful (s : State) : Action → Prop
  | .fillHandle c =>
    let i := (s.ctx c).inv.nbufs + (s.ctx c).pages.length
    ((s.ctx c).maps.getD i none).isSome →
      ∀ m ∈ mapLookup bufOf s ((s.ctx c).inv.arg i).fd false, (s.map m).legacy = true
  | .respond _ fdlist copied =>
    copied = true ∨ ∀ fd ∈ readFdlist fdlist, ∀ m ∈ mapLookup bufOf s fd false, (s.map m).legacy = false
  | _ => True

instance (bufOf : ℤ → Option ℕ) (s : State) (a : Action) : Decidable (Careful bufOf s a) := by
  cases a <;> dsimp only [Careful] <;> infer_instance

end Fastrpc.HandleMaps
