import Sm8750Modules.Lib.RunningBest
import Mathlib.Data.List.Nodup

/-!
# Votable — a vote among the clients of a charger setting

A votable collects one vote of each client, elects an effective result among the enabled votes,
and hands the result to a callback that programs the hardware.
-/

namespace Sm8750Modules.Voter

open RunningBest

def numMaxClients : ℕ := 32

def einval : Int := -22

def enomem : Int := -12

def intMax : Int := 2147483647

def intMin : Int := -2147483648

def debugForceClient : String := "DEBUG_FORCE_CLIENT"

/-- `VOTE_MIN`, `VOTE_MAX` and `VOTE_SET_ANY`. -/
inductive VotableType
  | min
  | max
  | setAny
  deriving DecidableEq

/-- A client: its `client_strs` entry and its `struct client_vote`. -/
structure Client where
  name : String
  enabled : Bool
  value : Int
  deriving DecidableEq

/-- The slots of `client_strs` that have been allocated, with their votes. -/
structure ClientTable where
  slots : List Client
  nodup : (slots.map Client.name).Nodup
  bound : slots.length ≤ numMaxClients

/-- The value map of `votable_add_map`. -/
abbrev ValueMap := Int → Option Int

structure Votable where
  type : VotableType
  map : ValueMap
  clients : ClientTable
  effectiveClientId : Option ℕ
  effectiveResult : Int
  overrideClient : Option String
  overrideResult : Int
  votedOn : Bool
  forceVal : Int
  forceActive : Bool

variable (type : VotableType)

def createVotable (map : ValueMap) (forceVal : Int) : Votable where
  type := type
  map := map
  clients := ⟨[], by simp, by simp⟩
  effectiveClientId := none
  effectiveResult := if type = .setAny then 0 else einval
  overrideClient := none
  overrideResult := einval
  votedOn := false
  forceVal := forceVal
  forceActive := false

def mappedVal (map : ValueMap) (c : Client) : Int := (map c.value).getD c.value

def considered (exclude : Option String) (c : Client) : Bool :=
  c.enabled && !(exclude == some c.name)

def electedValue : Option Client → Int
  | some c => c.value
  | none => einval

def voteMin (map : ValueMap) (slots : List Client) (exclude : Option String) : Int × Option ℕ :=
  let best := runningBest (fun a b => a < b) (considered exclude) (mappedVal map) intMax slots
  (electedValue (best.2.bind (slots[·]?)), best.2)

def voteMax (map : ValueMap) (slots : List Client) (exclude : Option String) : Int × Option ℕ :=
  let best := runningBest (fun a b => b < a) (considered exclude) (mappedVal map) intMin slots
  (electedValue (best.2.bind (slots[·]?)), best.2)

def voteSetAny (slots : List Client) (clientId : ℕ) (exclude : Option String) : Int × Option ℕ :=
  (slots.foldl (fun res c => if considered exclude c then 1 else res) 0, some clientId)

def election (map : ValueMap) (slots : List Client) (clientId : ℕ)
    (exclude : Option String) : Int × Option ℕ :=
  match type with
  | .min => voteMin map slots exclude
  | .max => voteMax map slots exclude
  | .setAny => voteSetAny slots clientId exclude

variable (t : ClientTable)

namespace ClientTable

/-- A new client gets the next free slot, with a cleared vote. -/
def register (name : String) (hnew : name ∉ t.slots.map Client.name)
    (hroom : t.slots.length < numMaxClients) : ClientTable where
  slots := t.slots ++ [⟨name, false, 0⟩]
  nodup := by
    rw [List.map_append, List.nodup_append]
    exact ⟨t.nodup, by simp, by rintro a ha b hb rfl; exact hnew (by simpa [List.mem_singleton.mp hb] using ha)⟩
  bound := by
    rw [List.length_append]
    exact hroom

def setVote (id : ℕ) (enabled : Bool) (value : Int) : ClientTable where
  slots := t.slots.modify id fun c => { c with enabled := enabled, value := value }
  nodup := by
    have hnames : (t.slots.modify id fun c => { c with enabled := enabled, value := value }).map
        Client.name = t.slots.map Client.name := by
      apply List.ext_getElem?
      intro i
      simp only [List.getElem?_map, List.getElem?_modify]
      split <;> cases t.slots[i]? <;> rfl
    rw [hnames]
    exact t.nodup
  bound := by
    rw [List.length_modify]
    exact t.bound

end ClientTable

def getClientId (name : String) (strdup : Bool) : Except Int (ClientTable × ℕ) :=
  match t.slots.findIdx? (fun c => c.name = name) with
  | some id => .ok (t, id)
  | none =>
    if h : name ∉ t.slots.map Client.name ∧ t.slots.length < numMaxClients then
      if strdup then .ok (t.register name h.1 h.2, t.slots.length) else .error enomem
    else .error einval

variable (v : Votable)

def getClientStr (id : Option ℕ) : Option String :=
  (id.bind (v.clients.slots[·]?)).map Client.name

def getEffectiveResult : Int :=
  if v.forceActive then v.forceVal
  else if v.overrideResult ≠ einval then v.overrideResult
  else v.effectiveResult

def getEffectiveClient : Option String :=
  if v.forceActive then some debugForceClient
  else if v.overrideResult ≠ einval then v.overrideClient
  else getClientStr v v.effectiveClientId

def getEffectiveResultExcludeClient (exclude : String) : Int :=
  if v.forceActive then v.forceVal
  else if v.overrideResult ≠ einval then v.overrideResult
  else (election v.type v.map v.clients.slots 0 (some exclude)).1

structure CallbackCall where
  effectiveResult : Int
  effectiveClient : Option String
  step : Bool
  deriving DecidableEq

/-- What an operation does. -/
structure Outcome where
  votable : Votable
  call : Option CallbackCall
  rc : Int

/-- The arguments of `vote`, with the answers of the world it runs in. -/
structure VoteCall where
  client : String
  enabled : Bool
  val : Int
  step : Bool
  strdup : Bool
  checks : List Int
  callbackRc : Int

/-- The walk over `check_list`: the first negative code ends it. -/
def runChecks : List Int → Int → Except Int Int
  | [], rc => .ok rc
  | c :: cs, _ => if c < 0 then .error c else runChecks cs c

/-- The part of `vote` behind the checks. -/
def castVote (id : ℕ) (enabled : Bool) (val : Int) (step : Bool) (rc callbackRc : Int) : Outcome :=
  let v := { v with clients := v.clients.setVote id enabled val }
  let elected := election v.type v.map v.clients.slots id none
  if v.votedOn = false ∨ elected.1 ≠ v.effectiveResult then
    let v := { v with effectiveClientId := elected.2, effectiveResult := elected.1, votedOn := true }
    if v.forceActive = false ∧ v.overrideResult = einval then
      ⟨v, some ⟨elected.1, getClientStr v elected.2, step⟩, callbackRc⟩
    else ⟨v, none, rc⟩
  else if elected.2 ≠ v.effectiveClientId then
    ⟨{ v with effectiveClientId := elected.2, votedOn := true }, none, rc⟩
  else ⟨{ v with votedOn := true }, none, rc⟩

def votedVal (c : VoteCall) : Int :=
  if type = .setAny then c.enabled.toInt else c.val

def similarVote (slots : List Client) (id : ℕ) (enabled : Bool) (val : Int) : Bool :=
  slots[id]?.any fun s => s.enabled = enabled ∧ s.value = val

def vote (c : VoteCall) : Outcome :=
  match getClientId v.clients c.client c.strdup with
  | .error rc => ⟨v, none, rc⟩
  | .ok (clients, id) =>
    let v := { v with clients := clients }
    if similarVote clients.slots id c.enabled (votedVal v.type c) = true ∧ v.votedOn = true then
      ⟨v, none, 0⟩
    else
      match runChecks c.checks 0 with
      | .error rc => ⟨v, none, rc⟩
      | .ok rc => castVote v id c.enabled (votedVal v.type c) c.step rc c.callbackRc

def voteOverride (client : String) (enabled : Bool) (val : Int) (step : Bool)
    (callbackRc : Int) : Outcome :=
  if v.forceActive then ⟨{ v with overrideResult := if enabled then val else einval }, none, 0⟩
  else if enabled then
    ⟨if callbackRc = 0 then { v with overrideClient := some client, overrideResult := val } else v,
      some ⟨val, some client, step⟩, callbackRc⟩
  else
    ⟨{ v with overrideResult := einval },
      some ⟨v.effectiveResult, getClientStr v v.effectiveClientId, step⟩, callbackRc⟩

def forceActiveWrite (val : ℕ) (callbackRc : Int) : Outcome :=
  let v := { v with forceActive := val ≠ 0 }
  if v.forceActive then ⟨v, some ⟨v.forceVal, some debugForceClient, false⟩, callbackRc⟩
  else if v.overrideResult ≠ einval then
    ⟨v, some ⟨v.overrideResult, v.overrideClient, false⟩, callbackRc⟩
  else ⟨v, some ⟨v.effectiveResult, getClientStr v v.effectiveClientId, false⟩, callbackRc⟩

def rerunElection (step : Bool) (callbackRc : Int) : Outcome :=
  if v.forceActive then ⟨v, some ⟨v.forceVal, some debugForceClient, false⟩, callbackRc⟩
  else ⟨v, some ⟨getEffectiveResult v, getClientStr v v.effectiveClientId, step⟩, callbackRc⟩

end Sm8750Modules.Voter
