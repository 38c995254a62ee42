import Sm8750Modules.Voter.Votable
import Mathlib.Algebra.Order.BigOperators.Group.List
import Mathlib.Algebra.Order.Group.Nat
import Mathlib.Data.List.Infix

/-!
# Votable — queries between the votes

`is_client_vote_enabled` and `get_client_vote` look up their client with `get_client_id`, the function that
also enters a new client. A query for a client that is not known takes one of the slots, and the client
that finds no slot later cannot vote.
-/

namespace Sm8750Modules.Voter

open List

def isClientVoteEnabled (v : Votable) (client : String) (strdup : Bool) : Votable × Bool :=
  match getClientId v.clients client strdup with
  | .error _ => (v, false)
  | .ok (clients, id) => ({ v with clients := clients }, clients.slots[id]?.any (·.enabled))

def getClientVote (v : Votable) (client : String) (strdup : Bool) : Votable × Int :=
  match getClientId v.clients client strdup with
  | .error _ => (v, einval)
  | .ok (clients, id) =>
    ({ v with clients := clients },
      match clients.slots[id]? with
      | some c => if v.type ≠ .setAny ∧ c.enabled = false then einval else c.value
      | none => einval)

inductive Call
  | vote (c : VoteCall)
  | isClientVoteEnabled (client : String) (strdup : Bool)
  | getClientVote (client : String) (strdup : Bool)

def Call.isVote : Call → Bool
  | .vote _ => true
  | _ => false

def Call.run (v : Votable) : Call → Votable
  | .vote c => (Voter.vote v c).votable
  | .isClientVoteEnabled client strdup => (Voter.isClientVoteEnabled v client strdup).1
  | .getClientVote client strdup => (Voter.getClientVote v client strdup).1

/-- What the votes of a run are answered. -/
def answers (v : Votable) : List Call → List (Int × Int)
  | [] => []
  | .vote c :: rest =>
    ((Voter.vote v c).rc, getEffectiveResult (Voter.vote v c).votable) :: answers (Voter.vote v c).votable rest
  | call :: rest => answers (call.run v) rest

def TakesSlot (v : Votable) (client : String) (strdup : Bool) : Prop :=
  (client ∉ v.clients.slots.map Client.name ∧ v.clients.slots.length < numMaxClients) ∧ strdup = true

def Call.Quiet (v : Votable) : Call → Prop
  | .vote _ => True
  | .isClientVoteEnabled client strdup => ¬ TakesSlot v client strdup
  | .getClientVote client strdup => ¬ TakesSlot v client strdup

/-- **No query of a run takes a slot.** -/
def Quiet (v : Votable) : List Call → Prop
  | [] => True
  | call :: rest => call.Quiet v ∧ Quiet (call.run v) rest

/-! ### What a lookup leaves behind -/

def lookedUp (t : ClientTable) (client : String) (strdup : Bool) : ClientTable :=
  match getClientId t client strdup with
  | .error _ => t
  | .ok (clients, _) => clients

variable (v : Votable)

theorem isClientVoteEnabled_fst (client : String) (strdup : Bool) :
    (isClientVoteEnabled v client strdup).1 = { v with clients := lookedUp v.clients client strdup } := by
  rw [isClientVoteEnabled, lookedUp]
  cases getClientId v.clients client strdup with
  | error rc => rfl
  | ok found => rfl

theorem getClientVote_fst (client : String) (strdup : Bool) :
    (getClientVote v client strdup).1 = { v with clients := lookedUp v.clients client strdup } := by
  rw [getClientVote, lookedUp]
  cases getClientId v.clients client strdup with
  | error rc => rfl
  | ok found => rfl

variable {client : String} {t : ClientTable}

theorem findIdx?_name_eq_none (h : client ∉ t.slots.map Client.name) :
    t.slots.findIdx? (fun c => c.name = client) = none := by
  rw [List.findIdx?_eq_none_iff]
  intro c hc
  exact decide_eq_false fun hname => h (hname ▸ mem_map_of_mem hc)

theorem getClientId_new (hnew : client ∉ t.slots.map Client.name)
    (hroom : t.slots.length < numMaxClients) :
    getClientId t client true = .ok (t.register client hnew hroom, t.slots.length) := by
  rw [getClientId, findIdx?_name_eq_none hnew]
  exact dif_pos ⟨hnew, hroom⟩

variable {strdup : Bool}

theorem getClientId_full
    (hnew : client ∉ t.slots.map Client.name) (hfull : ¬ t.slots.length < numMaxClients) :
    getClientId t client strdup = .error einval := by
  rw [getClientId, findIdx?_name_eq_none hnew]
  exact dif_neg fun h => hfull h.2

variable {v : Votable}

theorem lookedUp_slots_of_takesSlot
    (h : TakesSlot v client strdup) :
    (lookedUp v.clients client strdup).slots = v.clients.slots ++ [⟨client, false, 0⟩] := by
  obtain ⟨⟨hnew, hroom⟩, rfl⟩ := h
  rw [lookedUp, getClientId_new hnew hroom]
  rfl

theorem lookedUp_of_not_takesSlot
    (h : ¬ TakesSlot v client strdup) : lookedUp v.clients client strdup = v.clients := by
  rw [lookedUp, getClientId]
  cases hfind : v.clients.slots.findIdx? (fun c => c.name = client) with
  | some id => rfl
  | none =>
    dsimp only
    by_cases hroom : client ∉ v.clients.slots.map Client.name ∧ v.clients.slots.length < numMaxClients
    · have hstrdup : strdup = false := by
        cases strdup with
        | false => rfl
        | true => exact absurd ⟨hroom, rfl⟩ h
      rw [dif_pos hroom, hstrdup]
      rfl
    · rw [dif_neg hroom]

variable {call : Call}

theorem run_of_quiet (hquery : call.isVote = false) (h : call.Quiet v) : call.run v = v := by
  cases call with
  | vote c => cases hquery
  | isClientVoteEnabled client strdup =>
    show (isClientVoteEnabled v client strdup).1 = v
    rw [isClientVoteEnabled_fst, lookedUp_of_not_takesSlot h]
  | getClientVote client strdup =>
    show (getClientVote v client strdup).1 = v
    rw [getClientVote_fst, lookedUp_of_not_takesSlot h]

theorem run_of_not_quiet (h : ¬ call.Quiet v) :
    v.clients.slots.length < (call.run v).clients.slots.length := by
  cases call with
  | vote c => exact absurd trivial h
  | isClientVoteEnabled client strdup =>
    show _ < (isClientVoteEnabled v client strdup).1.clients.slots.length
    rw [isClientVoteEnabled_fst, lookedUp_slots_of_takesSlot (not_not.mp h), length_append]
    exact Nat.lt_succ_self _
  | getClientVote client strdup =>
    show _ < (getClientVote v client strdup).1.clients.slots.length
    rw [getClientVote_fst, lookedUp_slots_of_takesSlot (not_not.mp h), length_append]
    exact Nat.lt_succ_self _

theorem answers_query (hquery : call.isVote = false) (rest : List Call) :
    answers v (call :: rest) = answers (call.run v) rest := by
  cases call with
  | vote c => cases hquery
  | isClientVoteEnabled client strdup => rfl
  | getClientVote client strdup => rfl

/-- **A quiet run answers its votes as if there were no queries.** -/
theorem answers_filter_of_quiet {calls : List Call} (h : Quiet v calls) (votes : List VoteCall) :
    answers v (calls ++ votes.map Call.vote) = answers v ((calls ++ votes.map Call.vote).filter Call.isVote) := by
  induction calls generalizing v with
  | nil =>
    have hvotes : (votes.map Call.vote).filter Call.isVote = votes.map Call.vote := by
      rw [filter_eq_self]
      intro call hcall
      obtain ⟨c, -, rfl⟩ := mem_map.mp hcall
      rfl
    rw [nil_append, hvotes]
  | cons call rest ih =>
    obtain ⟨hcall, hrest⟩ := h
    have htail := ih hrest
    by_cases hvote : call.isVote = true
    · cases call with
      | vote c =>
        exact congrArg (_ :: ·) htail
      | isClientVoteEnabled client strdup => cases hvote
      | getClientVote client strdup => cases hvote
    · have hquery : call.isVote = false := Bool.eq_false_iff.mpr hvote
      rw [cons_append, answers_query hquery, filter_cons_of_neg hvote, htail, run_of_quiet hquery hcall]

def abstention (client : String) : VoteCall := ⟨client, false, 0, false, true, [], 0⟩

theorem exists_new_name (names : List String) : ∃ name, name ∉ names := by
  let long : String := String.ofList (List.replicate ((names.map String.length).sum + 1) 'a')
  refine ⟨long, fun hmem => ?_⟩
  have hlength : long.length = (names.map String.length).sum + 1 := by
    simp [long]
  have hle : long.length ≤ (names.map String.length).sum :=
    le_sum_of_mem (mem_map_of_mem hmem)
  omega

theorem castVote_abstention_rc (id : ℕ) (enabled : Bool) (val : Int) (step : Bool) :
    (castVote v id enabled val step 0 0).rc = 0 := by
  rw [castVote]
  dsimp only
  split_ifs <;> rfl

theorem castVote_length (id : ℕ) (enabled : Bool) (val : Int) (step : Bool) (rc callbackRc : Int) :
    (castVote v id enabled val step rc callbackRc).votable.clients.slots.length = v.clients.slots.length := by
  have hlen : (v.clients.setVote id enabled val).slots.length = v.clients.slots.length := length_modify ..
  rw [castVote]
  dsimp only
  split_ifs <;> exact hlen

theorem vote_abstention_new (hnew : client ∉ v.clients.slots.map Client.name)
    (hroom : v.clients.slots.length < numMaxClients) :
    (vote v (abstention client)).rc = 0 ∧
      (vote v (abstention client)).votable.clients.slots.length = v.clients.slots.length + 1 := by
  have hlen : (v.clients.register client hnew hroom).slots.length = v.clients.slots.length + 1 :=
    length_append ..
  have hget : getClientId v.clients (abstention client).client (abstention client).strdup
      = .ok (v.clients.register client hnew hroom, v.clients.slots.length) := getClientId_new hnew hroom
  let w : Votable := { v with clients := v.clients.register client hnew hroom }
  have hvote : vote v (abstention client)
      = if similarVote w.clients.slots v.clients.slots.length false (votedVal v.type (abstention client)) = true ∧
          v.votedOn = true then ⟨w, none, 0⟩
        else castVote w v.clients.slots.length false (votedVal v.type (abstention client)) false 0 0 := by
    rw [vote, hget]
    rfl
  rw [hvote]
  split_ifs
  · exact ⟨rfl, hlen⟩
  · rw [castVote_length]
    exact ⟨castVote_abstention_rc .., hlen⟩

theorem vote_full (hnew : client ∉ v.clients.slots.map Client.name)
    (hfull : ¬ v.clients.slots.length < numMaxClients) : (vote v (abstention client)).rc = einval := by
  have hget : getClientId v.clients (abstention client).client (abstention client).strdup = .error einval :=
    getClientId_full hnew hfull
  rw [vote, hget]

theorem exists_answers_ne {w : Votable} (h : v.clients.slots.length < w.clients.slots.length) :
    ∃ votes : List VoteCall, answers v (votes.map Call.vote) ≠ answers w (votes.map Call.vote) := by
  have hbound : w.clients.slots.length ≤ numMaxClients := w.clients.bound
  obtain ⟨room, hroom⟩ := Nat.exists_eq_add_of_le hbound
  induction room generalizing v w with
  | zero =>
    -- `w` is full, `v` is not
    obtain ⟨name, hname⟩ := exists_new_name (v.clients.slots.map Client.name ++ w.clients.slots.map Client.name)
    rw [mem_append, not_or] at hname
    refine ⟨[abstention name], fun heq => ?_⟩
    have hv := (vote_abstention_new hname.1 (by omega)).1
    have hw := vote_full hname.2 (by omega)
    have hrc : (vote v (abstention name)).rc = (vote w (abstention name)).rc :=
      congrArg (fun l => (l.head?.map Prod.fst).getD 0) heq
    rw [hv, hw] at hrc
    exact absurd hrc (by decide)
  | succ room ih =>
    obtain ⟨name, hname⟩ := exists_new_name (v.clients.slots.map Client.name ++ w.clients.slots.map Client.name)
    rw [mem_append, not_or] at hname
    have hv := (vote_abstention_new hname.1 (by omega)).2
    have hw := (vote_abstention_new hname.2 (by omega)).2
    have hlt : (vote v (abstention name)).votable.clients.slots.length
        < (vote w (abstention name)).votable.clients.slots.length := by omega
    obtain ⟨votes, hvotes⟩ := ih hlt (by omega) (by omega)
    refine ⟨abstention name :: votes, fun heq => hvotes ?_⟩
    exact congrArg List.tail heq

theorem Quiet.of_prefix {part calls : List Call} (hpart : part <+: calls) (h : Quiet v calls) :
    Quiet v part := by
  obtain ⟨rest, rfl⟩ := hpart
  induction part generalizing v with
  | nil => trivial
  | cons call part ih => exact ⟨h.1, ih h.2⟩

/-- The run `calls` and the same run without its queries answer the votes of both alike, whatever votes
follow. -/
def Unnoticed (v : Votable) (calls : List Call) : Prop :=
  ∀ votes : List VoteCall,
    answers v (calls ++ votes.map Call.vote) = answers v ((calls ++ votes.map Call.vote).filter Call.isVote)

theorem Unnoticed.tail {rest : List Call} (h : Unnoticed v (call :: rest))
    (hcall : call.Quiet v) : Unnoticed (call.run v) rest := by
  intro votes
  have heq := h votes
  by_cases hvote : call.isVote = true
  · cases call with
    | vote c => exact congrArg List.tail heq
    | isClientVoteEnabled client strdup => cases hvote
    | getClientVote client strdup => cases hvote
  · have hquery : call.isVote = false := Bool.eq_false_iff.mpr hvote
    rw [cons_append, answers_query hquery, filter_cons_of_neg hvote, run_of_quiet hquery hcall] at heq
    rw [run_of_quiet hquery hcall]
    exact heq

theorem quiet_of_unnoticed (h : Unnoticed v [call]) : call.Quiet v := by
  by_contra hnot
  obtain ⟨votes, hvotes⟩ := exists_answers_ne (run_of_not_quiet hnot)
  have hquery : call.isVote = false := by
    cases call with
    | vote c => exact absurd trivial hnot
    | isClientVoteEnabled client strdup => rfl
    | getClientVote client strdup => rfl
  have heq := h votes
  rw [cons_append, answers_query hquery, filter_cons_of_neg (Bool.eq_false_iff.mp hquery)] at heq
  have hempty : Quiet v [] := trivial
  exact hvotes ((answers_filter_of_quiet hempty votes).trans heq.symm)

/-- **Queries are unnoticed exactly in quiet runs.** In every part of a run the queries go unnoticed, whatever
votes follow, if and only if none of them takes a slot. -/
theorem unnoticed_iff (v : Votable) (calls : List Call) :
    (∀ part, part <+: calls → Unnoticed v part) ↔ Quiet v calls := by
  constructor
  · intro h
    induction calls generalizing v with
    | nil => trivial
    | cons call rest ih =>
      have hcall : call.Quiet v := quiet_of_unnoticed (h [call] ⟨rest, rfl⟩)
      refine ⟨hcall, ih _ fun part hpart => ?_⟩
      exact (h (call :: part) (cons_prefix_cons.mpr ⟨rfl, hpart⟩)).tail hcall
  · intro h part hpart votes
    exact answers_filter_of_quiet (h.of_prefix hpart) votes

/-- Thirty-two queries for clients that never vote leave no slot for a client that does. -/
theorem not_unnoticed : ¬ ∀ (v : Votable) (calls : List Call),
    answers v calls = answers v (calls.filter Call.isVote) := by
  intro h
  have heq := h (createVotable .min (fun _ => none) 0)
    ((List.range 32).map (fun i => .getClientVote (String.ofList (List.replicate i 'a')) true) ++
      [.vote ⟨"USB", true, 5, false, true, [], 0⟩])
  exact absurd heq (by decide +kernel)

end Sm8750Modules.Voter
