import Sm8750Modules.Voter.Votable
import Sm8750Modules.Lib.Runs

/-!
# Votable — hardware and bookkeeping agree

The elections start from `INT_MAX` and `INT_MIN` and take a vote only when its mapped value is
strictly better, so a vote that is mapped to the sentinel itself is never elected.
-/

namespace Sm8750Modules.Voter

open RunningBest List

/-! ### Reference election -/

variable (slots : List Client)

def voters : List Client := slots.filter (·.enabled)

noncomputable def referenceWinner (type : VotableType) (map : ValueMap) (voters : List Client) : Option Client :=
  match type with
  | .min => voters.argmin (mappedVal map)
  | .max => voters.argmax (mappedVal map)
  | .setAny => none

/-- The unmapped value of the winner, or `-EINVAL`. -/
noncomputable def referenceResult (type : VotableType) (map : ValueMap) (voters : List Client) : Int :=
  if type = .setAny then if voters = [] then 0 else 1
  else electedValue (referenceWinner type map voters)

def SentinelFree (type : VotableType) (map : ValueMap) : Prop :=
  ∀ v m, map v = some m → (type = .min → m < intMax) ∧ (type = .max → intMin < m)

/-- Every enabled vote lies strictly between `INT_MIN` and `INT_MAX`. -/
def InRange : Prop :=
  ∀ c ∈ slots, c.enabled = true → intMin < c.value ∧ c.value < intMax

variable {c : Client} {map : ValueMap}

theorem mappedVal_lt (hmap : SentinelFree .min map)
    (hc : c.value < intMax) : mappedVal map c < intMax := by
  rw [mappedVal]
  cases hm : map c.value with
  | none => exact hc
  | some m => exact (hmap c.value m hm).1 rfl

theorem lt_mappedVal (hmap : SentinelFree .max map)
    (hc : intMin < c.value) : intMin < mappedVal map c := by
  rw [mappedVal]
  cases hm : map c.value with
  | none => exact hc
  | some m => exact (hmap c.value m hm).2 rfl

theorem enabled_of_considered {exclude : Option String}
    (h : considered exclude c = true) : c.enabled = true := by
  rw [considered, Bool.and_eq_true] at h
  exact h.1

def Names (id : Option ℕ) (o : Option Client) : Prop :=
  id.map (slots[·]?) = o.map some

variable {slots : List Client} {o : Option Client}

theorem names_of_holds {key : Client → Int} {sentinel : Int}
    {best : Int × Option ℕ} (h : Holds key sentinel slots best o) :
    Names slots best.2 o := by
  cases o with
  | none =>
    rw [show best = (sentinel, none) from h]
    rfl
  | some c =>
    obtain ⟨i, hbest, hi⟩ := h
    rw [hbest]
    exact congrArg some hi

theorem Names.bind {id : Option ℕ} (h : Names slots id o) : id.bind (slots[·]?) = o := by
  cases id with
  | none =>
    cases o with
    | none => rfl
    | some c => cases h
  | some i =>
    cases o with
    | none => cases h
    | some c => exact Option.some.inj h

theorem voteSetAny_fst (slots : List Client) (clientId : ℕ) (exclude : Option String) :
    (voteSetAny slots clientId exclude).1
      = if slots.filter (considered exclude) = [] then 0 else 1 := by
  rw [voteSetAny]
  induction slots using List.reverseRecOn with
  | nil => rfl
  | append_singleton l a ih =>
    rw [foldl_append, filter_append]
    show (if considered exclude a = true then 1 else _) = _
    cases ha : considered exclude a with
    | false =>
      rw [filter_cons_of_neg (by simp [ha]), filter_nil, append_nil]
      exact ih
    | true =>
      show (1 : Int) = _
      rw [if_neg (by simp [ha])]

/-- **The elections agree with the reference.** The result for every type, the elected client for
`VOTE_MIN` and `VOTE_MAX`. -/
theorem election_eq_reference {type : VotableType}
    (hmap : SentinelFree type map) (hrange : InRange slots) (clientId : ℕ) (exclude : Option String) :
    (election type map slots clientId exclude).1
        = referenceResult type map (slots.filter (considered exclude)) ∧
      (type ≠ .setAny → Names slots (election type map slots clientId exclude).2
        (referenceWinner type map (slots.filter (considered exclude)))) := by
  cases type with
  | min =>
    have hspec := runningBest_spec (fun a b : Int => a < b) (considered exclude) (mappedVal map)
      intMax slots fun c hc hcons =>
        mappedVal_lt hmap (hrange c hc (enabled_of_considered hcons)).2
    rw [selectBest_lt] at hspec
    have hid := names_of_holds hspec
    exact ⟨congrArg electedValue hid.bind, fun _ => hid⟩
  | max =>
    have hspec := runningBest_spec (fun a b : Int => b < a) (considered exclude) (mappedVal map)
      intMin slots fun c hc hcons =>
        lt_mappedVal hmap (hrange c hc (enabled_of_considered hcons)).1
    rw [selectBest_gt] at hspec
    have hid := names_of_holds hspec
    exact ⟨congrArg electedValue hid.bind, fun _ => hid⟩
  | setAny => exact ⟨voteSetAny_fst slots clientId exclude, fun h => absurd rfl h⟩

theorem filter_considered_none (slots : List Client) :
    slots.filter (considered none) = voters slots := by
  rw [voters]
  congr 1
  funext c
  simp [considered]

/-! ### Clients -/

def SameVotes (t t' : ClientTable) : Prop :=
  t'.slots = t.slots ∨ ∃ c : Client, c.enabled = false ∧ t'.slots = t.slots ++ [c]

variable {t t' : ClientTable}

theorem SameVotes.filter (h : SameVotes t t') (exclude : Option String) :
    t'.slots.filter (considered exclude) = t.slots.filter (considered exclude) := by
  rcases h with heq | ⟨c, hc, heq⟩
  · rw [heq]
  · rw [heq, filter_append, filter_cons_of_neg (by simp [considered, hc]), filter_nil,
      append_nil]

theorem SameVotes.voters (h : SameVotes t t') : voters t'.slots = voters t.slots := by
  rw [← filter_considered_none, ← filter_considered_none]
  exact h.filter none

theorem SameVotes.inRange (h : SameVotes t t') (hr : InRange t.slots) : InRange t'.slots := by
  intro c hc henabled
  rcases h with heq | ⟨d, hd, heq⟩
  · exact hr c (heq ▸ hc) henabled
  · rw [heq, mem_append] at hc
    rcases hc with hc | hc
    · exact hr c hc henabled
    · rw [mem_singleton.mp hc, hd] at henabled
      cases henabled

theorem SameVotes.names (h : SameVotes t t') {id : Option ℕ}
    (hid : Names t.slots id o) : Names t'.slots id o := by
  cases id with
  | none => exact hid
  | some i =>
    cases o with
    | none => cases hid
    | some c =>
      have hi : t.slots[i]? = some c := Option.some.inj hid
      show some t'.slots[i]? = some (some c)
      rcases h with heq | ⟨d, -, heq⟩
      · rw [heq, hi]
      · rw [heq, List.getElem?_append_left (List.getElem?_eq_some_iff.mp hi).1, hi]

variable {id : ℕ}

theorem getClientId_ok {name : String} {strdup : Bool}
    (h : getClientId t name strdup = .ok (t', id)) :
    SameVotes t t' ∧ ∃ c, t'.slots[id]? = some c ∧ c.name = name := by
  rw [getClientId] at h
  split at h
  · rename_i i hfind
    cases h
    obtain ⟨hlt, hname, -⟩ := List.findIdx?_eq_some_iff_getElem.mp hfind
    exact ⟨Or.inl rfl, t.slots[id], List.getElem?_eq_getElem hlt, of_decide_eq_true hname⟩
  · split at h
    · split at h
      · cases h
        exact ⟨Or.inr ⟨⟨name, false, 0⟩, rfl, rfl⟩, ⟨name, false, 0⟩, List.getElem?_concat_length, rfl⟩
      · cases h
    · cases h

theorem getClientId_error {name : String} {strdup : Bool} {rc : Int}
    (h : getClientId t name strdup = .error rc) : ∀ c ∈ t.slots, c.name ≠ name := by
  rw [getClientId] at h
  split at h
  · cases h
  · rename_i hfind
    intro c hc hname
    have hnone := List.findIdx?_eq_none_iff.mp hfind c hc
    exact absurd hname (of_decide_eq_false hnone)

theorem mem_setVote {enabled : Bool} {value : Int}
    (h : c ∈ (t.setVote id enabled value).slots) :
    c ∈ t.slots ∨ (c.enabled = enabled ∧ c.value = value) := by
  obtain ⟨i, hi⟩ := List.mem_iff_getElem?.mp h
  rw [ClientTable.setVote, List.getElem?_modify] at hi
  cases hslot : t.slots[i]? with
  | none =>
    rw [hslot] at hi
    cases hi
  | some d =>
    rw [hslot] at hi
    have hc : (if id = i then { d with enabled := enabled, value := value } else d) = c :=
      Option.some.inj hi
    by_cases hid : id = i
    · refine Or.inr ?_
      rw [← hc, if_pos hid]
      exact ⟨rfl, rfl⟩
    · refine Or.inl ?_
      rw [← hc, if_neg hid]
      exact List.mem_of_getElem? hslot

theorem InRange.setVote (h : InRange t.slots) (id : ℕ) (enabled : Bool)
    (val : Int) (hval : enabled = true → intMin < val ∧ val < intMax) :
    InRange (t.setVote id enabled val).slots := by
  intro c hc henabled
  rcases mem_setVote hc with hold | ⟨hen, hv⟩
  · exact h c hold henabled
  · rw [hv]
    exact hval (hen ▸ henabled)

theorem voters_disable (l : List Client) (hl : (l.map Client.name).Nodup)
    (hc : l[id]? = some c) (value : Int) :
    voters (l.modify id fun d => { d with enabled := false, value := value })
      = l.filter (considered (some c.name)) := by
  induction l generalizing id with
  | nil => cases hc
  | cons d l ih =>
    rw [map_cons, nodup_cons] at hl
    cases id with
    | zero =>
      have hd : d = c := Option.some.inj hc
      have hrest : ∀ e ∈ l, considered (some c.name) e = e.enabled := by
        intro e he
        have hne : c.name ≠ e.name := by
          intro heq
          exact hl.1 (mem_map.mpr ⟨e, he, by rw [hd, heq]⟩)
        simp [considered, hne]
      have hself : considered (some c.name) d = false := by simp [considered, hd]
      rw [voters, modify_zero_cons, filter_cons_of_neg (by simp),
        filter_cons_of_neg (by simp [hself])]
      exact (filter_congr hrest).symm
    | succ id =>
      have hc' : l[id]? = some c := by simpa using hc
      have hmem : c.name ∈ l.map Client.name := mem_map_of_mem (List.mem_of_getElem? hc')
      have hne : c.name ≠ d.name := fun heq => hl.1 (heq ▸ hmem)
      have hself : considered (some c.name) d = d.enabled := by simp [considered, hne]
      rw [voters, modify_succ_cons, filter_cons, filter_cons, hself, ← ih hl.2 hc', voters]

theorem filter_exclude_disabled (l : List Client) (name : String)
    (h : ∀ c ∈ l, c.name = name → c.enabled = false) :
    l.filter (considered (some name)) = voters l := by
  rw [voters]
  apply filter_congr
  intro c hc
  by_cases hname : c.name = name
  · simp [considered, h c hc hname]
  · have hne : name ≠ c.name := fun heq => hname heq.symm
    simp [considered, hne]

def published (v : Votable) (id : ℕ) (enabled : Bool) (val : Int) : Votable :=
  let clients := v.clients.setVote id enabled val
  let elected := election v.type v.map clients.slots id none
  { v with
    clients := clients
    effectiveClientId := elected.2
    effectiveResult := elected.1
    votedOn := true }

/-- **What a cast vote does.** The result is published. -/
theorem castVote_cases (v : Votable) (id : ℕ) (enabled : Bool) (val : Int) (step : Bool)
    (rc callbackRc : Int) :
    (castVote v id enabled val step rc callbackRc).votable = published v id enabled val ∧
      (castVote v id enabled val step rc callbackRc).call.map CallbackCall.effectiveResult
        = if (v.votedOn = false ∨ (published v id enabled val).effectiveResult ≠ v.effectiveResult) ∧
            v.forceActive = false ∧ v.overrideResult = einval then
          some (published v id enabled val).effectiveResult else none := by
  simp only [castVote]
  by_cases hnew : v.votedOn = false ∨
      (election v.type v.map (v.clients.setVote id enabled val).slots id none).1 ≠ v.effectiveResult
  · rw [if_pos hnew]
    have hnew' : v.votedOn = false ∨ (published v id enabled val).effectiveResult ≠ v.effectiveResult :=
      hnew
    by_cases hvisible : v.forceActive = false ∧ v.overrideResult = einval
    · rw [if_pos hvisible, if_pos ⟨hnew', hvisible⟩]
      exact ⟨rfl, rfl⟩
    · rw [if_neg hvisible, if_neg fun h => hvisible h.2]
      exact ⟨rfl, rfl⟩
  · have hquiet : ¬ ((v.votedOn = false ∨
        (published v id enabled val).effectiveResult ≠ v.effectiveResult) ∧
          v.forceActive = false ∧ v.overrideResult = einval) := fun h => hnew h.1
    rw [if_neg hnew, if_neg hquiet]
    have hsame : (election v.type v.map (v.clients.setVote id enabled val).slots id none).1
        = v.effectiveResult := not_not.mp fun h => hnew (Or.inr h)
    by_cases hid : (election v.type v.map (v.clients.setVote id enabled val).slots id none).2
        ≠ v.effectiveClientId
    · rw [if_pos hid, published, hsame]
      exact ⟨rfl, rfl⟩
    · rw [if_neg hid, published, hsame, not_not.mp hid]
      exact ⟨rfl, rfl⟩

/-- **What `vote` does.** It fails for want of a slot, it leaves the votes alone (a repeated vote, or one
that a check function refuses), or the vote is cast. -/
theorem vote_cases (v : Votable) (c : VoteCall) :
    (∃ rc, vote v c = ⟨v, none, rc⟩ ∧ ∀ d ∈ v.clients.slots, d.name ≠ c.client) ∨
    (∃ t id rc, getClientId v.clients c.client c.strdup = .ok (t, id) ∧
      vote v c = ⟨{ v with clients := t }, none, rc⟩ ∧
        (similarVote t.slots id c.enabled (votedVal v.type c) = true ∨
          ∃ e, runChecks c.checks 0 = .error e)) ∨
    ∃ t id rc, getClientId v.clients c.client c.strdup = .ok (t, id) ∧
      runChecks c.checks 0 = .ok rc ∧ vote v c
        = castVote { v with clients := t } id c.enabled (votedVal v.type c) c.step rc c.callbackRc := by
  rw [vote]
  cases hid : getClientId v.clients c.client c.strdup with
  | error rc => exact Or.inl ⟨rc, rfl, getClientId_error hid⟩
  | ok r =>
    rcases r with ⟨t, id⟩
    refine Or.inr ?_
    by_cases hsimilar : similarVote t.slots id c.enabled (votedVal v.type c) = true ∧ v.votedOn = true
    · refine Or.inl ⟨t, id, 0, rfl, ?_, Or.inl hsimilar.1⟩
      show (if _ then _ else _) = _
      rw [if_pos hsimilar]
    · cases hchecks : runChecks c.checks 0 with
      | error e =>
        refine Or.inl ⟨t, id, e, rfl, ?_, Or.inr ⟨e, rfl⟩⟩
        show (if _ then _ else _) = _
        rw [if_neg hsimilar]
      | ok rc =>
        refine Or.inr ⟨t, id, rc, rfl, rfl, ?_⟩
        show (if _ then _ else _) = _
        rw [if_neg hsimilar]

/-- Bookkeeping and hardware agree: the published result and client are those of the reference election,
and the callback has last heard the effective result. -/
structure Agrees (v : Votable) (last : Option Int) : Prop where
  range : InRange v.clients.slots
  result : v.effectiveResult = referenceResult v.type v.map (voters v.clients.slots)
  winner : v.type ≠ .setAny → Names v.clients.slots v.effectiveClientId
    (referenceWinner v.type v.map (voters v.clients.slots))
  heard : v.votedOn = true ∨ v.forceActive = true ∨ v.overrideResult ≠ einval →
    last = some (getEffectiveResult v)

/-- What the callback has last heard after an operation. -/
def Outcome.last (o : Outcome) (last : Option Int) : Option Int :=
  match o.call with
  | some call => some call.effectiveResult
  | none => last

variable {last : Option Int} {v : Votable}

section

variable (h : Agrees v last)
include h

theorem Agrees.register (ht : SameVotes v.clients t) : Agrees { v with clients := t } last where
  range := ht.inRange h.range
  result := by
    show v.effectiveResult = referenceResult v.type v.map (voters t.slots)
    rw [ht.voters]
    exact h.result
  winner := by
    intro hty
    show Names t.slots v.effectiveClientId (referenceWinner v.type v.map (voters t.slots))
    rw [ht.voters]
    exact ht.names (h.winner hty)
  heard := h.heard

theorem Agrees.castVote
    (hmap : SentinelFree v.type v.map) (id : ℕ) {enabled : Bool} {val : Int}
    (hval : enabled = true → intMin < val ∧ val < intMax) (step : Bool) (rc callbackRc : Int) :
    Agrees (castVote v id enabled val step rc callbackRc).votable
      ((castVote v id enabled val step rc callbackRc).last last) := by
  obtain ⟨hvotable, hcall⟩ := castVote_cases v id enabled val step rc callbackRc
  have hrange := h.range.setVote id enabled val hval
  obtain ⟨hresult, hwinner⟩ := election_eq_reference hmap hrange id none
  rw [filter_considered_none] at hresult hwinner
  rw [hvotable]
  refine ⟨hrange, hresult, hwinner, fun _ => ?_⟩
  rw [Outcome.last]
  by_cases hheard : (v.votedOn = false ∨
      (published v id enabled val).effectiveResult ≠ v.effectiveResult) ∧
        v.forceActive = false ∧ v.overrideResult = einval
  · -- the callback is called with the new result, which nothing hides
    rw [if_pos hheard] at hcall
    obtain ⟨call, hsome, hres⟩ := Option.map_eq_some_iff.mp hcall
    rw [hsome]
    show some call.effectiveResult = some (getEffectiveResult (published v id enabled val))
    rw [hres, getEffectiveResult]
    show _ = some (if v.forceActive = true then v.forceVal
      else if v.overrideResult ≠ einval then v.overrideResult else _)
    rw [if_neg (by rw [hheard.2.1]; decide), if_neg (not_not.mpr hheard.2.2)]
  · -- no call: what the callback has heard is still in force
    rw [if_neg hheard] at hcall
    have hnone := Option.map_eq_none_iff.mp hcall
    rw [hnone]
    show last = some (if v.forceActive = true then v.forceVal
      else if v.overrideResult ≠ einval then v.overrideResult
        else (published v id enabled val).effectiveResult)
    by_cases hf : v.forceActive = true
    · have hlast := h.heard (Or.inr (Or.inl hf))
      rw [hlast, getEffectiveResult, if_pos hf, if_pos hf]
    · by_cases ho : v.overrideResult = einval
      · have hf' : v.forceActive = false := Bool.eq_false_iff.mpr hf
        have hold : ¬ (v.votedOn = false ∨
            (published v id enabled val).effectiveResult ≠ v.effectiveResult) :=
          fun hn => hheard ⟨hn, hf', ho⟩
        have hvoted : v.votedOn = true := by
          cases hv : v.votedOn with
          | true => rfl
          | false => exact absurd (Or.inl hv) hold
        have hlast := h.heard (Or.inl hvoted)
        have hsame := not_not.mp fun hne => hold (Or.inr hne)
        rw [hlast, getEffectiveResult, if_neg hf, if_neg hf, if_neg (not_not.mpr ho),
          if_neg (not_not.mpr ho), hsame]
      · have hlast := h.heard (Or.inr (Or.inr ho))
        rw [hlast, getEffectiveResult, if_neg hf, if_neg hf, if_pos ho, if_pos ho]

theorem Agrees.vote
    (hmap : SentinelFree v.type v.map) {c : VoteCall} (hval : intMin < c.val ∧ c.val < intMax) :
    Agrees (vote v c).votable ((vote v c).last last) := by
  rcases vote_cases v c with ⟨rc, heq, -⟩ | ⟨t, id, rc, hid, heq, -⟩ | ⟨t, id, rc, hid, -, heq⟩
  · rw [heq]
    exact h
  · rw [heq]
    exact h.register (getClientId_ok hid).1
  · rw [heq]
    apply Agrees.castVote (h.register (getClientId_ok hid).1) hmap
    intro henabled
    rw [votedVal]
    split
    · rw [henabled]
      decide
    · exact hval

theorem Agrees.voteOverride (client : String)
    (enabled : Bool) {val : Int} (hval : val ≠ einval) (step : Bool) :
    Agrees (voteOverride v client enabled val step 0).votable
      ((voteOverride v client enabled val step 0).last last) := by
  rw [Voter.voteOverride]
  by_cases hf : v.forceActive = true
  · rw [if_pos hf]
    refine ⟨h.range, h.result, h.winner, fun _ => ?_⟩
    have hlast := h.heard (Or.inr (Or.inl hf))
    show last = _
    rw [hlast, getEffectiveResult, getEffectiveResult, if_pos hf, if_pos hf]
  · rw [if_neg hf]
    cases enabled with
    | true =>
      refine ⟨h.range, h.result, h.winner, fun _ => ?_⟩
      show some val = some (if v.forceActive = true then v.forceVal else if val ≠ einval then val else _)
      rw [if_neg hf, if_pos hval]
    | false =>
      refine ⟨h.range, h.result, h.winner, fun _ => ?_⟩
      show some v.effectiveResult = some (if v.forceActive = true then v.forceVal
        else if einval ≠ einval then einval else v.effectiveResult)
      rw [if_neg hf, if_neg (not_not.mpr rfl)]

theorem Agrees.forceActiveWrite (val : ℕ)
    (callbackRc : Int) : Agrees (forceActiveWrite v val callbackRc).votable
      ((forceActiveWrite v val callbackRc).last last) := by
  simp only [Voter.forceActiveWrite]
  by_cases hf : decide (val ≠ 0) = true
  · rw [if_pos hf]
    refine ⟨h.range, h.result, h.winner, fun _ => ?_⟩
    show some v.forceVal = some (if decide (val ≠ 0) = true then v.forceVal else _)
    rw [if_pos hf]
  · rw [if_neg hf]
    by_cases ho : v.overrideResult ≠ einval
    · rw [if_pos ho]
      refine ⟨h.range, h.result, h.winner, fun _ => ?_⟩
      show some v.overrideResult = some (if decide (val ≠ 0) = true then v.forceVal
        else if v.overrideResult ≠ einval then v.overrideResult else _)
      rw [if_neg hf, if_pos ho]
    · rw [if_neg ho]
      refine ⟨h.range, h.result, h.winner, fun _ => ?_⟩
      show some v.effectiveResult = some (if decide (val ≠ 0) = true then v.forceVal
        else if v.overrideResult ≠ einval then v.overrideResult else v.effectiveResult)
      rw [if_neg hf, if_neg ho]

theorem Agrees.rerunElection (step : Bool)
    (callbackRc : Int) : Agrees (rerunElection v step callbackRc).votable
      ((rerunElection v step callbackRc).last last) := by
  rw [Voter.rerunElection]
  by_cases hf : v.forceActive = true
  · rw [if_pos hf]
    refine ⟨h.range, h.result, h.winner, fun _ => ?_⟩
    show some v.forceVal = some (if v.forceActive = true then v.forceVal else _)
    rw [if_pos hf]
  · rw [if_neg hf]
    exact ⟨h.range, h.result, h.winner, fun _ => rfl⟩

end

theorem disabled_of_slot {d : Client} (hd : t.slots[id]? = some d)
    (hdis : d.enabled = false) : ∀ c ∈ t.slots, c.name = d.name → c.enabled = false := by
  intro c hc hname
  have heq := inj_on_of_nodup_map t.nodup hc (List.mem_of_getElem? hd) hname
  rw [heq, hdis]

/-- **Leaving a client out.** The result without a client is the result after that client has disabled
its vote, the check functions permitting. -/
theorem Agrees.excludeClient (h : Agrees v last)
    (hmap : SentinelFree v.type v.map) {c : VoteCall} (hc : c.enabled = false)
    (hchecks : ∃ rc, runChecks c.checks 0 = .ok rc) :
    getEffectiveResultExcludeClient v c.client = getEffectiveResult (Voter.vote v c).votable := by
  have hexclude := (election_eq_reference hmap h.range 0 (some c.client)).1
  obtain ⟨t, res, hfields, hres⟩ : ∃ (w : Votable) (res : Int), (Voter.vote v c).votable = w ∧
      w.forceActive = v.forceActive ∧ w.forceVal = v.forceVal ∧
      w.overrideResult = v.overrideResult ∧ w.effectiveResult = res ∧
      res = referenceResult v.type v.map (v.clients.slots.filter (considered (some c.client))) := by
    rcases vote_cases v c with ⟨rc, heq, hnew⟩ | ⟨t, id, rc, hid, heq, hwhy⟩ | ⟨t, id, rc, hid, -, heq⟩
    · refine ⟨v, _, by rw [heq], rfl, rfl, rfl, h.result, ?_⟩
      rw [filter_exclude_disabled _ _ fun d hd hname => absurd hname (hnew d hd)]
    · obtain ⟨hsame, d, hd, hname⟩ := getClientId_ok hid
      refine ⟨{ v with clients := t }, _, by rw [heq], rfl, rfl, rfl, h.result, ?_⟩
      rcases hwhy with hsimilar | ⟨e, herr⟩
      · have hdis : d.enabled = false := by
          rw [similarVote, hd, Option.any_some, decide_eq_true_eq] at hsimilar
          rw [hsimilar.1, hc]
        have hnone := filter_exclude_disabled t.slots c.client (hname ▸ disabled_of_slot hd hdis)
        rw [← hsame.filter, hnone, hsame.voters]
      · obtain ⟨rc', hok⟩ := hchecks
        rw [hok] at herr
        cases herr
    · obtain ⟨hsame, d, hd, hname⟩ := getClientId_ok hid
      have hcast := (castVote_cases { v with clients := t } id c.enabled (votedVal v.type c) c.step rc
        c.callbackRc).1
      refine ⟨published { v with clients := t } id c.enabled (votedVal v.type c), _,
        by rw [heq, hcast], rfl, rfl, rfl, rfl, ?_⟩
      have hrange := (hsame.inRange h.range).setVote id c.enabled (votedVal v.type c) (by simp [hc])
      show (election v.type v.map (t.setVote id c.enabled (votedVal v.type c)).slots id none).1 = _
      rw [(election_eq_reference hmap hrange id none).1, filter_considered_none, ← hsame.filter, hc,
        ← hname]
      exact congrArg (referenceResult v.type v.map) (voters_disable t.slots t.nodup hd _)
  obtain ⟨hfa, hfv, hov, her, hres⟩ := hres
  rw [hfields, getEffectiveResultExcludeClient, getEffectiveResult, hfa, hfv, hov, her, hres, hexclude]

/-! ### Runs -/

/-- The operations on a votable, with the code their callback returns. -/
inductive VotableOp
  | vote (c : VoteCall)
  | override (client : String) (enabled : Bool) (val : Int) (step : Bool) (callbackRc : Int)
  | forceActive (val : ℕ) (callbackRc : Int)
  | rerun (step : Bool) (callbackRc : Int)

def VotableOp.run (v : Votable) : VotableOp → Outcome
  | .vote c => Voter.vote v c
  | .override client enabled val step callbackRc => voteOverride v client enabled val step callbackRc
  | .forceActive val callbackRc => forceActiveWrite v val callbackRc
  | .rerun step callbackRc => rerunElection v step callbackRc

def VotableOp.Admissible : VotableOp → Prop
  | .vote c => (intMin < c.val ∧ c.val < intMax) ∧ c.callbackRc = 0
  | .override _ _ val _ callbackRc => val ≠ einval ∧ callbackRc = 0
  | .forceActive _ callbackRc => callbackRc = 0
  | .rerun _ callbackRc => callbackRc = 0

structure Heard where
  votable : Votable
  last : Option Int

def votableMachine (type : VotableType) (map : ValueMap) (forceVal : Int) :
    Runs.Machine Heard VotableOp where
  init s := s = ⟨createVotable type map forceVal, none⟩
  guard _ op := op.Admissible
  next s op := ⟨(op.run s.votable).votable, (op.run s.votable).last s.last⟩

theorem VotableOp.run_config (v : Votable) (op : VotableOp) :
    (op.run v).votable.type = v.type ∧ (op.run v).votable.map = v.map := by
  cases op with
  | vote c =>
    show (Voter.vote v c).votable.type = v.type ∧ (Voter.vote v c).votable.map = v.map
    rcases vote_cases v c with ⟨rc, heq, -⟩ | ⟨t, id, rc, -, heq, -⟩ | ⟨t, id, rc, -, -, heq⟩
    · rw [heq]
      exact ⟨rfl, rfl⟩
    · rw [heq]
      exact ⟨rfl, rfl⟩
    · rw [heq, (castVote_cases _ _ _ _ _ _ _).1]
      exact ⟨rfl, rfl⟩
  | override client enabled val step callbackRc =>
    simp only [VotableOp.run, voteOverride]
    split_ifs <;> exact ⟨rfl, rfl⟩
  | forceActive val callbackRc =>
    simp only [VotableOp.run, forceActiveWrite]
    split_ifs <;> exact ⟨rfl, rfl⟩
  | rerun step callbackRc =>
    simp only [VotableOp.run, rerunElection]
    split_ifs <;> exact ⟨rfl, rfl⟩

theorem agrees_createVotable (type : VotableType) (map : ValueMap) (forceVal : Int) :
    Agrees (createVotable type map forceVal) none where
  range := by
    intro c hc
    cases hc
  result := by
    cases type <;> rfl
  winner := by
    intro hty
    cases type with
    | min => rfl
    | max => rfl
    | setAny => exact absurd rfl hty
  heard := by
    intro h
    rcases h with h | h | h
    · cases h
    · cases h
    · exact absurd rfl h

theorem agrees_of_reachable {type : VotableType} {forceVal : Int}
    (hmap : SentinelFree type map) {s : Heard}
    (hs : (votableMachine type map forceVal).Reachable s) :
    (s.votable.type = type ∧ s.votable.map = map) ∧ Agrees s.votable s.last := by
  apply hs.invariant (I := fun s => (s.votable.type = type ∧ s.votable.map = map) ∧
    Agrees s.votable s.last)
  · rintro s rfl
    exact ⟨⟨rfl, rfl⟩, agrees_createVotable type map forceVal⟩
  · rintro s op ⟨⟨htype, hm⟩, hagrees⟩ hop
    obtain ⟨htype', hm'⟩ := op.run_config s.votable
    refine ⟨⟨htype'.trans htype, hm'.trans hm⟩, ?_⟩
    have hfree : SentinelFree s.votable.type s.votable.map := by
      rw [htype, hm]
      exact hmap
    cases op with
    | vote c => exact hagrees.vote hfree hop.1
    | override client enabled val step callbackRc =>
      obtain ⟨hval, rfl⟩ := hop
      exact hagrees.voteOverride client enabled hval step
    | forceActive val callbackRc => exact hagrees.forceActiveWrite val callbackRc
    | rerun step callbackRc => exact hagrees.rerunElection step callbackRc

/-- What bookkeeping and hardware owe to the votes. -/
structure Agreement (s : Heard) : Prop where
  /-- the force value, else the override, else the reference election -/
  effective : getEffectiveResult s.votable
    = if s.votable.forceActive then s.votable.forceVal
      else if s.votable.overrideResult ≠ einval then s.votable.overrideResult
      else referenceResult s.votable.type s.votable.map (voters s.votable.clients.slots)
  client : s.votable.type ≠ .setAny → s.votable.forceActive = false →
    s.votable.overrideResult = einval → getEffectiveClient s.votable
      = (referenceWinner s.votable.type s.votable.map (voters s.votable.clients.slots)).map
          Client.name
  hardware : s.votable.votedOn = true → s.last = some (getEffectiveResult s.votable)
  /-- the result without a client is the one after it has disabled its vote -/
  excluded : ∀ c : VoteCall, c.enabled = false → (∃ rc, runChecks c.checks 0 = .ok rc) →
    getEffectiveResultExcludeClient s.votable c.client
      = getEffectiveResult (Voter.vote s.votable c).votable

/-- **Votable agreement.** With a value map that avoids the sentinel of its election, a votable agrees
with its votes in every state that votes, overrides, force switches and reruns lead to. -/
theorem votable_agreement (type : VotableType) (map : ValueMap) (forceVal : Int)
    (hmap : SentinelFree type map) (s : Heard)
    (hs : (votableMachine type map forceVal).Reachable s) : Agreement s := by
  obtain ⟨⟨htype, hm⟩, hagrees⟩ := agrees_of_reachable hmap hs
  have hfree : SentinelFree s.votable.type s.votable.map := by
    rw [htype, hm]
    exact hmap
  refine ⟨?_, fun hty hf ho => ?_, fun hvoted => hagrees.heard (Or.inl hvoted),
    fun c hc hchecks => hagrees.excludeClient hfree hc hchecks⟩
  · rw [getEffectiveResult, hagrees.result]
  · rw [getEffectiveClient, if_neg (by simp [hf]), if_neg (not_not.mpr ho), getClientStr,
      (hagrees.winner hty).bind]

def votedFive (map : ValueMap) : Heard :=
  (votableMachine .min map 0).next ⟨createVotable .min map 0, none⟩
    (.vote ⟨"USB", true, 5, false, true, [], 0⟩)

theorem votedFive_reachable (map : ValueMap) : (votableMachine .min map 0).Reachable (votedFive map) :=
  .next (.init rfl) ⟨by decide, rfl⟩

theorem sentinelFree_noMap (type : VotableType) : SentinelFree type fun _ => none := by
  intro v m hm
  cases hm

/-- An unmapped vote of 5, as an instance of the agreement. -/
theorem votable_agreement_votedFive : SentinelFree .min (fun _ => none) ∧
    Agreement (votedFive fun _ => none) :=
  ⟨sentinelFree_noMap .min,
    votable_agreement .min (fun _ => none) 0 (sentinelFree_noMap .min) _ (votedFive_reachable _)⟩

/-- A vote that is mapped to `INT_MAX` is not elected, although nobody else has voted. -/
theorem not_votable_agreement : ¬ ∀ (type : VotableType) (map : ValueMap) (forceVal : Int) (s : Heard),
    (votableMachine type map forceVal).Reachable s → Agreement s := by
  intro h
  have hagree := h .min (fun v => if v = 5 then some intMax else none) 0 _ (votedFive_reachable _)
  have heffective := hagree.effective
  have hlhs : getEffectiveResult (votedFive fun v => if v = 5 then some intMax else none).votable
      = einval := by decide
  have hvoters : voters (votedFive fun v => if v = 5 then some intMax else none).votable.clients.slots
      = [⟨"USB", true, 5⟩] := by decide
  rw [hlhs, hvoters] at heffective
  exact absurd heffective (by decide)

end Sm8750Modules.Voter
