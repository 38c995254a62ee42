import Sm8750Modules.Lib.RankedInsertion
import Mathlib.Data.List.FinRange

/-!
# Charging protocol arbitration — the ranking of the requested protocols

The table of the arbiter lists the protocols in order of priority, with the power each one
delivers; a hole has the type `CHG_PROTOCOL_INVALID`.
-/

namespace Cpa

open RankedInsertion List

/-! ### The table -/

inductive OplusChgProtocolType
  | invalid
  | bc12
  | pd
  | pps
  | vooc
  | ufcs
  | qc
  deriving DecidableEq

def OplusChgProtocolType.value : OplusChgProtocolType → ℤ
  | .invalid => -1
  | .bc12 => 0
  | .pd => 1
  | .pps => 2
  | .vooc => 3
  | .ufcs => 4
  | .qc => 5

def chgProtocolMax : ℕ := 6

structure OplusCpaProtocolInfo where
  type : OplusChgProtocolType
  maxPowerMw : ℤ
  powerMw : ℤ

def hole : OplusCpaProtocolInfo := ⟨.invalid, 0, 0⟩

structure OplusCpa where
  protocolPrioTable : List OplusCpaProtocolInfo
  size : protocolPrioTable.length = chgProtocolMax
  distinct : ∀ i < chgProtocolMax, ∀ j < chgProtocolMax,
    (protocolPrioTable.getD i hole).type = (protocolPrioTable.getD j hole).type →
    (protocolPrioTable.getD i hole).type ≠ .invalid → i = j

def OplusCpa.entry (cpa : OplusCpa) (i : ℕ) : OplusCpaProtocolInfo := cpa.protocolPrioTable.getD i hole

/-- The error codes of the two functions that change a power. -/
inductive PowerError
  | einval
  | enotsupp
  deriving DecidableEq

def OplusCpa.withPower (cpa : OplusCpa) (i : ℕ) (powerMw : ℤ) : OplusCpa where
  protocolPrioTable := cpa.protocolPrioTable.modify i fun info => { info with powerMw := powerMw }
  size := by rw [List.length_modify, cpa.size]
  distinct := by
    have htype : ∀ j, ((cpa.protocolPrioTable.modify i fun info =>
        { info with powerMw := powerMw }).getD j hole).type = (cpa.entry j).type := by
      intro j
      rw [OplusCpa.entry, List.getD_eq_getElem?_getD, List.getD_eq_getElem?_getD, List.getElem?_modify]
      cases cpa.protocolPrioTable[j]? with
      | none => rfl
      | some info => by_cases h : i = j <;> simp [h]
    intro a ha b hb
    rw [htype, htype]
    exact cpa.distinct a ha b hb

variable (topic : Option OplusCpa)

/-- The checks that both functions begin with, and their search. -/
def withProtocol (type : ℤ) (found : OplusCpa → ℕ → OplusCpa) : Except PowerError OplusCpa :=
  match topic with
  | none => .error .einval
  | some cpa =>
    if type ≤ OplusChgProtocolType.invalid.value ∨ type ≥ chgProtocolMax then .error .einval
    else
      match cpa.protocolPrioTable.findIdx? fun info => info.type.value = type with
      | some i => .ok (found cpa i)
      | none => .error .enotsupp

/-- `oplus_cpa_protocol_set_power`: the power is capped. -/
def oplusCpaProtocolSetPower (type powerMw : ℤ) : Except PowerError OplusCpa :=
  withProtocol topic type fun cpa i =>
    cpa.withPower i (if powerMw > (cpa.entry i).maxPowerMw then (cpa.entry i).maxPowerMw else powerMw)

def oplusCpaProtocolClearPower (type : ℤ) : Except PowerError OplusCpa :=
  withProtocol topic type fun cpa i =>
    match (cpa.entry i).type with
    | .pd | .qc | .bc12 => cpa.withPower i (cpa.entry i).maxPowerMw
    | _ => cpa.withPower i 0

/-- A call of one of the two functions. -/
inductive PowerCall
  | set (type powerMw : ℤ)
  | clear (type : ℤ)

/-- The table after a call; one that fails leaves it alone. -/
def PowerCall.run (cpa : OplusCpa) : PowerCall → OplusCpa
  | .set type powerMw => (oplusCpaProtocolSetPower (some cpa) type powerMw).toOption.getD cpa
  | .clear type => (oplusCpaProtocolClearPower (some cpa) type).toOption.getD cpa

section Calls

variable {cpa cpa' : OplusCpa}

theorem entry_withPower (i j : ℕ) (powerMw : ℤ) : (cpa.withPower i powerMw).entry j
    = if i = j ∧ j < chgProtocolMax then { cpa.entry j with powerMw := powerMw } else cpa.entry j := by
  rw [← cpa.size, OplusCpa.entry, OplusCpa.entry, OplusCpa.withPower, List.getD_eq_getElem?_getD,
    List.getD_eq_getElem?_getD, List.getElem?_modify]
  by_cases hj : j < cpa.protocolPrioTable.length
  · rw [List.getElem?_eq_getElem hj]
    by_cases h : i = j <;> simp [h, hj]
  · rw [List.getElem?_eq_none (by omega), if_neg (fun h => hj h.2)]
    rfl

theorem withProtocol_ok {type : ℤ} {found : OplusCpa → ℕ → OplusCpa}
    (h : withProtocol (some cpa) type found = .ok cpa') : ∃ i, cpa' = found cpa i := by
  rw [withProtocol] at h
  split at h
  · exact nomatch h
  · split at h
    · exact ⟨_, (Except.ok.inj h).symm⟩
    · exact nomatch h

/-- **What a call does**: it changes one power, to at most the one that the table allows. -/
theorem PowerCall.run_cases (cpa : OplusCpa) (call : PowerCall) :
    call.run cpa = cpa ∨ ∃ i powerMw, call.run cpa = cpa.withPower i powerMw ∧
      powerMw ≤ max (cpa.entry i).maxPowerMw 0 := by
  cases call with
  | set type powerMw =>
    rw [PowerCall.run]
    cases hres : oplusCpaProtocolSetPower (some cpa) type powerMw with
    | error e => exact .inl rfl
    | ok cpa' =>
      obtain ⟨i, rfl⟩ := withProtocol_ok hres
      refine .inr ⟨i, _, rfl, ?_⟩
      split <;> omega
  | clear type =>
    rw [PowerCall.run]
    cases hres : oplusCpaProtocolClearPower (some cpa) type with
    | error e => exact .inl rfl
    | ok cpa' =>
      obtain ⟨i, rfl⟩ := withProtocol_ok hres
      cases htype : (cpa.entry i).type with
      | pd => exact .inr ⟨i, _, rfl, le_max_left _ _⟩
      | qc => exact .inr ⟨i, _, rfl, le_max_left _ _⟩
      | bc12 => exact .inr ⟨i, _, rfl, le_max_left _ _⟩
      | invalid => exact .inr ⟨i, 0, rfl, le_max_right _ _⟩
      | pps => exact .inr ⟨i, 0, rfl, le_max_right _ _⟩
      | vooc => exact .inr ⟨i, 0, rfl, le_max_right _ _⟩
      | ufcs => exact .inr ⟨i, 0, rfl, le_max_right _ _⟩

def Capped (cpa : OplusCpa) : Prop := ∀ i, (cpa.entry i).powerMw ≤ max (cpa.entry i).maxPowerMw 0

theorem PowerCall.capped_run (call : PowerCall) (h : Capped cpa) : Capped (call.run cpa) := by
  obtain hrun | ⟨i, powerMw, hrun, hle⟩ := call.run_cases cpa
  · rwa [hrun]
  · intro j
    rw [hrun, entry_withPower]
    split
    · next hij => exact hij.1 ▸ hle
    · exact h j

theorem capped_calls (calls : List PowerCall) (h : Capped cpa) :
    Capped (calls.foldl PowerCall.run cpa) := by
  induction calls generalizing cpa with
  | nil => exact h
  | cons call calls ih => exact ih (call.capped_run h)

theorem type_calls (calls : List PowerCall) (j : ℕ) :
    ((calls.foldl PowerCall.run cpa).entry j).type = (cpa.entry j).type := by
  induction calls generalizing cpa with
  | nil => rfl
  | cons call calls ih =>
    rw [foldl_cons, ih]
    obtain hrun | ⟨i, powerMw, hrun, -⟩ := call.run_cases cpa
    · rw [hrun]
    · rw [hrun, entry_withPower]
      split <;> rfl

end Calls

structure Backup where
  type : ℕ → OplusChgProtocolType
  power : ℕ → ℤ

/-- The initialisers: only the first element of `backup_type` is named. -/
def Backup.init : Backup where
  type n := if n = 0 then .invalid else .bc12
  power _ := 0

/-- The two stores at an index. -/
def Backup.store (b : Backup) (n : ℕ) (type : OplusChgProtocolType) (power : ℤ) : Backup where
  type := Function.update b.type n type
  power := Function.update b.power n power

/-- The loop over `n`, from `i` down to `m + 1`. -/
def shiftBackup (m : ℕ) : ℕ → Backup → Backup
  | 0, b => b
  | n + 1, b => if n + 1 > m then shiftBackup m n (b.store (n + 1) (b.type n) (b.power n)) else b

/-- The loop over `m`, with `k` rounds left: where it ends, and the arrays there. -/
def placeBackup (powerMw : ℤ) (i : ℕ) : ℕ → ℕ → Backup → ℕ × Backup
  | 0, m, b => (m, b)
  | k + 1, m, b =>
    if b.power m ≤ 0 then placeBackup powerMw i k (m + 1) b
    else if powerMw ≤ b.power m then placeBackup powerMw i k (m + 1) b
    else (m, shiftBackup m i b)

/-- One round of the loop over the table. -/
def rankProtocol (info : OplusCpaProtocolInfo) (i : ℕ) (b : Backup) : Backup :=
  if info.powerMw ≤ 0 then b.store i info.type info.powerMw
  else
    let (m, b) := placeBackup info.powerMw i i 0 b
    b.store m info.type info.powerMw

/-- The first `i` rounds of the loop over the table. -/
def rankProtocols (cpa : OplusCpa) : ℕ → Backup
  | 0 => Backup.init
  | i + 1 => rankProtocol (cpa.entry i) i (rankProtocols cpa i)

def Requested (protocol : UInt32) (type : OplusChgProtocolType) : Prop :=
  type ≠ .invalid ∧ protocol &&& (1 <<< UInt32.ofNat type.value.toNat) ≠ 0
deriving Decidable

def getHighestPriorityProtocolType (cpa : OplusCpa) (protocol : UInt32) : OplusChgProtocolType :=
  let b := rankProtocols cpa chgProtocolMax
  match (List.range chgProtocolMax).find? fun i => Requested protocol (b.type i) with
  | some i => b.type i
  | none => .invalid

/-! ### The loops over the arrays -/

namespace Backup

variable {b : Backup} {n : ℕ} {type : OplusChgProtocolType} {power : ℤ}

@[simp] theorem store_type_self : (b.store n type power).type n = type := by simp [store]

@[simp] theorem store_power_self : (b.store n type power).power n = power := by simp [store]

theorem store_type_of_ne {m : ℕ} (h : m ≠ n) : (b.store n type power).type m = b.type m := by
  simp [store, h]

theorem store_power_of_ne {m : ℕ} (h : m ≠ n) : (b.store n type power).power m = b.power m := by
  simp [store, h]

end Backup

theorem shiftBackup_apply (m n : ℕ) (b : Backup) (j : ℕ) :
    (shiftBackup m n b).type j = (if m < j ∧ j ≤ n then b.type (j - 1) else b.type j) ∧
      (shiftBackup m n b).power j = (if m < j ∧ j ≤ n then b.power (j - 1) else b.power j) := by
  induction n generalizing b with
  | zero =>
    rw [shiftBackup, if_neg (by omega), if_neg (by omega)]
    exact ⟨rfl, rfl⟩
  | succ n ih =>
    rw [shiftBackup]
    by_cases hm : n + 1 > m
    · rw [if_pos hm, (ih _).1, (ih _).2]
      by_cases hj : m < j ∧ j ≤ n
      · rw [if_pos hj, if_pos hj, if_pos (by omega), if_pos (by omega),
          Backup.store_type_of_ne (by omega), Backup.store_power_of_ne (by omega)]
        exact ⟨rfl, rfl⟩
      · rw [if_neg hj, if_neg hj]
        by_cases hlast : j = n + 1
        · subst hlast
          rw [if_pos (by omega), if_pos (by omega)]
          simp
        · rw [if_neg (by omega), if_neg (by omega), Backup.store_type_of_ne hlast,
            Backup.store_power_of_ne hlast]
          exact ⟨rfl, rfl⟩
    · rw [if_neg hm, if_neg (by omega), if_neg (by omega)]
      exact ⟨rfl, rfl⟩

section Order

variable (cpa : OplusCpa)

def powerAt (i : ℕ) : ℤ := (cpa.entry i).powerMw

def Powered (i : ℕ) : Prop := 0 < powerAt cpa i

instance : DecidablePred (Powered cpa) := fun i => inferInstanceAs (Decidable (0 < powerAt cpa i))

/-- The arrays hold the entries at the positions `order`. -/
def Holds (b : Backup) (order : List ℕ) : Prop :=
  ∀ m (h : m < order.length), b.type m = (cpa.entry order[m]).type ∧ b.power m = powerAt cpa order[m]

variable {cpa} {b : Backup} {order : List ℕ}

theorem Holds.store {n i : ℕ} (h : Holds cpa b order) (hn : n = order.length) :
    Holds cpa (b.store n (cpa.entry i).type (powerAt cpa i)) (order ++ [i]) := by
  intro m hm
  rw [length_append, length_singleton] at hm
  by_cases hlast : m = n
  · subst hlast
    simp [hn]
  · rw [Backup.store_type_of_ne hlast, Backup.store_power_of_ne hlast,
      getElem_append_left (by omega)]
    exact h m (by omega)

theorem shiftBackup_self (n : ℕ) : shiftBackup n n b = b := by
  cases n with
  | zero => rfl
  | succ n => exact if_neg (lt_irrefl _)

theorem placeBackup_eq (h : Holds cpa b order) (i k m : ℕ) (hk : m + k = order.length)
    (hpassed : ∀ a (ha : a < m), lower (Powered cpa) (powerAt cpa) i order[a] = false) :
    placeBackup (powerAt cpa i) order.length k m b
      = (order.findIdx (lower (Powered cpa) (powerAt cpa) i),
        shiftBackup (order.findIdx (lower (Powered cpa) (powerAt cpa) i)) order.length b) := by
  induction k generalizing m with
  | zero =>
    have hall : order.findIdx (lower (Powered cpa) (powerAt cpa) i) = order.length := by
      rw [findIdx_eq_length]
      intro x hx
      obtain ⟨a, ha, rfl⟩ := getElem_of_mem hx
      exact hpassed a (by omega)
    rw [placeBackup, hall, shiftBackup_self, ← hk, Nat.add_zero]
  | succ k ih =>
    have hm : m < order.length := by omega
    have hpower : b.power m = powerAt cpa order[m] := (h m hm).2
    have hnext : lower (Powered cpa) (powerAt cpa) i order[m] = false →
        ∀ a (ha : a < m + 1), lower (Powered cpa) (powerAt cpa) i order[a] = false := by
      intro hlast a ha
      obtain ha | rfl := Nat.lt_succ_iff_lt_or_eq.mp ha
      · exact hpassed a ha
      · exact hlast
    rw [placeBackup, hpower]
    by_cases hzero : powerAt cpa order[m] ≤ 0
    · rw [if_pos hzero]
      apply ih (m + 1) (by omega)
      apply hnext
      rw [lower_eq_false_iff]
      exact fun hlower => hzero.not_gt hlower.1
    · rw [if_neg hzero]
      by_cases hle : powerAt cpa i ≤ powerAt cpa order[m]
      · rw [if_pos hle]
        apply ih (m + 1) (by omega)
        apply hnext
        rw [lower_eq_false_iff]
        exact fun hlower => hle.not_gt hlower.2
      · rw [if_neg hle]
        have hfound : order.findIdx (lower (Powered cpa) (powerAt cpa) i) = m := by
          rw [findIdx_eq hm]
          exact ⟨(lower_iff _ _).mpr ⟨not_le.mp hzero, not_le.mp hle⟩, hpassed⟩
        rw [hfound]

theorem Holds.rankProtocol {i : ℕ} (h : Holds cpa b order) (hi : order.length = i) :
    Holds cpa (rankProtocol (cpa.entry i) i b)
      (rankInsert (Powered cpa) (powerAt cpa) order i) := by
  rw [Cpa.rankProtocol, rankInsert, ← powerAt]
  by_cases hzero : powerAt cpa i ≤ 0
  · rw [if_pos hzero, if_neg (show ¬ Powered cpa i from not_lt.mpr hzero)]
    exact h.store hi.symm
  · rw [if_neg hzero, if_pos (show Powered cpa i from not_le.mp hzero)]
    have hplace := placeBackup_eq h i order.length 0 (Nat.zero_add _) fun a ha => absurd ha a.not_lt_zero
    rw [hi] at hplace
    rw [hplace]
    generalize hfound : order.findIdx (lower (Powered cpa) (powerAt cpa) i) = m
    have hm : m ≤ order.length := hfound ▸ findIdx_le_length
    intro j hj
    rw [length_insertIdx_of_le_length hm] at hj
    obtain hjm | rfl | hjm := lt_trichotomy j m
    · rw [Backup.store_type_of_ne hjm.ne, Backup.store_power_of_ne hjm.ne, (shiftBackup_apply _ _ _ _).1,
        (shiftBackup_apply _ _ _ _).2, if_neg (by omega), if_neg (by omega),
        getElem_insertIdx_of_lt hjm]
      exact h j (by omega)
    · rw [Backup.store_type_self, Backup.store_power_self, getElem_insertIdx_self]
      exact ⟨rfl, rfl⟩
    · rw [Backup.store_type_of_ne hjm.ne', Backup.store_power_of_ne hjm.ne', (shiftBackup_apply _ _ _ _).1,
        (shiftBackup_apply _ _ _ _).2, if_pos (by omega), if_pos (by omega),
        getElem_insertIdx_of_gt hjm]
      exact h (j - 1) (by omega)

end Order

/-- **The backup arrays.** After `i` rounds they hold the first `i` entries as the insertion orders
them. -/
theorem holds_rankProtocols (cpa : OplusCpa) (i : ℕ) :
    Holds cpa (rankProtocols cpa i) (rankAll (Powered cpa) (powerAt cpa) i) := by
  induction i with
  | zero => exact fun m hm => absurd hm m.not_lt_zero
  | succ i ih => exact ih.rankProtocol (length_rankAll _ _ i)

def selected (cpa : OplusCpa) (protocol : UInt32) : Option ℕ :=
  (rankAll (Powered cpa) (powerAt cpa) chgProtocolMax).find? fun i => Requested protocol (cpa.entry i).type

theorem getHighestPriorityProtocolType_eq (cpa : OplusCpa) (protocol : UInt32) :
    getHighestPriorityProtocolType cpa protocol
      = ((selected cpa protocol).map fun w => (cpa.entry w).type).getD .invalid := by
  have harrays : (List.range chgProtocolMax).map (rankProtocols cpa chgProtocolMax).type
      = (rankAll (Powered cpa) (powerAt cpa) chgProtocolMax).map fun w => (cpa.entry w).type := by
    apply ext_getElem
    · simp
    · intro m hm hm'
      rw [getElem_map, getElem_map, getElem_range]
      exact (holds_rankProtocols cpa chgProtocolMax m (by simpa using hm)).1
  have hfind := congrArg (List.find? fun type => decide (Requested protocol type)) harrays
  rw [List.find?_map, List.find?_map] at hfind
  show _ = (Option.map _ (List.find? ((fun type => decide (Requested protocol type)) ∘ _) _)).getD _
  rw [← hfind, getHighestPriorityProtocolType]
  cases hres : (List.range chgProtocolMax).find?
      fun i => decide (Requested protocol ((rankProtocols cpa chgProtocolMax).type i)) with
  | none => simp [Function.comp_def, hres]
  | some i => simp [Function.comp_def, hres]

/-- The entry `e` without power loses to the entry `w` with power that precedes it or outranks a powered
entry preceding it. -/
def LosesToPower (cpa : OplusCpa) (e w : ℕ) : Prop :=
  Powered cpa w ∧ (w < e ∨ ∃ q < e, Powered cpa q ∧ powerAt cpa q < powerAt cpa w)

def LosesToEarlierOrPower (cpa : OplusCpa) (e w : ℕ) : Prop :=
  (¬ Powered cpa w ∧ w < e) ∨ LosesToPower cpa e w

/-- `type` is the protocol that the ranking selects, where an entry without power only loses to the
entries that `loses` allows. -/
structure Ranks (cpa : OplusCpa) (protocol : UInt32) (loses : ℕ → ℕ → Prop)
    (type : OplusChgProtocolType) : Prop where
  invalid_iff : type = .invalid ↔ ∀ i < chgProtocolMax, ¬ Requested protocol (cpa.entry i).type
  requested : type ≠ .invalid →
    (∃ i < chgProtocolMax, (cpa.entry i).type = type) ∧ Requested protocol type
  greatest : type ≠ .invalid →
    (∀ i < chgProtocolMax, Requested protocol (cpa.entry i).type → Powered cpa i) →
    ∀ w < chgProtocolMax, (cpa.entry w).type = type →
      ∀ i < chgProtocolMax, Requested protocol (cpa.entry i).type → i ≠ w →
        powerAt cpa i < powerAt cpa w ∨ (powerAt cpa i = powerAt cpa w ∧ w < i)
  unpowered : type ≠ .invalid → ∀ w < chgProtocolMax, (cpa.entry w).type = type →
    ∀ e < chgProtocolMax, Requested protocol (cpa.entry e).type → ¬ Powered cpa e → e ≠ w → loses e w

/-- **The ranking.** For every table and every mask: no protocol exactly if none is requested, the
greatest power where all have power, and an entry without power only loses to entries without power that
precede it and to powered ones that precede it or outrank a powered one preceding it. -/
theorem ranks_getHighestPriorityProtocolType (cpa : OplusCpa) (protocol : UInt32) :
    Ranks cpa protocol (LosesToEarlierOrPower cpa) (getHighestPriorityProtocolType cpa protocol) := by
  rw [getHighestPriorityProtocolType_eq]
  cases hsel : selected cpa protocol with
  | none =>
    have hnone : ∀ i < chgProtocolMax, ¬ Requested protocol (cpa.entry i).type := by
      intro i hi
      have := List.find?_eq_none.mp hsel i ((mem_rankAll _ _).mpr hi)
      simpa using this
    exact ⟨⟨fun _ => hnone, fun _ => rfl⟩, fun h => absurd rfl h, fun h => absurd rfl h,
      fun h => absurd rfl h⟩
  | some w =>
    obtain ⟨hw, hp, hbest⟩ := find?_rankAll _ _ hsel
    have hrequested : Requested protocol (cpa.entry w).type := by simpa using hp
    -- no other position has the type, so the statements about the type are about `w`
    have hunique : ∀ v < chgProtocolMax, (cpa.entry v).type = (cpa.entry w).type → v = w :=
      fun v hv heq => (cpa.distinct w hw v hv heq.symm hrequested.1).symm
    refine ⟨⟨fun h => absurd h hrequested.1, fun h => absurd hrequested (h w hw)⟩,
      fun _ => ⟨⟨w, hw, rfl⟩, hrequested⟩, ?_, ?_⟩
    · intro _ hall v hv heq i hi hreq hne
      obtain rfl := hunique v hv heq
      have := hbest i hi (by simpa using hreq) hne
      rw [outranks_ranked (hall v hw hrequested) (hall i hi hreq)] at this
      exact this.imp id fun h => ⟨h.1.symm, h.2⟩
    · intro _ v hv heq e he hreq hzero hne
      obtain rfl := hunique v hv heq
      have := hbest e he (by simpa using hreq) hne
      by_cases hpower : Powered cpa v
      · exact .inr ⟨hpower, (outranks_before_unranked hpower hzero).mp this⟩
      · exact .inl ⟨hpower, (outranks_unranked hpower hzero).mp this⟩

/-- VOOC and UFCS before any power is known, and the default of 10 W. -/
def powerUnknown : OplusCpa where
  protocolPrioTable :=
    [⟨.vooc, 80000, 0⟩, ⟨.ufcs, 44000, 0⟩, ⟨.bc12, 10000, 10000⟩, hole, hole, hole]
  size := rfl
  distinct := by decide

/-- UFCS loses to VOOC, which has no power either. -/
theorem not_ranks_powerUnknown :
    ¬ Ranks powerUnknown 0x18 (LosesToPower powerUnknown)
      (getHighestPriorityProtocolType powerUnknown 0x18) := by
  intro h
  have hvooc : getHighestPriorityProtocolType powerUnknown 0x18 = .vooc := by decide
  rw [hvooc] at h
  have := (h.unpowered (by decide) 0 (by decide) rfl 1 (by decide) (by decide) (by decide) (by decide)).1
  exact absurd this (by decide)

end Cpa
