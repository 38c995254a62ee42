import Sm8750Modules.HwFence.Wait

/-!
# Hardware fences — whose data a client is told

A client with a data id registers a word on a fence, and the fence keeps it in the one slot that there is.
The loop over the waiting clients reads the slot where a client has a data id, and carries the word on to
the clients behind it.
-/

namespace Sm8750Modules.HwFence.DriverData

open List

/-- `clients` has each client under its id, and `hw_fence_get_client_data_id` gives at most one of them a
data id. -/
structure ClientTable (d : DriverData) : Prop where
  clientId : ∀ {id client}, d.clients id = some client → client.clientId = id
  one : ∀ {i j ci cj}, d.clients i = some ci → d.clients j = some cj →
    ci.hasClientData = true → cj.hasClientData = true → i = j

/-- A client registers on an entry that `hw_fence_register_wait_client` has found. -/
def registerData (d : DriverData) (hash : ℕ) (r : ℕ × UInt64) : DriverData :=
  match d.clients r.1 with
  | none => d
  | some client =>
    if r.2 ≠ 0 ∧ client.hasClientData = false then d else (d.registerWait client hash r.2 false).1

def registerAll (d : DriverData) (hash : ℕ) (regs : List (ℕ × UInt64)) : DriverData :=
  regs.foldl (fun d r => d.registerData hash r) d

def hasData (d : DriverData) (id : ℕ) : Bool := (d.clients id).any (·.hasClientData)

/-- A registration is taken over; the creator of a fence does not wait for it. -/
def register (d : DriverData) (hash : ℕ) (reg : ℕ → UInt64) (r : ℕ × UInt64) : ℕ → UInt64 :=
  if r.2 ≠ 0 ∧ d.hasData r.1 = true ∧ (d.tbl hash).fenceAllocator ≠ r.1 then
    Function.update reg r.1 r.2
  else reg

def registered (d : DriverData) (hash : ℕ) (regs : List (ℕ × UInt64)) : ℕ → UInt64 :=
  regs.foldl (d.register hash) fun _ => 0

def rxqWrites (sent : List Notification) : List (ℕ × UInt64) :=
  (sent.filter (·.rxq)).map fun msg => (msg.client, msg.clientData)

/-- Whether the Rx queue of a client is written when a fence is signalled. -/
def writesRxq (d : DriverData) (mask : Finset ℕ) (error : UInt32) (id : ℕ) : Bool :=
  decide (id ∈ mask) && (d.clients id).any fun client =>
    !(error != 0 && client.fenceErrorCb) && (client.signaledUpdateRxq || client.updateRxq) && d.rxqRoom id

/-- The entries of the waiting clients, each with what that client registered. -/
def ownWrites (d : DriverData) (mask : Finset ℕ) (error : UInt32) (reg : ℕ → UInt64) (ids : List ℕ) :
    List (ℕ × UInt64) :=
  (ids.filter (d.writesRxq mask error)).map fun id => (id, reg id)

/-- Each waiting client is told what it has registered. -/
def TellsOwnData (d : DriverData) (hash : ℕ) (mask : Finset ℕ) (error : UInt32) (reg : ℕ → UInt64) :
    Prop :=
  rxqWrites (d.signalAllWaitClients hash mask error).sent =
    rxqWrites d.sent ++ d.ownWrites mask error reg (List.range (d.rxqClientsNum + 1))

variable {d : DriverData} {hash : ℕ} {mask : Finset ℕ} {error : UInt32} {regs : List (ℕ × UInt64)}
  {reg : ℕ → UInt64}

theorem ClientTable.hasData_eq (hd : d.ClientTable) {i j : ℕ} (hi : d.hasData i = true)
    (hj : d.hasData j = true) : i = j := by
  obtain ⟨ci, hci, hi⟩ := (Option.any_eq_true _ _).mp hi
  obtain ⟨cj, hcj, hj⟩ := (Option.any_eq_true _ _).mp hj
  exact hd.one hci hcj hi hj

/-- What a registration leaves as it is. -/
structure SameClients (d d' : DriverData) (hash : ℕ) : Prop where
  clients : d'.clients = d.clients
  rxqClientsNum : d'.rxqClientsNum = d.rxqClientsNum
  rxqRoom : d'.rxqRoom = d.rxqRoom
  fenceAllocator : (d'.tbl hash).fenceAllocator = (d.tbl hash).fenceAllocator

def SlotHolds (d : DriverData) (hash : ℕ) (reg : ℕ → UInt64) : Prop :=
  ∀ id, reg id = if d.hasData id = true then (d.tbl hash).clientData else 0

theorem sameClients_registerData (d : DriverData) (hash : ℕ) (r : ℕ × UInt64) :
    SameClients d (d.registerData hash r) hash := by
  unfold registerData
  cases d.clients r.1 with
  | none => exact ⟨rfl, rfl, rfl, rfl⟩
  | some client =>
    by_cases hrefused : r.2 ≠ 0 ∧ client.hasClientData = false
    · simp only [if_pos hrefused]
      exact ⟨rfl, rfl, rfl, rfl⟩
    · simp only [if_neg hrefused, registerWait]
      split <;> exact ⟨rfl, rfl, rfl, by simp [setFence]⟩

theorem SlotHolds.registerData (hd : d.ClientTable) (h : d.SlotHolds hash reg) (r : ℕ × UInt64) :
    (d.registerData hash r).SlotHolds hash (d.register hash reg r) := by
  have hsame := (sameClients_registerData d hash r).clients
  intro id
  have hdata : (d.registerData hash r).hasData id = d.hasData id := by simp [hasData, hsame]
  rw [hdata]
  by_cases htaken : r.2 ≠ 0 ∧ d.hasData r.1 = true ∧ (d.tbl hash).fenceAllocator ≠ r.1
  · obtain ⟨hr, hhas, halloc⟩ := htaken
    obtain ⟨client, hclient, hc⟩ := (Option.any_eq_true _ _).mp hhas
    have hslot : ((d.registerData hash r).tbl hash).clientData = r.2 := by
      have hid := hd.clientId hclient
      simp [DriverData.registerData, hclient, hc, registerWait, hid, halloc, setFence, hr]
    rw [hslot, register, if_pos ⟨hr, hhas, halloc⟩]
    by_cases hid : id = r.1
    · subst hid
      simp [hhas]
    · have hno : d.hasData id = false := by
        by_contra hyes
        exact hid (hd.hasData_eq (by simpa using hyes) hhas)
      simp [Function.update_of_ne hid, hno, h id]
  · have hslot : ((d.registerData hash r).tbl hash).clientData = (d.tbl hash).clientData := by
      unfold DriverData.registerData
      cases hclient : d.clients r.1 with
      | none => rfl
      | some client =>
        have hid := hd.clientId hclient
        by_cases hzero : r.2 = 0
        · simp only [hzero, ne_eq, not_true_eq_false, false_and, if_false, registerWait]
          split <;> simp [setFence]
        · cases hc : client.hasClientData with
          | false => simp [hzero, hc]
          | true =>
            have halloc : (d.tbl hash).fenceAllocator = r.1 := by
              by_contra hne
              exact htaken ⟨hzero, by simp [hasData, hclient, hc], hne⟩
            simp [hc, registerWait, hid, halloc, setFence]
    rw [hslot, register, if_neg htaken]
    exact h id

theorem registerAll_spec (hd : d.ClientTable) (hslot : (d.tbl hash).clientData = 0) :
    SameClients d (d.registerAll hash regs) hash ∧
      (d.registerAll hash regs).SlotHolds hash (d.registered hash regs) := by
  induction regs using List.reverseRecOn with
  | nil =>
    refine ⟨⟨rfl, rfl, rfl, rfl⟩, fun id => ?_⟩
    simp [registered, registerAll, hslot]
  | append_singleton regs r ih =>
    obtain ⟨hsame, hholds⟩ := ih
    have hstep := sameClients_registerData (d.registerAll hash regs) hash r
    have htable : (d.registerAll hash regs).ClientTable := by
      refine ⟨fun hc => ?_, fun hi hj => ?_⟩
      · rw [hsame.clients] at hc
        exact hd.clientId hc
      · rw [hsame.clients] at hi hj
        exact hd.one hi hj
    have hregister : (d.registerAll hash regs).register hash (d.registered hash regs) r =
        d.registered hash (regs ++ [r]) := by
      have hat : (d.registerAll hash regs).register hash = d.register hash := by
        funext reg r
        simp only [register, hasData, hsame.clients, hsame.fenceAllocator]
        congr
      rw [hat]
      simp [registered]
    have hall : d.registerAll hash (regs ++ [r]) = (d.registerAll hash regs).registerData hash r := by
      simp [registerAll]
    rw [hall, ← hregister]
    exact ⟨⟨hstep.clients.trans hsame.clients, hstep.rxqClientsNum.trans hsame.rxqClientsNum,
      hstep.rxqRoom.trans hsame.rxqRoom, hstep.fenceAllocator.trans hsame.fenceAllocator⟩,
      hholds.registerData htable r⟩

/-! ### The loop over the clients -/

def carried (d : DriverData) (hash : ℕ) (mask : Finset ℕ) (id : ℕ) (clientData : UInt64) : UInt64 :=
  if id ∈ mask ∧ d.hasData id = true then (d.tbl hash).clientData else clientData

def loopWrites (d : DriverData) (hash : ℕ) (mask : Finset ℕ) (error : UInt32) :
    List ℕ → UInt64 → List (ℕ × UInt64)
  | [], _ => []
  | id :: rest, clientData =>
    let clientData := d.carried hash mask id clientData
    (if d.writesRxq mask error id then [(id, clientData)] else []) ++
      loopWrites d hash mask error rest clientData

theorem rxqWrites_append (s t : List Notification) : rxqWrites (s ++ t) = rxqWrites s ++ rxqWrites t := by
  simp [rxqWrites]

theorem fenceCtlSignal_spec {id : ℕ} {client : Client} (hclient : d.clients id = some client)
    (hid : client.clientId = id) (hmask : id ∈ mask) (data : UInt64) :
    ∃ msgs, rxqWrites msgs = (if d.writesRxq mask error id then [(id, data)] else []) ∧
      ∀ sent, ({ d with sent := sent }.fenceCtlSignal client hash data error false).1 =
        { d with sent := sent ++ msgs } := by
  by_cases hcb : error ≠ 0 ∧ client.fenceErrorCb = true
  · refine ⟨_, ?_, fun sent => by rw [fenceCtlSignal, if_pos hcb]⟩
    simp [rxqWrites, writesRxq, hclient, hcb]
  · by_cases hrxq : (client.signaledUpdateRxq || client.updateRxq) = true
    · cases hroom : d.rxqRoom id with
      | false =>
        refine ⟨[], ?_, fun sent => ?_⟩
        · simp [rxqWrites, writesRxq, hclient, hroom]
        · simp [fenceCtlSignal, hcb, hid, hroom, hrxq]
      | true =>
        refine ⟨[⟨id, hash, error, data, false, true, true⟩], ?_, fun sent => ?_⟩
        · simpa [rxqWrites, writesRxq, hclient, hmask, hroom, hrxq] using hcb
        · simp [fenceCtlSignal, hcb, hid, hroom, hrxq]
    · refine ⟨[⟨id, hash, error, data, false, false, true⟩], ?_, fun sent => ?_⟩
      · simp [rxqWrites, writesRxq, hclient, hrxq]
      · simp [fenceCtlSignal, hcb, hid, hrxq]

theorem signalWaitClients_spec (hd : d.ClientTable) (ids : List ℕ) (data : UInt64) :
    ∃ msgs, rxqWrites msgs = d.loopWrites hash mask error ids data ∧
      ∀ sent, { d with sent := sent }.signalWaitClients hash mask error ids data =
        { d with sent := sent ++ msgs } := by
  induction ids generalizing data with
  | nil => exact ⟨[], by simp [rxqWrites, loopWrites], fun sent => by simp [signalWaitClients]⟩
  | cons id rest ih =>
    by_cases hmask : id ∈ mask
    · cases hclient : d.clients id with
      | none =>
        obtain ⟨msgs, hmsgs, hrest⟩ := ih data
        refine ⟨msgs, ?_, fun sent => ?_⟩
        · simp [loopWrites, writesRxq, carried, hasData, hclient, hmsgs]
        · simp [signalWaitClients, hmask, hclient, hrest]
      | some client =>
        have hcarried : d.carried hash mask id data =
            if client.hasClientData then (d.tbl hash).clientData else data := by
          simp [carried, hasData, hclient, hmask]
        obtain ⟨first, hfirst, hsignal⟩ := @fenceCtlSignal_spec d hash mask error id client hclient
          (hd.clientId hclient) hmask (d.carried hash mask id data)
        obtain ⟨msgs, hmsgs, hrest⟩ := ih (d.carried hash mask id data)
        refine ⟨first ++ msgs, ?_, fun sent => ?_⟩
        · rw [rxqWrites_append, hfirst, hmsgs, loopWrites]
        · simp only [signalWaitClients, if_pos hmask, hclient, ← hcarried]
          rw [hsignal, hrest, append_assoc]
    · obtain ⟨msgs, hmsgs, hrest⟩ := ih data
      refine ⟨msgs, ?_, fun sent => ?_⟩
      · simp [loopWrites, writesRxq, carried, hmask, hmsgs]
      · simp [signalWaitClients, hmask, hrest]

theorem loopWrites_cons_eq_iff (id : ℕ) (rest : List ℕ) (data : UInt64) :
    d.loopWrites hash mask error (id :: rest) data = d.ownWrites mask error reg (id :: rest) ↔
      (d.writesRxq mask error id = true → d.carried hash mask id data = reg id) ∧
      d.loopWrites hash mask error rest (d.carried hash mask id data) =
        d.ownWrites mask error reg rest := by
  cases hw : d.writesRxq mask error id with
  | false => simp [loopWrites, ownWrites, hw]
  | true => simp [loopWrites, ownWrites, hw]

/-- **The loop** goes wrong at a client without a data id once the word at hand is not zero, which is from
the client with one on. -/
theorem loopWrites_eq_iff (hslot : d.SlotHolds hash reg) {ids : List ℕ} {data : UInt64}
    (hdata : data = 0 ∨ data = (d.tbl hash).clientData) :
    d.loopWrites hash mask error ids data = d.ownWrites mask error reg ids ↔
      (data ≠ 0 → ∀ j ∈ ids, d.writesRxq mask error j = true → d.hasData j = true) ∧
      ids.Pairwise fun i j => i ∈ mask → d.hasData i = true → reg i ≠ 0 →
        d.writesRxq mask error j = true → d.hasData j = true := by
  induction ids generalizing data with
  | nil => simp [loopWrites, ownWrites]
  | cons id rest ih =>
    rw [loopWrites_cons_eq_iff, pairwise_cons]
    by_cases hat : id ∈ mask ∧ d.hasData id = true
    · obtain ⟨hmask, hhas⟩ := hat
      have hreg : reg id = (d.tbl hash).clientData := by simp [hslot id, hhas]
      have hcarried : d.carried hash mask id data = reg id := by simp [carried, hmask, hhas, hreg]
      rw [hcarried, ih (Or.inr hreg)]
      constructor
      · intro ⟨_, hrest, hpair⟩
        refine ⟨fun hne j hj hw => ?_, fun j hj _ _ hne hw => hrest hne j hj hw, hpair⟩
        rcases mem_cons.mp hj with hj | hj
        · rw [hj]
          exact hhas
        · have hne' : reg id ≠ 0 := by
            rcases hdata with hdata | hdata
            · exact absurd hdata hne
            · rw [hreg, ← hdata]
              exact hne
          exact hrest hne' j hj hw
      · intro ⟨_, hhead, hpair⟩
        exact ⟨fun _ => rfl, fun hne j hj hw => hhead j hj hmask hhas hne hw, hpair⟩
    · have hcarried : d.carried hash mask id data = data := by
        rw [carried, if_neg hat]
      rw [hcarried, ih hdata]
      have hhead : (d.writesRxq mask error id = true → data = reg id) ↔
          (data ≠ 0 → d.writesRxq mask error id = true → d.hasData id = true) := by
        by_cases hw : d.writesRxq mask error id = true
        · have hmask : id ∈ mask := by
            simp only [writesRxq, Bool.and_eq_true, decide_eq_true_eq] at hw
            exact hw.1
          have hhas : d.hasData id = false := by
            by_contra hyes
            exact hat ⟨hmask, by simpa using hyes⟩
          simp [hw, hhas, hslot id]
        · simp [hw]
      rw [hhead]
      constructor
      · intro ⟨hid, hrest, hpair⟩
        refine ⟨fun hne j hj hw => ?_, fun j _ hmask hhas => absurd ⟨hmask, hhas⟩ hat, hpair⟩
        rcases mem_cons.mp hj with hj | hj
        · rw [hj]
          exact hid hne (by rw [← hj]; exact hw)
        · exact hrest hne j hj hw
      · intro ⟨hall, _, hpair⟩
        exact ⟨fun hne hw => hall hne id (by simp) hw,
          fun hne j hj hw => hall hne j (by simp [hj]) hw, hpair⟩

theorem tellsOwnData_iff_loopWrites (hd : d.ClientTable) :
    d.TellsOwnData hash mask error reg ↔
      d.loopWrites hash mask error (List.range (d.rxqClientsNum + 1)) 0 =
        d.ownWrites mask error reg (List.range (d.rxqClientsNum + 1)) := by
  obtain ⟨msgs, hmsgs, hloop⟩ := @signalWaitClients_spec d hash mask error hd
    (List.range (d.rxqClientsNum + 1)) 0
  have hsent : (d.signalAllWaitClients hash mask error).sent = d.sent ++ msgs := by
    rw [signalAllWaitClients, hloop d.sent]
  rw [TellsOwnData, hsent, rxqWrites_append, hmsgs, append_cancel_left_eq]

theorem SameClients.clientTable {d' : DriverData} (h : SameClients d d' hash) (hd : d.ClientTable) :
    d'.ClientTable := by
  refine ⟨fun hc => ?_, fun hi hj => ?_⟩
  · rw [h.clients] at hc
    exact hd.clientId hc
  · rw [h.clients] at hi hj
    exact hd.one hi hj

/-- **Each waiting client is told its own data iff** no client without a data id, whose Rx queue is
written, stands behind a waiting client that has registered data. -/
theorem tellsOwnData_iff (hd : d.ClientTable) (hslot : (d.tbl hash).clientData = 0) :
    (d.registerAll hash regs).TellsOwnData hash mask error (d.registered hash regs) ↔
      ∀ i j, i < j → j ≤ d.rxqClientsNum → i ∈ mask → d.registered hash regs i ≠ 0 →
        d.writesRxq mask error j = false := by
  obtain ⟨hsame, hholds⟩ := @registerAll_spec d hash regs hd hslot
  have hhas : ∀ id, (d.registerAll hash regs).hasData id = d.hasData id := by
    simp [hasData, hsame.clients]
  have hwrites : ∀ id, (d.registerAll hash regs).writesRxq mask error id = d.writesRxq mask error id := by
    simp [writesRxq, hsame.clients, hsame.rxqRoom]
  have hregistered : ∀ id, d.registered hash regs id ≠ 0 → d.hasData id = true := by
    intro id hne
    by_contra hno
    exact hne (by rw [hholds id, hhas, if_neg hno])
  rw [tellsOwnData_iff_loopWrites (hsame.clientTable hd), loopWrites_eq_iff hholds (Or.inl rfl)]
  simp only [ne_eq, not_true_eq_false, false_implies, true_and, hhas, hwrites, hsame.rxqClientsNum]
  constructor
  · intro hpair i j hij hj hmask hne
    have hpairs := pairwise_iff_getElem.mp hpair i j (by simp; omega) (by simp; omega) hij
    simp only [getElem_range] at hpairs
    by_contra hw
    have hhasj := hpairs hmask (hregistered i hne) hne (by simpa using hw)
    exact absurd (hd.hasData_eq (hregistered i hne) hhasj) (by omega)
  · intro hall
    refine pairwise_iff_getElem.mpr fun i j hi hj hij => ?_
    simp only [getElem_range]
    simp only [length_range] at hj
    intro hmask _ hne hw
    rw [hall i j hij (by omega) hmask hne] at hw
    cases hw

def twoClients : DriverData :=
  init 1 (by decide)
    (fun id => if id = 1 then some { clientId := 1, hasClientData := true }
      else if id = 2 then some { clientId := 2 } else none) 2

theorem clientTable_twoClients : twoClients.ClientTable := by
  refine ⟨fun {id client} hc => ?_, fun {i j ci cj} hi hj hci hcj => ?_⟩
  · simp only [twoClients, init] at hc
    split at hc
    · cases hc
      simp_all
    · split at hc
      · cases hc
        simp_all
      · cases hc
  · have hone : ∀ {id client}, twoClients.clients id = some client → client.hasClientData = true →
        id = 1 := by
      intro id client hc hdata
      simp only [twoClients, init] at hc
      split at hc
      · assumption
      · split at hc <;> cases hc
        cases hdata
    rw [hone hi hci, hone hj hcj]

theorem tellsOwnData_iff_twoClients :
    (twoClients.registerAll 0 [(1, 5)]).TellsOwnData 0 {1, 2} 0 (twoClients.registered 0 [(1, 5)]) ↔
      ∀ i j, i < j → j ≤ twoClients.rxqClientsNum → i ∈ ({1, 2} : Finset ℕ) →
        twoClients.registered 0 [(1, 5)] i ≠ 0 → twoClients.writesRxq {1, 2} 0 j = false :=
  tellsOwnData_iff clientTable_twoClients rfl

/-- The second client is told the word that the first one registered. -/
theorem not_tellsOwnData : ¬∀ (d : DriverData) (hash : ℕ) (mask : Finset ℕ) (error : UInt32)
    (regs : List (ℕ × UInt64)), d.ClientTable → (d.tbl hash).clientData = 0 →
    (d.registerAll hash regs).TellsOwnData hash mask error (d.registered hash regs) := by
  intro hall
  have htells := hall twoClients 0 {1, 2} 0 [(1, 5)] clientTable_twoClients rfl
  have hwritten : rxqWrites ((twoClients.registerAll 0 [(1, 5)]).signalAllWaitClients 0 {1, 2} 0).sent =
      [(1, 5), (2, 5)] := by decide
  rw [TellsOwnData, hwritten] at htells
  revert htells
  decide

end Sm8750Modules.HwFence.DriverData
