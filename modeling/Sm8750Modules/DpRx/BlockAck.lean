import Sm8750Modules.Lib.Runs

/-!
# Block-ack sessions of a receiving peer

A peer has a receive state for each TID.
-/

namespace DpRx

open Runs

/-! ## Data -/

/-- `enum cdp_dp_rx_ba_status` of a TID. -/
inductive BaStatus where
  | inactive
  | active
  | inProgress
  deriving DecidableEq, Repr

abbrev maxTids : ℕ := 17

def maxDelbaRetry : ℕ := 3

def rxBaSessionDisable : ℕ := 1

def statusSuccess : ℕ := 0
def statusRefused : ℕ := 37

def reasonQosSetupRequired : ℕ := 38

/-- `struct dp_rx_tid`: the fields of the block-ack session. -/
structure RxTid where
  baStatus : BaStatus := .inactive
  baWinSize : ℕ := 1
  hwQdesc : Bool := true
  delbaTxStatus : Bool := false
  delbaTxRetry : ℕ := 0
  delbaRcode : ℕ := 0
  rxBaWinSizeOverride : ℕ := 0
  dialogtoken : ℕ := 0
  startseqnum : ℕ := 0
  statuscode : ℕ := 0
  userstatuscode : ℕ := 0

structure Peer where
  rxTid : Fin maxTids → RxTid
  activeBaSessionCnt : ℕ := 0
  hwBufferSize : ℕ := 0
  kill256Sessions : Bool := false

/-- The chip: from which TID on the peer has one buffer size, and the largest window, which is 256 or 1024. -/
structure Soc where
  perTidBasizeMaxTid : ℕ
  rxMaxBaWindow : ℕ → ℕ
  rxMaxBaWindow_le : ∀ tid, rxMaxBaWindow tid ≤ 1024

/-- What a call finds: the default route, a roaming station, memory for a queue descriptor, and the firmware
accepting the queue. -/
structure Env where
  isDefaultRouteSet : Bool := true
  roamingInProgress : Bool := false
  allocOk : Bool := true
  queueSetupOk : Bool := true

def RxTid.Live (r : RxTid) : Prop := r.baStatus ≠ .inactive
deriving Decidable

def Peer.setTid (p : Peer) (tid : Fin maxTids) (r : RxTid) : Peer :=
  { p with rxTid := Function.update p.rxTid tid r }

def Peer.incSessions (p : Peer) : Peer := { p with activeBaSessionCnt := (p.activeBaSessionCnt + 1) % 65536 }
def Peer.decSessions (p : Peer) : Peer :=
  { p with activeBaSessionCnt := (p.activeBaSessionCnt + 65535) % 65536 }

/-- `dp_rx_tid_update_wifi3`: the window of a queue that exists. -/
def rxTidUpdate (r : RxTid) (baWindowSize : ℕ) : RxTid := { r with baWinSize := baWindowSize }

/-- `dp_rx_tid_setup_wifi3` for one TID, and whether it succeeded. -/
def rxTidSetup (env : Env) (r : RxTid) (baWindowSize : ℕ) : RxTid × Bool :=
  if env.isDefaultRouteSet = false then (r, false)
  else if r.hwQdesc = true then
    (rxTidUpdate { r with baWinSize := baWindowSize } baWindowSize, !env.roamingInProgress)
  else
    let r := { r with baWinSize := baWindowSize, delbaTxStatus := false, statuscode := 0 }
    if env.allocOk = true ∧ env.roamingInProgress = false ∧ env.queueSetupOk = true then
      ({ r with hwQdesc := true }, true)
    else (r, false)

/-- `dp_check_ba_buffersize`: the window of a request, latched onto the size of the first active session. -/
def checkBaBuffersize (soc : Soc) (p : Peer) (tid : Fin maxTids) (buffersize : ℕ) : Peer :=
  let buffersize := min buffersize (soc.rxMaxBaWindow tid)
  let accept := p.setTid tid { p.rxTid tid with baWinSize := buffersize }
  if soc.perTidBasizeMaxTid ≠ 0 ∧ tid < soc.perTidBasizeMaxTid then accept
  else if p.activeBaSessionCnt = 0 then accept
  else if p.hwBufferSize = 64 then
    if buffersize ≤ 64 then accept else p.setTid tid { p.rxTid tid with baWinSize := p.hwBufferSize }
  else if p.hwBufferSize = 256 then
    if 64 < buffersize then accept else { accept with hwBufferSize := 64, kill256Sessions := true }
  else if buffersize ≤ 1024 then accept
  else p -- `qdf_assert_always(0)`, which no chip reaches

/-- One turn of the loop of `dp_teardown_256_ba_sessions`. -/
def teardown256BaSession (r : RxTid) : RxTid :=
  if r.baWinSize ≤ 64 then r
  else if r.baStatus = .active ∨ r.baStatus = .inProgress then
    if r.delbaTxStatus = false then
      { r with delbaTxRetry := r.delbaTxRetry + 1, delbaTxStatus := true, delbaRcode := reasonQosSetupRequired }
    else r
  else r

/-- `dp_teardown_256_ba_sessions`: the TIDs that share a buffer size. -/
def teardown256BaSessions (soc : Soc) (p : Peer) : Peer :=
  { p with rxTid := fun tid =>
      if soc.perTidBasizeMaxTid ≤ tid then teardown256BaSession (p.rxTid tid) else p.rxTid tid }

/-! ## The calls -/

def endActiveSession (p : Peer) (tid : Fin maxTids) : Peer :=
  if (p.rxTid tid).baStatus = .active ∧ (p.rxTid tid).hwQdesc = true then
    (p.setTid tid { rxTidUpdate (p.rxTid tid) 1 with baStatus := .inactive }).decSessions
  else p

/-- The window that a request asks for, which the user may have overridden. -/
def RxTid.requested (r : RxTid) (buffersize : ℕ) : ℕ :=
  if r.rxBaWinSizeOverride = rxBaSessionDisable then 1
  else if r.rxBaWinSizeOverride ≠ 0 then r.rxBaWinSizeOverride
  else buffersize

def RxTid.responseStatus (r : RxTid) : ℕ :=
  if r.rxBaWinSizeOverride = rxBaSessionDisable then statusRefused
  else if r.userstatuscode ≠ statusSuccess then r.userstatuscode
  else statusSuccess

/-- `dp_addba_requestprocess_wifi3`, and whether it accepts the request. -/
def addbaRequestProcess (soc : Soc) (env : Env) (p : Peer) (tid : Fin maxTids)
    (dialogtoken buffersize startseqnum : ℕ) : Peer × Bool :=
  let p := endActiveSession p tid
  if (p.rxTid tid).baStatus = .inProgress then (p, false)
  else
    let p := checkBaBuffersize soc p tid ((p.rxTid tid).requested buffersize)
    let (r, ok) := rxTidSetup env (p.rxTid tid) (p.rxTid tid).baWinSize
    if ok = false then (p.setTid tid { r with baStatus := .inactive }, false)
    else
      (p.setTid tid { r with
        baStatus := .inProgress, dialogtoken := dialogtoken, startseqnum := startseqnum,
        statuscode := r.responseStatus }, true)

/-- The buffer size that the first session of a peer latches. -/
def latchedSize (baWinSize : ℕ) : ℕ :=
  if 64 < baWinSize ∧ baWinSize ≤ 256 then 256
  else if baWinSize ≤ 1024 ∧ 256 < baWinSize then 1024
  else 64

/-- The part of `dp_addba_resp_tx_completion_wifi3` under the TID lock for a response that was sent. -/
def activate (p : Peer) (tid : Fin maxTids) : Peer :=
  let r := rxTidUpdate (p.rxTid tid) (p.rxTid tid).baWinSize
  let hwBufferSize := if p.activeBaSessionCnt = 0 then latchedSize r.baWinSize else p.hwBufferSize
  ({ p with hwBufferSize := hwBufferSize }.setTid tid { r with baStatus := .active }).incSessions

def addbaRespTxCompletion (soc : Soc) (env : Env) (p : Peer) (tid : Fin maxTids) (failed : Bool) : Peer :=
  let r := p.rxTid tid
  if failed = true then
    let r := if r.hwQdesc = true then rxTidUpdate r 1 else r
    p.setTid tid { r with baStatus := .inactive }
  else if r.baStatus = .inactive then p
  else if env.isDefaultRouteSet = false then p
  else
    let p := activate p tid
    if p.kill256Sessions = true then { teardown256BaSessions soc p with kill256Sessions := false } else p

/-- `dp_delba_process_wifi3`: the other side ends the session. -/
def delbaProcess (p : Peer) (tid : Fin maxTids) (reasoncode : ℕ) : Peer :=
  let r := p.rxTid tid
  if r.baStatus = .inactive ∨ r.baStatus = .inProgress then p
  else
    (p.setTid tid { rxTidUpdate r 1 with delbaRcode := reasoncode, baStatus := .inactive }).decSessions

/-- `dp_delba_tx_completion_wifi3`. -/
def delbaTxCompletion (p : Peer) (tid : Fin maxTids) (failed : Bool) : Peer :=
  let r := p.rxTid tid
  if failed = true then
    if maxDelbaRetry ≤ r.delbaTxRetry then
      p.setTid tid { r with delbaTxRetry := 0, delbaTxStatus := false }
    else p.setTid tid { r with delbaTxRetry := r.delbaTxRetry + 1, delbaTxStatus := true }
  else
    let r := { r with delbaTxRetry := 0, delbaTxStatus := false }
    match r.baStatus with
    | .active => (p.setTid tid { rxTidUpdate r 1 with baStatus := .inactive }).decSessions
    | .inProgress => p.setTid tid { rxTidUpdate r 1 with baStatus := .inactive }
    | .inactive => p.setTid tid r

/-- A peer and the responses to its accepted requests whose transmission has not completed. -/
structure State where
  peer : Peer
  responses : Fin maxTids → ℕ := fun _ => 0

/-- The calls. -/
inductive Action where
  | addbaRequestProcess (env : Env) (tid : Fin maxTids) (dialogtoken buffersize startseqnum : ℕ)
  | addbaRespTxCompletion (env : Env) (tid : Fin maxTids) (failed : Bool)
  | delbaProcess (tid : Fin maxTids) (reasoncode : ℕ)
  | delbaTxCompletion (tid : Fin maxTids) (failed : Bool)

def guard (s : State) : Action → Prop
  | .addbaRespTxCompletion _ tid _ => 0 < s.responses tid
  | _ => True

instance (s : State) (a : Action) : Decidable (guard s a) := by
  cases a <;> dsimp only [guard] <;> infer_instance

def next (soc : Soc) (s : State) : Action → State
  | .addbaRequestProcess env tid dialogtoken buffersize startseqnum =>
    let (peer, accepted) := addbaRequestProcess soc env s.peer tid dialogtoken buffersize startseqnum
    { peer := peer
      responses := if accepted = true then Function.update s.responses tid (s.responses tid + 1)
        else s.responses }
  | .addbaRespTxCompletion env tid failed =>
    { peer := addbaRespTxCompletion soc env s.peer tid failed
      responses := Function.update s.responses tid (s.responses tid - 1) }
  | .delbaProcess tid reasoncode => { s with peer := delbaProcess s.peer tid reasoncode }
  | .delbaTxCompletion tid failed => { s with peer := delbaTxCompletion s.peer tid failed }

/-- `dp_peer_rx_init`: no session on any TID. -/
structure Initial (s : State) : Prop where
  baStatus : ∀ tid, (s.peer.rxTid tid).baStatus = .inactive
  delbaTxStatus : ∀ tid, (s.peer.rxTid tid).delbaTxStatus = false
  delbaTxRetry : ∀ tid, (s.peer.rxTid tid).delbaTxRetry = 0
  activeBaSessionCnt : s.peer.activeBaSessionCnt = 0
  hwBufferSize : s.peer.hwBufferSize = 0
  kill256Sessions : s.peer.kill256Sessions = false
  responses : ∀ tid, s.responses tid = 0

/-- The calls on a peer, in any order. -/
def machine (soc : Soc) : Machine State Action where
  init := Initial
  guard := guard
  next := next soc

/-! ## The counter -/

variable {soc : Soc} {env : Env} {p : Peer} {tid : Fin maxTids} {r : RxTid}

@[simp] theorem setTid_self : (p.setTid tid r).rxTid tid = r := Function.update_self ..

theorem setTid_of_ne {t : Fin maxTids} (h : t ≠ tid) : (p.setTid tid r).rxTid t = p.rxTid t :=
  Function.update_of_ne h ..

@[simp] theorem decSessions_rxTid : p.decSessions.rxTid = p.rxTid := by rw [Peer.decSessions]
@[simp] theorem incSessions_rxTid : p.incSessions.rxTid = p.rxTid := rfl

def Peer.activeTids (p : Peer) : Finset (Fin maxTids) :=
  Finset.univ.filter fun tid => (p.rxTid tid).baStatus = .active

def Peer.Counted (p : Peer) : Prop := p.activeBaSessionCnt = p.activeTids.card
deriving Decidable

/-- The counter is right, and a session that is live has its queue descriptor. -/
structure Inv (p : Peer) : Prop where
  counted : p.Counted
  hwQdesc : ∀ tid, (p.rxTid tid).Live → (p.rxTid tid).hwQdesc = true

theorem card_activeTids_le (p : Peer) : p.activeTids.card ≤ 17 :=
  (Finset.card_le_univ _).trans_eq (Fintype.card_fin _)

theorem mem_activeTids : tid ∈ p.activeTids ↔ (p.rxTid tid).baStatus = .active := by
  simp [Peer.activeTids]

@[simp] theorem decSessions_activeTids : p.decSessions.activeTids = p.activeTids := by
  rw [Peer.activeTids, Peer.activeTids, decSessions_rxTid]

@[simp] theorem incSessions_activeTids : p.incSessions.activeTids = p.activeTids := by
  rw [Peer.activeTids, Peer.activeTids, incSessions_rxTid]

theorem activeTids_setTid_of_iff (h : r.baStatus = .active ↔ (p.rxTid tid).baStatus = .active) :
    (p.setTid tid r).activeTids = p.activeTids := by
  ext t
  rw [mem_activeTids, mem_activeTids]
  by_cases ht : t = tid
  · rw [ht, setTid_self, h]
  · rw [setTid_of_ne ht]

theorem activeTids_setTid_ended (h : r.baStatus ≠ .active) :
    (p.setTid tid r).activeTids = p.activeTids.erase tid := by
  ext t
  rw [Finset.mem_erase, mem_activeTids, mem_activeTids]
  by_cases ht : t = tid
  · rw [ht, setTid_self]
    simp [h]
  · rw [setTid_of_ne ht]
    simp [ht]

theorem activeTids_setTid_started (h : r.baStatus = .active) :
    (p.setTid tid r).activeTids = insert tid p.activeTids := by
  ext t
  rw [Finset.mem_insert, mem_activeTids, mem_activeTids]
  by_cases ht : t = tid
  · rw [ht, setTid_self]
    simp [h]
  · rw [setTid_of_ne ht]
    simp [ht]

theorem Inv.setTid (h : Inv p) (hiff : r.baStatus = .active ↔ (p.rxTid tid).baStatus = .active)
    (hqdesc : r.Live → r.hwQdesc = true) : Inv (p.setTid tid r) where
  counted := by
    rw [Peer.Counted, activeTids_setTid_of_iff hiff]
    exact h.counted
  hwQdesc := by
    intro t
    by_cases ht : t = tid
    · rw [ht, setTid_self]
      exact hqdesc
    · rw [setTid_of_ne ht]
      exact h.hwQdesc t

theorem Inv.ended (h : Inv p) (hactive : (p.rxTid tid).baStatus = .active) (hr : r.baStatus = .inactive) :
    Inv (p.setTid tid r).decSessions where
  counted := by
    have hmem : tid ∈ p.activeTids := mem_activeTids.mpr hactive
    have hpos : 0 < p.activeTids.card := Finset.card_pos.mpr ⟨tid, hmem⟩
    have hle := card_activeTids_le p
    have hcard : (p.setTid tid r).decSessions.activeTids.card = p.activeTids.card - 1 := by
      have hr' : r.baStatus ≠ .active := by
        rw [hr]
        exact nofun
      rw [decSessions_activeTids, activeTids_setTid_ended hr', Finset.card_erase_of_mem hmem]
    have hcnt : p.activeBaSessionCnt = p.activeTids.card := h.counted
    rw [Peer.Counted, hcard]
    show (p.activeBaSessionCnt + 65535) % 65536 = _
    omega
  hwQdesc := by
    intro t
    rw [decSessions_rxTid]
    by_cases ht : t = tid
    · rw [ht, setTid_self]
      exact fun hlive => absurd hr hlive
    · rw [setTid_of_ne ht]
      exact h.hwQdesc t

theorem Inv.started (h : Inv p) (hinactive : (p.rxTid tid).baStatus ≠ .active) (hr : r.baStatus = .active)
    (hqdesc : r.hwQdesc = true) : Inv (p.setTid tid r).incSessions where
  counted := by
    have hmem : tid ∉ p.activeTids := fun hmem => hinactive (mem_activeTids.mp hmem)
    have hcard : (p.setTid tid r).incSessions.activeTids.card = p.activeTids.card + 1 := by
      rw [incSessions_activeTids, activeTids_setTid_started hr, Finset.card_insert_of_notMem hmem]
    have hle := card_activeTids_le (p.setTid tid r).incSessions
    have hcnt : p.activeBaSessionCnt = p.activeTids.card := h.counted
    rw [hcard] at hle
    rw [Peer.Counted, hcard]
    show (p.activeBaSessionCnt + 1) % 65536 = _
    omega
  hwQdesc := by
    intro t
    rw [incSessions_rxTid]
    by_cases ht : t = tid
    · rw [ht, setTid_self]
      exact fun _ => hqdesc
    · rw [setTid_of_ne ht]
      exact h.hwQdesc t

theorem Inv.congr {p' : Peer} (h : Inv p) (hcnt : p'.activeBaSessionCnt = p.activeBaSessionCnt)
    (hstatus : ∀ t, (p'.rxTid t).baStatus = (p.rxTid t).baStatus)
    (hqdesc : ∀ t, (p'.rxTid t).hwQdesc = (p.rxTid t).hwQdesc) : Inv p' where
  counted := by
    have hactive : p'.activeTids = p.activeTids := by
      ext t
      rw [mem_activeTids, mem_activeTids, hstatus]
    rw [Peer.Counted, hcnt, hactive]
    exact h.counted
  hwQdesc := by
    intro t hlive
    rw [RxTid.Live, hstatus] at hlive
    rw [hqdesc]
    exact h.hwQdesc t hlive

theorem teardown256BaSession_fields (r : RxTid) :
    (teardown256BaSession r).baStatus = r.baStatus ∧ (teardown256BaSession r).hwQdesc = r.hwQdesc ∧
      (teardown256BaSession r).baWinSize = r.baWinSize := by
  rw [teardown256BaSession]
  split_ifs <;> exact ⟨rfl, rfl, rfl⟩

theorem teardown256BaSessions_rxTid (soc : Soc) (p : Peer) (t : Fin maxTids) :
    (teardown256BaSessions soc p).rxTid t = p.rxTid t ∨
      (teardown256BaSessions soc p).rxTid t = teardown256BaSession (p.rxTid t) := by
  rw [teardown256BaSessions]
  by_cases h : soc.perTidBasizeMaxTid ≤ t
  · exact Or.inr (if_pos h)
  · exact Or.inl (if_neg h)

theorem teardown256BaSessions_fields (soc : Soc) (p : Peer) (t : Fin maxTids) :
    ((teardown256BaSessions soc p).rxTid t).baStatus = (p.rxTid t).baStatus ∧
      ((teardown256BaSessions soc p).rxTid t).hwQdesc = (p.rxTid t).hwQdesc ∧
      ((teardown256BaSessions soc p).rxTid t).baWinSize = (p.rxTid t).baWinSize := by
  rcases teardown256BaSessions_rxTid soc p t with h | h
  · rw [h]
    exact ⟨rfl, rfl, rfl⟩
  · rw [h]
    exact teardown256BaSession_fields _

def Peer.checked (p : Peer) (tid : Fin maxTids) (w : ℕ) (kill : Bool) : Peer :=
  { p.setTid tid { p.rxTid tid with baWinSize := w } with
    hwBufferSize := if kill = true then 64 else p.hwBufferSize
    kill256Sessions := p.kill256Sessions || kill }

theorem checked_false (p : Peer) (tid : Fin maxTids) (w : ℕ) :
    p.checked tid w false = p.setTid tid { p.rxTid tid with baWinSize := w } := by
  rw [Peer.checked, Bool.or_false, if_neg Bool.false_ne_true]
  rfl

theorem checkBaBuffersize_cases (soc : Soc) (p : Peer) (tid : Fin maxTids) (buffersize : ℕ) :
    ∃ w kill, checkBaBuffersize soc p tid buffersize = p.checked tid w kill ∧
      w ≤ max 64 (soc.rxMaxBaWindow tid) ∧
      (kill = true → 0 < p.activeBaSessionCnt ∧ p.hwBufferSize = 256 ∧ w ≤ 64) ∧
      (soc.perTidBasizeMaxTid = 0 → 0 < p.activeBaSessionCnt →
        (p.hwBufferSize = 64 → w ≤ 64) ∧ (p.hwBufferSize = 256 → kill = false → 64 < w)) := by
  have hchip := soc.rxMaxBaWindow_le tid
  have hmin : min buffersize (soc.rxMaxBaWindow tid) ≤ max 64 (soc.rxMaxBaWindow tid) :=
    (min_le_right _ _).trans (le_max_right _ _)
  simp only [checkBaBuffersize]
  generalize hsize : min buffersize (soc.rxMaxBaWindow tid) = size at hmin ⊢
  split_ifs with hper hcnt h64 hle h256 hgt hle'
  · exact ⟨size, false, (checked_false ..).symm, hmin, nofun, fun h0 => absurd h0 hper.1⟩
  · exact ⟨size, false, (checked_false ..).symm, hmin, nofun, fun _ hpos => absurd hcnt hpos.ne'⟩
  · exact ⟨size, false, (checked_false ..).symm, hmin, nofun, fun _ _ => ⟨fun _ => hle, by omega⟩⟩
  · exact ⟨p.hwBufferSize, false, (checked_false ..).symm, by omega, nofun,
      fun _ _ => ⟨fun _ => by omega, by omega⟩⟩
  · exact ⟨size, false, (checked_false ..).symm, hmin, nofun, fun _ _ => ⟨by omega, fun _ _ => hgt⟩⟩
  · refine ⟨size, true, ?_, hmin, fun _ => ⟨by omega, h256, by omega⟩,
      fun _ _ => ⟨by omega, fun _ => nofun⟩⟩
    rw [Peer.checked, Bool.or_true, if_pos rfl]
  · exact ⟨size, false, (checked_false ..).symm, hmin, nofun, fun _ _ => ⟨by omega, by omega⟩⟩
  · have hchipsize : size ≤ soc.rxMaxBaWindow tid := hsize ▸ min_le_right _ _
    omega

theorem rxTidSetup_spec (env : Env) (r : RxTid) :
    (rxTidSetup env r r.baWinSize).1.baWinSize = r.baWinSize ∧
      ((rxTidSetup env r r.baWinSize).2 = true → (rxTidSetup env r r.baWinSize).1.hwQdesc = true) := by
  rw [rxTidSetup]
  split_ifs with hroute hqdesc hok
  · exact ⟨rfl, nofun⟩
  · exact ⟨rfl, fun _ => hqdesc⟩
  · exact ⟨rfl, fun _ => rfl⟩
  · exact ⟨rfl, nofun⟩

theorem addbaRequestProcess_cases (soc : Soc) (env : Env) (p : Peer) (tid : Fin maxTids)
    (dialogtoken buffersize startseqnum : ℕ) :
    (addbaRequestProcess soc env p tid dialogtoken buffersize startseqnum).1 = endActiveSession p tid ∨
      ((endActiveSession p tid).rxTid tid).baStatus ≠ .inProgress ∧ ∃ size r,
        (addbaRequestProcess soc env p tid dialogtoken buffersize startseqnum).1 =
          (checkBaBuffersize soc (endActiveSession p tid) tid size).setTid tid r ∧
        r.baStatus ≠ .active ∧ (r.Live → r.hwQdesc = true) ∧
        r.baWinSize = ((checkBaBuffersize soc (endActiveSession p tid) tid size).rxTid tid).baWinSize := by
  simp only [addbaRequestProcess]
  generalize endActiveSession p tid = q
  by_cases hprogress : (q.rxTid tid).baStatus = .inProgress
  · rw [if_pos hprogress]
    exact Or.inl rfl
  · rw [if_neg hprogress]
    refine Or.inr ⟨hprogress, (q.rxTid tid).requested buffersize, ?_⟩
    obtain ⟨hwin, hqdesc⟩ := rxTidSetup_spec env
      ((checkBaBuffersize soc q tid ((q.rxTid tid).requested buffersize)).rxTid tid)
    split_ifs with hok
    · exact ⟨_, rfl, nofun, fun hlive => absurd rfl hlive, hwin⟩
    · rw [Bool.not_eq_false] at hok
      exact ⟨_, rfl, nofun, fun _ => hqdesc hok, hwin⟩

theorem Inv.endActiveSession (h : Inv p) (tid : Fin maxTids) :
    Inv (endActiveSession p tid) ∧ ((DpRx.endActiveSession p tid).rxTid tid).baStatus ≠ .active := by
  rw [DpRx.endActiveSession]
  by_cases hactive : (p.rxTid tid).baStatus = .active
  · have hlive : (p.rxTid tid).Live := by
      rw [RxTid.Live, hactive]
      exact nofun
    rw [if_pos ⟨hactive, h.hwQdesc tid hlive⟩]
    refine ⟨h.ended hactive rfl, ?_⟩
    rw [decSessions_rxTid, setTid_self]
    exact nofun
  · rw [if_neg fun hboth => hactive hboth.1]
    exact ⟨h, hactive⟩

theorem Inv.checkBaBuffersize (h : Inv p) (soc : Soc) (tid : Fin maxTids) (buffersize : ℕ) :
    Inv (checkBaBuffersize soc p tid buffersize) ∧
      ((DpRx.checkBaBuffersize soc p tid buffersize).rxTid tid).baStatus = (p.rxTid tid).baStatus := by
  obtain ⟨w, kill, heq, -⟩ := checkBaBuffersize_cases soc p tid buffersize
  have hfields : ∀ t, ((p.checked tid w kill).rxTid t).baStatus = (p.rxTid t).baStatus ∧
      ((p.checked tid w kill).rxTid t).hwQdesc = (p.rxTid t).hwQdesc := by
    intro t
    show ((p.setTid tid { p.rxTid tid with baWinSize := w }).rxTid t).baStatus = _ ∧
      ((p.setTid tid { p.rxTid tid with baWinSize := w }).rxTid t).hwQdesc = _
    by_cases ht : t = tid
    · rw [ht, setTid_self]
      exact ⟨rfl, rfl⟩
    · rw [setTid_of_ne ht]
      exact ⟨rfl, rfl⟩
  rw [heq]
  exact ⟨h.congr rfl (fun t => (hfields t).1) fun t => (hfields t).2, (hfields tid).1⟩

theorem Inv.addbaRequestProcess (h : Inv p) (soc : Soc) (env : Env) (tid : Fin maxTids)
    (dialogtoken buffersize startseqnum : ℕ) :
    Inv (addbaRequestProcess soc env p tid dialogtoken buffersize startseqnum).1 := by
  obtain ⟨hend, hinactive⟩ := h.endActiveSession tid
  rcases addbaRequestProcess_cases soc env p tid dialogtoken buffersize startseqnum with
    heq | ⟨-, size, r, heq, hr, hqdesc, -⟩
  · rw [heq]
    exact hend
  · obtain ⟨hcheck, hstatus⟩ := hend.checkBaBuffersize soc tid size
    rw [heq]
    refine hcheck.setTid ⟨fun hactive => absurd hactive hr, fun hactive => ?_⟩ hqdesc
    rw [hstatus] at hactive
    exact absurd hactive hinactive

theorem Inv.teardown256BaSessions (h : Inv p) (soc : Soc) : Inv (teardown256BaSessions soc p) :=
  h.congr rfl (fun t => (teardown256BaSessions_fields soc p t).1) fun t =>
    (teardown256BaSessions_fields soc p t).2.1

theorem Inv.addbaRespTxCompletion (h : Inv p) (soc : Soc) (env : Env) (failed : Bool)
    (hinactive : (p.rxTid tid).baStatus ≠ .active) : Inv (addbaRespTxCompletion soc env p tid failed) := by
  have hnone : ∀ r : RxTid, r.baStatus = .inactive → Inv (p.setTid tid r) := by
    intro r hr
    refine h.setTid ⟨fun hactive => ?_, fun hactive => absurd hactive hinactive⟩ fun hlive => absurd hr hlive
    rw [hr] at hactive
    cases hactive
  simp only [DpRx.addbaRespTxCompletion]
  by_cases hfailed : failed = true
  · rw [if_pos hfailed]
    exact hnone _ rfl
  · rw [if_neg hfailed]
    by_cases hstatus : (p.rxTid tid).baStatus = .inactive
    · rw [if_pos hstatus]
      exact h
    · rw [if_neg hstatus]
      have hactivate : Inv (activate p tid) := by
        have hp : ∀ size, Inv { p with hwBufferSize := size } := fun _ => ⟨h.counted, h.hwQdesc⟩
        exact (hp _).started hinactive rfl (h.hwQdesc tid hstatus)
      split_ifs
      · exact h
      · have hdown := hactivate.teardown256BaSessions soc
        exact ⟨hdown.counted, hdown.hwQdesc⟩
      · exact hactivate

theorem Inv.delbaProcess (h : Inv p) (tid : Fin maxTids) (reasoncode : ℕ) :
    Inv (delbaProcess p tid reasoncode) := by
  simp only [DpRx.delbaProcess]
  split_ifs with hstatus
  · exact h
  · have hactive : (p.rxTid tid).baStatus = .active := by
      cases hs : (p.rxTid tid).baStatus with
      | active => rfl
      | inactive => exact absurd (Or.inl hs) hstatus
      | inProgress => exact absurd (Or.inr hs) hstatus
    exact h.ended hactive rfl

theorem Inv.delbaTxCompletion (h : Inv p) (tid : Fin maxTids) (failed : Bool) :
    Inv (delbaTxCompletion p tid failed) := by
  have hkeep : ∀ r : RxTid, r.baStatus = (p.rxTid tid).baStatus → r.hwQdesc = (p.rxTid tid).hwQdesc →
      Inv (p.setTid tid r) := by
    intro r hr hq
    refine h.setTid (by rw [hr]) fun hlive => ?_
    rw [RxTid.Live, hr] at hlive
    rw [hq]
    exact h.hwQdesc tid hlive
  simp only [DpRx.delbaTxCompletion]
  split_ifs
  · exact hkeep _ rfl rfl
  · exact hkeep _ rfl rfl
  · cases hs : (p.rxTid tid).baStatus with
    | active => exact h.ended hs rfl
    | inProgress =>
      refine h.setTid ⟨nofun, fun hactive => ?_⟩ fun hlive => absurd rfl hlive
      rw [hs] at hactive
      cases hactive
    | inactive => exact hkeep _ hs.symm rfl

/-- A response completes only for a session that is not active. -/
def Punctual (s : State) : Action → Prop
  | .addbaRespTxCompletion _ tid _ => (s.peer.rxTid tid).baStatus ≠ .active
  | _ => True

instance (s : State) (a : Action) : Decidable (Punctual s a) := by
  cases a <;> dsimp only [Punctual] <;> infer_instance

/-- **The counter** survives every call but the completion of a response for an active session. -/
theorem Inv.next {s : State} {a : Action} (h : Inv s.peer) (hpunctual : Punctual s a) :
    Inv (next soc s a).peer := by
  cases a with
  | addbaRequestProcess env tid dialogtoken buffersize startseqnum =>
    exact h.addbaRequestProcess soc env tid dialogtoken buffersize startseqnum
  | addbaRespTxCompletion env tid failed => exact h.addbaRespTxCompletion soc env failed hpunctual
  | delbaProcess tid reasoncode => exact h.delbaProcess tid reasoncode
  | delbaTxCompletion tid failed => exact h.delbaTxCompletion tid failed

theorem Initial.inv {s : State} (h : Initial s) : Inv s.peer where
  counted := by
    have hnone : s.peer.activeTids = ∅ := by
      refine Finset.eq_empty_of_forall_notMem fun t ht => ?_
      rw [mem_activeTids, h.baStatus] at ht
      cases ht
    rw [Peer.Counted, hnone, h.activeBaSessionCnt, Finset.card_empty]
  hwQdesc := fun t hlive => absurd (h.baStatus t) hlive

end DpRx
