import Sm8750Modules.DpRx.BlockAck

/-!
# Block-ack sessions of a receiving peer — the windows

The hardware has one buffer size for all sessions of a peer. The first session latches it; a request for at
most 64 buffers while it is 256 makes the peer send DELBAs for the larger sessions.
-/

namespace DpRx

open Runs

variable {soc : Soc} {p p' : Peer} {tid : Fin maxTids} {r : RxTid}

/-- **The windows**: an active session above 64 beside an active one of at most 64 has a DELBA on its way, or
is to be killed. -/
def Peer.Windowed (p : Peer) : Prop :=
  ∀ small large, (p.rxTid small).baStatus = .active → (p.rxTid small).baWinSize ≤ 64 →
    (p.rxTid large).baStatus = .active → 64 < (p.rxTid large).baWinSize →
    (p.rxTid large).delbaTxStatus = true ∨ p.kill256Sessions = true
deriving Decidable

/-- A response that starts the first session completes while all sessions that are being set up are on the
same side of 64, and a DELBA is not given up for a large session. -/
def Separate (s : State) : Action → Prop
  | .addbaRespTxCompletion _ tid false =>
    s.peer.activeBaSessionCnt = 0 → ∀ t, (s.peer.rxTid t).baStatus = .inProgress →
      ((s.peer.rxTid t).baWinSize ≤ 64 ↔ (s.peer.rxTid tid).baWinSize ≤ 64)
  | .delbaTxCompletion tid true =>
    maxDelbaRetry ≤ (s.peer.rxTid tid).delbaTxRetry → (s.peer.rxTid tid).Live →
      (s.peer.rxTid tid).baWinSize ≤ 64
  | _ => True

instance (s : State) (a : Action) : Decidable (Separate s a) :=
  match a with
  | .addbaRespTxCompletion _ _ false => inferInstanceAs (Decidable (_ = _ → ∀ _, _ → _))
  | .addbaRespTxCompletion _ _ true => inferInstanceAs (Decidable True)
  | .delbaTxCompletion _ true => inferInstanceAs (Decidable (_ → _ → _))
  | .delbaTxCompletion _ false => inferInstanceAs (Decidable True)
  | .addbaRequestProcess .. | .delbaProcess .. => inferInstanceAs (Decidable True)

/-- While there are sessions: the buffer size is 64 or 256; if it is 64, the larger sessions are being torn
down or to be killed, and if it is 256, all sessions are large. -/
structure Latched (p : Peer) : Prop where
  window : ∀ t, (p.rxTid t).Live → (p.rxTid t).baWinSize ≤ 256
  size : 0 < p.activeBaSessionCnt → p.hwBufferSize = 64 ∨ p.hwBufferSize = 256
  small : 0 < p.activeBaSessionCnt → p.hwBufferSize = 64 → p.kill256Sessions = true ∨
    ∀ t, (p.rxTid t).Live → 64 < (p.rxTid t).baWinSize → (p.rxTid t).delbaTxStatus = true
  large : 0 < p.activeBaSessionCnt → p.hwBufferSize = 256 →
    ∀ t, (p.rxTid t).Live → 64 < (p.rxTid t).baWinSize

/-! ## Sessions that end -/

/-- The state of a TID after a call that starts nothing. -/
structure RxTid.Keeps (r r' : RxTid) : Prop where
  live : r'.Live → r.Live
  window : r'.Live → r'.baWinSize = r.baWinSize
  delba : r'.Live → 64 < r'.baWinSize → r.delbaTxStatus = true → r'.delbaTxStatus = true

theorem RxTid.Keeps.refl (r : RxTid) : r.Keeps r := ⟨id, fun _ => rfl, fun _ _ => id⟩

theorem RxTid.Keeps.inactive {r r' : RxTid} (h : r'.baStatus = .inactive) : r.Keeps r' :=
  ⟨fun hlive => absurd h hlive, fun hlive => absurd h hlive, fun hlive => absurd h hlive⟩

theorem Latched.mono (h : Latched p) (hkeeps : ∀ t, (p.rxTid t).Keeps (p'.rxTid t))
    (hcnt : 0 < p'.activeBaSessionCnt → 0 < p.activeBaSessionCnt) (hsize : p'.hwBufferSize = p.hwBufferSize)
    (hkill : p'.kill256Sessions = p.kill256Sessions) : Latched p' where
  window := by
    intro t hlive
    rw [(hkeeps t).window hlive]
    exact h.window t ((hkeeps t).live hlive)
  size := by
    intro hpos
    rw [hsize]
    exact h.size (hcnt hpos)
  small := by
    intro hpos h64
    rw [hsize] at h64
    rcases h.small (hcnt hpos) h64 with hk | hall
    · exact Or.inl (hkill.trans hk)
    · refine Or.inr fun t hlive hlarge => ?_
      have hlarge' := hlarge
      rw [(hkeeps t).window hlive] at hlarge'
      exact (hkeeps t).delba hlive hlarge (hall t ((hkeeps t).live hlive) hlarge')
  large := by
    intro hpos h256 t hlive
    rw [hsize] at h256
    rw [(hkeeps t).window hlive]
    exact h.large (hcnt hpos) h256 t ((hkeeps t).live hlive)

theorem keeps_setTid (h : (p.rxTid tid).Keeps r) (t : Fin maxTids) :
    (p.rxTid t).Keeps ((p.setTid tid r).rxTid t) := by
  by_cases ht : t = tid
  · rw [ht, setTid_self]
    exact h
  · rw [setTid_of_ne ht]
    exact .refl _

section

variable (h : Latched p)
include h

theorem Latched.setTid (hkeeps : (p.rxTid tid).Keeps r) : Latched (p.setTid tid r) :=
  h.mono (keeps_setTid hkeeps) id rfl rfl

theorem Latched.ended (hinv : Inv p) (hactive : (p.rxTid tid).baStatus = .active)
    (hr : r.baStatus = .inactive) : Latched (p.setTid tid r).decSessions := by
  have hpos : 0 < p.activeBaSessionCnt := by
    rw [hinv.counted]
    exact Finset.card_pos.mpr ⟨tid, mem_activeTids.mpr hactive⟩
  refine h.mono (fun t => ?_) (fun _ => hpos) rfl rfl
  rw [decSessions_rxTid]
  exact keeps_setTid (.inactive hr) t

theorem Latched.endActiveSession (hinv : Inv p) (tid : Fin maxTids) :
    Latched (endActiveSession p tid) := by
  rw [DpRx.endActiveSession]
  split_ifs with hactive
  · exact h.ended hinv hactive.1 rfl
  · exact h

theorem Latched.delbaProcess (hinv : Inv p) (tid : Fin maxTids) (reasoncode : ℕ) :
    Latched (delbaProcess p tid reasoncode) := by
  simp only [DpRx.delbaProcess]
  split_ifs with hstatus
  · exact h
  · have hactive : (p.rxTid tid).baStatus = .active := by
      cases hs : (p.rxTid tid).baStatus with
      | active => rfl
      | inactive => exact absurd (Or.inl hs) hstatus
      | inProgress => exact absurd (Or.inr hs) hstatus
    exact h.ended hinv hactive rfl

theorem Latched.delbaTxCompletion (hinv : Inv p) (failed : Bool)
    (hretry : failed = true → maxDelbaRetry ≤ (p.rxTid tid).delbaTxRetry → (p.rxTid tid).Live →
      (p.rxTid tid).baWinSize ≤ 64) : Latched (delbaTxCompletion p tid failed) := by
  simp only [DpRx.delbaTxCompletion]
  split_ifs with hfailed hmax
  · refine h.setTid ⟨id, fun _ => rfl, fun hlive hlarge => ?_⟩
    exact absurd (hretry hfailed hmax hlive) (Nat.not_le.mpr hlarge)
  · exact h.setTid ⟨id, fun _ => rfl, fun _ _ _ => rfl⟩
  · cases hs : (p.rxTid tid).baStatus with
    | active => exact h.ended hinv hs rfl
    | inProgress => exact h.setTid (.inactive rfl)
    | inactive => exact h.setTid (.inactive rfl)

theorem Latched.checkBaBuffersize (htid : soc.perTidBasizeMaxTid = 0)
    (hchip : soc.rxMaxBaWindow tid ≤ 256) (buffersize : ℕ)
    (hwin : r.baWinSize = ((checkBaBuffersize soc p tid buffersize).rxTid tid).baWinSize) :
    Latched ((checkBaBuffersize soc p tid buffersize).setTid tid r) := by
  obtain ⟨w, kill, heq, hw, hkill, hside⟩ := checkBaBuffersize_cases soc p tid buffersize
  have hself : ((p.checked tid w kill).rxTid tid).baWinSize = w := by
    show ((p.setTid tid { p.rxTid tid with baWinSize := w }).rxTid tid).baWinSize = w
    rw [setTid_self]
  have hother : ∀ t, t ≠ tid → ((p.checked tid w kill).setTid tid r).rxTid t = p.rxTid t := by
    intro t ht
    rw [setTid_of_ne ht]
    exact setTid_of_ne ht
  rw [heq, hself] at hwin
  rw [heq]
  have hsize : ((p.checked tid w kill).setTid tid r).hwBufferSize =
    if kill = true then 64 else p.hwBufferSize := rfl
  have hkills : ((p.checked tid w kill).setTid tid r).kill256Sessions = (p.kill256Sessions || kill) := rfl
  refine ⟨fun t hlive => ?_, fun hpos => ?_, fun hpos h64 => ?_, fun hpos h256 t hlive => ?_⟩
  · by_cases ht : t = tid
    · rw [ht, setTid_self, hwin]
      omega
    · rw [hother t ht] at hlive ⊢
      exact h.window t hlive
  · rw [hsize]
    split_ifs
    · exact Or.inl rfl
    · exact h.size hpos
  · cases kill with
    | true => exact Or.inl (hkills.trans (Bool.or_true _))
    | false =>
      rw [hsize, if_neg Bool.false_ne_true] at h64
      rcases h.small hpos h64 with hk | hall
      · exact Or.inl (by rw [hkills, hk]; rfl)
      · refine Or.inr fun t hlive hlarge => ?_
        by_cases ht : t = tid
        · rw [ht, setTid_self, hwin] at hlarge
          exact absurd ((hside htid hpos).1 h64) (Nat.not_le.mpr hlarge)
        · rw [hother t ht] at hlive hlarge ⊢
          exact hall t hlive hlarge
  · cases kill with
    | true =>
      rw [hsize, if_pos rfl] at h256
      cases h256
    | false =>
      rw [hsize, if_neg Bool.false_ne_true] at h256
      by_cases ht : t = tid
      · rw [ht, setTid_self, hwin]
        exact (hside htid hpos).2 h256 rfl
      · rw [hother t ht] at hlive ⊢
        exact h.large hpos h256 t hlive

theorem Latched.addbaRequestProcess (hinv : Inv p) (htid : soc.perTidBasizeMaxTid = 0)
    (hchip : soc.rxMaxBaWindow tid ≤ 256) (env : Env) (dialogtoken buffersize startseqnum : ℕ) :
    Latched (addbaRequestProcess soc env p tid dialogtoken buffersize startseqnum).1 := by
  have hend := h.endActiveSession hinv tid
  rcases addbaRequestProcess_cases soc env p tid dialogtoken buffersize startseqnum with
    heq | ⟨-, size, r, heq, -, -, hwin⟩
  · rw [heq]
    exact hend
  · rw [heq]
    exact hend.checkBaBuffersize htid hchip size hwin

end

theorem activate_rxTid_of_ne {t : Fin maxTids} (ht : t ≠ tid) : (activate p tid).rxTid t = p.rxTid t := by
  rw [activate, incSessions_rxTid, setTid_of_ne ht]

theorem activate_rxTid_self : (activate p tid).rxTid tid = { p.rxTid tid with baStatus := .active } := by
  rw [activate, incSessions_rxTid, setTid_self]
  rfl

theorem keeps_activate (hlive : (p.rxTid tid).Live) (t : Fin maxTids) :
    (p.rxTid t).Keeps ((activate p tid).rxTid t) := by
  by_cases ht : t = tid
  · rw [ht, activate_rxTid_self]
    exact ⟨fun _ => hlive, fun _ => rfl, fun _ _ => id⟩
  · rw [activate_rxTid_of_ne ht]
    exact .refl _

theorem Latched.activate (h : Latched p) (hinv : Inv p) (hprogress : (p.rxTid tid).baStatus = .inProgress)
    (hsep : p.activeBaSessionCnt = 0 → ∀ t, (p.rxTid t).baStatus = .inProgress →
      ((p.rxTid t).baWinSize ≤ 64 ↔ (p.rxTid tid).baWinSize ≤ 64)) : Latched (activate p tid) := by
  have hlive : (p.rxTid tid).Live := by
    rw [RxTid.Live, hprogress]
    intro h
    cases h
  have hkeeps := keeps_activate (p := p) hlive
  by_cases hcnt : p.activeBaSessionCnt = 0
  · have hnone : p.activeTids = ∅ := Finset.card_eq_zero.mp (hinv.counted.symm.trans hcnt)
    have hside : ∀ t, ((DpRx.activate p tid).rxTid t).Live →
        (((DpRx.activate p tid).rxTid t).baWinSize ≤ 64 ↔ (p.rxTid tid).baWinSize ≤ 64) := by
      intro t ht
      rw [(hkeeps t).window ht]
      refine hsep hcnt t ?_
      cases hs : (p.rxTid t).baStatus with
      | inProgress => rfl
      | inactive => exact absurd hs ((hkeeps t).live ht)
      | active =>
        have hmem : t ∈ p.activeTids := mem_activeTids.mpr hs
        rw [hnone] at hmem
        exact absurd hmem (Finset.notMem_empty t)
    have hsize : (DpRx.activate p tid).hwBufferSize = if (p.rxTid tid).baWinSize ≤ 64 then 64 else 256 := by
      have hwin := h.window tid hlive
      show (if p.activeBaSessionCnt = 0 then latchedSize (p.rxTid tid).baWinSize else p.hwBufferSize) = _
      rw [if_pos hcnt, latchedSize]
      split_ifs <;> omega
    refine ⟨fun t ht => ?_, fun _ => ?_, fun _ h64 => Or.inr fun t ht hlarge => ?_, fun _ h256 t ht => ?_⟩
    · rw [(hkeeps t).window ht]
      exact h.window t ((hkeeps t).live ht)
    · rw [hsize]
      split_ifs
      · exact Or.inl rfl
      · exact Or.inr rfl
    · by_cases hle : (p.rxTid tid).baWinSize ≤ 64
      · exact absurd ((hside t ht).mpr hle) (Nat.not_le.mpr hlarge)
      · rw [hsize, if_neg hle] at h64
        cases h64
    · by_cases hle : (p.rxTid tid).baWinSize ≤ 64
      · rw [hsize, if_pos hle] at h256
        cases h256
      · exact Nat.lt_of_not_le fun hsmall => hle ((hside t ht).mp hsmall)
  · refine h.mono hkeeps (fun _ => Nat.pos_of_ne_zero hcnt) ?_ rfl
    show (if p.activeBaSessionCnt = 0 then _ else p.hwBufferSize) = _
    rw [if_neg hcnt]

theorem Latched.teardown256BaSessions (h : Latched p) (htid : soc.perTidBasizeMaxTid = 0) :
    Latched { DpRx.teardown256BaSessions soc p with kill256Sessions := false } := by
  have hall : ∀ t, (DpRx.teardown256BaSessions soc p).rxTid t = teardown256BaSession (p.rxTid t) := by
    intro t
    exact if_pos (htid ▸ Nat.zero_le _)
  have hfields := fun t => teardown256BaSession_fields (p.rxTid t)
  have hlive : ∀ t, ((DpRx.teardown256BaSessions soc p).rxTid t).Live ↔ (p.rxTid t).Live := by
    intro t
    rw [hall, RxTid.Live, (hfields t).1]
    exact Iff.rfl
  refine ⟨fun t ht => ?_, h.size, fun _ _ => Or.inr fun t ht hlarge => ?_, fun hpos h256 t ht => ?_⟩
  · show ((DpRx.teardown256BaSessions soc p).rxTid t).baWinSize ≤ 256
    rw [hall, (hfields t).2.2]
    exact h.window t ((hlive t).mp ht)
  · have hstatus : (p.rxTid t).baStatus = .active ∨ (p.rxTid t).baStatus = .inProgress := by
      cases hs : (p.rxTid t).baStatus with
      | active => exact Or.inl rfl
      | inProgress => exact Or.inr rfl
      | inactive => exact absurd hs ((hlive t).mp ht)
    show ((DpRx.teardown256BaSessions soc p).rxTid t).delbaTxStatus = true
    have hgt : ¬ (p.rxTid t).baWinSize ≤ 64 := by
      rw [← (hfields t).2.2, ← hall]
      exact Nat.not_le.mpr hlarge
    rw [hall, teardown256BaSession, if_neg hgt, if_pos hstatus]
    split_ifs with hdelba
    · rfl
    · exact (Bool.not_eq_false _).mp hdelba
  · show 64 < ((DpRx.teardown256BaSessions soc p).rxTid t).baWinSize
    rw [hall, (hfields t).2.2]
    exact h.large hpos h256 t ((hlive t).mp ht)

theorem Latched.addbaRespTxCompletion (h : Latched p) (hinv : Inv p) (htid : soc.perTidBasizeMaxTid = 0)
    (env : Env) (failed : Bool) (hinactive : (p.rxTid tid).baStatus ≠ .active)
    (hsep : failed = false → p.activeBaSessionCnt = 0 → ∀ t, (p.rxTid t).baStatus = .inProgress →
      ((p.rxTid t).baWinSize ≤ 64 ↔ (p.rxTid tid).baWinSize ≤ 64)) :
    Latched (addbaRespTxCompletion soc env p tid failed) := by
  simp only [DpRx.addbaRespTxCompletion]
  cases failed with
  | true => exact h.setTid (.inactive rfl)
  | false =>
    rw [if_neg Bool.false_ne_true]
    by_cases hstatus : (p.rxTid tid).baStatus = .inactive
    · rw [if_pos hstatus]
      exact h
    · have hprogress : (p.rxTid tid).baStatus = .inProgress := by
        cases hs : (p.rxTid tid).baStatus with
        | inProgress => rfl
        | inactive => exact absurd hs hstatus
        | active => exact absurd hs hinactive
      have hactivate := h.activate hinv hprogress (hsep rfl)
      rw [if_neg hstatus]
      split_ifs
      · exact h
      · exact hactivate.teardown256BaSessions htid
      · exact hactivate

/-! ## Runs -/

theorem Latched.next {s : State} {a : Action} (h : Latched s.peer) (hinv : Inv s.peer)
    (htid : soc.perTidBasizeMaxTid = 0) (hchip : ∀ tid, soc.rxMaxBaWindow tid ≤ 256)
    (hpunctual : Punctual s a) (hsep : Separate s a) : Latched (next soc s a).peer := by
  cases a with
  | addbaRequestProcess env tid dialogtoken buffersize startseqnum =>
    exact h.addbaRequestProcess hinv htid (hchip tid) env dialogtoken buffersize startseqnum
  | addbaRespTxCompletion env tid failed =>
    refine h.addbaRespTxCompletion hinv htid env failed hpunctual fun hfailed => ?_
    rw [hfailed] at hsep
    exact hsep
  | delbaProcess tid reasoncode => exact h.delbaProcess hinv tid reasoncode
  | delbaTxCompletion tid failed =>
    refine h.delbaTxCompletion hinv failed fun hfailed => ?_
    rw [hfailed] at hsep
    exact hsep

theorem Initial.latched {s : State} (h : Initial s) : Latched s.peer where
  window := fun t hlive => absurd (h.baStatus t) hlive
  size := fun hpos => absurd h.activeBaSessionCnt hpos.ne'
  small := fun hpos => absurd h.activeBaSessionCnt hpos.ne'
  large := fun hpos => absurd h.activeBaSessionCnt hpos.ne'

theorem Latched.windowed (h : Latched p) (hinv : Inv p) : p.Windowed := by
  intro small large hsmall hle hlarge hgt
  have hlive : ∀ t, (p.rxTid t).baStatus = .active → (p.rxTid t).Live := by
    intro t ht
    rw [RxTid.Live, ht]
    intro h
    cases h
  have hpos : 0 < p.activeBaSessionCnt := by
    rw [hinv.counted]
    exact Finset.card_pos.mpr ⟨small, mem_activeTids.mpr hsmall⟩
  rcases h.size hpos with h64 | h256
  · rcases h.small hpos h64 with hkill | hall
    · exact Or.inr hkill
    · exact Or.inl (hall large (hlive large hlarge) hgt)
  · exact absurd (h.large hpos h256 small (hlive small hsmall)) (Nat.not_lt.mpr hle)

def punctual (soc : Soc) : Machine State Action :=
  { machine soc with guard := fun s a => guard s a ∧ Punctual s a }

def separate (soc : Soc) : Machine State Action :=
  { machine soc with guard := fun s a => guard s a ∧ Punctual s a ∧ Separate s a }

instance (soc : Soc) (s : State) (a : Action) : Decidable ((machine soc).guard s a) :=
  inferInstanceAs (Decidable (guard s a))

instance (soc : Soc) (s : State) (a : Action) : Decidable ((separate soc).guard s a) :=
  inferInstanceAs (Decidable (guard s a ∧ Punctual s a ∧ Separate s a))

theorem inv_of_reachable {s : State} (h : (punctual soc).Reachable s) : Inv s.peer :=
  h.invariant (fun _ hinit => hinit.inv) fun _ _ hinv hguard => hinv.next hguard.2

theorem latched_of_reachable {s : State} (htid : soc.perTidBasizeMaxTid = 0)
    (hchip : ∀ tid, soc.rxMaxBaWindow tid ≤ 256) (h : (separate soc).Reachable s) :
    Inv s.peer ∧ Latched s.peer :=
  h.invariant (I := fun s => Inv s.peer ∧ Latched s.peer) (fun _ hinit => ⟨hinit.inv, hinit.latched⟩)
    fun _ _ hboth hguard =>
      ⟨hboth.1.next hguard.2.1, hboth.2.next hboth.1 htid hchip hguard.2.1 hguard.2.2⟩

/-- **The sessions of a peer**: in punctual runs the counter is the number of active sessions, and on a chip with
one buffer size of at most 256 for all TIDs, in separate runs a large session beside a small one is being torn
down. -/
theorem sessions_of_reachable (soc : Soc) (s : State) :
    ((punctual soc).Reachable s → s.peer.Counted) ∧
      (soc.perTidBasizeMaxTid = 0 → (∀ tid, soc.rxMaxBaWindow tid ≤ 256) → (separate soc).Reachable s →
        s.peer.Windowed) := by
  refine ⟨fun h => (inv_of_reachable h).counted, fun htid hchip h => ?_⟩
  obtain ⟨hinv, hlatched⟩ := latched_of_reachable htid hchip h
  exact hlatched.windowed hinv

def start : State := { peer := { rxTid := fun _ => {} } }

theorem start_initial : Initial start :=
  ⟨fun _ => rfl, fun _ => rfl, fun _ => rfl, rfl, rfl, rfl, fun _ => rfl⟩

def soc256 : Soc := ⟨0, fun _ => 256, fun _ => by decide⟩
def soc1024 : Soc := ⟨0, fun _ => 1024, fun _ => by decide⟩

/-- A session of 256 buffers, and then one of 64. -/
def killRun (size : ℕ) : List Action :=
  [.addbaRequestProcess {} 0 1 size 0, .addbaRespTxCompletion {} 0 false,
    .addbaRequestProcess {} 1 1 64 0, .addbaRespTxCompletion {} 1 false]

/-- The response to the first of two requests completes after that to the second. -/
def lateRun : List Action :=
  [.addbaRequestProcess {} 0 1 64 0, .delbaTxCompletion 0 false, .addbaRequestProcess {} 0 2 64 0,
    .addbaRespTxCompletion {} 0 false, .addbaRespTxCompletion {} 0 false]

/-- Sessions of both sizes are set up before either is active. -/
def overlapRun : List Action :=
  [.addbaRequestProcess {} 0 1 256 0, .addbaRequestProcess {} 1 1 64 0,
    .addbaRespTxCompletion {} 0 false, .addbaRespTxCompletion {} 1 false]

def giveUpRun : List Action :=
  killRun 256 ++ [.delbaTxCompletion 0 true, .delbaTxCompletion 0 true, .delbaTxCompletion 0 true]

theorem sessions_killRun :
    ((machine soc256).exec start (killRun 256)).peer.Counted ∧
      ((machine soc256).exec start (killRun 256)).peer.Windowed ∧
      ((machine soc256).exec start (killRun 256)).peer.activeBaSessionCnt = 2 := by
  have hrun : (separate soc256).Reachable ((separate soc256).exec start (killRun 256)) :=
    (Machine.Reachable.init start_initial).exec (killRun 256) (by decide +kernel)
  have hpunctual : (punctual soc256).Reachable ((separate soc256).exec start (killRun 256)) :=
    hrun.mono (M := punctual soc256) fun _ _ hguard => ⟨hguard.1, hguard.2.1⟩
  exact ⟨(sessions_of_reachable soc256 _).1 hpunctual,
    (sessions_of_reachable soc256 _).2 rfl (fun _ => le_rfl) hrun, by decide +kernel⟩

/-- A late response makes the counter wrong; sessions of both sizes being set up, a DELBA that is given up, and
a chip with more than 256 buffers leave a large session beside a small one. -/
theorem not_sessions :
    ((machine soc256).Reachable ((machine soc256).exec start lateRun) ∧
        ¬ ((machine soc256).exec start lateRun).peer.Counted) ∧
      ((machine soc256).Reachable ((machine soc256).exec start overlapRun) ∧
        ¬ ((machine soc256).exec start overlapRun).peer.Windowed) ∧
      ((machine soc256).Reachable ((machine soc256).exec start giveUpRun) ∧
        ¬ ((machine soc256).exec start giveUpRun).peer.Windowed) ∧
      ((machine soc1024).Reachable ((machine soc1024).exec start (killRun 1024)) ∧
        ¬ ((machine soc1024).exec start (killRun 1024)).peer.Windowed) := by
  have hreach : ∀ soc as, (machine soc).Allows start as →
      (machine soc).Reachable ((machine soc).exec start as) := fun soc as =>
    Machine.Reachable.exec (.init start_initial) as
  exact ⟨⟨hreach _ _ (by decide +kernel), by decide +kernel⟩,
    ⟨hreach _ _ (by decide +kernel), by decide +kernel⟩,
    ⟨hreach _ _ (by decide +kernel), by decide +kernel⟩,
    ⟨hreach _ _ (by decide +kernel), by decide +kernel⟩⟩

end DpRx
