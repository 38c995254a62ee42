import Sm8750Modules.Ufcs.Frame

/-!
# UFCS — which frames the receiver accepts

A frame has the length that its type and its length field say, and ends with the CRC-8 of
everything before it when CRCs are checked.
-/

namespace Sm8750Modules.Ufcs

variable (buf : List UInt8)

def frameType : UInt8 := buf.getD 1 0 &&& 7

variable (checkCrc : Bool)

def crcSize : ℕ := if checkCrc then 1 else 0

def impliedLength (buf : List UInt8) : Option ℕ :=
  match (frameType buf).toNat with
  | 0 => some (msgHeadSize + 1 + crcSize checkCrc)
  | 1 => (buf[3]?).map fun length => msgHeadSize + 2 + length.toNat + crcSize checkCrc
  | 2 => (buf[4]?).map fun length => msgHeadSize + 3 + length.toNat + crcSize checkCrc
  | _ => none

def RightLength (buf : List UInt8) : Prop :=
  impliedLength checkCrc buf = some buf.length
deriving Decidable

def lastByte : UInt8 := buf.getD (buf.length - 1) 0

def CrcEnd : Prop := lastByte buf = crcOf (buf.take (buf.length - 1))
deriving Decidable

def CrcShortEnd : Prop := lastByte buf = crcOf (buf.take (buf.length - 2))
deriving Decidable

def ufcsIsAckNckMsg (command : UInt8) : Bool := command == 1 || command == 2

/-- The control messages that `ufcs_event_work` itself sends. -/
inductive EventReply
  | ack
  | nck
  deriving DecidableEq

/-- What `ufcs_event_work` does with a received message. -/
def ufcsEventWork (checkCrc replyAck : Bool) (msg : UfcsMsg) : Option EventReply × Bool :=
  let crcErr := checkCrc && !msg.crcGood
  let taken := (if replyAck then some EventReply.ack else none, true)
  match msg.body with
  | .ctrl command => if ufcsIsAckNckMsg command then taken else if crcErr then (some .nck, false) else taken
  | .data _ => if crcErr then (some .nck, false) else taken
  | .vendor _ => if crcErr then (some .nck, false) else taken

structure AcceptsGrammar (checkCrc replyAck : Bool) (buf : List UInt8) : Prop where
  accepted : (∃ m, ufcsUnpackMsg checkCrc buf = .ok m ∧ m.crcGood = true) ↔
    RightLength checkCrc buf ∧ (checkCrc = true → CrcEnd buf)
  nck : checkCrc = true → RightLength checkCrc buf → ¬ CrcEnd buf →
    ∃ m, ufcsUnpackMsg checkCrc buf = .ok m ∧ m.crcGood = false ∧
      (ufcsEventWork checkCrc replyAck m).1 = some .nck
  inside : ufcsUnpackMsg checkCrc buf ≠ .error .outsideBuffer

/-- The buffers that are handled as the grammar says. -/
structure Handled (checkCrc : Bool) (buf : List UInt8) : Prop where
  ctrl : frameType buf = 0 → minMsgSize checkCrc ≤ buf.length →
    (buf.length = minMsgSize checkCrc ∧
        (checkCrc = true → CrcEnd buf ∨ ufcsIsAckNckMsg (buf.getD 2 0) = false)) ∨
      (minMsgSize checkCrc < buf.length ∧ checkCrc = true ∧ buf.getD 3 0 ≠ crcOf (buf.take 3))
  data : frameType buf = 1 → minMsgSize checkCrc ≤ buf.length → 4 ≤ buf.length ∧
    (checkCrc = true → RightLength checkCrc buf → CrcEnd buf ∧ CrcShortEnd buf)
  vendor : frameType buf = 2 → checkCrc = true → RightLength checkCrc buf →
    (CrcEnd buf ↔ CrcShortEnd buf)

theorem unpackHead_type (hi lo : UInt8) : (unpackHead (be16ToCpu hi lo)).1 = lo &&& 7 := by
  have hlo : (be16ToCpu hi lo).toUInt8 = lo := by
    rw [← UInt8.toNat_inj, UInt16.toNat_toUInt8, be16ToCpu, UInt16.toNat_ofNat']
    have := lo.toNat_lt
    omega
  rw [unpackHead, UInt16.toUInt8_and, hlo]
  rfl

theorem minMsgSize_eq (checkCrc : Bool) : minMsgSize checkCrc = 3 + crcSize checkCrc := by
  cases checkCrc <;> rfl

section Cases

variable {checkCrc : Bool} {buf : List UInt8}

theorem copyPayload_of_le {off length : ℕ} (h : off + length ≤ buf.length) :
    ∃ data, copyPayload buf off length = .ok data := by
  rw [copyPayload, if_pos h]
  exact ⟨_, rfl⟩

theorem unpackCtrlMsg_eq (hmin : minMsgSize checkCrc ≤ buf.length) :
    unpackCtrlMsg checkCrc buf = .ok (.ctrl (buf.getD 2 0),
      if checkCrc then buf.getD 3 0 else 0, if checkCrc then crcOf (buf.take 3) else 0) := by
  rw [minMsgSize_eq] at hmin
  rw [unpackCtrlMsg, msgDataIndex, readByte_of_lt (by omega)]
  cases checkCrc with
  | false => rfl
  | true =>
    have hlen : 4 ≤ buf.length := hmin
    show (readByte buf 3 >>= _) = _
    rw [readByte_of_lt (by omega)]
    show Except.ok (UfcsMsgBody.ctrl _, _, crc8Calculate buf 3) = _
    rw [crc8Calculate_eq (by decide)]
    rfl

theorem unpackDataMsg_short (h : buf.length = 3) :
    unpackDataMsg checkCrc buf = .error .outsideBuffer := by
  rw [unpackDataMsg, msgDataIndex, readByte_of_lt (by omega)]
  show (readByte buf 3 >>= _) = _
  rw [readByte, List.getElem?_eq_none (by omega)]
  rfl

/-- **The data case.** The CRC is that of all bytes but two, and a wrong one drops the message. -/
theorem unpackDataMsg_eq (hlen : 4 ≤ buf.length) (hmax : buf.length ≤ 64) :
    ∃ msg, unpackDataMsg checkCrc buf
      = if buf.length ≠ 4 + (buf.getD 3 0).toNat + crcSize checkCrc then .error .dataLengthInvalid
        else if checkCrc = true ∧ ¬ CrcShortEnd buf then .error .dataCrcError
        else .ok (.data msg, if checkCrc then lastByte buf else 0,
          if checkCrc then crcOf (buf.take (buf.length - 2)) else 0) := by
  rw [unpackDataMsg, msgDataIndex, readByte_of_lt (by omega)]
  show ∃ msg, (readByte buf 3 >>= fun length =>
    if length.toNat + minMsgSize checkCrc + 1 ≠ buf.length then _ else _) = _
  rw [readByte_of_lt (by omega)]
  show ∃ msg, (if (buf.getD 3 0).toNat + minMsgSize checkCrc + 1 ≠ buf.length then _ else _) = _
  rw [minMsgSize_eq]
  by_cases hright : buf.length = 4 + (buf.getD 3 0).toNat + crcSize checkCrc
  · rw [if_neg (by omega)]
    obtain ⟨data, hdata⟩ := @copyPayload_of_le buf 4 (buf.getD 3 0).toNat (by omega)
    refine ⟨ufcsDataMsgInit ⟨buf.getD 2 0, buf.getD 3 0, data⟩, ?_⟩
    show (copyPayload buf 4 (buf.getD 3 0).toNat >>= _) = _
    rw [hdata, if_neg (by omega)]
    cases checkCrc with
    | false => rfl
    | true =>
      have hsize : buf.length = 4 + (buf.getD 3 0).toNat + 1 := hright
      show (readByte buf (4 + (buf.getD 3 0).toNat) >>= fun crc =>
        if crc ≠ crc8Calculate buf (3 + (buf.getD 3 0).toNat) then Except.error UnpackError.dataCrcError
        else Except.ok (UfcsMsgBody.data _, crc, crc8Calculate buf (3 + (buf.getD 3 0).toNat))) = _
      rw [readByte_of_lt (by omega), crc8Calculate_eq (by omega),
        show 3 + (buf.getD 3 0).toNat = buf.length - 2 by omega,
        show 4 + (buf.getD 3 0).toNat = buf.length - 1 by omega]
      show (if lastByte buf ≠ crcOf (buf.take (buf.length - 2)) then _ else _) = _
      by_cases hcrc : lastByte buf = crcOf (buf.take (buf.length - 2))
      · rw [if_neg (not_not.mpr hcrc), if_neg (fun h => h.2 hcrc)]
        rfl
      · rw [if_pos hcrc, if_pos ⟨rfl, hcrc⟩]
  · exact ⟨⟨0, 0, fun _ => 0⟩, by rw [if_pos (by omega), if_pos hright]⟩

/-- **The vendor case.** The CRC is that of all bytes but two. -/
theorem unpackVendorMsg_eq (hmax : buf.length ≤ 64) :
    ∃ msg, unpackVendorMsg checkCrc buf
      = if buf.length < 5 then .error .vendorTooShort
        else if buf.length ≠ 5 + (buf.getD 4 0).toNat + crcSize checkCrc then .error .vendorLengthInvalid
        else .ok (.vendor msg, if checkCrc then lastByte buf else 0,
          if checkCrc then crcOf (buf.take (buf.length - 2)) else 0) := by
  rw [unpackVendorMsg, show msgHeadSize + 3 = 5 from rfl]
  by_cases hshort : buf.length < 5
  · exact ⟨⟨0, 0, fun _ => 0⟩, by rw [if_pos hshort, if_pos hshort]⟩
  simp only [if_neg hshort]
  rw [msgDataIndex, readByte_of_lt (by omega)]
  show ∃ msg, (readByte buf 3 >>= fun lo => readByte buf 4 >>= fun length => _) = _
  rw [readByte_of_lt (by omega), readByte_of_lt (by omega)]
  show ∃ msg, (if buf.length ≠ 2 + 3 + (buf.getD 4 0).toNat + crcSize checkCrc then _ else _) = _
  by_cases hright : buf.length = 5 + (buf.getD 4 0).toNat + crcSize checkCrc
  · rw [if_neg (by omega)]
    obtain ⟨data, hdata⟩ := @copyPayload_of_le buf 5 (buf.getD 4 0).toNat (by omega)
    refine ⟨ufcsOplusDataMsgInit ⟨be16ToCpu (buf.getD 2 0) (buf.getD 3 0), buf.getD 4 0, data⟩, ?_⟩
    show (copyPayload buf 5 (buf.getD 4 0).toNat >>= _) = _
    rw [hdata, if_neg (by omega)]
    cases checkCrc with
    | false => rfl
    | true =>
      have hsize : buf.length = 5 + (buf.getD 4 0).toNat + 1 := hright
      show (readByte buf (5 + (buf.getD 4 0).toNat) >>= fun crc =>
        Except.ok (UfcsMsgBody.vendor _, crc, crc8Calculate buf (4 + (buf.getD 4 0).toNat))) = _
      rw [readByte_of_lt (by omega), crc8Calculate_eq (by omega),
        show 4 + (buf.getD 4 0).toNat = buf.length - 2 by omega,
        show 5 + (buf.getD 4 0).toNat = buf.length - 1 by omega]
      rfl
  · exact ⟨⟨0, 0, fun _ => 0⟩, by rw [if_pos (by omega), if_pos hright]⟩

theorem ufcsUnpackMsg_eq (hmin : minMsgSize checkCrc ≤ buf.length) (hmax : buf.length ≤ ufcsMsgSizeMax) :
    ∃ head, ufcsUnpackMsg checkCrc buf = (unpackBody checkCrc (frameType buf) buf).map fun r =>
      { head := head, body := r.1, crc := r.2.1, crcGood := ¬ (checkCrc ∧ r.2.1 ≠ r.2.2) } := by
  have hlen := minMsgSize_eq checkCrc
  refine ⟨(unpackHead (be16ToCpu (buf.getD 0 0) (buf.getD 1 0))).2, ?_⟩
  rw [ufcsUnpackMsg, if_neg (by omega), if_neg (by omega), readByte_of_lt (by omega),
    readByte_of_lt (by omega)]
  show (unpackBody checkCrc (unpackHead (be16ToCpu (buf.getD 0 0) (buf.getD 1 0))).1 buf >>= _) = _
  rw [unpackHead_type, ← frameType]
  cases unpackBody checkCrc (frameType buf) buf with
  | error e => rfl
  | ok r => rfl

/-! ### The right length, by type -/

theorem getElem?_of_lt {i : ℕ} (h : i < buf.length) : buf[i]? = some (buf.getD i 0) := by
  rw [List.getD_eq_getElem?_getD, List.getElem?_eq_getElem h]
  rfl

theorem rightLength_of_implied {n : ℕ} (h : impliedLength checkCrc buf = some n) :
    RightLength checkCrc buf ↔ buf.length = n := by
  rw [RightLength, h]
  constructor
  · exact fun heq => (Option.some.inj heq).symm
  · exact fun heq => congrArg some heq.symm

theorem rightLength_ctrl (h : frameType buf = 0) :
    RightLength checkCrc buf ↔ buf.length = minMsgSize checkCrc := by
  apply rightLength_of_implied
  rw [impliedLength, h, minMsgSize_eq]
  rfl

theorem rightLength_data (h : frameType buf = 1) (hlen : 4 ≤ buf.length) :
    RightLength checkCrc buf ↔ buf.length = 4 + (buf.getD 3 0).toNat + crcSize checkCrc := by
  apply rightLength_of_implied
  rw [impliedLength, h, getElem?_of_lt (by omega)]
  rfl

theorem rightLength_vendor (h : frameType buf = 2) (hlen : 5 ≤ buf.length) :
    RightLength checkCrc buf ↔ buf.length = 5 + (buf.getD 4 0).toNat + crcSize checkCrc := by
  apply rightLength_of_implied
  rw [impliedLength, h, getElem?_of_lt (i := 4) (by omega)]
  rfl

theorem not_rightLength_vendor (h : frameType buf = 2) (hlen : buf.length < 5) :
    ¬ RightLength checkCrc buf := by
  rw [RightLength, impliedLength, h, List.getElem?_eq_none (i := 4) (by omega)]
  show ¬ (none = some buf.length)
  simp

theorem not_rightLength_unknown (h : 3 ≤ (frameType buf).toNat) : ¬ RightLength checkCrc buf := by
  rw [RightLength, impliedLength]
  split
  · omega
  · omega
  · omega
  · simp

theorem RightLength.min_le (h : RightLength checkCrc buf) : minMsgSize checkCrc ≤ buf.length := by
  rw [RightLength, impliedLength, msgHeadSize] at h
  rw [minMsgSize_eq]
  split at h
  · have := Option.some.inj h
    omega
  · obtain ⟨length, -, heq⟩ := Option.map_eq_some_iff.mp h
    omega
  · obtain ⟨length, -, heq⟩ := Option.map_eq_some_iff.mp h
    omega
  · cases h

theorem acceptsGrammar_error {replyAck : Bool} {e : UnpackError} (h : ufcsUnpackMsg checkCrc buf = .error e) :
    AcceptsGrammar checkCrc replyAck buf ↔ ¬ RightLength checkCrc buf ∧ e ≠ .outsideBuffer := by
  constructor
  · intro hg
    refine ⟨fun hright => ?_, fun he => hg.inside (h.trans (congrArg _ he))⟩
    have hcrc : checkCrc = true → CrcEnd buf := by
      intro hcheck
      by_contra hwrong
      obtain ⟨m, hm, -⟩ := hg.nck hcheck hright hwrong
      simp [h] at hm
    obtain ⟨m, hm, -⟩ := hg.accepted.mpr ⟨hright, hcrc⟩
    simp [h] at hm
  · intro ⟨hright, he⟩
    refine ⟨?_, fun _ hr => absurd hr hright, ?_⟩
    · simp [h, hright]
    · simpa [h] using he

theorem acceptsGrammar_ok {replyAck : Bool} {m : UfcsMsg} (h : ufcsUnpackMsg checkCrc buf = .ok m) :
    AcceptsGrammar checkCrc replyAck buf ↔
      (m.crcGood = true ↔ RightLength checkCrc buf ∧ (checkCrc = true → CrcEnd buf)) ∧
      (checkCrc = true → RightLength checkCrc buf → ¬ CrcEnd buf →
        m.crcGood = false ∧ (ufcsEventWork checkCrc replyAck m).1 = some .nck) := by
  constructor
  · intro hg
    have haccepted := hg.accepted
    have hnck := hg.nck
    simp only [h, Except.ok.injEq, exists_eq_left'] at haccepted hnck
    exact ⟨haccepted, hnck⟩
  · intro ⟨haccepted, hnck⟩
    refine ⟨?_, ?_, ?_⟩
    · simpa only [h, Except.ok.injEq, exists_eq_left'] using haccepted
    · simpa only [h, Except.ok.injEq, exists_eq_left'] using hnck
    · simp [h]

theorem acceptsGrammar_ctrl {replyAck : Bool} (htype : frameType buf = 0)
    (hmin : minMsgSize checkCrc ≤ buf.length) (hmax : buf.length ≤ ufcsMsgSizeMax) :
    AcceptsGrammar checkCrc replyAck buf ↔
      (buf.length = minMsgSize checkCrc ∧
        (checkCrc = true → CrcEnd buf ∨ ufcsIsAckNckMsg (buf.getD 2 0) = false)) ∨
      (minMsgSize checkCrc < buf.length ∧ checkCrc = true ∧ buf.getD 3 0 ≠ crcOf (buf.take 3)) := by
  obtain ⟨head, hunpack⟩ := ufcsUnpackMsg_eq hmin hmax
  rw [htype] at hunpack
  replace hunpack := hunpack.trans (congrArg _ (unpackCtrlMsg_eq hmin))
  rw [acceptsGrammar_ok hunpack, rightLength_ctrl htype]
  cases checkCrc with
  | false =>
    have hlen : 3 ≤ buf.length := hmin
    simp only [ufcsEventWork]
    simp [show minMsgSize false = 3 from rfl]
  | true =>
    have hlen : 4 ≤ buf.length := hmin
    have hend : buf.length = 4 → (CrcEnd buf ↔ buf.getD 3 0 = crcOf (buf.take 3)) := by
      intro h4
      rw [CrcEnd, lastByte, h4]
    simp only [show minMsgSize true = 4 from rfl, ufcsEventWork]
    clear hunpack
    generalize buf.getD 2 0 = command, buf.getD 3 0 = crc, crcOf (buf.take 3) = calculated at hend ⊢
    by_cases h4 : buf.length = 4
    · rw [hend h4]
      by_cases hcrc : crc = calculated
      · simp [h4, hcrc]
      · by_cases hack : ufcsIsAckNckMsg command
        · cases replyAck <;> simp [h4, hcrc, hack]
        · simp [h4, hcrc, hack]
    · have : 4 < buf.length := by omega
      simp [h4, this]

theorem acceptsGrammar_data {replyAck : Bool} (htype : frameType buf = 1)
    (hmin : minMsgSize checkCrc ≤ buf.length) (hmax : buf.length ≤ ufcsMsgSizeMax) :
    AcceptsGrammar checkCrc replyAck buf ↔
      4 ≤ buf.length ∧ (checkCrc = true → RightLength checkCrc buf → CrcEnd buf ∧ CrcShortEnd buf) := by
  obtain ⟨head, hunpack⟩ := ufcsUnpackMsg_eq hmin hmax
  rw [htype] at hunpack
  have hsize := minMsgSize_eq checkCrc
  by_cases hlen : 4 ≤ buf.length
  · obtain ⟨msg, hmsg⟩ := @unpackDataMsg_eq checkCrc buf hlen hmax
    replace hunpack := hunpack.trans (congrArg _ hmsg)
    have hright := @rightLength_data checkCrc buf htype hlen
    by_cases hr : RightLength checkCrc buf
    · rw [if_neg (not_not.mpr (hright.mp hr))] at hunpack
      by_cases hshort : checkCrc = true ∧ ¬ CrcShortEnd buf
      · rw [if_pos hshort] at hunpack
        rw [acceptsGrammar_error hunpack]
        simp [hshort, hlen]
      · rw [if_neg hshort] at hunpack
        rw [acceptsGrammar_ok hunpack]
        cases checkCrc with
        | false => simp [hr, hlen]
        | true =>
          have hs : lastByte buf = crcOf (buf.take (buf.length - 2)) := by
            by_contra hne
            exact hshort ⟨rfl, hne⟩
          simp [hr, hlen, hs, CrcShortEnd]
    · rw [if_pos (fun h => hr (hright.mpr h))] at hunpack
      rw [acceptsGrammar_error hunpack]
      simp [hr, hlen]
  · replace hunpack := hunpack.trans (congrArg _ (unpackDataMsg_short (by omega)))
    rw [acceptsGrammar_error hunpack]
    simp [hlen]

theorem acceptsGrammar_vendor {replyAck : Bool} (htype : frameType buf = 2)
    (hmin : minMsgSize checkCrc ≤ buf.length) (hmax : buf.length ≤ ufcsMsgSizeMax) :
    AcceptsGrammar checkCrc replyAck buf ↔
      (checkCrc = true → RightLength checkCrc buf → (CrcEnd buf ↔ CrcShortEnd buf)) := by
  obtain ⟨head, hunpack⟩ := ufcsUnpackMsg_eq hmin hmax
  rw [htype] at hunpack
  obtain ⟨msg, hmsg⟩ := @unpackVendorMsg_eq checkCrc buf hmax
  replace hunpack := hunpack.trans (congrArg _ hmsg)
  by_cases hshort : buf.length < 5
  · rw [if_pos hshort] at hunpack
    rw [acceptsGrammar_error hunpack]
    simp [not_rightLength_vendor htype hshort]
  rw [if_neg hshort] at hunpack
  have hright := @rightLength_vendor checkCrc buf htype (by omega)
  by_cases hr : RightLength checkCrc buf
  · rw [if_neg (not_not.mpr (hright.mp hr))] at hunpack
    rw [acceptsGrammar_ok hunpack]
    cases checkCrc with
    | false => simp [hr]
    | true =>
      have hs : CrcShortEnd buf ↔ lastByte buf = crcOf (buf.take (buf.length - 2)) := Iff.rfl
      by_cases hcrc : lastByte buf = crcOf (buf.take (buf.length - 2))
      · simp [hr, hs, hcrc]
      · simp [hr, hs, hcrc, ufcsEventWork]
  · rw [if_pos (fun h => hr (hright.mpr h))] at hunpack
    rw [acceptsGrammar_error hunpack]
    simp [hr]

end Cases

/-- **The receiver accepts the frame grammar on the handled buffers and on no others**: for every buffer
the receiver admits, with and without CRCs and acknowledgements. -/
theorem acceptsGrammar_iff (checkCrc replyAck : Bool) (buf : List UInt8)
    (hmax : buf.length ≤ ufcsMsgSizeMax) :
    AcceptsGrammar checkCrc replyAck buf ↔ Handled checkCrc buf := by
  by_cases hmin : minMsgSize checkCrc ≤ buf.length
  · obtain htype | htype | htype | htype : frameType buf = 0 ∨ frameType buf = 1 ∨ frameType buf = 2 ∨
        3 ≤ (frameType buf).toNat := by
      rw [← UInt8.toNat_inj, ← UInt8.toNat_inj, ← UInt8.toNat_inj]
      simp only [UInt8.toNat_zero, UInt8.toNat_one, show UInt8.toNat 2 = 2 from rfl]
      omega
    · rw [acceptsGrammar_ctrl htype hmin hmax]
      exact ⟨fun h => ⟨fun _ _ => h, by simp [htype], by simp [htype]⟩, fun h => h.ctrl htype hmin⟩
    · rw [acceptsGrammar_data htype hmin hmax]
      exact ⟨fun h => ⟨by simp [htype], fun _ _ => h, by simp [htype]⟩, fun h => h.data htype hmin⟩
    · rw [acceptsGrammar_vendor htype hmin hmax]
      exact ⟨fun h => ⟨by simp [htype], by simp [htype], fun _ => h⟩, fun h => h.vendor htype⟩
    · obtain ⟨head, hunpack⟩ := ufcsUnpackMsg_eq hmin hmax
      have hunknown : unpackBody checkCrc (frameType buf) buf = .error .typeNotSupported := by
        rw [unpackBody]
        split <;> first | omega | rfl
      rw [hunknown] at hunpack
      rw [acceptsGrammar_error hunpack]
      have hr := @not_rightLength_unknown checkCrc buf htype
      have hne : ∀ t : UInt8, t.toNat < 3 → frameType buf ≠ t := by
        intro t ht heq
        rw [heq] at htype
        omega
      refine ⟨fun _ => ⟨?_, ?_, ?_⟩, fun _ => ⟨hr, by simp⟩⟩
      · exact fun h => absurd h (hne 0 (by decide))
      · exact fun h => absurd h (hne 1 (by decide))
      · exact fun h => absurd h (hne 2 (by decide))
  · have hr : ¬ RightLength checkCrc buf := fun h => hmin h.min_le
    have hunpack : ufcsUnpackMsg checkCrc buf = .error .messageTooShort := by
      rw [ufcsUnpackMsg, if_pos (by omega)]
    rw [acceptsGrammar_error hunpack]
    exact ⟨fun _ => ⟨fun _ h => absurd h hmin, fun _ h => absurd h hmin, fun _ _ h => absurd h hr⟩,
      fun _ => ⟨hr, by simp⟩⟩

/-- An `ACCEPT` with its CRC. -/
theorem acceptsGrammar_accept : AcceptsGrammar true true [0, 0, 3, 0x7b] := by
  apply (acceptsGrammar_iff true true [0, 0, 3, 0x7b] (by decide)).mpr
  have hcrc : CrcEnd [0, 0, 3, 0x7b] := by decide +kernel
  exact
    { ctrl := fun _ _ => .inl ⟨rfl, fun _ => .inl hcrc⟩
      data := fun h => nomatch h
      vendor := fun h => nomatch h }

/-- A `PING` that a byte follows is accepted. -/
theorem not_acceptsGrammar_trailing : ¬ AcceptsGrammar false true [0, 0, 0, 0] := by
  intro h
  have hright := (h.accepted.mp ⟨⟨⟨0, 0, 0⟩, .ctrl 0, 0, true⟩, rfl, rfl⟩).1
  exact absurd hright (by decide)

end Sm8750Modules.Ufcs
