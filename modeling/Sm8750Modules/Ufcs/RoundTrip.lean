import Sm8750Modules.Ufcs.Frame

/-!
# UFCS — which messages survive the codec

Packing a message and unpacking the bytes is meant to give the message back.
-/

namespace Sm8750Modules.Ufcs

open List

/-- The type, command, length and raw payload of two bodies agree. -/
def UfcsMsgBody.Same : UfcsMsgBody → UfcsMsgBody → Prop
  | .ctrl c, .ctrl c' => c = c'
  | .data d, .data d' => d.command = d'.command ∧ d.length = d'.length ∧ d.payload = d'.payload
  | .vendor v, .vendor v' => v.vndId = v'.vndId ∧ v.length = v'.length ∧ v.payload = v'.payload
  | _, _ => False

instance (b b' : UfcsMsgBody) : Decidable (b.Same b') := by
  cases b <;> cases b' <;> simp only [UfcsMsgBody.Same] <;> infer_instance

/-- `ufcs_unpack_msg(ufcs_pack_msg(m)) = m`: both succeed, the CRC is good, and head and body are those
of `m`. The sender's buffer has `UFCS_MSG_SIZE_MAX` bytes. -/
def RoundTrips (checkCrc : Bool) (m : UfcsMsg) : Prop :=
  ∃ frame packed m', ufcsPackMsg checkCrc m ufcsMsgSizeMax = .ok (frame, packed) ∧
    ufcsUnpackMsg checkCrc frame = .ok m' ∧ m'.crcGood = true ∧ m'.head = m.head ∧
    m.body.Same m'.body

/-- The messages the senders build. -/
def Outgoing (m : UfcsMsg) : Prop :=
  match m.body with
  | .ctrl _ => True
  | .data d => ∃ t, dataMsgType d.command = some t ∧ d.length.toNat = naturalLength t
  | .vendor v => v.length.toNat ≤ 58

/-- The bytes of a body behind the head, as they go over the wire. -/
def wireBody : UfcsMsgBody → List UInt8
  | .ctrl command => [command]
  | .data d => [d.command, d.length] ++ (ufcsDataMsgPack d).payload
  | .vendor v => cpuToBe16 v.vndId ++ [v.length] ++ v.payload

def LastByteKeepsCrc (bytes : List UInt8) : Prop := crcOf bytes.dropLast = crcOf bytes
deriving Decidable

/-- The messages that survive: an all-zero head, a power change payload that its loops leave alone, a
vendor message the sender accepts, and for data and vendor messages whose CRC is checked a last payload
byte that does not change the CRC. -/
structure SurvivesCodec (checkCrc : Bool) (m : UfcsMsg) : Prop where
  version : m.head.version = 0
  index : m.head.index = 0
  addr : m.head.addr = 0
  powerChange : ∀ d, m.body = .data d → dataMsgType d.command = some .powerChange →
    PowerChangeFixed d.payload
  vendor : ∀ v, m.body = .vendor v → ufcsIsSupportedOplusCtrlMsg v = true ∧
    minMsgSize checkCrc + (3 + v.length.toNat) ≤ ufcsMsgSizeMax
  crc : checkCrc = true → (∀ c, m.body ≠ .ctrl c) →
    LastByteKeepsCrc ([0, m.body.type] ++ wireBody m.body)

theorem unpackCtrlMsg_packed (checkCrc : Bool) (b₀ b₁ command : UInt8) :
    ∃ crc, unpackCtrlMsg checkCrc (appendCrc checkCrc ([b₀, b₁] ++ [command]))
      = .ok (.ctrl command, crc, crc) := by
  cases checkCrc with
  | false => exact ⟨0, rfl⟩
  | true => exact ⟨crc8Calculate [b₀, b₁, command] 3, rfl⟩

/-- The union of a fresh message after copying `payload` into it. -/
def copied (payload : List UInt8) : Bytes := fun j =>
  if j < payload.length then payload.getD j 0 else 0

theorem copyPayload_frame (pre payload post : List UInt8) :
    copyPayload (pre ++ payload ++ post) pre.length payload.length = .ok (copied payload) := by
  rw [copyPayload, if_pos (by simp)]
  congr 1
  funext j
  simp only [copied]
  split
  · rename_i hj
    rw [List.getD_eq_getElem?_getD, List.getD_eq_getElem?_getD, append_assoc,
      List.getElem?_append_right (by omega), List.getElem?_append_left (by omega)]
    rw [show pre.length + j - pre.length = j from by omega]
  · rfl

theorem readByte_behind (frame : List UInt8) (b : UInt8) :
    readByte (frame ++ [b]) frame.length = .ok b := by
  simp [readByte]

theorem crc8Calculate_dropLast {frame : List UInt8} (b : UInt8) (h : frame.length < 256) :
    crc8Calculate (frame ++ [b]) (frame.length - 1) = crcOf frame.dropLast := by
  rw [crc8Calculate_eq (by omega), take_append_of_le_length (by omega),
    ← dropLast_eq_take]

variable {payload : List UInt8}

/-- What the CRC behind a frame is compared with. -/
theorem crc_packed (head : List UInt8) {h n : ℕ} (hh : head.length = h + 1)
    (hn : payload.length = n) (hfit : h + 1 + n ≤ 63) :
    appendCrc true (head ++ payload) = head ++ payload ++ [crcOf (head ++ payload)] ∧
      readByte (head ++ payload ++ [crcOf (head ++ payload)]) (h + 1 + n) = .ok (crcOf (head ++ payload)) ∧
      crc8Calculate (head ++ payload ++ [crcOf (head ++ payload)]) (h + n) =
        crcOf (head ++ payload).dropLast := by
  have hframe : (head ++ payload).length = h + 1 + n := by rw [length_append, hh, hn]
  refine ⟨appendCrc_true (by omega), ?_, ?_⟩
  · rw [← hframe]
    exact readByte_behind _ _
  · rw [← crc8Calculate_dropLast _ (by omega), hframe]
    congr 1
    omega

/-- **A data frame at the receiver.** Without CRCs the payload is copied and converted. -/
theorem unpackDataMsg_packed (checkCrc : Bool) (b₀ b₁ command length : UInt8)
    (hpay : payload.length = length.toNat) (hfit : length.toNat ≤ 59) :
    unpackDataMsg checkCrc (appendCrc checkCrc ([b₀, b₁, command, length] ++ payload))
      = if checkCrc = true ∧ ¬ LastByteKeepsCrc ([b₀, b₁, command, length] ++ payload) then
          .error .dataCrcError
        else
          let crc := if checkCrc then crcOf ([b₀, b₁, command, length] ++ payload) else 0
          .ok (.data (ufcsDataMsgInit
            { command := command, length := length, data := copied payload }), crc, crc) := by
  have hcopy : ∀ post, copyPayload ([b₀, b₁, command, length] ++ payload ++ post) 4 payload.length
      = .ok (copied payload) := copyPayload_frame [b₀, b₁, command, length] payload
  have hframe : ([b₀, b₁, command, length] ++ payload).length = 4 + payload.length := by simp; omega
  cases checkCrc with
  | false =>
    have hbuf : appendCrc false ([b₀, b₁, command, length] ++ payload)
        = [b₀, b₁, command, length] ++ payload ++ [] := by simp [appendCrc]
    rw [hbuf, if_neg (by simp)]
    show (if length.toNat + 3 + 1 ≠ _ then _ else _) = _
    rw [if_neg (by rw [append_nil, hframe, hpay]; omega)]
    show (copyPayload ([b₀, b₁, command, length] ++ payload ++ []) 4 length.toNat >>= _) = _
    rw [← hpay, hcopy]
    rfl
  | true =>
    obtain ⟨hbuf, hread, hcalc⟩ := crc_packed (h := 3) [b₀, b₁, command, length] rfl
      (rfl : payload.length = _) (by omega)
    rw [hbuf]
    show (if length.toNat + 4 + 1 ≠ _ then _ else _) = _
    rw [if_neg (by rw [length_append, hframe, hpay]; simp; omega)]
    show (copyPayload _ 4 length.toNat >>= fun data => readByte _ (4 + length.toNat) >>= fun crc =>
      if crc ≠ crc8Calculate _ (3 + length.toNat) then Except.error UnpackError.dataCrcError
      else Except.ok (UfcsMsgBody.data (ufcsDataMsgInit
        { command := command, length := length, data := data }), crc,
          crc8Calculate _ (3 + length.toNat))) = _
    rw [← hpay, hcopy]
    show (readByte _ (4 + payload.length) >>= _) = _
    rw [hread]
    show (if crcOf _ ≠ crc8Calculate _ _ then _ else _) = _
    rw [hcalc]
    by_cases hkeep : LastByteKeepsCrc ([b₀, b₁, command, length] ++ payload)
    · rw [if_neg (by simpa [LastByteKeepsCrc] using hkeep.symm), if_neg (fun h => h.2 hkeep)]
      show Except.ok (_, _, crcOf (([b₀, b₁, command, length] ++ payload).dropLast)) = _
      rw [hkeep]
      rfl
    · rw [if_pos (fun h => hkeep h.symm), if_pos ⟨rfl, hkeep⟩]

/-- **A vendor frame at the receiver.** It is taken whatever its CRC, and the CRC is good only if the
last byte of the frame keeps it. -/
theorem unpackVendorMsg_packed (checkCrc : Bool) (b₀ b₁ hi lo length : UInt8)
    (hpay : payload.length = length.toNat) (hfit : length.toNat ≤ 58) :
    unpackVendorMsg checkCrc (appendCrc checkCrc ([b₀, b₁, hi, lo, length] ++ payload))
      = .ok (.vendor (ufcsOplusDataMsgInit
          { vndId := be16ToCpu hi lo, length := length, data := copied payload }),
          if checkCrc then crcOf ([b₀, b₁, hi, lo, length] ++ payload) else 0,
          if checkCrc then crcOf ([b₀, b₁, hi, lo, length] ++ payload).dropLast else 0) := by
  have hcopy : ∀ post, copyPayload ([b₀, b₁, hi, lo, length] ++ payload ++ post) 5 payload.length
      = .ok (copied payload) := copyPayload_frame [b₀, b₁, hi, lo, length] payload
  have hframe : ([b₀, b₁, hi, lo, length] ++ payload).length = 5 + payload.length := by simp; omega
  cases checkCrc with
  | false =>
    have hbuf : appendCrc false ([b₀, b₁, hi, lo, length] ++ payload)
        = [b₀, b₁, hi, lo, length] ++ payload ++ [] := by simp [appendCrc]
    rw [hbuf, unpackVendorMsg, if_neg (by rw [append_nil, hframe, msgHeadSize]; omega)]
    show (if _ ≠ 5 + length.toNat + 0 then _ else _) = _
    rw [if_neg (by rw [append_nil, hframe, hpay]; omega)]
    show (copyPayload ([b₀, b₁, hi, lo, length] ++ payload ++ []) 5 length.toNat >>= _) = _
    rw [← hpay, hcopy]
    rfl
  | true =>
    obtain ⟨hbuf, hread, hcalc⟩ := crc_packed (h := 4) [b₀, b₁, hi, lo, length] rfl
      (rfl : payload.length = _) (by omega)
    rw [hbuf, unpackVendorMsg,
      if_neg (by rw [length_append, hframe, msgHeadSize]; omega)]
    show (if _ ≠ 5 + length.toNat + 1 then _ else _) = _
    rw [if_neg (by rw [length_append, hframe, hpay]; simp)]
    show (copyPayload _ 5 length.toNat >>= fun data => readByte _ (5 + length.toNat) >>= fun crc =>
      Except.ok (UfcsMsgBody.vendor (ufcsOplusDataMsgInit
        { vndId := be16ToCpu hi lo, length := length, data := data }), crc,
          crc8Calculate _ (4 + length.toNat))) = _
    rw [← hpay, hcopy]
    show (readByte _ (5 + payload.length) >>= _) = _
    rw [hread]
    show Except.ok (_, crcOf _, crc8Calculate _ (4 + payload.length)) = _
    rw [hcalc]
    rfl

theorem payload_eq_iff (n : ℕ) (f g : Bytes) :
    (List.range n).map f = (List.range n).map g ↔ ∀ j < n, f j = g j := by
  simp [map_inj_left]

theorem copied_map {n : ℕ} (f : Bytes) {j : ℕ} (hj : j < n) :
    copied ((List.range n).map f) j = f j := by
  rw [copied, length_map, length_range, if_pos hj, List.getD_eq_getElem?_getD,
    List.getElem?_map, List.getElem?_range hj]
  rfl

theorem dataPayload_roundTrip_iff {d : UfcsDataMsg} {t : UfcsDataMsgType}
    (ht : dataMsgType d.command = some t) (hlen : d.length.toNat = naturalLength t) :
    (ufcsDataMsgInit ⟨d.command, d.length, copied (ufcsDataMsgPack d).payload⟩).payload = d.payload
      ↔ (t = .powerChange → PowerChangeFixed d.payload) := by
  have hpack : (ufcsDataMsgPack d).payload = (List.range (naturalLength t)).map (packData t d.data) := by
    simp only [ufcsDataMsgPack, ht, UfcsDataMsg.payload, hlen]
  have hinit : (ufcsDataMsgInit ⟨d.command, d.length, copied (ufcsDataMsgPack d).payload⟩).payload
      = (List.range (naturalLength t)).map
          (initData t (copied ((List.range (naturalLength t)).map (packData t d.data)))) := by
    rw [hpack]
    simp only [ufcsDataMsgInit, ht, UfcsDataMsg.payload, hlen]
  have hread : ∀ j < naturalLength t,
      initData t (copied ((List.range (naturalLength t)).map (packData t d.data))) j
        = initData t (packData t d.data) j :=
    initData_congr t fun j hj => copied_map _ hj
  rw [hinit, UfcsDataMsg.payload, hlen, payload_eq_iff]
  constructor
  · intro h hpower
    subst hpower
    have hfix := (recvPowerChange_pack_eq_iff d.data).mp fun j hj => (hread j hj).symm.trans (h j hj)
    exact hfix
  · intro h j hj
    rw [hread j hj]
    by_cases hpower : t = .powerChange
    · subst hpower
      exact (recvPowerChange_pack_eq_iff d.data).mpr (h rfl) j hj
    · rw [initData_packData hpower]

theorem vendorPayload_roundTrip {v : UfcsVendorMsg} (hv : ufcsIsSupportedOplusCtrlMsg v = true)
    (vndId : UInt16) :
    ufcsOplusDataMsgInit { vndId := vndId, length := v.length, data := copied v.payload }
      = { vndId := vndId, length := v.length, data := copied v.payload } := by
  have htype : copied v.payload 0 = v.data 0 ∨ copied v.payload 0 = 0 := by
    by_cases hlen : 0 < v.length.toNat
    · exact Or.inl (copied_map v.data hlen)
    · refine Or.inr ?_
      rw [copied, if_neg (by simpa [UfcsVendorMsg.payload] using hlen)]
  have hsupported : v.data 0 = 1 ∨ v.data 0 = 3 := by
    simpa [ufcsIsSupportedOplusCtrlMsg] using hv
  rcases htype with h | h
  · rcases hsupported with h1 | h3
    · simp only [ufcsOplusDataMsgInit, h, h1]
      rfl
    · simp only [ufcsOplusDataMsgInit, h, h3]
      rfl
  · simp only [ufcsOplusDataMsgInit, h]
    rfl

/-! ### Assembly -/

/-- The messages that `ufcs_pack_msg` takes into a buffer of `UFCS_MSG_SIZE_MAX` bytes. -/
def Packable (checkCrc : Bool) : UfcsMsgBody → Prop
  | .ctrl _ => True
  | .data d => minMsgSize checkCrc + (2 + d.length.toNat) ≤ ufcsMsgSizeMax
  | .vendor v => ufcsIsSupportedOplusCtrlMsg v = true ∧
      minMsgSize checkCrc + (3 + v.length.toNat) ≤ ufcsMsgSizeMax

theorem minMsgSize_le (checkCrc : Bool) : 3 ≤ minMsgSize checkCrc ∧ minMsgSize checkCrc ≤ 4 := by
  cases checkCrc <;> decide

variable {m : UfcsMsg} {checkCrc : Bool}

theorem ufcsPackMsg_of_packable (h : Packable checkCrc m.body) :
    ∃ packed, ufcsPackMsg checkCrc m ufcsMsgSizeMax
      = .ok (appendCrc checkCrc (cpuToBe16 (packHead m.body.type m.head) ++ wireBody m.body),
          packed) := by
  have hmin : ¬ ufcsMsgSizeMax < minMsgSize checkCrc := by
    have := minMsgSize_le checkCrc
    rw [ufcsMsgSizeMax]
    omega
  rcases m with ⟨head, body, crc, crcGood⟩
  rw [ufcsPackMsg, if_neg hmin]
  cases body with
  | ctrl command => exact ⟨_, rfl⟩
  | data d =>
    have hfit : ¬ ufcsMsgSizeMax < minMsgSize checkCrc + (2 + d.length.toNat) := Nat.not_lt.mpr h
    refine ⟨{ head := head, body := .data (ufcsDataMsgPack d), crc := crc, crcGood := crcGood }, ?_⟩
    show (if _ then _ else _) = _
    rw [if_neg hfit]
    rfl
  | vendor v =>
    have hfit : ¬ ufcsMsgSizeMax < minMsgSize checkCrc + (3 + v.length.toNat) := Nat.not_lt.mpr h.2
    refine ⟨{ head := head, body := .vendor v, crc := crc, crcGood := crcGood }, ?_⟩
    show (if _ then _ else if _ then _ else _) = _
    rw [if_neg (not_not.mpr h.1), if_neg hfit]
    rfl

theorem not_roundTrips_of_not_packable (h : ¬ Packable checkCrc m.body) : ¬ RoundTrips checkCrc m := by
  rintro ⟨frame, packed, m', hpack, -⟩
  rcases m with ⟨head, body, crc, crcGood⟩
  simp only [ufcsPackMsg] at hpack
  split at hpack
  · cases hpack
  · cases body with
    | ctrl command => exact h trivial
    | data d =>
      simp only [Packable, Nat.not_le] at h
      simp only [if_pos h] at hpack
      cases hpack
    | vendor v =>
      simp only [Packable, not_and, Nat.not_le] at h
      by_cases hv : ufcsIsSupportedOplusCtrlMsg v = true
      · simp only [hv, not_true_eq_false, if_false, if_pos (h hv)] at hpack
        cases hpack
      · simp only [hv] at hpack
        cases hpack

theorem payload_length (d : UfcsDataMsg) : d.payload.length = d.length.toNat := by
  simp [UfcsDataMsg.payload]

theorem packed_payload_length (d : UfcsDataMsg) :
    (ufcsDataMsgPack d).payload.length = d.length.toNat := by
  rw [payload_length, ufcsDataMsgPack]
  cases dataMsgType d.command <;> rfl

theorem wireBody_length {body : UfcsMsgBody} (h : Packable checkCrc body) :
    1 ≤ (wireBody body).length ∧
      (wireBody body).length + minMsgSize checkCrc ≤ ufcsMsgSizeMax + 1 := by
  have hmin := minMsgSize_le checkCrc
  simp only [ufcsMsgSizeMax]
  cases body with
  | ctrl command =>
    simp only [wireBody, length_singleton]
    omega
  | data d =>
    simp only [Packable, ufcsMsgSizeMax] at h
    simp only [wireBody, length_append, packed_payload_length, length_cons, length_nil]
    omega
  | vendor v =>
    have hfit : minMsgSize checkCrc + (3 + v.length.toNat) ≤ 64 := h.2
    simp only [wireBody, cpuToBe16, UfcsVendorMsg.payload, length_append, length_map,
      length_range, length_cons, length_nil]
    omega

theorem receivedHead_eq_iff (head : UfcsMsgHead) :
    { version := head.version <<< 3, index := 0, addr := 0 } = head
      ↔ head = { version := 0, index := 0, addr := 0 } := by
  rcases head with ⟨version, index, addr⟩
  simp only [UfcsMsgHead.mk.injEq, shiftedVersion_eq_iff]
  constructor
  · rintro ⟨hv, hi, ha⟩
    exact ⟨hv, hi.symm, ha.symm⟩
  · rintro ⟨hv, hi, ha⟩
    exact ⟨hv, hi.symm, ha.symm⟩

theorem roundTrips_packable_iff (h : Packable checkCrc m.body) :
    RoundTrips checkCrc m ↔ m.head = { version := 0, index := 0, addr := 0 } ∧
      ∃ r, unpackBody checkCrc m.body.type
          (appendCrc checkCrc ([0, m.body.type] ++ wireBody m.body)) = .ok r ∧
        ¬ (checkCrc = true ∧ r.2.1 ≠ r.2.2) ∧ m.body.Same r.1 := by
  obtain ⟨packed, hpack⟩ := ufcsPackMsg_of_packable h
  obtain ⟨hlow, hhigh⟩ := wireBody_length h
  have hunpack := ufcsUnpackMsg_frame m.body m.head hlow hhigh
  constructor
  · rintro ⟨frame, packed', m', hpack', hm', hgood, hhead, hsame⟩
    rw [hpack] at hpack'
    obtain ⟨hframe, -⟩ := Prod.mk.inj (Except.ok.inj hpack')
    rw [← hframe, hunpack] at hm'
    cases hbody : unpackBody checkCrc m.body.type
        (appendCrc checkCrc (cpuToBe16 (packHead m.body.type m.head) ++ wireBody m.body)) with
    | error e =>
      rw [hbody] at hm'
      cases hm'
    | ok r =>
      rw [hbody] at hm'
      have hmsg := Except.ok.inj hm'
      rw [← hmsg] at hgood hhead hsame
      have hzero := (receivedHead_eq_iff m.head).mp hhead
      rw [hzero, cpuToBe16_packHead_zero] at hbody
      exact ⟨hzero, r, hbody, of_decide_eq_true hgood, hsame⟩
  · rintro ⟨hzero, r, hbody, hcrc, hsame⟩
    rw [← cpuToBe16_packHead_zero, ← hzero] at hbody
    rw [hbody] at hunpack
    exact ⟨_, packed, _, hpack, hunpack, decide_eq_true hcrc, (receivedHead_eq_iff m.head).mpr hzero,
      hsame⟩

theorem roundTrips_ctrl_iff (checkCrc : Bool) {command : UInt8}
    (hm : m.body = .ctrl command) :
    RoundTrips checkCrc m ↔ m.head = { version := 0, index := 0, addr := 0 } := by
  have hpack : Packable checkCrc m.body := by
    rw [hm]
    exact trivial
  obtain ⟨crc, hcrc⟩ := unpackCtrlMsg_packed checkCrc 0 0 command
  rw [roundTrips_packable_iff hpack, hm]
  constructor
  · exact fun h => h.1
  · intro h
    exact ⟨h, (.ctrl command, crc, crc), hcrc, fun hne => hne.2 rfl, rfl⟩

theorem roundTrips_data_iff (checkCrc : Bool) {d : UfcsDataMsg} {t : UfcsDataMsgType}
    (hm : m.body = .data d) (ht : dataMsgType d.command = some t)
    (hlen : d.length.toNat = naturalLength t) :
    RoundTrips checkCrc m ↔ m.head = { version := 0, index := 0, addr := 0 } ∧
      (t = .powerChange → PowerChangeFixed d.payload) ∧
      (checkCrc = true → LastByteKeepsCrc ([0, 1] ++ wireBody (.data d))) := by
  have hfit : d.length.toNat ≤ 56 := by
    rw [hlen]
    cases t <;> decide
  have hmin := minMsgSize_le checkCrc
  have hpack : Packable checkCrc m.body := by
    rw [hm]
    show minMsgSize checkCrc + (2 + d.length.toNat) ≤ 64
    omega
  have hunpack := unpackDataMsg_packed checkCrc 0 1 d.command d.length
    (packed_payload_length d) (by omega)
  rw [roundTrips_packable_iff hpack, hm, ← dataPayload_roundTrip_iff ht hlen]
  show _ ∧ (∃ r, unpackDataMsg checkCrc (appendCrc checkCrc
    ([0, 1, d.command, d.length] ++ (ufcsDataMsgPack d).payload)) = .ok r ∧ _) ↔ _
  rw [hunpack]
  have hsame : ∀ msg : UfcsDataMsg, (ufcsDataMsgInit msg).command = msg.command ∧
      (ufcsDataMsgInit msg).length = msg.length := by
    intro msg
    rw [ufcsDataMsgInit]
    cases dataMsgType msg.command <;> exact ⟨rfl, rfl⟩
  constructor
  · rintro ⟨hhead, r, hr, -, hbody⟩
    split at hr
    · cases hr
    · rename_i hkeep
      cases hr
      refine ⟨hhead, hbody.2.2.symm, fun hc => ?_⟩
      exact not_not.mp fun hnot => hkeep ⟨hc, hnot⟩
  · rintro ⟨hhead, hpay, hkeep⟩
    rw [if_neg (fun h => h.2 (hkeep h.1))]
    have hkept := hsame ⟨d.command, d.length, copied (ufcsDataMsgPack d).payload⟩
    exact ⟨hhead, _, rfl, fun hne => hne.2 rfl, hkept.1.symm, hkept.2.symm, hpay.symm⟩

theorem roundTrips_vendor_iff (checkCrc : Bool) {v : UfcsVendorMsg}
    (hm : m.body = .vendor v) (hlen : v.length.toNat ≤ 58) :
    RoundTrips checkCrc m ↔ m.head = { version := 0, index := 0, addr := 0 } ∧
      (ufcsIsSupportedOplusCtrlMsg v = true ∧
        minMsgSize checkCrc + (3 + v.length.toNat) ≤ ufcsMsgSizeMax) ∧
      (checkCrc = true → LastByteKeepsCrc ([0, 2] ++ wireBody (.vendor v))) := by
  by_cases hpack : Packable checkCrc (.vendor v)
  · have hpay : v.payload.length = v.length.toNat := by simp [UfcsVendorMsg.payload]
    have hunpack := unpackVendorMsg_packed checkCrc 0 2 (UInt8.ofNat (v.vndId.toNat / 256))
      (UInt8.ofNat v.vndId.toNat) v.length hpay hlen
    rw [be16ToCpu_cpuToBe16, vendorPayload_roundTrip hpack.1] at hunpack
    have hcopied : (List.range v.length.toNat).map (copied v.payload) = v.payload := by
      rw [UfcsVendorMsg.payload, payload_eq_iff]
      exact fun j hj => copied_map v.data hj
    rw [roundTrips_packable_iff (by rw [hm]; exact hpack), hm]
    show _ ∧ (∃ r, unpackVendorMsg checkCrc (appendCrc checkCrc ([0, 2,
      UInt8.ofNat (v.vndId.toNat / 256), UInt8.ofNat v.vndId.toNat, v.length] ++ v.payload)) = .ok r
        ∧ _) ↔ _
    rw [hunpack]
    constructor
    · rintro ⟨hhead, r, hr, hcrc, -⟩
      cases hr
      refine ⟨hhead, hpack, fun hc => ?_⟩
      simp only [hc, if_true, true_and, not_not] at hcrc
      exact hcrc.symm
    · rintro ⟨hhead, -, hkeep⟩
      refine ⟨hhead, _, rfl, fun hne => ?_, rfl, rfl, hcopied.symm⟩
      have hlast := hkeep hne.1
      simp only [hne.1, if_true, true_and] at hne
      exact hne hlast.symm
  · rw [iff_false_intro (not_roundTrips_of_not_packable (by rw [hm]; exact hpack)), false_iff]
    exact fun h => hpack h.2.1

/-- **Exact round trip.** An outgoing message comes back from `ufcs_unpack_msg(ufcs_pack_msg(m))`
exactly when it is one of `SurvivesCodec`. -/
theorem roundTrips_iff (checkCrc : Bool) (m : UfcsMsg) (hm : Outgoing m) :
    RoundTrips checkCrc m ↔ SurvivesCodec checkCrc m := by
  have hzero : m.head = { version := 0, index := 0, addr := 0 }
      ↔ m.head.version = 0 ∧ m.head.index = 0 ∧ m.head.addr = 0 := by
    rcases m with ⟨⟨version, index, addr⟩, body, crc, crcGood⟩
    simp
  cases hbody : m.body with
  | ctrl command =>
    rw [roundTrips_ctrl_iff checkCrc hbody, hzero]
    constructor
    · rintro ⟨hv, hi, ha⟩
      exact ⟨hv, hi, ha, by simp [hbody], by simp [hbody], fun _ h => absurd hbody (h command)⟩
    · exact fun h => ⟨h.version, h.index, h.addr⟩
  | data d =>
    obtain ⟨t, ht, hlen⟩ : ∃ t, dataMsgType d.command = some t ∧ d.length.toNat = naturalLength t := by
      simpa [Outgoing, hbody] using hm
    rw [roundTrips_data_iff checkCrc hbody ht hlen, hzero]
    constructor
    · rintro ⟨⟨hv, hi, ha⟩, hpower, hcrc⟩
      refine ⟨hv, hi, ha, fun d' hd' hcmd => ?_, by simp [hbody], fun hc _ => ?_⟩
      · cases hbody.symm.trans hd'
        exact hpower (Option.some.inj (ht.symm.trans hcmd))
      · rw [hbody]
        exact hcrc hc
    · intro h
      refine ⟨⟨h.version, h.index, h.addr⟩, fun hpower => ?_, fun hc => ?_⟩
      · exact h.powerChange d hbody (hpower ▸ ht)
      · have hkeep := h.crc hc (by simp [hbody])
        rw [hbody] at hkeep
        exact hkeep
  | vendor v =>
    have hlen : v.length.toNat ≤ 58 := by simpa [Outgoing, hbody] using hm
    rw [roundTrips_vendor_iff checkCrc hbody hlen, hzero]
    constructor
    · rintro ⟨⟨hv, hi, ha⟩, hpack, hcrc⟩
      refine ⟨hv, hi, ha, by simp [hbody], fun v' hv' => ?_, fun hc _ => ?_⟩
      · cases hbody.symm.trans hv'
        exact hpack
      · rw [hbody]
        exact hcrc hc
    · intro h
      refine ⟨⟨h.version, h.index, h.addr⟩, h.vendor v hbody, fun hc => ?_⟩
      have hkeep := h.crc hc (by simp [hbody])
      rw [hbody] at hkeep
      exact hkeep

/-- A request with an all-zero head and payload, as an instance. -/
theorem roundTrips_iff_request :
    Outgoing ⟨⟨0, 0, 0⟩, .data ⟨2, 8, fun _ => 0⟩, 0, false⟩ ∧
      (RoundTrips true ⟨⟨0, 0, 0⟩, .data ⟨2, 8, fun _ => 0⟩, 0, false⟩
        ↔ SurvivesCodec true ⟨⟨0, 0, 0⟩, .data ⟨2, 8, fun _ => 0⟩, 0, false⟩) :=
  ⟨⟨.request, rfl, rfl⟩,
    roundTrips_iff true ⟨⟨0, 0, 0⟩, .data ⟨2, 8, fun _ => 0⟩, 0, false⟩ ⟨.request, rfl, rfl⟩⟩

/-- The `ping` that the driver really sends, version `UFCS_VER_1_0` and address `UFCS_DEVICE_SOURCE`,
does not come back. -/
theorem not_roundTrips_ping :
    ¬ ∀ (checkCrc : Bool) (m : UfcsMsg), Outgoing m → RoundTrips checkCrc m := by
  intro h
  obtain ⟨frame, packed, m', hpack, hunpack, -, hhead, -⟩ := h false ⟨⟨1, 0, 1⟩, .ctrl 0, 0, false⟩ trivial
  have hframe : frame = [0x20, 0x08, 0x00] := by
    have hpack' : ufcsPackMsg false ⟨⟨1, 0, 1⟩, .ctrl 0, 0, false⟩ ufcsMsgSizeMax
        = .ok ([0x20, 0x08, 0x00], ⟨⟨1, 0, 1⟩, .ctrl 0, 0, false⟩) := rfl
    exact (Prod.mk.inj (Except.ok.inj (hpack.symm.trans hpack'))).1
  subst hframe
  have hversion : m'.head = ⟨8, 0, 0⟩ := by
    have hunpack' : ufcsUnpackMsg false [0x20, 0x08, 0x00]
        = .ok ⟨⟨8, 0, 0⟩, .ctrl 0, 0, true⟩ := rfl
    rw [Except.ok.inj (hunpack.symm.trans hunpack')]
  rw [hversion] at hhead
  exact absurd hhead (by decide)

end Sm8750Modules.Ufcs
