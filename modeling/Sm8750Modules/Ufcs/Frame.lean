import Sm8750Modules.Ufcs.Payload
import Mathlib.Data.UInt

/-!
# UFCS — packing and unpacking a frame

A frame is a two-byte big endian head (type in bits 0 to 2, version in bits 3 to 8, index in bits 9 to
12, address in bits 13 to 15), the message, and a CRC-8 when the class is configured to check it.
-/

namespace Sm8750Modules.Ufcs

open List

/-- `struct ufcs_msg_head`, without the type: the body carries it. -/
structure UfcsMsgHead where
  version : UInt8
  index : UInt8
  addr : UInt8
  deriving DecidableEq

/-- `struct ufcs_vendor_msg`; the first payload byte is `vnd_msg.type`. -/
structure UfcsVendorMsg where
  vndId : UInt16
  length : UInt8
  data : Bytes

variable (msg : UfcsVendorMsg)

def UfcsVendorMsg.payload : List UInt8 :=
  (List.range msg.length.toNat).map msg.data

/-- The union of `struct ufcs_msg`, tagged by the message type. -/
inductive UfcsMsgBody
  | ctrl (command : UInt8)
  | data (msg : UfcsDataMsg)
  | vendor (msg : UfcsVendorMsg)

/-- `head.type`. -/
def UfcsMsgBody.type : UfcsMsgBody → UInt8
  | .ctrl _ => 0
  | .data _ => 1
  | .vendor _ => 2

structure UfcsMsg where
  head : UfcsMsgHead
  body : UfcsMsgBody
  crc : UInt8
  crcGood : Bool

def ufcsMsgSizeMax : ℕ := 64

def msgHeadSize : ℕ := 2

def msgDataIndex : ℕ := 2

/-- One of the eight shifts of `crc8_calculate`, polynomial `0x29`. -/
def crc8Shift (crc : UInt8) : UInt8 :=
  if crc &&& 0x80 ≠ 0 then (crc <<< 1) ^^^ 0x29 else crc <<< 1

def crc8Byte (crc data : UInt8) : UInt8 :=
  (List.range 8).foldl (fun c _ => crc8Shift c) (crc ^^^ data)

/-- `crc8_calculate`; `size` is an `unsigned char`. -/
def crc8Calculate (data : List UInt8) (size : ℕ) : UInt8 :=
  (data.take (size % 256)).foldl crc8Byte 0

/-- `ufcs_is_supported_oplus_ctrl_msg`: `OPLUS_MSG_GET_EMARK_INFO` and
`OPLUS_MSG_GET_POWER_INFO_EXT`. -/
def ufcsIsSupportedOplusCtrlMsg : Bool :=
  msg.data 0 == 0x01 || msg.data 0 == 0x03

/-- One field of the head: shifted to its `MSG_HEAD_*_INDEX` and cut to its `MSG_HEAD_*_MASK`. -/
def headField (v : UInt8) (index mask : UInt16) : UInt16 := (v.toUInt16 <<< index) &&& mask

def packHead (type : UInt8) (head : UfcsMsgHead) : UInt16 :=
  headField head.addr 13 0xe000 ||| headField head.index 9 0x1e00
    ||| headField head.version 3 0x1f8 ||| headField type 0 0x7

/-- The two bytes that `cpu_to_be16` leaves in memory. -/
def cpuToBe16 (v : UInt16) : List UInt8 := [UInt8.ofNat (v.toNat / 256), UInt8.ofNat v.toNat]

def be16ToCpu (hi lo : UInt8) : UInt16 := UInt16.ofNat (hi.toNat * 256 + lo.toNat)

/-- The error codes of `ufcs_pack_msg`. -/
inductive PackError
  | einval
  | enotsupp
  deriving DecidableEq

variable (checkCrc : Bool)

def minMsgSize : ℕ := if checkCrc then msgHeadSize + 2 else msgHeadSize + 1

def appendCrc (frame : List UInt8) : List UInt8 :=
  if checkCrc then frame ++ [crc8Calculate frame frame.length] else frame

/-- `ufcs_pack_msg` into a buffer of `len` bytes: the bytes written, and the message, whose payload
`ufcs_data_msg_pack` has converted in place. -/
def ufcsPackMsg (msg : UfcsMsg) (len : ℕ) : Except PackError (List UInt8 × UfcsMsg) :=
  if len < minMsgSize checkCrc then .error .einval
  else
    let head := cpuToBe16 (packHead msg.body.type msg.head)
    match msg.body with
    | .ctrl command => .ok (appendCrc checkCrc (head ++ [command]), msg)
    | .data d =>
      if len < minMsgSize checkCrc + (2 + d.length.toNat) then .error .einval
      else
        let packed := ufcsDataMsgPack d
        .ok (appendCrc checkCrc (head ++ [d.command, d.length] ++ packed.payload),
          { msg with body := .data packed })
    | .vendor v =>
      if ¬ ufcsIsSupportedOplusCtrlMsg v then .error .enotsupp
      else if len < minMsgSize checkCrc + (3 + v.length.toNat) then .error .einval
      else .ok (appendCrc checkCrc (head ++ cpuToBe16 v.vndId ++ [v.length] ++ v.payload), msg)

/-! ### Receiving -/

/-- The ways `ufcs_unpack_msg` returns `NULL`, and the fault of reading outside the buffer. -/
inductive UnpackError
  | messageTooShort
  | messageTooLong
  | dataLengthInvalid
  | dataCrcError
  | vendorTooShort
  | vendorLengthInvalid
  | typeNotSupported
  | outsideBuffer
  deriving DecidableEq

def readByte (buf : List UInt8) (i : ℕ) : Except UnpackError UInt8 :=
  match buf[i]? with
  | some b => .ok b
  | none => .error .outsideBuffer

/-- `memcpy(data, &buf[off], length)` into the zeroed union of a fresh message. -/
def copyPayload (buf : List UInt8) (off length : ℕ) : Except UnpackError Bytes :=
  if off + length ≤ buf.length then
    .ok fun j => if j < length then buf.getD (off + j) 0 else 0
  else .error .outsideBuffer

/-- The fields of a received head: the masked bits stored into a byte. -/
def unpackHead (head : UInt16) : UInt8 × UfcsMsgHead :=
  ((head &&& 0x7).toUInt8,
    { version := (head &&& 0x1f8).toUInt8
      index := (head &&& 0x1e00).toUInt8
      addr := (head &&& 0xe000).toUInt8 })

/-- The payload fields of `ufcs_oplus_data_msg_init`. -/
def ufcsOplusDataMsgInit : UfcsVendorMsg :=
  match (msg.data 0).toNat with
  | 0x02 => { msg with data := swapField 1 8 msg.data }
  | 0x04 => { msg with data := (List.range 7).foldl (fun b i => swapField (1 + 8 * i) 8 b) msg.data }
  | _ => msg

/-- The `UFCS_CTRL_MSG` case: the body, the received CRC and the computed one. -/
def unpackCtrlMsg (buf : List UInt8) :
    Except UnpackError (UfcsMsgBody × UInt8 × UInt8) := do
  let command ← readByte buf msgDataIndex
  if checkCrc then
    let crc ← readByte buf (msgDataIndex + 1)
    .ok (.ctrl command, crc, crc8Calculate buf (msgDataIndex + 1))
  else .ok (.ctrl command, 0, 0)

def unpackDataMsg (buf : List UInt8) :
    Except UnpackError (UfcsMsgBody × UInt8 × UInt8) := do
  let command ← readByte buf msgDataIndex
  let length ← readByte buf (msgDataIndex + 1)
  if length.toNat + minMsgSize checkCrc + 1 ≠ buf.length then .error .dataLengthInvalid
  else
    let data ← copyPayload buf (msgDataIndex + 2) length.toNat
    let msg := ufcsDataMsgInit { command := command, length := length, data := data }
    if checkCrc then
      let crc ← readByte buf (msgDataIndex + 2 + length.toNat)
      let calculated := crc8Calculate buf (msgDataIndex + 1 + length.toNat)
      if crc ≠ calculated then .error .dataCrcError else .ok (.data msg, crc, calculated)
    else .ok (.data msg, 0, 0)

def unpackVendorMsg (buf : List UInt8) : Except UnpackError (UfcsMsgBody × UInt8 × UInt8) :=
  if buf.length < msgHeadSize + 3 then .error .vendorTooShort
  else do
    let hi ← readByte buf msgDataIndex
    let lo ← readByte buf (msgDataIndex + 1)
    let length ← readByte buf (msgDataIndex + 2)
    let msgSize := msgHeadSize + 3 + length.toNat + if checkCrc then 1 else 0
    if buf.length ≠ msgSize then .error .vendorLengthInvalid
    else
      let data ← copyPayload buf (msgDataIndex + 3) length.toNat
      let msg := ufcsOplusDataMsgInit { vndId := be16ToCpu hi lo, length := length, data := data }
      if checkCrc then
        let crc ← readByte buf (msgDataIndex + 3 + length.toNat)
        .ok (.vendor msg, crc, crc8Calculate buf (msgDataIndex + 2 + length.toNat))
      else .ok (.vendor msg, 0, 0)

/-- The switch over the received type. -/
def unpackBody (type : UInt8) (buf : List UInt8) : Except UnpackError (UfcsMsgBody × UInt8 × UInt8) :=
  match type.toNat with
  | 0 => unpackCtrlMsg checkCrc buf
  | 1 => unpackDataMsg checkCrc buf
  | 2 => unpackVendorMsg checkCrc buf
  | _ => .error .typeNotSupported

def ufcsUnpackMsg (buf : List UInt8) : Except UnpackError UfcsMsg :=
  if buf.length < minMsgSize checkCrc then .error .messageTooShort
  else if buf.length > ufcsMsgSizeMax then .error .messageTooLong
  else do
    let hi ← readByte buf 0
    let lo ← readByte buf 1
    let head := unpackHead (be16ToCpu hi lo)
    let (body, msgCrc, crc) ← unpackBody checkCrc head.1 buf
    .ok { head := head.2, body := body, crc := msgCrc, crcGood := ¬ (checkCrc ∧ msgCrc ≠ crc) }

theorem be16ToCpu_cpuToBe16 (v : UInt16) :
    be16ToCpu (UInt8.ofNat (v.toNat / 256)) (UInt8.ofNat v.toNat) = v := by
  have hv := v.toNat_lt
  rw [← UInt16.toNat_inj, be16ToCpu, UInt16.toNat_ofNat', UInt8.toNat_ofNat', UInt8.toNat_ofNat']
  omega

theorem and_or_byte (a b m : UInt8) : (a ||| b) &&& m = (a &&& m) ||| (b &&& m) := by
  apply UInt8.eq_of_toBitVec_eq
  show (a.toBitVec ||| b.toBitVec) &&& m.toBitVec
    = (a.toBitVec &&& m.toBitVec) ||| (b.toBitVec &&& m.toBitVec)
  ext i hi
  simp only [BitVec.getElem_and, BitVec.getElem_or, Bool.and_or_distrib_right]

theorem packHead_toUInt8 (type : UInt8) (head : UfcsMsgHead) :
    (packHead type head).toUInt8 = ((head.version <<< 3) &&& 0xf8) ||| (type &&& 0x7) := by
  have haddr : (headField head.addr 13 0xe000).toUInt8 = 0 := by
    rw [headField, UInt16.toUInt8_and]
    exact UInt8.and_zero
  have hindex : (headField head.index 9 0x1e00).toUInt8 = 0 := by
    rw [headField, UInt16.toUInt8_and]
    exact UInt8.and_zero
  have hversion : (headField head.version 3 0x1f8).toUInt8 = (head.version <<< 3) &&& 0xf8 := by
    rw [headField, UInt16.toUInt8_and, UInt16.toUInt8_shiftLeft _ _ (by decide),
      UInt8.toUInt8_toUInt16]
    rfl
  have htype : (headField type 0 0x7).toUInt8 = type &&& 0x7 := by
    rw [headField, UInt16.toUInt8_and, UInt16.toUInt8_shiftLeft _ _ (by decide),
      UInt8.toUInt8_toUInt16]
    show (type <<< 0) &&& 0x7 = type &&& 0x7
    rw [UInt8.shiftLeft_zero]
  rw [packHead, UInt16.toUInt8_or, UInt16.toUInt8_or, UInt16.toUInt8_or, haddr, hindex, hversion,
    htype, UInt8.zero_or, UInt8.zero_or]

variable (body : UfcsMsgBody)

/-- **What the receiver reads in a head.** The type comes back. -/
theorem unpackHead_packHead (head : UfcsMsgHead) :
    unpackHead (packHead body.type head)
      = (body.type, { version := head.version <<< 3, index := 0, addr := 0 }) := by
  have hshift : ∀ v : BitVec 8, (v <<< 3) &&& 0xf8#8 = v <<< 3 := by decide
  have hversion : (head.version <<< 3) &&& (0xf8 : UInt8) = head.version <<< 3 :=
    UInt8.eq_of_toBitVec_eq (hshift head.version.toBitVec)
  have htype : body.type &&& (0x7 : UInt8) = body.type := by
    cases body with
    | ctrl command => exact (by decide : (0 : UInt8) &&& 0x7 = 0)
    | data msg => exact (by decide : (1 : UInt8) &&& 0x7 = 1)
    | vendor msg => exact (by decide : (2 : UInt8) &&& 0x7 = 2)
  have hlow := packHead_toUInt8 body.type head
  rw [hversion, htype] at hlow
  have h1 : (packHead body.type head &&& 0x7).toUInt8 = body.type := by
    rw [UInt16.toUInt8_and, hlow]
    show ((head.version <<< 3) ||| body.type) &&& 0x7 = body.type
    rw [and_or_byte, ← hversion, UInt8.and_assoc]
    show ((head.version <<< 3) &&& 0) ||| (body.type &&& 0x7) = body.type
    rw [UInt8.and_zero, UInt8.zero_or, htype]
  have h2 : (packHead body.type head &&& 0x1f8).toUInt8 = head.version <<< 3 := by
    rw [UInt16.toUInt8_and, hlow]
    show ((head.version <<< 3) ||| body.type) &&& (0xf8 : UInt8) = head.version <<< 3
    rw [and_or_byte, hversion, ← htype, UInt8.and_assoc]
    show (head.version <<< 3) ||| (body.type &&& (0 : UInt8)) = head.version <<< 3
    rw [UInt8.and_zero, UInt8.or_zero]
  have h3 : (packHead body.type head &&& 0x1e00).toUInt8 = 0 := by
    rw [UInt16.toUInt8_and]
    exact UInt8.and_zero
  have h4 : (packHead body.type head &&& 0xe000).toUInt8 = 0 := by
    rw [UInt16.toUInt8_and]
    exact UInt8.and_zero
  rw [unpackHead, h1, h2, h3, h4]

theorem shiftedVersion_eq_iff (v : UInt8) : v <<< 3 = v ↔ v = 0 := by
  have hall : ∀ w : BitVec 8, w <<< 3 = w ↔ w = 0#8 := by decide
  rw [← UInt8.toBitVec_inj, ← UInt8.toBitVec_inj]
  exact hall v.toBitVec

theorem cpuToBe16_packHead_zero :
    cpuToBe16 (packHead body.type { version := 0, index := 0, addr := 0 }) = [0, body.type] := by
  cases body with
  | ctrl command => exact (by decide : cpuToBe16 (packHead 0 ⟨0, 0, 0⟩) = [0, 0])
  | data msg => exact (by decide : cpuToBe16 (packHead 1 ⟨0, 0, 0⟩) = [0, 1])
  | vendor msg => exact (by decide : cpuToBe16 (packHead 2 ⟨0, 0, 0⟩) = [0, 2])

def crcOf (bytes : List UInt8) : UInt8 := bytes.foldl crc8Byte 0

theorem crc8Calculate_eq {buf : List UInt8} {n : ℕ} (hn : n < 256) :
    crc8Calculate buf n = crcOf (buf.take n) := by
  rw [crc8Calculate, Nat.mod_eq_of_lt hn, crcOf]

theorem appendCrc_true {frame : List UInt8} (h : frame.length < 256) :
    appendCrc true frame = frame ++ [crcOf frame] := by
  rw [appendCrc, if_pos rfl, crc8Calculate_eq h, take_length]

theorem appendCrc_eq (checkCrc : Bool) (frame : List UInt8) :
    ∃ crc, appendCrc checkCrc frame = frame ++ crc ∧
      crc.length + msgHeadSize + 1 = minMsgSize checkCrc := by
  cases checkCrc with
  | false => exact ⟨[], by simp [appendCrc], rfl⟩
  | true => exact ⟨[crc8Calculate frame frame.length], rfl, rfl⟩

theorem readByte_of_lt {buf : List UInt8} {i : ℕ} (h : i < buf.length) :
    readByte buf i = .ok (buf.getD i 0) := by
  rw [readByte, List.getD_eq_getElem?_getD, List.getElem?_eq_getElem h]
  rfl

/-- **Receiving a frame.** The head comes back as in `unpackHead_packHead`, the rest is decided by the
case of the message type. -/
theorem ufcsUnpackMsg_frame {checkCrc : Bool} (head : UfcsMsgHead)
    {rest : List UInt8} (hmin : 1 ≤ rest.length)
    (hmax : rest.length + minMsgSize checkCrc ≤ ufcsMsgSizeMax + 1) :
    ufcsUnpackMsg checkCrc (appendCrc checkCrc (cpuToBe16 (packHead body.type head) ++ rest))
      = (unpackBody checkCrc body.type
            (appendCrc checkCrc (cpuToBe16 (packHead body.type head) ++ rest))).map fun r =>
          { head := { version := head.version <<< 3, index := 0, addr := 0 }
            body := r.1
            crc := r.2.1
            crcGood := ¬ (checkCrc ∧ r.2.1 ≠ r.2.2) } := by
  obtain ⟨crc, hcrc, hlen⟩ := appendCrc_eq checkCrc (cpuToBe16 (packHead body.type head) ++ rest)
  have hbuf : (cpuToBe16 (packHead body.type head) ++ rest ++ crc).length
      = 2 + rest.length + crc.length := by
    rw [length_append, length_append]
    rfl
  simp only [msgHeadSize] at hlen
  rw [hcrc, ufcsUnpackMsg, hbuf, if_neg (by omega), if_neg (by omega), readByte_of_lt (by omega),
    readByte_of_lt (by omega)]
  show (unpackBody checkCrc (unpackHead (be16ToCpu _ _)).1 _ >>= fun r => Except.ok _) = _
  have hhead : be16ToCpu (UInt8.ofNat ((packHead body.type head).toNat / 256))
      (UInt8.ofNat (packHead body.type head).toNat) = packHead body.type head :=
    be16ToCpu_cpuToBe16 _
  simp only [cpuToBe16, cons_append, nil_append, getD_cons_zero,
    getD_cons_succ, hhead, unpackHead_packHead]
  cases unpackBody checkCrc body.type _ with
  | error e => rfl
  | ok r => rfl

end Sm8750Modules.Ufcs
