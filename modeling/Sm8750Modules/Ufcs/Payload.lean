import Mathlib.Tactic.IntervalCases

/-!
# UFCS — the payload of a data message and its in-place byte order conversion

The payload of a `struct ufcs_data_msg` is a union that the driver reads both as raw bytes and as the
structure of the command. Here it is its memory: the byte at each offset. The host is little endian,
so `cpu_to_be64` and `be64_to_cpu` of a field both reverse the bytes of that field in place
(`swapField`), and so do the loops that copy the random and encrypted data of the verify messages.
-/

namespace Sm8750Modules.Ufcs

open List

abbrev Bytes := ℕ → UInt8

/-- Byte reversal of the `width` bytes at `off`. -/
def swapField (off width : ℕ) (buf : Bytes) : Bytes := fun j =>
  if off ≤ j ∧ j < off + width then buf (2 * off + width - 1 - j) else buf j

theorem swapField_swapField (off width : ℕ) (buf : Bytes) :
    swapField off width (swapField off width buf) = buf := by
  funext j
  simp only [swapField]
  by_cases hj : off ≤ j ∧ j < off + width
  · rw [if_pos hj, if_pos (by omega)]
    congr 1
    omega
  · rw [if_neg hj, if_neg hj]

theorem swapField_congr (off width n : ℕ) (hn : off + width ≤ n) {f g : Bytes}
    (h : ∀ j < n, f j = g j) : ∀ j < n, swapField off width f j = swapField off width g j := by
  intro j hj
  simp only [swapField]
  split
  · exact h _ (by omega)
  · exact h _ hj

def ufcsOutputModeMax : ℕ := 7

/-- The loop over the 64-bit output modes, after its first `n` turns. -/
def swapModes (n : ℕ) (buf : Bytes) : Bytes :=
  (List.range n).foldl (fun b i => swapField (8 * i) 8 b) buf

theorem swapModes_apply (n : ℕ) (buf : Bytes) (j : ℕ) :
    swapModes n buf j = if j < 8 * n then buf (8 * (j / 8) + 7 - j % 8) else buf j := by
  induction n generalizing j with
  | zero => simp [swapModes]
  | succ n ih =>
    have hstep : swapModes (n + 1) buf = swapField (8 * n) 8 (swapModes n buf) := by
      simp [swapModes, range_succ]
    rw [hstep, swapField]
    split
    · rw [ih, if_neg (by omega), if_pos (by omega)]
      congr 1
      omega
    · rw [ih]
      by_cases hj : j < 8 * n
      · rw [if_pos hj, if_pos (by omega)]
      · rw [if_neg hj, if_neg (by omega)]

theorem swapModes_swapModes (n : ℕ) (buf : Bytes) : swapModes n (swapModes n buf) = buf := by
  funext j
  rw [swapModes_apply]
  by_cases hj : j < 8 * n
  · rw [if_pos hj, swapModes_apply, if_pos (by omega)]
    congr 1
    omega
  · rw [if_neg hj, swapModes_apply, if_neg hj]

theorem swapModes_congr {n : ℕ} {f g : Bytes} (h : ∀ j < 8 * n, f j = g j) :
    ∀ j < 8 * n, swapModes n f j = swapModes n g j := by
  intro j hj
  rw [swapModes_apply, swapModes_apply, if_pos hj, if_pos hj]
  exact h _ (by omega)

/-! ### The power change loops -/

variable (buf : Bytes)

/-- The little endian 32-bit word at byte offset `off`. -/
def loadU32 (off : ℕ) : ℕ :=
  (buf off).toNat + (buf (off + 1)).toNat * 2 ^ 8 + (buf (off + 2)).toNat * 2 ^ 16
    + (buf (off + 3)).toNat * 2 ^ 24

/-- Store of the little endian 32-bit word `v` at byte offset `off`. -/
def storeU32 (off v : ℕ) : Bytes := fun j =>
  if off ≤ j ∧ j < off + 4 then UInt8.ofNat (v / 2 ^ (8 * (j - off))) else buf j

/-- One turn of the loop in `ufcs_pack_data_msg_power_change`. -/
def packPowerChangeStep (i : ℕ) : Bytes :=
  let data := loadU32 buf (4 * i)
  Function.update (Function.update (Function.update buf i (UInt8.ofNat (data / 2 ^ 16 % 256)))
    (i + 1) (UInt8.ofNat (data / 2 ^ 8 % 256))) (i + 2) (UInt8.ofNat (data % 256))

def ufcsPackDataMsgPowerChange : Bytes :=
  (List.range ufcsOutputModeMax).foldl packPowerChangeStep buf

/-- The loop of `ufcs_recv_data_msg_power_change` from entry `i` down to entry 1: entry `i` is read
from bytes `i`, `i + 1` and `i + 2`. -/
def recvPowerChangeLoop : ℕ → Bytes → Bytes
  | 0, buf => buf
  | i + 1, buf =>
    recvPowerChangeLoop i (storeU32 buf (4 * (i + 1))
      ((buf (i + 1)).toNat * 2 ^ 16 + (buf (i + 1 + 1)).toNat * 2 ^ 8 + (buf (i + 1 + 2)).toNat))

def ufcsRecvDataMsgPowerChange : Bytes :=
  recvPowerChangeLoop (ufcsOutputModeMax - 1) buf

variable (buf : Bytes)

theorem loadU32_byte2 (off : ℕ) : UInt8.ofNat (loadU32 buf off / 2 ^ 16 % 256) = buf (off + 2) := by
  have h0 := (buf off).toNat_lt
  have h1 := (buf (off + 1)).toNat_lt
  have h2 := (buf (off + 2)).toNat_lt
  have hval : loadU32 buf off / 2 ^ 16 % 256 = (buf (off + 2)).toNat := by
    simp only [loadU32]
    omega
  rw [hval, UInt8.ofNat_toNat]

theorem loadU32_byte1 (off : ℕ) : UInt8.ofNat (loadU32 buf off / 2 ^ 8 % 256) = buf (off + 1) := by
  have h0 := (buf off).toNat_lt
  have h1 := (buf (off + 1)).toNat_lt
  have hval : loadU32 buf off / 2 ^ 8 % 256 = (buf (off + 1)).toNat := by
    simp only [loadU32]
    omega
  rw [hval, UInt8.ofNat_toNat]

theorem loadU32_byte0 (off : ℕ) : UInt8.ofNat (loadU32 buf off % 256) = buf off := by
  have h0 := (buf off).toNat_lt
  have hval : loadU32 buf off % 256 = (buf off).toNat := by
    simp only [loadU32]
    omega
  rw [hval, UInt8.ofNat_toNat]

theorem packPowerChange_prefix (n j : ℕ) :
    (List.range n).foldl packPowerChangeStep buf j
      = if j < n then buf (4 * j + 2)
        else if 0 < n ∧ j < n + 2 then buf (4 * (n - 1) + 1 - (j - n)) else buf j := by
  induction n generalizing j with
  | zero => simp
  | succ n ih =>
    have hword : ∀ k < 4, (List.range n).foldl packPowerChangeStep buf (4 * n + k)
        = buf (4 * n + k) := by
      intro k _
      rw [ih, if_neg (by omega)]
      by_cases hn : 0 < n
      · rw [if_neg (by omega)]
      · rw [if_neg (by omega)]
    have hload : loadU32 ((List.range n).foldl packPowerChangeStep buf) (4 * n)
        = loadU32 buf (4 * n) := by
      simp only [loadU32]
      rw [show 4 * n = 4 * n + 0 from rfl, hword 0 (by omega), hword 1 (by omega),
        hword 2 (by omega), hword 3 (by omega)]
    rw [range_succ, foldl_append, foldl_cons, foldl_nil, packPowerChangeStep,
      hload, loadU32_byte2, loadU32_byte1, loadU32_byte0]
    simp only [Function.update_apply, ih]
    clear hword hload ih
    split_ifs <;> first
      | omega
      | rfl
      | (congr 1; omega)

theorem ufcsPackDataMsgPowerChange_apply (j : ℕ) :
    ufcsPackDataMsgPowerChange buf j
      = if j < 7 then buf (4 * j + 2) else if j < 9 then buf (25 - (j - 7)) else buf j := by
  rw [ufcsPackDataMsgPowerChange, ufcsOutputModeMax, packPowerChange_prefix]
  grind

theorem storeU32_recv (off i j : ℕ) :
    storeU32 buf off ((buf i).toNat * 2 ^ 16 + (buf (i + 1)).toNat * 2 ^ 8 + (buf (i + 2)).toNat) j
      = if off ≤ j ∧ j < off + 3 then buf (i + 2 - (j - off))
        else if j = off + 3 then 0 else buf j := by
  have h0 := (buf i).toNat_lt
  have h1 := (buf (i + 1)).toNat_lt
  have h2 := (buf (i + 2)).toNat_lt
  simp only [storeU32]
  by_cases hj : off ≤ j ∧ j < off + 4
  · obtain ⟨k, rfl⟩ : ∃ k, j = off + k := ⟨j - off, by omega⟩
    have hk : k < 4 := by omega
    rw [if_pos hj, show off + k - off = k from by omega]
    -- the four bytes of the word
    interval_cases k
    · rw [if_pos (by omega), ← UInt8.toNat_inj, UInt8.toNat_ofNat']
      show _ = (buf (i + 2)).toNat
      omega
    · rw [if_pos (by omega), ← UInt8.toNat_inj, UInt8.toNat_ofNat']
      show _ = (buf (i + 1)).toNat
      omega
    · rw [if_pos (by omega), ← UInt8.toNat_inj, UInt8.toNat_ofNat']
      show _ = (buf i).toNat
      omega
    · rw [if_neg (by omega), if_pos rfl, ← UInt8.toNat_inj, UInt8.toNat_ofNat']
      show _ = 0
      omega
  · rw [if_neg hj, if_neg (by omega), if_neg (by omega)]

theorem recvPowerChangeLoop_apply (n : ℕ) (buf : Bytes) (j : ℕ) :
    recvPowerChangeLoop n buf j
      = if 4 ≤ j ∧ j < 4 * (n + 1) then
          if j % 4 = 3 then 0 else buf (j / 4 + 2 - j % 4)
        else buf j := by
  induction n generalizing buf j with
  | zero => rw [recvPowerChangeLoop, if_neg (by omega)]
  | succ n ih =>
    rw [recvPowerChangeLoop, ih]
    simp only [storeU32_recv]
    grind

theorem recvPowerChange_pack (j : ℕ) (hj : j < 28) :
    ufcsRecvDataMsgPowerChange (ufcsPackDataMsgPowerChange buf) j
      = if j < 4 then buf (4 * j + 2)
        else if j % 4 = 3 then 0
        else if j / 4 + 2 - j % 4 < 7 then buf (4 * (j / 4 + 2 - j % 4) + 2)
        else buf (25 - (j / 4 + 2 - j % 4 - 7)) := by
  rw [ufcsRecvDataMsgPowerChange, ufcsOutputModeMax, recvPowerChangeLoop_apply]
  simp only [ufcsPackDataMsgPowerChange_apply]
  grind

/-! ### The commands -/

inductive UfcsDataMsgType
  | outputCapabilities
  | request
  | sourceInfo
  | sinkInfo
  | cableInfo
  | deviceInfo
  | errorInfo
  | configWatchdog
  | refuse
  | verifyRequest
  | verifyResponse
  | powerChange
  | testRequest
  deriving DecidableEq

/-- The cases of the switch statements over `msg->command`; `none` is their `default`. -/
def dataMsgType (command : UInt8) : Option UfcsDataMsgType :=
  match command.toNat with
  | 0x01 => some .outputCapabilities
  | 0x02 => some .request
  | 0x03 => some .sourceInfo
  | 0x04 => some .sinkInfo
  | 0x05 => some .cableInfo
  | 0x06 => some .deviceInfo
  | 0x07 => some .errorInfo
  | 0x08 => some .configWatchdog
  | 0x09 => some .refuse
  | 0x0a => some .verifyRequest
  | 0x0b => some .verifyResponse
  | 0x0c => some .powerChange
  | 0xff => some .testRequest
  | _ => none

/-- The size of the structure of a command, which the senders put in the length field. -/
def naturalLength : UfcsDataMsgType → ℕ
  | .outputCapabilities => 8 * ufcsOutputModeMax
  | .request => 8
  | .sourceInfo => 8
  | .sinkInfo => 8
  | .cableInfo => 8
  | .deviceInfo => 8
  | .errorInfo => 4
  | .configWatchdog => 2
  | .refuse => 4
  | .verifyRequest => 17
  | .verifyResponse => 48
  | .powerChange => 4 * ufcsOutputModeMax
  | .testRequest => 2

def ufcsPackDataMsgOutputCap : Bytes → Bytes := swapModes ufcsOutputModeMax
def ufcsPackDataMsgRequest : Bytes → Bytes := swapField 0 8
def ufcsPackDataMsgSrcInfo : Bytes → Bytes := swapField 0 8
def ufcsPackDataMsgSinkInfo : Bytes → Bytes := swapField 0 8
def ufcsPackDataMsgCableInfo : Bytes → Bytes := swapField 0 8
def ufcsPackDataMsgDevInfo : Bytes → Bytes := swapField 0 8
def ufcsPackDataMsgErrInfo : Bytes → Bytes := swapField 0 4
def ufcsPackDataMsgConfigWd : Bytes → Bytes := swapField 0 2
def ufcsPackDataMsgRefuse : Bytes → Bytes := swapField 0 4
def ufcsPackDataMsgTestRequest : Bytes → Bytes := swapField 0 2

def ufcsRecvDataMsgOutputCap : Bytes → Bytes := swapModes ufcsOutputModeMax
def ufcsRecvDataMsgRequest : Bytes → Bytes := swapField 0 8
def ufcsRecvDataMsgSrcInfo : Bytes → Bytes := swapField 0 8
def ufcsRecvDataMsgSinkInfo : Bytes → Bytes := swapField 0 8
def ufcsRecvDataMsgCableInfo : Bytes → Bytes := swapField 0 8
def ufcsRecvDataMsgDevInfo : Bytes → Bytes := swapField 0 8
def ufcsRecvDataMsgErrInfo : Bytes → Bytes := swapField 0 4
def ufcsRecvDataMsgConfigWd : Bytes → Bytes := swapField 0 2
def ufcsRecvDataMsgRefuse : Bytes → Bytes := swapField 0 4
def ufcsRecvDataMsgTestRequest : Bytes → Bytes := swapField 0 2

def ufcsRecvOrPackDataMsgVerifyRequest : Bytes → Bytes := swapField 1 16

def ufcsRecvOrPackDataMsgVerifyResponse : Bytes := swapField 32 16 (swapField 0 32 buf)

def packData : UfcsDataMsgType → Bytes → Bytes
  | .outputCapabilities => ufcsPackDataMsgOutputCap
  | .request => ufcsPackDataMsgRequest
  | .sourceInfo => ufcsPackDataMsgSrcInfo
  | .sinkInfo => ufcsPackDataMsgSinkInfo
  | .cableInfo => ufcsPackDataMsgCableInfo
  | .deviceInfo => ufcsPackDataMsgDevInfo
  | .errorInfo => ufcsPackDataMsgErrInfo
  | .configWatchdog => ufcsPackDataMsgConfigWd
  | .refuse => ufcsPackDataMsgRefuse
  | .verifyRequest => ufcsRecvOrPackDataMsgVerifyRequest
  | .verifyResponse => ufcsRecvOrPackDataMsgVerifyResponse
  | .powerChange => ufcsPackDataMsgPowerChange
  | .testRequest => ufcsPackDataMsgTestRequest

def initData : UfcsDataMsgType → Bytes → Bytes
  | .outputCapabilities => ufcsRecvDataMsgOutputCap
  | .request => ufcsRecvDataMsgRequest
  | .sourceInfo => ufcsRecvDataMsgSrcInfo
  | .sinkInfo => ufcsRecvDataMsgSinkInfo
  | .cableInfo => ufcsRecvDataMsgCableInfo
  | .deviceInfo => ufcsRecvDataMsgDevInfo
  | .errorInfo => ufcsRecvDataMsgErrInfo
  | .configWatchdog => ufcsRecvDataMsgConfigWd
  | .refuse => ufcsRecvDataMsgRefuse
  | .verifyRequest => ufcsRecvOrPackDataMsgVerifyRequest
  | .verifyResponse => ufcsRecvOrPackDataMsgVerifyResponse
  | .powerChange => ufcsRecvDataMsgPowerChange
  | .testRequest => ufcsRecvDataMsgTestRequest

theorem initData_packData {t : UfcsDataMsgType} (ht : t ≠ .powerChange) (buf : Bytes) :
    initData t (packData t buf) = buf := by
  cases t with
  | outputCapabilities => exact swapModes_swapModes ufcsOutputModeMax buf
  | request => exact swapField_swapField 0 8 buf
  | sourceInfo => exact swapField_swapField 0 8 buf
  | sinkInfo => exact swapField_swapField 0 8 buf
  | cableInfo => exact swapField_swapField 0 8 buf
  | deviceInfo => exact swapField_swapField 0 8 buf
  | errorInfo => exact swapField_swapField 0 4 buf
  | configWatchdog => exact swapField_swapField 0 2 buf
  | refuse => exact swapField_swapField 0 4 buf
  | verifyRequest => exact swapField_swapField 1 16 buf
  | verifyResponse =>
    funext j
    show swapField 32 16 (swapField 0 32 (swapField 32 16 (swapField 0 32 buf))) j = buf j
    simp only [swapField]
    split_ifs <;> first
      | omega
      | rfl
      | (congr 1; omega)
  | powerChange => exact absurd rfl ht
  | testRequest => exact swapField_swapField 0 2 buf

theorem initData_congr (t : UfcsDataMsgType) {f g : Bytes} (h : ∀ j < naturalLength t, f j = g j) :
    ∀ j < naturalLength t, initData t f j = initData t g j := by
  cases t with
  | outputCapabilities => exact swapModes_congr h
  | request => exact swapField_congr 0 8 8 (by decide) h
  | sourceInfo => exact swapField_congr 0 8 8 (by decide) h
  | sinkInfo => exact swapField_congr 0 8 8 (by decide) h
  | cableInfo => exact swapField_congr 0 8 8 (by decide) h
  | deviceInfo => exact swapField_congr 0 8 8 (by decide) h
  | errorInfo => exact swapField_congr 0 4 4 (by decide) h
  | configWatchdog => exact swapField_congr 0 2 2 (by decide) h
  | refuse => exact swapField_congr 0 4 4 (by decide) h
  | verifyRequest => exact swapField_congr 1 16 17 (by decide) h
  | verifyResponse =>
    exact swapField_congr 32 16 48 (by decide) (swapField_congr 0 32 48 (by decide) h)
  | powerChange =>
    intro j hj
    have hj' : j < 28 := hj
    show recvPowerChangeLoop 6 f j = recvPowerChangeLoop 6 g j
    have hword : ∀ k < 28, f k = g k := h
    rw [recvPowerChangeLoop_apply, recvPowerChangeLoop_apply]
    split
    · split
      · rfl
      · exact hword _ (by omega)
    · exact hword _ hj'
  | testRequest => exact swapField_congr 0 2 2 (by decide) h

def PowerChangeFixed (payload : List UInt8) : Prop :=
  ∃ a b c d e f g h : UInt8,
    payload = [b, a, b, c, c, b, a, 0, d, c, b, 0, e, d, c, 0, f, e, d, 0, g, f, e, 0, h, g, f, 0]

/-- **Power change round trip.** Packing and receiving gives the payload back exactly for the payloads
of `PowerChangeFixed`. -/
theorem recvPowerChange_pack_eq_iff :
    (∀ j < 28, ufcsRecvDataMsgPowerChange (ufcsPackDataMsgPowerChange buf) j = buf j)
      ↔ PowerChangeFixed ((List.range 28).map buf) := by
  constructor
  · intro h
    have hat : ∀ j < 28, buf j
        = if j < 4 then buf (4 * j + 2)
          else if j % 4 = 3 then 0
          else if j / 4 + 2 - j % 4 < 7 then buf (4 * (j / 4 + 2 - j % 4) + 2)
          else buf (25 - (j / 4 + 2 - j % 4 - 7)) := by
      intro j hj
      rw [← recvPowerChange_pack buf j hj, h j hj]
    refine ⟨buf 6, buf 10, buf 14, buf 18, buf 22, buf 26, buf 25, buf 24, ?_⟩
    have h0 : buf 0 = buf 2 := hat 0 (by decide)
    have h1 : buf 1 = buf 6 := hat 1 (by decide)
    have h2 : buf 2 = buf 10 := hat 2 (by decide)
    have h3 : buf 3 = buf 14 := hat 3 (by decide)
    have h4 : buf 4 = buf 14 := hat 4 (by decide)
    have h5 : buf 5 = buf 10 := hat 5 (by decide)
    have h7 : buf 7 = 0 := hat 7 (by decide)
    have h8 : buf 8 = buf 18 := hat 8 (by decide)
    have h9 : buf 9 = buf 14 := hat 9 (by decide)
    have h11 : buf 11 = 0 := hat 11 (by decide)
    have h12 : buf 12 = buf 22 := hat 12 (by decide)
    have h13 : buf 13 = buf 18 := hat 13 (by decide)
    have h15 : buf 15 = 0 := hat 15 (by decide)
    have h16 : buf 16 = buf 26 := hat 16 (by decide)
    have h17 : buf 17 = buf 22 := hat 17 (by decide)
    have h19 : buf 19 = 0 := hat 19 (by decide)
    have h20 : buf 20 = buf 25 := hat 20 (by decide)
    have h21 : buf 21 = buf 26 := hat 21 (by decide)
    have h23 : buf 23 = 0 := hat 23 (by decide)
    have h27 : buf 27 = 0 := hat 27 (by decide)
    show [buf 0, buf 1, buf 2, buf 3, buf 4, buf 5, buf 6, buf 7, buf 8, buf 9, buf 10, buf 11, buf 12,
      buf 13, buf 14, buf 15, buf 16, buf 17, buf 18, buf 19, buf 20, buf 21, buf 22, buf 23, buf 24,
      buf 25, buf 26, buf 27] = _
    rw [h0, h1, h2, h3, h4, h5, h7, h8, h9, h11, h12, h13, h15, h16, h17, h19, h20, h21, h23, h27]
  · rintro ⟨a, b, c, d, e, f, g, h, hpay⟩ j hj
    have hat : ∀ k < 28, buf k
        = [b, a, b, c, c, b, a, 0, d, c, b, 0, e, d, c, 0, f, e, d, 0, g, f, e, 0, h, g, f, 0].getD
            k 0 := by
      intro k hk
      rw [← hpay, List.getD_eq_getElem?_getD, List.getElem?_map, List.getElem?_range hk]
      rfl
    rw [recvPowerChange_pack buf j hj]
    interval_cases j
    all_goals
      simp only [Nat.reduceLT, Nat.reduceDiv, Nat.reduceMod, Nat.reduceAdd, Nat.reduceSub,
        Nat.reduceMul, if_true, if_false, Nat.reduceEqDiff]
    all_goals
      rw [hat _ (by decide)]
      first
        | rfl
        | (rw [hat _ (by decide)]; rfl)

structure UfcsDataMsg where
  command : UInt8
  length : UInt8
  data : Bytes

variable (msg : UfcsDataMsg)

namespace UfcsDataMsg

/-- The raw payload: the first `length` bytes. -/
def payload : List UInt8 := (List.range msg.length.toNat).map msg.data

end UfcsDataMsg

/-- `ufcs_data_msg_pack`: host order to wire order, in place. -/
def ufcsDataMsgPack : UfcsDataMsg :=
  match dataMsgType msg.command with
  | some t => { msg with data := packData t msg.data }
  | none => msg

/-- `ufcs_data_msg_init`: wire order to host order, in place. -/
def ufcsDataMsgInit : UfcsDataMsg :=
  match dataMsgType msg.command with
  | some t => { msg with data := initData t msg.data }
  | none => msg

end Sm8750Modules.Ufcs
