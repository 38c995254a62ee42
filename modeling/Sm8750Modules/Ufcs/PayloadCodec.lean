import Sm8750Modules.Ufcs.Payload

/-!
# UFCS — the payloads that the codec keeps

`ufcs_data_msg_init` is meant to undo `ufcs_data_msg_pack`, and a power change to go over the wire as
seven entries of three bytes, the most significant one first, entry `i` at offset `3 * i`.
-/

namespace Sm8750Modules.Ufcs

/-- Entry `i` of the power change `buf` stands in the packed bytes `wire`. -/
def WrittenAt (buf wire : Bytes) (i : ℕ) : Prop :=
  wire (3 * i) = buf (4 * i + 2) ∧ wire (3 * i + 1) = buf (4 * i + 1) ∧ wire (3 * i + 2) = buf (4 * i)

/-- Entry `i` of the initialised payload `out` is the one in the bytes `wire`. -/
def ReadFrom (wire out : Bytes) (i : ℕ) : Prop :=
  loadU32 out (4 * i)
    = (wire (3 * i)).toNat * 2 ^ 16 + (wire (3 * i + 1)).toNat * 2 ^ 8 + (wire (3 * i + 2)).toNat

/-- Initialising the packed message gives the message back, and the entries of a power change are
written to and read from their offsets. -/
structure CodecOk (msg : UfcsDataMsg) : Prop where
  roundTrip : ufcsDataMsgInit (ufcsDataMsgPack msg) = msg
  written : dataMsgType msg.command = some .powerChange →
    ∀ i < ufcsOutputModeMax, WrittenAt msg.data (ufcsDataMsgPack msg).data i
  read : dataMsgType msg.command = some .powerChange →
    ∀ i < ufcsOutputModeMax,
      ReadFrom (ufcsDataMsgPack msg).data (ufcsDataMsgInit (ufcsDataMsgPack msg)).data i

def FitsWire (msg : UfcsDataMsg) : Prop :=
  dataMsgType msg.command = some .powerChange →
    ∀ i < ufcsOutputModeMax, loadU32 msg.data (4 * i) < 2 ^ 24

theorem loadU32_eq_zero_iff (buf : Bytes) (off : ℕ) :
    loadU32 buf off = 0 ↔
      buf off = 0 ∧ buf (off + 1) = 0 ∧ buf (off + 2) = 0 ∧ buf (off + 3) = 0 := by
  simp only [← UInt8.toNat_inj, UInt8.toNat_zero, loadU32]
  omega

theorem top_of_lt {buf : Bytes} {off : ℕ} (h : loadU32 buf off < 2 ^ 24) : buf (off + 3) = 0 := by
  rw [← UInt8.toNat_inj, UInt8.toNat_zero]
  simp only [loadU32] at h
  omega

theorem zero_of_entries {buf : Bytes} (h : ∀ i < ufcsOutputModeMax, loadU32 buf (4 * i) = 0) :
    ∀ j < 28, buf j = 0 := by
  intro j hj
  obtain ⟨h0, h1, h2, h3⟩ := (loadU32_eq_zero_iff buf (4 * (j / 4))).mp
    (h (j / 4) (by simp only [ufcsOutputModeMax]; omega))
  have hmod : j % 4 < 4 := Nat.mod_lt j (by decide)
  have hj' : j = 4 * (j / 4) + j % 4 := (Nat.div_add_mod j 4).symm
  rw [hj']
  interval_cases j % 4
  · exact h0
  · exact h1
  · exact h2
  · exact h3

theorem recvPowerChange_pack_behind (buf : Bytes) {j : ℕ} (hj : 28 ≤ j) :
    ufcsRecvDataMsgPowerChange (ufcsPackDataMsgPowerChange buf) j = buf j := by
  rw [ufcsRecvDataMsgPowerChange, recvPowerChangeLoop_apply,
    if_neg (by simp only [ufcsOutputModeMax]; omega), ufcsPackDataMsgPowerChange_apply,
    if_neg (by omega), if_neg (by omega)]

theorem zero_of_written {buf : Bytes}
    (hfits : ∀ i < ufcsOutputModeMax, loadU32 buf (4 * i) < 2 ^ 24)
    (hround : ∀ j < 28, ufcsRecvDataMsgPowerChange (ufcsPackDataMsgPowerChange buf) j = buf j)
    (hwritten : ∀ i < ufcsOutputModeMax, WrittenAt buf (ufcsPackDataMsgPowerChange buf) i) :
    ∀ j < 28, buf j = 0 := by
  obtain ⟨a, b, c, d, e, f, g, h, hpay⟩ := (recvPowerChange_pack_eq_iff buf).mp hround
  have hat : ∀ k < 28, buf k
      = [b, a, b, c, c, b, a, 0, d, c, b, 0, e, d, c, 0, f, e, d, 0, g, f, e, 0, h, g, f, 0].getD
          k 0 := by
    intro k hk
    rw [← hpay, List.getD_eq_getElem?_getD, List.getElem?_map, List.getElem?_range hk]
    rfl
  have hsame : ∀ {k l : ℕ} (_ : k < 28) (_ : l < 28), buf k = buf l →
      [b, a, b, c, c, b, a, 0, d, c, b, 0, e, d, c, 0, f, e, d, 0, g, f, e, 0, h, g, f, 0].getD k 0
        = [b, a, b, c, c, b, a, 0, d, c, b, 0, e, d, c, 0, f, e, d, 0, g, f, e, 0, h, g, f, 0].getD
          l 0 :=
    fun hk hl hkl => (hat _ hk).symm.trans (hkl.trans (hat _ hl))
  have hwire : ∀ j, (if j < 7 then buf (4 * j + 2) else if j < 9 then buf (25 - (j - 7)) else buf j)
      = ufcsPackDataMsgPowerChange buf j := fun j => (ufcsPackDataMsgPowerChange_apply buf j).symm
  -- the top byte of entry 0
  have hc : c = 0 := (hat 3 (by decide)).symm.trans (top_of_lt (hfits 0 (by decide)))
  -- the bytes of entries 1 and 2, and the first one of entry 4, as the packing loop leaves them
  have ha : c = a := hsame (by decide : 14 < 28) (by decide : 6 < 28)
    ((hwire 3).trans (hwritten 1 (by decide)).1)
  have hd : d = b := hsame (by decide : 18 < 28) (by decide : 5 < 28)
    ((hwire 4).trans (hwritten 1 (by decide)).2.1)
  have he : e = c := hsame (by decide : 22 < 28) (by decide : 4 < 28)
    ((hwire 5).trans (hwritten 1 (by decide)).2.2)
  have hf : f = b := hsame (by decide : 26 < 28) (by decide : 10 < 28)
    ((hwire 6).trans (hwritten 2 (by decide)).1)
  have hg : g = c := hsame (by decide : 25 < 28) (by decide : 9 < 28)
    ((hwire 7).trans (hwritten 2 (by decide)).2.1)
  have hh : h = d := hsame (by decide : 24 < 28) (by decide : 8 < 28)
    ((hwire 8).trans (hwritten 2 (by decide)).2.2)
  have hed : e = d := hsame (by decide : 12 < 28) (by decide : 18 < 28)
    ((hwire 12).trans (hwritten 4 (by decide)).1)
  subst hc
  subst ha
  have hb : b = 0 := by rw [← hd, ← hed, he]
  rw [hb] at hd hf hat
  rw [hd] at hh hat
  rw [he, hf, hg, hh] at hat
  intro j hj
  rw [hat j hj]
  interval_cases j <;> rfl

theorem ufcsDataMsgPack_of_type {msg : UfcsDataMsg} {t : UfcsDataMsgType}
    (ht : dataMsgType msg.command = some t) :
    ufcsDataMsgPack msg = { msg with data := packData t msg.data } := by
  rw [ufcsDataMsgPack, ht]

theorem init_pack_of_type {msg : UfcsDataMsg} {t : UfcsDataMsgType}
    (ht : dataMsgType msg.command = some t) :
    ufcsDataMsgInit (ufcsDataMsgPack msg) = { msg with data := initData t (packData t msg.data) } := by
  rw [ufcsDataMsgPack_of_type ht, ufcsDataMsgInit, ht]

theorem init_pack_eq_iff {msg : UfcsDataMsg} {t : UfcsDataMsgType}
    (ht : dataMsgType msg.command = some t) :
    ufcsDataMsgInit (ufcsDataMsgPack msg) = msg ↔ initData t (packData t msg.data) = msg.data := by
  rw [init_pack_of_type ht]
  constructor
  · exact fun h => congrArg UfcsDataMsg.data h
  · exact fun h => by rw [h]

theorem codecOk_of_zero {msg : UfcsDataMsg} (ht : dataMsgType msg.command = some .powerChange)
    (hzero : ∀ j < 28, msg.data j = 0) : CodecOk msg := by
  have hwire : ∀ j < 28, (ufcsDataMsgPack msg).data j = 0 := by
    intro j hj
    rw [ufcsDataMsgPack_of_type ht]
    show ufcsPackDataMsgPowerChange msg.data j = 0
    rw [ufcsPackDataMsgPowerChange_apply]
    split
    · exact hzero _ (by omega)
    · split
      · exact hzero _ (by omega)
      · exact hzero j hj
  have hround : ufcsDataMsgInit (ufcsDataMsgPack msg) = msg := by
    rw [init_pack_eq_iff ht]
    funext j
    show ufcsRecvDataMsgPowerChange (ufcsPackDataMsgPowerChange msg.data) j = msg.data j
    by_cases hj : j < 28
    · rw [recvPowerChange_pack msg.data j hj, hzero j hj]
      split_ifs <;> first
        | rfl
        | exact hzero _ (by omega)
    · exact recvPowerChange_pack_behind msg.data (by omega)
  refine ⟨hround, fun _ i hi => ?_, fun _ i hi => ?_⟩
  · simp only [ufcsOutputModeMax] at hi
    refine ⟨?_, ?_, ?_⟩ <;> rw [hwire _ (by omega), hzero _ (by omega)]
  · simp only [ufcsOutputModeMax] at hi
    rw [ReadFrom, hround, hwire _ (by omega), hwire _ (by omega), hwire _ (by omega),
      (loadU32_eq_zero_iff msg.data (4 * i)).mpr ⟨hzero _ (by omega), hzero _ (by omega),
        hzero _ (by omega), hzero _ (by omega)⟩]
    rfl

/-- **Exact payload codec.** A message whose fields fit the wire is kept exactly if it is no power
change or a power change of zeros. -/
theorem codecOk_iff (msg : UfcsDataMsg) (hfits : FitsWire msg) :
    CodecOk msg ↔ (dataMsgType msg.command = some .powerChange →
      ∀ i < ufcsOutputModeMax, loadU32 msg.data (4 * i) = 0) := by
  constructor
  · intro hok ht
    have hround := (init_pack_eq_iff ht).mp hok.roundTrip
    have hwritten := hok.written ht
    rw [ufcsDataMsgPack_of_type ht] at hwritten
    have hzero := zero_of_written (hfits ht) (fun j _ => congrFun hround j) hwritten
    intro i hi
    simp only [ufcsOutputModeMax] at hi
    exact (loadU32_eq_zero_iff msg.data (4 * i)).mpr ⟨hzero _ (by omega), hzero _ (by omega),
      hzero _ (by omega), hzero _ (by omega)⟩
  · intro hzero
    cases ht : dataMsgType msg.command with
    | none =>
      have hpack : ufcsDataMsgPack msg = msg := by rw [ufcsDataMsgPack, ht]
      have hinit : ufcsDataMsgInit msg = msg := by rw [ufcsDataMsgInit, ht]
      have hno : dataMsgType msg.command ≠ some .powerChange := by simp [ht]
      exact ⟨by rw [hpack, hinit], fun h => absurd h hno, fun h => absurd h hno⟩
    | some t =>
      by_cases hpower : t = .powerChange
      · subst hpower
        exact codecOk_of_zero ht (zero_of_entries (hzero ht))
      · have hno : dataMsgType msg.command ≠ some .powerChange := by simp [ht, hpower]
        exact ⟨(init_pack_eq_iff ht).mpr (initData_packData hpower msg.data),
          fun h => absurd h hno, fun h => absurd h hno⟩

/-- An error information message. -/
theorem codecOk_iff_errorInfo :
    FitsWire ⟨7, 4, fun _ => 1⟩ ∧ (CodecOk ⟨7, 4, fun _ => 1⟩ ↔
      (dataMsgType 7 = some .powerChange →
        ∀ i < ufcsOutputModeMax, loadU32 (fun _ => 1) (4 * i) = 0)) :=
  ⟨fun h => absurd h (by decide), codecOk_iff ⟨7, 4, fun _ => 1⟩ fun h => absurd h (by decide)⟩

/-- A power change whose first entry is one is not kept. -/
theorem not_codecOk_powerChange : ¬ ∀ msg : UfcsDataMsg, FitsWire msg → CodecOk msg := by
  intro hall
  have hround := (hall ⟨0x0c, 28, fun j => if j = 0 then 1 else 0⟩ fun _ i hi => by
    simp only [ufcsOutputModeMax] at hi
    interval_cases i <;> decide).roundTrip
  have hbyte := congrFun (congrArg UfcsDataMsg.data hround) 0
  exact absurd hbyte (by decide)

end Sm8750Modules.Ufcs
