import Mathlib
import Sm8750Modules.Lib.Blocks

/-!
# The MIC of a fragmented TKIP frame

The last eight bytes of the fragments are the Michael MIC of a pseudo header and of the bytes before them.
They are cut off the last two buffers, and the MIC is computed over what the buffers have left: a block of
four bytes may begin in one buffer and end in the next one, but in no other.

A buffer is modelled behind its header: its bytes as they were received, and how many it has left.
-/

namespace DpRx.Tkip

open Blocks
open List hiding Vector

def rotl (val bits : UInt32) : UInt32 := (val <<< bits) ||| (val >>> (32 - bits))

def rotr (val bits : UInt32) : UInt32 := (val >>> bits) ||| (val <<< (32 - bits))

def xswap (val : UInt32) : UInt32 := ((val &&& 0x00ff00ff) <<< 8) ||| ((val &&& 0xff00ff00) >>> 8)

def getLe32Split (b0 b1 b2 b3 : UInt8) : UInt32 :=
  b0.toUInt32 ||| (b1.toUInt32 <<< 8) ||| (b2.toUInt32 <<< 16) ||| (b3.toUInt32 <<< 24)

def putLe32 (v : UInt32) : List UInt8 :=
  [v.toUInt8, (v >>> 8).toUInt8, (v >>> 16).toUInt8, (v >>> 24).toUInt8]

/-- `dp_rx_michael_block(l, r)` -/
def michaelBlock : UInt32 × UInt32 → UInt32 × UInt32
  | (l, r) =>
    let r := r ^^^ rotl l 17
    let l := l + r
    let r := r ^^^ xswap l
    let l := l + r
    let r := r ^^^ rotl l 3
    let l := l + r
    let r := r ^^^ rotr l 2
    (l + r, r)

/-- `l ^= dp_rx_get_le32_split(..)` and the block. -/
def word (m : UInt32 × UInt32) (b0 b1 b2 b3 : UInt8) : UInt32 × UInt32 :=
  michaelBlock (m.1 ^^^ getLe32Split b0 b1 b2 b3, m.2)

/-- The key, as `l` and `r`. -/
def keyWords (key : Vector UInt8 8) : UInt32 × UInt32 :=
  (getLe32Split key[0] key[1] key[2] key[3], getLe32Split key[4] key[5] key[6] key[7])

/-- A byte `0x5a` and four to seven zeros. -/
def pad (n : ℕ) : List UInt8 := 0x5a :: replicate (7 - n % 4) 0

/-- **The Michael MIC** of a message. -/
def michael (key : Vector UInt8 8) (msg : List UInt8) : List UInt8 :=
  let m := absorb word (keyWords key) (msg ++ pad msg.length)
  putLe32 m.1 ++ putLe32 m.2

/-! ## The code -/

/-- The fields of a MAC header that the pseudo header is made of; the QoS field of a header with four
addresses stands elsewhere. -/
structure Ieee80211Frame where
  fc0 : UInt8
  fc1 : UInt8
  addr1 : Vector UInt8 6
  addr2 : Vector UInt8 6
  addr3 : Vector UInt8 6
  addr4 : Vector UInt8 6
  qos0 : UInt8
  addr4Qos0 : UInt8

def fc1DirMask : UInt8 := 0x03

def fc1DirTods : UInt8 := 0x01

def fc1DirFromds : UInt8 := 0x02

def fc1DirDstods : UInt8 := 0x03

def fc0SubtypeQos : UInt8 := 0x80

def qosTid : UInt8 := 0x0f

def michdr (wh : Ieee80211Frame) : List UInt8 :=
  let dir := wh.fc1 &&& fc1DirMask
  let da := if dir = fc1DirTods ∨ dir = fc1DirDstods then wh.addr3 else wh.addr1
  let sa := if dir = fc1DirFromds then wh.addr3 else if dir = fc1DirDstods then wh.addr4 else wh.addr2
  let tid := if wh.fc0 &&& fc0SubtypeQos ≠ 0 then
      (if dir = fc1DirDstods then wh.addr4Qos0 else wh.qos0) &&& qosTid
    else 0
  da.toList ++ sa.toList ++ [tid, 0, 0, 0]

/-- A fragment: its payload, and the bytes of it that the buffer has left. -/
structure Nbuf where
  payload : List UInt8
  len : ℕ
  le : len ≤ payload.length

def Nbuf.received (p : List UInt8) : Nbuf := ⟨p, p.length, le_rfl⟩

def Nbuf.data (b : Nbuf) : List UInt8 := b.payload.take b.len

def Nbuf.trimTail (b : Nbuf) (n : ℕ) : Nbuf := ⟨b.payload, b.len - n, (Nat.sub_le ..).trans b.le⟩

/-- `qdf_nbuf_copy_bits` of the last `n` bytes. -/
def Nbuf.last (b : Nbuf) (n : ℕ) : List UInt8 := b.data.drop (b.len - n)

/-- How a call ends; `outside` is a read outside of the payloads. -/
inductive Status where
  | success
  | defragError
  | outside
deriving DecidableEq, Repr

/-- The subtraction of `uint32_t`. -/
def sub32 (a b : ℕ) : ℕ := (a + 2 ^ 32 - b) % 2 ^ 32

/-- The blocks of the current buffer: `l` and `r`, the bytes from `data` on, `space` and `data_len`. -/
def collect : ℕ → UInt32 × UInt32 → List UInt8 → ℕ → Option ((UInt32 × UInt32) × List UInt8 × ℕ × ℕ)
  | space + 4, m, b0 :: b1 :: b2 :: b3 :: data, dataLen =>
    collect space (word m b0 b1 b2 b3) data (dataLen - 4)
  | _ + 4, _, _, _ => none
  | space, m, data, dataLen => some (m, data, space, dataLen)

def lastBlock (m : UInt32 × UInt32) : List UInt8 → UInt32 × UInt32
  | [] => michaelBlock (word m 0x5a 0 0 0)
  | [b0] => michaelBlock (word m b0 0x5a 0 0)
  | [b0, b1] => michaelBlock (word m b0 b1 0x5a 0)
  | b0 :: b1 :: b2 :: _ => michaelBlock (word m b0 b1 b2 0x5a)

/-- The loop of `dp_rx_defrag_mic` over the buffers behind the current one. -/
def micLoop (hdrlen : ℕ) : List Nbuf → UInt32 × UInt32 → List UInt8 → ℕ → ℕ →
    Except Status (UInt32 × UInt32)
  | rest, m, data, space, dataLen =>
    match collect (min space dataLen) m data dataLen with
    | none => .error .outside
    | some (m, data, space, dataLen) =>
      if dataLen < 4 then
        if dataLen ≤ data.length then .ok (lastBlock m (data.take dataLen)) else .error .outside
      else
        match rest with
        | [] => .error .defragError
        | next :: rest =>
          if space = 0 then micLoop hdrlen rest m next.payload next.len dataLen
          else if hdrlen + next.len < 4 - space then .error .defragError
          else if space ≤ data.length ∧ 4 - space ≤ next.payload.length then
            micLoop hdrlen rest (absorb word m (data.take space ++ next.payload.take (4 - space)))
              (next.payload.drop (4 - space)) (sub32 next.len (4 - space)) (dataLen - 4)
          else .error .outside

/-- `dp_rx_defrag_mic`; `data_len` is a `uint16_t`. -/
def defragMic (hdrlen : ℕ) (key : Vector UInt8 8) (wh : Ieee80211Frame) (wbuf : Nbuf) (rest : List Nbuf)
    (dataLen : ℕ) : Except Status (List UInt8) :=
  (micLoop hdrlen rest (absorb word (keyWords key) (michdr wh)) wbuf.payload wbuf.len
    (dataLen % 2 ^ 16)).map fun m => putLe32 m.1 ++ putLe32 m.2

/-- The comparison with the MIC that was cut off. -/
def checkMic (hdrlen : ℕ) (key : Vector UInt8 8) (wh : Ieee80211Frame) (dataLen : ℕ) (mic0 : List UInt8) :
    List Nbuf → Status × List Nbuf
  | [] => (.defragError, [])
  | wbuf :: rest =>
    match defragMic hdrlen key wh wbuf rest dataLen with
    | .error status => (status, wbuf :: rest)
    | .ok mic => (if mic = mic0 then .success else .defragError, wbuf :: rest)

def micLen : ℕ := 8

/-- `dp_rx_defrag_tkip_demic`: its status and the chain that it leaves. The MAC header of the first buffer is
`wh`. -/
def tkipDemic (hdrlen : ℕ) (key : Vector UInt8 8) (wh : Ieee80211Frame) (chain : List Nbuf) :
    Status × List Nbuf :=
  let pktlen := (chain.map Nbuf.len).sum
  match chain.reverse with
  | [] => (.defragError, chain)
  | [msdu] =>
    if msdu.len < micLen then (.defragError, chain)
    else checkMic hdrlen key wh (pktlen - micLen) (msdu.last micLen) [msdu.trimTail micLen]
  | prev :: prev0 :: front =>
    let len0 := micLen - prev.len
    if prev0.len < len0 then (.outside, chain)
    else
      let prev' := prev.trimTail (micLen - len0)
      checkMic hdrlen key wh (pktlen - micLen) (prev0.last len0 ++ prev.last (micLen - len0))
        (front.reverse ++ prev0.trimTail len0 :: if prev'.len = 0 then [] else [prev'])

/-- Fragments that may be a frame: the payloads, with room for the MIC. -/
structure Fragments where
  payloads : List (List UInt8)
  room : micLen ≤ payloads.flatten.length
  small : payloads.flatten.length < 2 ^ 16

/-- `rx_pkt_tlv_size` and the MAC header, which is a `struct ieee80211_frame` at least. -/
structure HdrLen where
  rxPktTlvSize : ℕ
  hdrSpace : ℕ
  le_hdrSpace : 24 ≤ hdrSpace

def HdrLen.len (h : HdrLen) : ℕ := h.rxPktTlvSize + h.hdrSpace

namespace Fragments

variable (F : Fragments)

def chain : List Nbuf := F.payloads.map .received

def lens : List ℕ := F.payloads.map length

def bytes : List UInt8 := F.payloads.flatten.take (F.payloads.flatten.length - micLen)

def mic : List UInt8 := F.payloads.flatten.drop (F.payloads.flatten.length - micLen)

end Fragments

/-- **The MIC is checked and removed.** -/
structure DemicRight (hdrlen : ℕ) (key : Vector UInt8 8) (wh : Ieee80211Frame) (F : Fragments) : Prop where
  inside : (tkipDemic hdrlen key wh F.chain).1 ≠ .outside
  success_iff : (tkipDemic hdrlen key wh F.chain).1 = .success ↔ F.mic = michael key (michdr wh ++ F.bytes)
  left : (tkipDemic hdrlen key wh F.chain).1 = .success →
    (tkipDemic hdrlen key wh F.chain).2.flatMap Nbuf.data = F.bytes

/-- Where a buffer ends `k` bytes into the data, the data ends too; or four bytes are left of it, with those of
a block that has begun, and such a block ends in the next buffer. -/
def Fits (k : ℕ) : List ℕ → Prop
  | [] => True
  | q :: qs => q + qs.sum = 0 ∨
      4 ≤ k % 4 + (q + qs.sum) ∧ (k % 4 = 0 ∨ 4 ≤ k % 4 + q) ∧ Fits (k + q) qs

/-- The lengths without the last eight bytes, which the last two fragments have. -/
def dataLens (lens : List ℕ) : Option (List ℕ) :=
  match lens.reverse with
  | [] => none
  | [last] => some [last - micLen]
  | last :: prev0 :: front =>
    if prev0 + last < micLen then none
    else some (front.reverse ++ (prev0 - (micLen - last)) :: if last ≤ micLen then [] else [last - micLen])

def BlocksFit : List ℕ → Prop
  | [] => True
  | p :: ps => Fits p ps

def MicFits (lens : List ℕ) : Prop := ∃ ls ∈ dataLens lens, BlocksFit ls

section Loop

variable {m : UInt32 × UInt32} {data : List UInt8} {space : ℕ}

def finish (m : UInt32 × UInt32) (msg : List UInt8) : UInt32 × UInt32 := absorb word m (msg ++ pad msg.length)

theorem finish_append {xs : List UInt8} (h : 4 ∣ xs.length) (ys : List UInt8) :
    finish m (xs ++ ys) = finish (absorb word m xs) ys := by
  have hmod : (xs ++ ys).length % 4 = ys.length % 4 := by
    rw [length_append]
    omega
  rw [finish, finish, append_assoc, absorb_append h, pad, pad, hmod]

theorem michaelBlock_eq_word (m : UInt32 × UInt32) : michaelBlock m = word m 0 0 0 0 := by
  rw [word, show getLe32Split 0 0 0 0 = 0 by decide, UInt32.xor_zero]

theorem lastBlock_eq_finish (h : data.length < 4) : lastBlock m data = finish m data := by
  match data with
  | [] | [_] | [_, _] | [_, _, _] =>
    rw [lastBlock, michaelBlock_eq_word]
    rfl
  | _ :: _ :: _ :: _ :: _ =>
    simp only [length_cons] at h
    omega

theorem collect_eq (h : space ≤ data.length) (dataLen : ℕ) : collect space m data dataLen =
    some (absorb word m (data.take (space - space % 4)), data.drop (space - space % 4), space % 4,
      dataLen - (space - space % 4)) := by
  induction space using Nat.strong_induction_on generalizing m data dataLen with
  | h space ih =>
  match space, data with
  | space + 4, b0 :: b1 :: b2 :: b3 :: data =>
    have hle : space ≤ data.length := by
      simp only [length_cons] at h
      omega
    have hsub : space + 4 - (space + 4) % 4 = space - space % 4 + 4 := by omega
    have hmod : (space + 4) % 4 = space % 4 := by omega
    have hdl : dataLen - 4 - (space - space % 4) = dataLen - (space - space % 4 + 4) := by omega
    rw [collect, ih space (by omega) hle, hsub, hmod, hdl]
    rfl
  | _ + 4, [] | _ + 4, [_] | _ + 4, [_, _] | _ + 4, [_, _, _] =>
    simp only [length_cons, length_nil] at h
    omega
  | 0, _ | 1, _ | 2, _ | 3, _ => rfl

theorem fits_congr {k k' : ℕ} (h : k % 4 = k' % 4) (qs : List ℕ) : Fits k qs ↔ Fits k' qs := by
  induction qs generalizing k k' with
  | nil => rfl
  | cons q qs ih =>
    have hnext : (k + q) % 4 = (k' + q) % 4 := by omega
    rw [Fits, Fits, h, ih hnext]

/-- Only the last buffer has lost bytes. -/
def OnlyLastCut : List Nbuf → Prop
  | [] => True
  | b :: rest => (rest ≠ [] → b.len = b.payload.length) ∧ OnlyLastCut rest

theorem flatMap_data_eq_nil (rest : List Nbuf) (h : (rest.map Nbuf.len).sum = 0) :
    rest.flatMap Nbuf.data = [] := by
  rw [flatMap_eq_nil_iff]
  intro b hb
  have hlen : b.len ≤ (rest.map Nbuf.len).sum := single_le_sum (fun _ _ => Nat.zero_le _) _ (mem_map_of_mem hb)
  rw [Nbuf.data, Nat.le_zero.mp (hlen.trans h.le), take_zero]

/-- The whole blocks at the beginning of a message. -/
theorem finish_blocks (h : space ≤ data.length) (ys : List UInt8) :
    finish m (data.take space ++ ys) = finish (absorb word m (data.take (space - space % 4)))
      ((data.drop (space - space % 4)).take (space % 4) ++ ys) := by
  have hblocks : 4 ∣ (data.take (space - space % 4)).length := by
    rw [length_take]
    omega
  have hsplit : data.take space = data.take (space - space % 4) ++
      (data.drop (space - space % 4)).take (space % 4) := by
    rw [← take_add, Nat.sub_add_cancel (Nat.mod_le ..)]
  rw [hsplit, append_assoc, finish_append hblocks]

theorem length_tail_lt (data : List UInt8) (space : ℕ) :
    ((data.drop (space - space % 4)).take (space % 4)).length < 4 :=
  (length_take_le ..).trans_lt (Nat.mod_lt _ (by decide))

/-- **The loop**: over buffers that fit it takes what they have left; otherwise it reads outside of them. -/
theorem micLoop_spec {hdrlen : ℕ} (hhdr : 4 ≤ hdrlen) {rest : List Nbuf} {dataLen : ℕ}
    (hspace : space ≤ data.length) (hcut : rest ≠ [] → space = data.length)
    (hrest : OnlyLastCut rest) (hlen : dataLen = space + (rest.map Nbuf.len).sum) (hsmall : dataLen < 2 ^ 32) :
    (Fits space (rest.map Nbuf.len) → micLoop hdrlen rest m data space dataLen =
      .ok (finish m (data.take space ++ rest.flatMap Nbuf.data))) ∧
    (¬ Fits space (rest.map Nbuf.len) → micLoop hdrlen rest m data space dataLen = .error .outside) := by
  induction rest generalizing m data space dataLen with
  | nil =>
    have hw : dataLen - (space - space % 4) = space % 4 := by
      simp only [map_nil, sum_nil] at hlen
      omega
    have hlt : space % 4 < 4 := Nat.mod_lt _ (by decide)
    have hread : space % 4 ≤ (data.drop (space - space % 4)).length := by
      rw [length_drop]
      omega
    refine ⟨fun _ => ?_, fun h => absurd trivial h⟩
    rw [micLoop, min_eq_left (by omega), collect_eq hspace, finish_blocks hspace]
    simp only [hw, if_pos hlt, if_pos hread, flatMap_nil, append_nil, lastBlock_eq_finish (length_tail_lt ..)]
  | cons next rest ih =>
    have hdata := hcut (cons_ne_nil _ _)
    rw [map_cons, sum_cons] at hlen
    have hw : dataLen - (space - space % 4) = space % 4 + (next.len + (rest.map Nbuf.len).sum) := by omega
    have hleft : (data.drop (space - space % 4)).length = space % 4 := by
      rw [length_drop]
      omega
    have hle := next.le
    rw [micLoop, min_eq_left (by omega), collect_eq hspace, map_cons, Fits, flatMap_cons, finish_blocks hspace]
    simp only [hw]
    by_cases hend : space % 4 + (next.len + (rest.map Nbuf.len).sum) < 4
    · rw [if_pos hend, hleft]
      by_cases hzero : next.len + (rest.map Nbuf.len).sum = 0
      · have hnone : next.data ++ rest.flatMap Nbuf.data = [] := flatMap_data_eq_nil (next :: rest) hzero
        refine ⟨fun _ => ?_, fun h => absurd (.inl hzero) h⟩
        rw [hzero, Nat.add_zero, if_pos le_rfl, hnone, append_nil, lastBlock_eq_finish (length_tail_lt ..)]
      · -- the data goes on, but the last block is read from the current buffer
        refine ⟨fun h => ?_, fun _ => if_neg (by omega)⟩
        have hfour := (h.resolve_left hzero).1
        omega
    rw [if_neg hend]
    have hsum : next.len + (rest.map Nbuf.len).sum ≠ 0 := fun h => by omega
    by_cases hwhole : space % 4 = 0
    · have hstep := ih (m := absorb word m (data.take (space - space % 4))) hle hrest.1 hrest.2 rfl (by omega)
      have hfits : Fits (space + next.len) (rest.map Nbuf.len) ↔ Fits next.len (rest.map Nbuf.len) :=
        fits_congr (by omega) _
      rw [if_pos hwhole, hwhole, Nat.zero_add, take_zero, nil_append]
      rw [hwhole] at hstep
      refine ⟨fun h => hstep.1 (hfits.mp (h.resolve_left hsum).2.2), fun h => hstep.2 fun hf => ?_⟩
      exact h (.inr ⟨by omega, .inl rfl, hfits.mpr hf⟩)
    rw [if_neg hwhole, if_neg (by omega)]
    by_cases hends : 4 ≤ space % 4 + next.len
    · have hsub : sub32 next.len (4 - space % 4) = next.len - (4 - space % 4) := by
        rw [sub32]
        omega
      have hfits : Fits (space + next.len) (rest.map Nbuf.len) ↔
          Fits (next.len - (4 - space % 4)) (rest.map Nbuf.len) := fits_congr (by omega) _
      have hblock : 4 ∣ ((data.drop (space - space % 4)).take (space % 4) ++
          next.payload.take (4 - space % 4)).length := by
        rw [length_append, length_take, length_take, hleft]
        omega
      have hnext : next.data = next.payload.take (4 - space % 4) ++
          (next.payload.drop (4 - space % 4)).take (next.len - (4 - space % 4)) := by
        rw [← take_add, Nbuf.data, Nat.add_sub_cancel' (by omega)]
      have hspace' : next.len - (4 - space % 4) ≤ (next.payload.drop (4 - space % 4)).length := by
        rw [length_drop]
        omega
      have hlen' : space % 4 + (next.len + (rest.map Nbuf.len).sum) - 4 =
          next.len - (4 - space % 4) + (rest.map Nbuf.len).sum := by omega
      have hstep := ih (m := absorb word (absorb word m (data.take (space - space % 4)))
        ((data.drop (space - space % 4)).take (space % 4) ++ next.payload.take (4 - space % 4)))
        hspace' (fun h => by rw [length_drop, hrest.1 h]) hrest.2 hlen' (by omega)
      rw [if_pos ⟨hleft.ge, by omega⟩, hsub, hnext, append_assoc, ← append_assoc, finish_append hblock]
      refine ⟨fun h => hstep.1 (hfits.mp (h.resolve_left hsum).2.2), fun h => hstep.2 fun hf => ?_⟩
      exact h (.inr ⟨by omega, .inr hends, hfits.mpr hf⟩)
    · -- the next buffer is not the last one
      have hne : rest ≠ [] := by
        rintro rfl
        simp only [map_nil, sum_nil] at hend
        omega
      have hcutNext := hrest.1 hne
      refine ⟨fun h => ?_, fun _ => if_neg fun h => ?_⟩
      · rcases (h.resolve_left hsum).2.1 with h0 | h4
        · exact absurd h0 hwhole
        · exact absurd h4 hends
      · omega

end Loop

/-! ## The call -/

section Call

variable {F : Fragments} {hdrlen : ℕ} {key : Vector UInt8 8} {wh : Ieee80211Frame} {chain : List Nbuf}
  {mic0 : List UInt8}

theorem length_michdr (wh : Ieee80211Frame) : (michdr wh).length = 16 := by
  simp only [michdr, length_append, Vector.length_toList, length_cons, length_nil]

theorem checkMic_spec (hhdr : 4 ≤ hdrlen) (hne : chain ≠ []) (hcut : OnlyLastCut chain)
    (hsmall : (chain.map Nbuf.len).sum < 2 ^ 16) (key : Vector UInt8 8) (wh : Ieee80211Frame)
    (mic0 : List UInt8) :
    (BlocksFit (chain.map Nbuf.len) → checkMic hdrlen key wh (chain.map Nbuf.len).sum mic0 chain =
      (if michael key (michdr wh ++ chain.flatMap Nbuf.data) = mic0 then .success else .defragError, chain)) ∧
    (¬ BlocksFit (chain.map Nbuf.len) →
      checkMic hdrlen key wh (chain.map Nbuf.len).sum mic0 chain = (.outside, chain)) := by
  match chain with
  | [] => exact absurd rfl hne
  | wbuf :: rest =>
    have hstep := micLoop_spec (m := absorb word (keyWords key) (michdr wh)) hhdr wbuf.le hcut.1 hcut.2
      (show ((wbuf :: rest).map Nbuf.len).sum = _ from sum_cons) (hsmall.trans (by decide))
    have hhead : 4 ∣ (michdr wh).length := by
      rw [length_michdr]
      decide
    refine ⟨fun h => ?_, fun h => ?_⟩
    · rw [checkMic, defragMic, Nat.mod_eq_of_lt hsmall, hstep.1 h, ← Nbuf.data, ← flatMap_cons,
        ← finish_append hhead]
      rfl
    · rw [checkMic, defragMic, Nat.mod_eq_of_lt hsmall, hstep.2 h]
      rfl

theorem length_flatMap_data (chain : List Nbuf) :
    (chain.flatMap Nbuf.data).length = (chain.map Nbuf.len).sum := by
  induction chain with
  | nil => rfl
  | cons b rest ih => rw [flatMap_cons, length_append, ih, map_cons, sum_cons, Nbuf.data, length_take_of_le b.le]

theorem flatMap_data_chain (ps : List (List UInt8)) : (ps.map Nbuf.received).flatMap Nbuf.data = ps.flatten := by
  induction ps with
  | nil => rfl
  | cons p ps ih => rw [map_cons, flatMap_cons, ih, flatten_cons, Nbuf.received, Nbuf.data, take_length]

/-- The MIC is cut off, and what is left is checked. -/
theorem demicRight_iff_of_check (hhdr : 4 ≤ hdrlen) (hdemic : tkipDemic hdrlen key wh F.chain =
      checkMic hdrlen key wh ((F.chain.map Nbuf.len).sum - micLen) mic0 chain)
    (hsplit : chain.flatMap Nbuf.data ++ mic0 = F.payloads.flatten) (hmic : mic0.length = micLen)
    (hne : chain ≠ []) (hcut : OnlyLastCut chain) :
    DemicRight hdrlen key wh F ↔ BlocksFit (chain.map Nbuf.len) := by
  have hlen : F.payloads.flatten.length - micLen = (chain.flatMap Nbuf.data).length := by
    rw [← hsplit, length_append, hmic, Nat.add_sub_cancel]
  have hbytes : F.bytes = chain.flatMap Nbuf.data := by
    rw [Fragments.bytes, hlen, ← hsplit, take_left]
  have hmicEq : F.mic = mic0 := by
    rw [Fragments.mic, hlen, ← hsplit, drop_left]
  have hsum : (F.chain.map Nbuf.len).sum - micLen = (chain.map Nbuf.len).sum := by
    rw [← length_flatMap_data, Fragments.chain, flatMap_data_chain, hlen, length_flatMap_data]
  have hsmall : (chain.map Nbuf.len).sum < 2 ^ 16 := by
    rw [← length_flatMap_data, ← hlen]
    exact (Nat.sub_le ..).trans_lt F.small
  have hcheck := checkMic_spec hhdr hne hcut hsmall key wh mic0
  rw [hsum] at hdemic
  refine ⟨fun h => ?_, fun h => ?_⟩
  · by_contra hfit
    exact h.inside (by rw [hdemic, hcheck.2 hfit])
  · have heq := hdemic.trans (hcheck.1 h)
    constructor
    · rw [heq]
      simp only
      split_ifs <;> decide
    · rw [heq, hbytes, hmicEq]
      simp only
      split_ifs with hm
      · exact iff_of_true rfl hm.symm
      · exact iff_of_false (by decide) (Ne.symm hm)
    · intro _
      rw [heq, hbytes]

theorem onlyLastCut_append {l r : List Nbuf} (hl : ∀ b ∈ l, b.len = b.payload.length) (hr : OnlyLastCut r) :
    OnlyLastCut (l ++ r) := by
  induction l with
  | nil => exact hr
  | cons b l ih => exact ⟨fun _ => hl b mem_cons_self, ih fun c hc => hl c (mem_cons_of_mem _ hc)⟩

theorem demicRight_iff_single {p : List UInt8} (hhdr : 4 ≤ hdrlen) (hF : F.payloads = [p]) :
    DemicRight hdrlen key wh F ↔ BlocksFit [p.length - micLen] := by
  have hroom := F.room
  rw [hF, flatten_singleton] at hroom
  have hdemic : tkipDemic hdrlen key wh F.chain =
      checkMic hdrlen key wh ((F.chain.map Nbuf.len).sum - micLen) (p.drop (p.length - micLen))
        [(Nbuf.received p).trimTail micLen] := by
    rw [tkipDemic, Fragments.chain, hF]
    simp only [map_cons, map_nil, reverse_singleton, Nbuf.received, Nat.not_lt.mpr hroom, if_false, Nbuf.last,
      Nbuf.data, take_length]
  refine demicRight_iff_of_check hhdr hdemic ?_ ?_ (cons_ne_nil _ _) ⟨fun h => absurd rfl h, trivial⟩
  · rw [hF, flatten_singleton, flatMap_singleton, Nbuf.trimTail, Nbuf.data]
    exact take_append_drop ..
  · rw [length_drop, Nat.sub_sub_self hroom]

/-- What is left of the last two fragments. -/
def ends (p0 p : List UInt8) : List Nbuf :=
  let len0 := micLen - p.length
  (Nbuf.received p0).trimTail len0 :: if p.length ≤ micLen then [] else [(Nbuf.received p).trimTail micLen]

theorem flatMap_data_ends (p0 p : List UInt8) :
    (ends p0 p).flatMap Nbuf.data ++ (p0.drop (p0.length - (micLen - p.length)) ++
      p.drop (p.length - (micLen - (micLen - p.length)))) = p0 ++ p := by
  rw [ends, flatMap_cons]
  split_ifs with hle
  · rw [Nat.sub_sub_self hle, Nat.sub_self, drop_zero, flatMap_nil, append_nil, ← append_assoc]
    exact congrArg (· ++ p) (take_append_drop ..)
  · rw [Nat.sub_eq_zero_of_le (Nat.le_of_not_le hle), Nat.sub_zero, Nat.sub_zero, drop_length, nil_append,
      flatMap_singleton, append_assoc]
    exact congrArg₂ (· ++ ·) (take_length ..) (take_append_drop ..)

theorem onlyLastCut_ends (p0 p : List UInt8) : OnlyLastCut (ends p0 p) := by
  rw [ends]
  split_ifs with hle
  · exact ⟨fun h => absurd rfl h, trivial⟩
  · refine ⟨fun _ => ?_, fun h => absurd rfl h, trivial⟩
    rw [Nat.sub_eq_zero_of_le (Nat.le_of_not_le hle)]
    rfl

/-- Two fragments at the end. -/
theorem demicRight_iff_append {front : List (List UInt8)} {p0 p : List UInt8} (hhdr : 4 ≤ hdrlen)
    (hF : F.payloads.reverse = p :: p0 :: front) :
    DemicRight hdrlen key wh F ↔ MicFits F.lens := by
  have hpay : F.payloads = front.reverse ++ [p0, p] := by
    rw [← reverse_reverse F.payloads, hF, reverse_cons, reverse_cons, append_assoc]
    rfl
  have hlens : F.lens.reverse = p.length :: p0.length :: front.map length := by
    rw [Fragments.lens, ← map_reverse, hF, map_cons, map_cons]
  have hchain : F.chain.reverse = .received p :: .received p0 :: front.map .received := by
    rw [Fragments.chain, ← map_reverse, hF, map_cons, map_cons]
  by_cases hroom : p0.length + p.length < micLen
  · -- the first bytes of the MIC are not in the last two fragments
    have hout : (tkipDemic hdrlen key wh F.chain).1 = .outside := by
      rw [tkipDemic, hchain]
      simp only [if_pos (show (Nbuf.received p0).len < micLen - (Nbuf.received p).len from
        Nat.lt_sub_of_add_lt hroom)]
    refine iff_of_false (fun h => h.inside hout) ?_
    rintro ⟨ls, hls, -⟩
    rw [dataLens, hlens] at hls
    simp only [if_pos hroom] at hls
    cases hls
  have hprev : (if ((Nbuf.received p).trimTail (micLen - (micLen - (Nbuf.received p).len))).len = 0 then []
        else [(Nbuf.received p).trimTail (micLen - (micLen - (Nbuf.received p).len))]) =
      if p.length ≤ micLen then [] else [(Nbuf.received p).trimTail micLen] := by
    have hlen : (Nbuf.received p).len = p.length := rfl
    have hleft : ((Nbuf.received p).trimTail (micLen - (micLen - p.length))).len = 0 ↔ p.length ≤ micLen := by
      show p.length - _ = 0 ↔ _
      omega
    rw [hlen]
    by_cases hle : p.length ≤ micLen
    · rw [if_pos (hleft.mpr hle), if_pos hle]
    · rw [if_neg (mt hleft.mp hle), if_neg hle, Nat.sub_eq_zero_of_le (Nat.le_of_not_le hle), Nat.sub_zero]
  have hdemic : tkipDemic hdrlen key wh F.chain =
      checkMic hdrlen key wh ((F.chain.map Nbuf.len).sum - micLen)
        (p0.drop (p0.length - (micLen - p.length)) ++ p.drop (p.length - (micLen - (micLen - p.length))))
        (front.reverse.map .received ++ ends p0 p) := by
    rw [tkipDemic, hchain]
    simp only [if_neg (show ¬ (Nbuf.received p0).len < micLen - (Nbuf.received p).len from
      fun h => hroom (Nat.add_lt_of_lt_sub h)), hprev, Nbuf.last, ← map_reverse]
    simp only [ends, Nbuf.received, Nbuf.data, take_length]
  have hfit : dataLens F.lens = some ((front.reverse.map Nbuf.received ++ ends p0 p).map Nbuf.len) := by
    rw [dataLens, hlens, ends, map_append, map_map, map_cons, map_reverse]
    simp only [if_neg hroom]
    split_ifs <;> rfl
  have hcut : OnlyLastCut (front.reverse.map .received ++ ends p0 p) := by
    refine onlyLastCut_append (fun b hb => ?_) (onlyLastCut_ends p0 p)
    obtain ⟨q, -, rfl⟩ := mem_map.mp hb
    rfl
  have hiff := demicRight_iff_of_check hhdr hdemic ?_ ?_ ?_ hcut
  · rw [hiff, MicFits, hfit]
    exact ⟨fun h => ⟨_, rfl, h⟩, fun ⟨_, rfl, h⟩ => h⟩
  · rw [flatMap_append, append_assoc, flatMap_data_ends, flatMap_data_chain, hpay, flatten_append,
      flatten_cons, flatten_singleton]
  · rw [length_append, length_drop, length_drop]
    omega
  · exact append_ne_nil_of_right_ne_nil _ (cons_ne_nil _ _)

end Call

/-- **When the MIC of a fragmented frame is checked and removed**: exactly if it is in the last two fragments and
each block of the data before it ends in the fragment behind the one that it begins in. -/
theorem demicRight_iff (h : HdrLen) (key : Vector UInt8 8) (wh : Ieee80211Frame) (F : Fragments) :
    DemicRight h.len key wh F ↔ MicFits F.lens := by
  have hhdr : 4 ≤ h.len := le_add_left ((by decide : 4 ≤ 24).trans h.le_hdrSpace)
  match hF : F.payloads.reverse with
  | [] =>
    have hroom := F.room
    rw [reverse_eq_nil_iff.mp hF] at hroom
    exact absurd hroom (by decide)
  | [p] =>
    have hone : F.payloads = [p] := by rw [← reverse_reverse F.payloads, hF, reverse_singleton]
    rw [demicRight_iff_single hhdr hone, MicFits, Fragments.lens, hone]
    exact ⟨fun hfit => ⟨_, rfl, hfit⟩, fun ⟨_, rfl, hfit⟩ => hfit⟩
  | p :: p0 :: front => exact demicRight_iff_append hhdr hF

def oneByteLeft : Fragments := ⟨[[1, 2, 3, 4, 5], [6, 0, 0, 0, 0, 0, 0, 0, 0]], by decide, by decide⟩

/-- The last block is `5, 6`, and the byte `6` is read behind the first fragment. -/
theorem not_demicRight : ¬ ∀ (h : HdrLen) (key : Vector UInt8 8) (wh : Ieee80211Frame) (F : Fragments),
    DemicRight h.len key wh F := by
  intro hall
  let addr : Vector UInt8 6 := .replicate 6 0
  have hright := hall ⟨384, 24, le_rfl⟩ (.replicate 8 0) ⟨0x08, 0x02, addr, addr, addr, addr, 0, 0⟩ oneByteLeft
  exact hright.inside (by decide)

end DpRx.Tkip
