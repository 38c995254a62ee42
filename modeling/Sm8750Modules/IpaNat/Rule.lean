import Sm8750Modules.IpaNat.Table

/-!
# NAT rules, index rules and their entry interfaces

The two kinds of record of an IPv4 NAT table (`ipa_nat_drvi.h`) and the callbacks that the
generic table uses on them (`ipa_nat_drvi.c`): a NAT rule keeps its backward link inside the
record and is enabled by its flags halfword, an index rule names a NAT rule, is valid when
that name is not zero, and keeps its backward link in the meta data of the expansion table.
-/

namespace Sm8750Modules.IpaNat

/-! ### Constants -/

def ipaNatRuleFlagFieldOffset : ℕ := 18
def ipaNatRuleNextFieldOffset : ℕ := 8
def ipaNatRuleProtoFieldOffset : ℕ := 22
def ipaNatIndexRuleNatIndexFieldOffset : ℕ := 0
def ipaNatIndexRuleNextFieldOffset : ℕ := 2

def ipaNatInvalidProtoFieldValue : ℕ := 0xFF00

def ipahalNatInvalidProtocol : UInt8 := 0xFF

def ipaMaxPdnNum : ℕ := 16
def ipprotoTcp : UInt8 := 6
def ipprotoUdp : UInt8 := 17

def ipaHwV40 : ℕ := 14

structure IpaNatIpv4Rule where
  targetIp : UInt32
  privateIp : UInt32
  targetPort : UInt16
  privatePort : UInt16
  publicPort : UInt16
  protocol : UInt8
  pdnIndex : ℕ
  redirect : UInt8
  enable : UInt8
  timeStamp : UInt32
  ucActivationIndex : UInt16
  s : Bool
  ucp : Bool
  dstOnly : Bool
  srcOnly : Bool
  deriving DecidableEq, Repr

/-- `struct ipa_nat_rule`: a 32-byte record of the NAT table. -/
structure IpaNatRule where
  privateIp : UInt32
  targetIp : UInt32
  nextIndex : ℕ
  publicPort : UInt16
  privatePort : UInt16
  targetPort : UInt16
  ipChksum : ℕ
  ucActivationIndex : BitVec 13
  s : Bool
  redirect : Bool
  enable : Bool
  timeStamp : BitVec 24
  protocol : UInt8
  prevIndex : ℕ
  indxTblEntry : ℕ
  dstOnly : Bool
  srcOnly : Bool
  ucp : Bool
  pdnIndex : BitVec 4
  tcpUdpChksum : ℕ
  deriving DecidableEq, Repr

structure IpaNatIndxTblRule where
  tblEntry : ℕ
  nextIndex : ℕ
  deriving DecidableEq, Repr

/-- The flags halfword of a rule: `enable`, `redirect`, `s` and `uc_activation_index` from the
top bit down. -/
def IpaNatRule.writeFlags (data : ℕ) (r : IpaNatRule) : IpaNatRule :=
  { r with
    ucActivationIndex := BitVec.ofNat 13 data
    s := data / 2 ^ 13 % 2 == 1
    redirect := data / 2 ^ 14 % 2 == 1
    enable := data / 2 ^ 15 % 2 == 1 }

/-- The halfword of the top byte of `time_stamp` and of `protocol`. -/
def IpaNatRule.writeProto (data : ℕ) (r : IpaNatRule) : IpaNatRule :=
  { r with
    timeStamp := BitVec.ofNat 8 data ++ r.timeStamp.truncate 16
    protocol := UInt8.ofNat (data / 2 ^ 8) }

/-- The driver only ever builds commands for the three halfwords given here. -/
instance : RecordLayout IpaNatRule where
  zero := ⟨0, 0, 0, 0, 0, 0, 0, 0, false, false, false, 0, 0, 0, 0, false, false, false, 0, 0⟩
  write16 offset data r :=
    if offset = ipaNatRuleNextFieldOffset then { r with nextIndex := data }
    else if offset = ipaNatRuleFlagFieldOffset then r.writeFlags data
    else if offset = ipaNatRuleProtoFieldOffset then r.writeProto data
    else r

instance : RecordLayout IpaNatIndxTblRule where
  zero := ⟨0, 0⟩
  write16 offset data r :=
    if offset = ipaNatIndexRuleNatIndexFieldOffset then { r with tblEntry := data }
    else if offset = ipaNatIndexRuleNextFieldOffset then { r with nextIndex := data }
    else r

/-- Add a 16-bit value to a checksum and fold the carry back in. -/
def cksumAdd (cksum x : ℕ) : ℕ :=
  let c := cksum + x
  if c >>> 16 ≠ 0 then (c &&& 0xFFFF) + 1 else c

def ipaNatiCalcIpCksum (pubIpAddr privIpAddr : UInt32) : ℕ :=
  let cksum := cksumAdd (pubIpAddr &&& 0xFFFF).toNat (pubIpAddr >>> 16).toNat
  let cksum := cksumAdd cksum (~~~privIpAddr &&& 0xFFFF).toNat
  let cksum := cksumAdd cksum (~~~privIpAddr >>> 16).toNat
  cksum % 2 ^ 16

def ipaNatiCalcTcpUdpCksum (pubIpAddr : UInt32) (pubPort : UInt16) (privIpAddr : UInt32)
    (privPort : UInt16) : ℕ :=
  let cksum := cksumAdd (pubIpAddr &&& 0xFFFF).toNat (pubIpAddr >>> 16).toNat
  let cksum := cksumAdd cksum pubPort.toNat
  let cksum := cksumAdd cksum (~~~privIpAddr &&& 0xFFFF).toNat
  let cksum := cksumAdd cksum (~~~privIpAddr >>> 16).toNat
  let cksum := cksumAdd cksum (~~~privPort).toNat
  cksum % 2 ^ 16

variable (pdns : ℕ → UInt32)

def tableEntryCopyFromUser (r : IpaNatRule) (user : IpaNatIpv4Rule) : IpaNatRule :=
  let pubIpAddr := pdns user.pdnIndex
  { r with
    privateIp := user.privateIp
    privatePort := user.privatePort
    protocol := user.protocol
    publicPort := user.publicPort
    targetIp := user.targetIp
    targetPort := user.targetPort
    pdnIndex := BitVec.ofNat 4 user.pdnIndex
    ucActivationIndex := BitVec.ofNat 13 user.ucActivationIndex.toNat
    s := user.s
    ucp := user.ucp
    dstOnly := user.dstOnly
    srcOnly := user.srcOnly
    ipChksum := ipaNatiCalcIpCksum pubIpAddr user.privateIp
    tcpUdpChksum :=
      if user.protocol = ipprotoTcp ∨ user.protocol = ipprotoUdp then
        ipaNatiCalcTcpUdpCksum pubIpAddr user.publicPort user.privateIp user.privatePort
      else r.tcpUdpChksum }

/-- `table_entry_head_insert`: the command data has the `enable`, `s` and
`uc_activation_index` flags, and no `redirect`. -/
def tableEntryHeadInsert (r : IpaNatRule) (user : IpaNatIpv4Rule) : IpaNatRule × ℕ :=
  let r' := tableEntryCopyFromUser pdns r user
  (r', 2 ^ 15 + r'.s.toNat * 2 ^ 13 + r'.ucActivationIndex.toNat)

def tableEntryTailInsert (r : IpaNatRule) (user : IpaNatIpv4Rule) : IpaNatRule :=
  { tableEntryCopyFromUser pdns r user with enable := true }

def entryInterface : IpaTableEntryInterface IpaNatRule IpaNatIpv4Rule where
  entryIsValid r := r.enable
  entryGetNextIndex r := r.nextIndex
  entryGetPrevIndex r _ _ _ := r.prevIndex
  entrySetPrevIndex r _ prevIndex metaPrev _ := ({ r with prevIndex := prevIndex }, metaPrev)
  entryHeadInsert := tableEntryHeadInsert pdns
  entryTailInsert := tableEntryTailInsert pdns
  entryGetDeleteHeadDmaCommandData _ _ := ipaNatInvalidProtoFieldValue

def indexEntryInterface : IpaTableEntryInterface IpaNatIndxTblRule ℕ where
  entryIsValid r := r.tblEntry != 0
  entryGetNextIndex r := r.nextIndex
  entryGetPrevIndex _ entryIndex metaPrev baseTableSize :=
    if entryIndex ≥ baseTableSize then metaPrev (entryIndex - baseTableSize) else 0
  entrySetPrevIndex r entryIndex prevIndex metaPrev baseTableSize :=
    (r, if entryIndex ≥ baseTableSize then
      Function.update metaPrev (entryIndex - baseTableSize) prevIndex else metaPrev)
  entryHeadInsert r natIndex := (r, natIndex)
  entryTailInsert r natIndex := { r with tblEntry := natIndex }
  entryGetDeleteHeadDmaCommandData _ nextEntry := nextEntry.tblEntry

/-- `dst_hash`; `size` is the base table size less one. -/
def dstHash (ver : ℕ) (publicIp trgtIp : UInt32) (trgtPort publicPort : UInt16) (proto : UInt8)
    (size : ℕ) : ℕ :=
  let hash : UInt16 := trgtIp.toUInt16 ^^^ (trgtIp >>> 16).toUInt16 ^^^ trgtPort ^^^ publicPort
    ^^^ proto.toUInt16
  let hash :=
    if ver ≥ ipaHwV40 then hash ^^^ (publicIp.toUInt16 ^^^ (publicIp >>> 16).toUInt16) else hash
  let hash := hash.toNat &&& size
  -- slot zero is never used
  if hash = 0 then size else hash

def srcHash (privIp : UInt32) (privPort : UInt16) (trgtIp : UInt32) (trgtPort : UInt16)
    (proto : UInt8) (size : ℕ) : ℕ :=
  let hash : UInt16 := privIp.toUInt16 ^^^ (privIp >>> 16).toUInt16 ^^^ privPort
    ^^^ trgtIp.toUInt16 ^^^ (trgtIp >>> 16).toUInt16 ^^^ trgtPort ^^^ proto.toUInt16
  let hash := hash.toNat &&& size
  if hash = 0 then size else hash

/-- The slot of a one-directional rule: its hash is scrambled with `Hash_token`. -/
def hashWithToken (hash hashToken tableEntries : ℕ) : ℕ :=
  let index := (hash + hashToken) % 2 ^ 16 &&& (tableEntries - 1)
  if index = 0 then tableEntries - 1 else index

section Ranges

theorem maskedHash_range (hash : ℕ) {te : ℕ} (hte : 2 ≤ te) :
    0 < (if hash &&& (te - 1) = 0 then te - 1 else hash &&& (te - 1)) ∧
      (if hash &&& (te - 1) = 0 then te - 1 else hash &&& (te - 1)) < te := by
  have hle : hash &&& (te - 1) ≤ te - 1 := Nat.and_le_right
  split <;> omega

theorem dstHash_range (ver : ℕ) (publicIp trgtIp : UInt32) (trgtPort publicPort : UInt16)
    (proto : UInt8) {te : ℕ} (hte : 2 ≤ te) :
    0 < dstHash ver publicIp trgtIp trgtPort publicPort proto (te - 1) ∧
      dstHash ver publicIp trgtIp trgtPort publicPort proto (te - 1) < te :=
  maskedHash_range _ hte

theorem srcHash_range (privIp : UInt32) (privPort : UInt16) (trgtIp : UInt32)
    (trgtPort : UInt16) (proto : UInt8) {te : ℕ} (hte : 2 ≤ te) :
    0 < srcHash privIp privPort trgtIp trgtPort proto (te - 1) ∧
      srcHash privIp privPort trgtIp trgtPort proto (te - 1) < te :=
  maskedHash_range _ hte

theorem hashWithToken_range (hash hashToken : ℕ) {te : ℕ} (hte : 2 ≤ te) :
    0 < hashWithToken hash hashToken te ∧ hashWithToken hash hashToken te < te :=
  maskedHash_range _ hte

end Ranges

end Sm8750Modules.IpaNat
