import Mathlib

/-!
# The generic IPA table

The hash table with an expansion area that the NAT driver keeps in memory shared with the
IPA hardware (`ipa_table.c`). The CPU writes records directly; the fields the hardware
looks at while it runs are written by *DMA commands*, lists of 16-bit writes that are built
here and posted by the caller.

A record pointer of the source is always `GOTO_REC` of an index, so it is modelled by that
index, and a `NULL` record pointer in an iterator by the invalid index `0`.
-/

namespace Sm8750Modules.IpaNat

def eperm : ℤ := -1
def eio : ℤ := -5
def einval : ℤ := -22

def ipaTableMaxEntries : ℕ := 5120

def ipaTableIndxMask : ℕ := 0xFFF

/-- `enum ipa3_nat_mem_in`: where a table lives. -/
inductive IpaNatMemIn where
  | ddr
  | sram
  deriving DecidableEq, Repr

def IpaNatMemIn.toNat : IpaNatMemIn → ℕ
  | .ddr => 0
  | .sram => 1

def validIndex (idx : ℕ) : Bool := idx != 0

/-- `ipa_table_dma_type`, as far as the NAT driver uses it. -/
inductive IpaTableDmaType where
  | natBaseTbl
  | natExpnTbl
  | natIndxTbl
  | natIndexExpnTbl
  deriving DecidableEq, Repr

inductive DmaHelpType where
  | updateHead
  | updateEntry
  | deleteHead
  deriving DecidableEq, Repr

structure IpaTableDmaCmdHelper where
  offset : ℕ
  tableType : IpaTableDmaType
  expnTableType : IpaTableDmaType
  tableIndx : ℕ

structure NatDmaOne where
  tableIndex : ℕ
  baseAddr : IpaTableDmaType
  offset : ℕ
  data : ℕ
  deriving DecidableEq, Repr

/-! ### Records and tables -/

/-- The memory layout of a record. -/
class RecordLayout (ρ : Type) where
  zero : ρ
  write16 : ℕ → ℕ → ρ → ρ

/-- `ipa_table_entry_interface`. The setter of `prev_index` returns the record and the meta data, since one kind
of record keeps it outside. -/
structure IpaTableEntryInterface (ρ υ : Type) where
  entryIsValid : ρ → Bool
  entryGetNextIndex : ρ → ℕ
  entryGetPrevIndex : ρ → ℕ → (ℕ → ℕ) → ℕ → ℕ
  entrySetPrevIndex : ρ → ℕ → ℕ → (ℕ → ℕ) → ℕ → ρ × (ℕ → ℕ)
  entryHeadInsert : ρ → υ → ρ × ℕ
  entryTailInsert : ρ → υ → ρ
  entryGetDeleteHeadDmaCommandData : ρ → ρ → ℕ

/-- `ipa_table`. The records of `table_addr` and `expn_table_addr` are contiguous, so they are
one array `slot`; `hasMeta` says whether the `meta` pointer is set, and `metaPrev` is the
`prev_index` array behind it. -/
structure IpaTable (ρ : Type) where
  nmi : IpaNatMemIn
  entrySize : ℕ
  tableEntries : ℕ
  expnTableEntries : ℕ
  totTblEnts : ℕ
  slot : ℕ → ρ
  curTblCnt : ℕ
  curExpnTblCnt : ℕ
  dmaHelp : DmaHelpType → IpaTableDmaCmdHelper
  hasMeta : Bool
  metaPrev : ℕ → ℕ

structure IpaTableIterator where
  prevIndex : ℕ
  currIndex : ℕ
  nextIndex : ℕ
  deriving DecidableEq, Repr

/-- `++` on a `uint16_t` counter. -/
def incU16 (c : ℕ) : ℕ := (c + 1) % 2 ^ 16

/-- `--` on a `uint16_t` counter. -/
def decU16 (c : ℕ) : ℕ := (c + (2 ^ 16 - 1)) % 2 ^ 16

theorem decU16_incU16 {c : ℕ} (h : c < 2 ^ 16) : decU16 (incU16 c) = c := by
  unfold decU16 incU16
  omega

theorem incU16_of_lt {c : ℕ} (h : c + 1 < 2 ^ 16) : incU16 c = c + 1 := Nat.mod_eq_of_lt h

theorem decU16_succ {c : ℕ} (h : c + 1 < 2 ^ 16) : decU16 (c + 1) = c := by
  unfold decU16
  omega

/-- The loop of `Get2PowerTightUpperBound`: `tmp` is halved until it is `1`. A 16-bit `tmp`
is halved at most 15 times. -/
def get2PowerLoop : ℕ → ℕ → ℕ → ℕ → ℕ × ℕ
  | 0, _, prev, curr => (prev, curr)
  | fuel + 1, tmp, prev, curr =>
    if tmp = 1 then (prev, curr)
    else get2PowerLoop fuel (tmp / 2) curr (curr * 2 % 2 ^ 16)

def get2PowerTightUpperBound (num : ℕ) : ℕ :=
  if num = 0 then 2
  else
    let (prev, curr) := get2PowerLoop 16 num 0 2
    if num = prev then prev else curr

def getEvenTightUpperBound (num : ℕ) : ℕ :=
  if num = 0 then 2
  else if num % 2 = 1 then num + 1 else num

/-- `number_of_entries * btp`. For every count up to `IPA_TABLE_MAX_ENTRIES` the single
precision product with `.8` (or `1.00` for SRAM), truncated to 16 bits, is this quotient. -/
def basePercentage (nmi : IpaNatMemIn) (n : ℕ) : ℕ :=
  match nmi with
  | .ddr => n * 4 / 5
  | .sram => n

/-- `number_of_entries * etp`, with `.2` (or `0.43` for SRAM). -/
def expnPercentage (nmi : IpaNatMemIn) (n : ℕ) : ℕ :=
  match nmi with
  | .ddr => n / 5
  | .sram => n * 43 / 100

def ipaTableCalculateEntriesNum (nmi : IpaNatMemIn) (numberOfEntries : ℕ) : Except ℤ (ℕ × ℕ) :=
  if numberOfEntries > ipaTableMaxEntries then .error einval
  else
    let tableEntries := get2PowerTightUpperBound (basePercentage nmi numberOfEntries)
    let expnTableEntries := getEvenTightUpperBound (expnPercentage nmi numberOfEntries)
    if tableEntries + expnTableEntries > ipaTableMaxEntries then .error einval
    else .ok (tableEntries, expnTableEntries)

section Handles

variable {ρ : Type}

def makeEntryHdl (t : IpaTable ρ) (tblEntry : ℕ) : ℕ :=
  let entryHdl :=
    if tblEntry ≥ t.tableEntries then ((tblEntry - t.tableEntries) <<< 1 % 2 ^ 16) ||| 1
    else tblEntry <<< 1 % 2 ^ 16
  (entryHdl ||| t.nmi.toNat <<< 15) % 2 ^ 16

/-- The record index that `BREAK_RULE_HDL` reads off a handle. -/
def breakRuleHdl (t : IpaTable ρ) (hdl : ℕ) : ℕ :=
  ((hdl >>> 1) &&& ipaTableIndxMask) + (if hdl &&& 1 ≠ 0 then t.tableEntries else 0)

def ipaTableGetEntry (t : IpaTable ρ) (entryHandle : ℕ) : Except ℤ ℕ :=
  let recIndex := breakRuleHdl t entryHandle
  if recIndex ≥ t.totTblEnts then .error einval else .ok recIndex

def ipaTableGetEntryByIndex (t : IpaTable ρ) (recIndex : ℕ) : Option ℕ :=
  if recIndex = 0 ∨ recIndex ≥ t.totTblEnts then none else some recIndex

end Handles

section Dma

variable {ρ : Type}

def ipaTableDmaCmdGenerate (help : IpaTableDmaCmdHelper) (isExpn : Bool) (entryOffset data : ℕ)
    (cmd : List NatDmaOne) : List NatDmaOne :=
  cmd ++ [{ tableIndex := help.tableIndx
            baseAddr := if isExpn then help.expnTableType else help.tableType
            offset := help.offset + entryOffset
            data := data }]

/-- `ipa_table_add_dma_cmd`; the callers ignore its return code. -/
def ipaTableAddDmaCmd (t : IpaTable ρ) (helpType : DmaHelpType) (recIndex data : ℕ)
    (cmd : List NatDmaOne) : List NatDmaOne :=
  if recIndex ≥ t.tableEntries + t.expnTableEntries then cmd
  else
    let isExpn := decide (recIndex ≥ t.tableEntries)
    let entryOffset := (if isExpn then recIndex - t.tableEntries else recIndex) * t.entrySize
    ipaTableDmaCmdGenerate (t.dmaHelp helpType) isExpn entryOffset data cmd

variable [RecordLayout ρ]

/-- One 16-bit write by the hardware, at an offset into the base or the expansion part. -/
def IpaTable.dmaWrite (t : IpaTable ρ) (isExpn : Bool) (offset data : ℕ) : IpaTable ρ :=
  let i := offset / t.entrySize + (if isExpn then t.tableEntries else 0)
  let record := RecordLayout.write16 (offset % t.entrySize) data (t.slot i)
  { t with slot := Function.update t.slot i record }

end Dma

inductive When2Callback where
  | whenSlotEmpty
  | whenSlotFilled
  deriving DecidableEq, Repr

section Operations

variable {ρ υ : Type} (ifc : IpaTableEntryInterface ρ υ)

/-- The `for` loop of `ipa_table_walk` over the `n` slots from `i` on, with the state `s` that
the callback changes. -/
def ipaTableWalkLoop {σ : Type} (t : IpaTable ρ) (when2cb : When2Callback)
    (walkCb : ℕ → ρ → ℕ → σ → ℤ × σ) : ℕ → ℕ → σ → ℤ × σ
  | 0, _, s => (0, s)
  | n + 1, i, s =>
    let callBack :=
      if ifc.entryIsValid (t.slot i) then decide (when2cb = .whenSlotFilled)
      else decide (when2cb = .whenSlotEmpty)
    if callBack then
      let (ret, s') := walkCb (makeEntryHdl t i) (t.slot i) i s
      if ret ≠ 0 then (ret, s') else ipaTableWalkLoop t when2cb walkCb n (i + 1) s'
    else ipaTableWalkLoop t when2cb walkCb n (i + 1) s

def ipaTableWalk {σ : Type} (t : IpaTable ρ) (startIndex : ℕ) (when2cb : When2Callback)
    (walkCb : ℕ → ρ → ℕ → σ → ℤ × σ) (s : σ) : ℤ × σ :=
  let tot := t.tableEntries + t.expnTableEntries
  if startIndex ≥ tot then (einval, s)
  else ipaTableWalkLoop ifc t when2cb walkCb (tot - startIndex) startIndex s

/-- `mt_slot`: stop at the first empty slot and report its index. -/
def mtSlot (_ruleHdl : ℕ) (_record : ρ) (recordIndex : ℕ) (s : Unit) : ℤ × Unit :=
  (recordIndex, s)

def findExpnTblFreeEntry (t : IpaTable ρ) : Except ℤ ℕ :=
  let ret := (ipaTableWalk ifc t t.tableEntries .whenSlotEmpty mtSlot ()).1
  if ret > 0 then .ok (ret.toNat % 2 ^ 16) else .error (-1)

def ipaTableIteratorInit (t : IpaTable ρ) (currIndex : ℕ) : Except ℤ IpaTableIterator :=
  if ¬ ifc.entryIsValid (t.slot currIndex) then .error einval
  else
    let prevIndex := ifc.entryGetPrevIndex (t.slot currIndex) currIndex t.metaPrev t.tableEntries
    let nextIndex := ifc.entryGetNextIndex (t.slot currIndex)
    if validIndex prevIndex ∧ (ipaTableGetEntryByIndex t prevIndex).isNone then .error eperm
    else if validIndex nextIndex ∧ (ipaTableGetEntryByIndex t nextIndex).isNone then .error eperm
    else .ok { prevIndex, currIndex, nextIndex }

def ipaTableIteratorNext (t : IpaTable ρ) (it : IpaTableIterator) : Except ℤ IpaTableIterator :=
  let nextIndex := ifc.entryGetNextIndex (t.slot it.nextIndex)
  if validIndex nextIndex ∧ (ipaTableGetEntryByIndex t nextIndex).isNone then .error eperm
  else .ok { prevIndex := it.currIndex, currIndex := it.nextIndex, nextIndex }

/-- The loop of `ipa_table_iterator_end` from `prevIndex` on. -/
def iteratorEndLoop (t : IpaTable ρ) : ℕ → ℕ → Except ℤ ℕ
  | 0, _ => .error (-1)
  | fuel + 1, prevIndex =>
    let nextIndex := ifc.entryGetNextIndex (t.slot prevIndex)
    if ¬ validIndex nextIndex then .ok prevIndex
    else if nextIndex = prevIndex then .error (-1)
    else iteratorEndLoop t fuel nextIndex

/-- `ipa_table_iterator_end`: the index of the last entry of the chain through `recIndex`. -/
def ipaTableIteratorEnd (t : IpaTable ρ) (recIndex : ℕ) : Except ℤ ℕ :=
  iteratorEndLoop ifc t (t.totTblEnts + 1) recIndex

def ipaTableIteratorIsHeadWithTail (it : IpaTableIterator) : Bool :=
  validIndex it.nextIndex && !validIndex it.prevIndex

/-- `InsertHead`: the open slot is filled by the CPU and enabled by a DMA command. -/
def insertHead (t : IpaTable ρ) (recIndex : ℕ) (userData : υ) (cmd : List NatDmaOne) :
    IpaTable ρ × List NatDmaOne :=
  let (record, enableData) := ifc.entryHeadInsert (t.slot recIndex) userData
  ({ t with slot := Function.update t.slot recIndex record, curTblCnt := incU16 t.curTblCnt },
    ipaTableAddDmaCmd t .updateHead recIndex enableData cmd)

/-- The part of `InsertTail` after the end of the chain and the open slot were found. -/
def insertTailAt (t : IpaTable ρ) (prevIndex currIndex : ℕ) (userData : υ)
    (cmd : List NatDmaOne) : IpaTable ρ × List NatDmaOne :=
  let isIndexTbl := t.hasMeta
  let (record, enableData) :=
    if isIndexTbl then (ifc.entryTailInsert (t.slot currIndex) userData, 0)
    else ifc.entryHeadInsert (t.slot currIndex) userData
  let (record', metaPrev') :=
    ifc.entrySetPrevIndex record currIndex prevIndex t.metaPrev t.tableEntries
  let cmd' :=
    if isIndexTbl then cmd else ipaTableAddDmaCmd t .updateHead currIndex enableData cmd
  ({ t with
      slot := Function.update t.slot currIndex record'
      metaPrev := metaPrev'
      curExpnTblCnt := incU16 t.curExpnTblCnt },
    ipaTableAddDmaCmd t .updateEntry prevIndex currIndex cmd')

/-- `InsertTail`: the first open expansion slot is filled and hung behind the chain of the
occupied slot `recIndex`. -/
def insertTail (t : IpaTable ρ) (recIndex : ℕ) (userData : υ) (cmd : List NatDmaOne) :
    Except ℤ (IpaTable ρ × ℕ × List NatDmaOne) := do
  let prevIndex ← ipaTableIteratorEnd ifc t recIndex
  let currIndex ← findExpnTblFreeEntry ifc t
  let (t', cmd') := insertTailAt ifc t prevIndex currIndex userData cmd
  return (t', currIndex, cmd')

def ipaTableAddEntry (t : IpaTable ρ) (userData : υ) (recIndex : ℕ) (cmd : List NatDmaOne) :
    Except ℤ (IpaTable ρ × ℕ × List NatDmaOne) :=
  if ¬ ifc.entryIsValid (t.slot recIndex) then
    let (t', cmd') := insertHead ifc t recIndex userData cmd
    .ok (t', recIndex, cmd')
  else insertTail ifc t recIndex userData cmd

def ipaTableCreateDeleteCommand (t : IpaTable ρ) (cmd : List NatDmaOne) (it : IpaTableIterator) :
    List NatDmaOne :=
  if ¬ validIndex it.prevIndex then
    if validIndex it.nextIndex then
      -- the head of a chain is not disabled, its delete-head field is overwritten
      ipaTableAddDmaCmd t .deleteHead it.currIndex
        (ifc.entryGetDeleteHeadDmaCommandData (t.slot it.currIndex) (t.slot it.nextIndex)) cmd
    else ipaTableAddDmaCmd t .updateHead it.currIndex 0 cmd
  else ipaTableAddDmaCmd t .updateEntry it.prevIndex it.nextIndex cmd

variable [RecordLayout ρ]

def ipaTableEraseEntry (t : IpaTable ρ) (index : ℕ) : IpaTable ρ :=
  let t' := { t with slot := Function.update t.slot index RecordLayout.zero }
  if index < t.tableEntries then { t' with curTblCnt := decU16 t.curTblCnt }
  else { t' with curExpnTblCnt := decU16 t.curExpnTblCnt }

def ipaTableDeleteEntry (t : IpaTable ρ) (it : IpaTableIterator) (isPrevEmpty : Bool) : IpaTable ρ :=
  let t' :=
    if validIndex it.nextIndex then
      let (record, metaPrev') := ifc.entrySetPrevIndex (t.slot it.nextIndex) it.nextIndex
        it.prevIndex t.metaPrev t.tableEntries
      { t with slot := Function.update t.slot it.nextIndex record, metaPrev := metaPrev' }
    else if isPrevEmpty ∧ validIndex it.prevIndex then
      -- the dead head of the chain goes with its last tail entry
      { t with slot := Function.update t.slot it.prevIndex RecordLayout.zero
               curTblCnt := decU16 t.curTblCnt }
    else t
  ipaTableEraseEntry t' it.currIndex

/-- `ipa_table_reset`: every record of the base and of the expansion table is zeroed. -/
def ipaTableReset (t : IpaTable ρ) : IpaTable ρ :=
  { t with slot := fun i =>
      if i < t.tableEntries + t.expnTableEntries then RecordLayout.zero else t.slot i }

end Operations

end Sm8750Modules.IpaNat
