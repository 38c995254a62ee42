import Sm8750Modules.IpaNat.Rule

/-!
# The IPv4 NAT table driver

The operations on one IPv4 NAT table (`ipa_nat_drvi.c`): creation, adding a rule, deleting
the rule behind a handle, clearing. A table is a NAT table and an index table that name each
other's slots; every operation works on both, collects DMA commands for the hardware, and
posts them with one `ioctl`. Whether the kernel accepts that `ioctl` is the argument `post`;
an accepted command list is executed in order, a refused one not at all.

The functions take the table that `BREAK_TBL_HDL` has selected. `nat_mutex` is held
throughout, and `pthread_mutex_lock` and `pthread_mutex_unlock` on it are taken to succeed.
-/

namespace Sm8750Modules.IpaNat

/-- The file-wide state of the driver besides the tables. -/
structure NatDrvi where
  ver : ℕ
  pdns : ℕ → UInt32
  hashToken : ℕ

structure IpaNatIp4TableCache where
  memDescValid : Bool
  addrOffset : ℕ
  table : IpaTable IpaNatRule
  indexTable : IpaTable IpaNatIndxTblRule

def natFieldOffset : DmaHelpType → ℕ
  | .updateHead => ipaNatRuleFlagFieldOffset
  | .updateEntry => ipaNatRuleNextFieldOffset
  | .deleteHead => ipaNatRuleProtoFieldOffset

def indexFieldOffset : DmaHelpType → ℕ
  | .updateHead => ipaNatIndexRuleNatIndexFieldOffset
  | .updateEntry => ipaNatIndexRuleNextFieldOffset
  | .deleteHead => ipaNatIndexRuleNatIndexFieldOffset

def natDmaHelp (addrOffset tableIndx : ℕ) (helpType : DmaHelpType) : IpaTableDmaCmdHelper where
  offset := addrOffset + natFieldOffset helpType
  tableType := .natBaseTbl
  expnTableType := .natExpnTbl
  tableIndx := tableIndx

def indexDmaHelp (addrOffset tableIndx : ℕ) (helpType : DmaHelpType) : IpaTableDmaCmdHelper where
  offset := addrOffset + indexFieldOffset helpType
  tableType := .natIndxTbl
  expnTableType := .natIndexExpnTbl
  tableIndx := tableIndx

/-- `ipa_nati_create_table`, with the memory that `ipa_mem_descriptor_allocate_memory` and
`calloc` hand out. -/
def ipaNatiCreateTable (nmi : IpaNatMemIn) (addrOffset numberOfEntries tableIndex : ℕ) :
    Except ℤ IpaNatIp4TableCache := do
  let (tableEntries, expnTableEntries) ← ipaTableCalculateEntriesNum nmi numberOfEntries
  return {
    memDescValid := true
    addrOffset := addrOffset
    table := {
      nmi := nmi
      entrySize := 32
      tableEntries := tableEntries
      expnTableEntries := expnTableEntries
      totTblEnts := tableEntries + expnTableEntries
      slot := fun _ => RecordLayout.zero
      curTblCnt := 0
      curExpnTblCnt := 0
      dmaHelp := natDmaHelp addrOffset tableIndex
      hasMeta := false
      metaPrev := fun _ => 0 }
    indexTable := {
      nmi := nmi
      entrySize := 4
      tableEntries := tableEntries
      expnTableEntries := expnTableEntries
      totTblEnts := tableEntries + expnTableEntries
      slot := fun _ => RecordLayout.zero
      curTblCnt := 0
      curExpnTblCnt := 0
      dmaHelp := indexDmaHelp addrOffset tableIndex
      hasMeta := true
      metaPrev := fun _ => 0 } }

variable (c : IpaNatIp4TableCache)

/-- The hardware executes one entry of a command list. -/
def dmaOne (d : NatDmaOne) : IpaNatIp4TableCache :=
  let offset := d.offset - c.addrOffset
  match d.baseAddr with
  | .natBaseTbl => { c with table := c.table.dmaWrite false offset d.data }
  | .natExpnTbl => { c with table := c.table.dmaWrite true offset d.data }
  | .natIndxTbl => { c with indexTable := c.indexTable.dmaWrite false offset d.data }
  | .natIndexExpnTbl => { c with indexTable := c.indexTable.dmaWrite true offset d.data }

def dmaCmd (cmd : List NatDmaOne) : IpaNatIp4TableCache :=
  cmd.foldl dmaOne c

def ipaNatiPostIpv4DmaCmd (cmd : List NatDmaOne) (post : Bool) : ℤ × IpaNatIp4TableCache :=
  if post then (0, dmaCmd c cmd) else (eio, c)

/-- What `ipa_NATI_add_ipv4_rule` returns and leaves behind. -/
structure AddResult where
  ret : ℤ
  ruleHdl : ℕ
  drvi : NatDrvi
  cache : IpaNatIp4TableCache

variable (g : NatDrvi)

def newEntryIndex (c : IpaNatIp4TableCache) (clnt : IpaNatIpv4Rule) : ℕ :=
  let hash := dstHash g.ver (g.pdns clnt.pdnIndex) clnt.targetIp clnt.targetPort clnt.publicPort
    clnt.protocol (c.table.tableEntries - 1)
  if clnt.srcOnly then hashWithToken hash g.hashToken c.table.tableEntries else hash

def newIndexTblEntryIndex (c : IpaNatIp4TableCache) (clnt : IpaNatIpv4Rule) : ℕ :=
  let hash := srcHash clnt.privateIp clnt.privatePort clnt.targetIp clnt.targetPort
    clnt.protocol (c.table.tableEntries - 1)
  if clnt.dstOnly then hashWithToken hash g.hashToken c.table.tableEntries else hash

def NatDrvi.bumpToken (used : Bool) : NatDrvi :=
  if used then { g with hashToken := g.hashToken + 1 } else g

/-- The fields of a new rule that `ipa_NATI_add_ipv4_rule` sets after both insertions. -/
def finishRule (clnt : IpaNatIpv4Rule) (indxTblEntry : ℕ) (r : IpaNatRule) : IpaNatRule :=
  { r with
    indxTblEntry := indxTblEntry
    redirect := clnt.redirect.toNat % 2 == 1
    enable := clnt.enable.toNat % 2 == 1
    timeStamp := BitVec.ofNat 24 clnt.timeStamp.toNat }

/-- The part of `ipa_NATI_add_ipv4_rule` after both insertions. -/
def commitRule (c : IpaNatIp4TableCache) (clnt : IpaNatIpv4Rule)
    (table : IpaTable IpaNatRule) (newEntry : ℕ) (indexTable : IpaTable IpaNatIndxTblRule)
    (newIndexTblEntry : ℕ) (cmd : List NatDmaOne) (post : Bool) : AddResult :=
  match ipaTableGetEntryByIndex table newEntry with
  | none => ⟨eperm, 0, g, { c with
      table := ipaTableEraseEntry table newEntry
      indexTable := ipaTableEraseEntry indexTable newIndexTblEntry }⟩
  | some rule =>
    let record := finishRule clnt newIndexTblEntry (table.slot rule)
    let c' := { c with
      table := { table with slot := Function.update table.slot rule record }
      indexTable := indexTable }
    let (ret, c'') := ipaNatiPostIpv4DmaCmd c' cmd post
    if ret ≠ 0 then ⟨ret, 0, g, { c'' with
      table := ipaTableEraseEntry c''.table newEntry
      indexTable := ipaTableEraseEntry c''.indexTable newIndexTblEntry }⟩
    else ⟨0, makeEntryHdl table newEntry, g, c''⟩

def ipaNATIAddIpv4Rule (c : IpaNatIp4TableCache) (clnt : IpaNatIpv4Rule) (post : Bool) : AddResult :=
  if clnt.protocol = ipahalNatInvalidProtocol then ⟨einval, 0, g, c⟩
  else if clnt.pdnIndex ≥ ipaMaxPdnNum ∨ g.pdns clnt.pdnIndex = 0 then ⟨einval, 0, g, c⟩
  else if ¬ c.memDescValid then ⟨einval, 0, g, c⟩
  else
    let index := newEntryIndex g c clnt
    let g1 := g.bumpToken clnt.srcOnly
    match ipaTableAddEntry (entryInterface g.pdns) c.table clnt index [] with
    | .error ret => ⟨ret, 0, g1, c⟩
    | .ok (table, newEntry, cmd) =>
      let indexIndex := newIndexTblEntryIndex g1 c clnt
      let g2 := g1.bumpToken clnt.dstOnly
      match ipaTableAddEntry indexEntryInterface c.indexTable newEntry indexIndex cmd with
      | .error ret => ⟨ret, 0, g2, { c with table := ipaTableEraseEntry table newEntry }⟩
      | .ok (indexTable, newIndexTblEntry, cmd) =>
        commitRule g2 c clnt table newEntry indexTable newIndexTblEntry cmd post

def ipaNatiCopySecondIndexEntryToHead (it : IpaTableIterator)
    (cmd : List NatDmaOne) : IpaNatIp4TableCache × List NatDmaOne :=
  let indexTableRule := c.indexTable.slot it.nextIndex
  let cmd' :=
    ipaTableAddDmaCmd c.indexTable .updateEntry it.currIndex indexTableRule.nextIndex cmd
  let record :=
    { c.table.slot indexTableRule.tblEntry with indxTblEntry := it.currIndex }
  ({ c with table := { c.table with
      slot := Function.update c.table.slot indexTableRule.tblEntry record } }, cmd')

/-- The part of `ipa_NATI_del_ipv4_rule` that builds the index table's commands. -/
def indexDeleteCommand (indexIt : IpaTableIterator) :
    IpaNatIp4TableCache × List NatDmaOne × Except ℤ IpaTableIterator :=
  let cmd := ipaTableCreateDeleteCommand indexEntryInterface c.indexTable [] indexIt
  if ipaTableIteratorIsHeadWithTail indexIt then
    let (c', cmd') := ipaNatiCopySecondIndexEntryToHead c indexIt cmd
    (c', cmd', ipaTableIteratorNext indexEntryInterface c'.indexTable indexIt)
  else (c, cmd, .ok indexIt)

/-- The part of `ipa_NATI_del_ipv4_rule` after the commands were executed. -/
def eraseDeleted (tableIt indexIt : IpaTableIterator) : IpaNatIp4TableCache :=
  let ifc := entryInterface fun _ => 0
  let table :=
    if ¬ ipaTableIteratorIsHeadWithTail tableIt then
      let isPrevEmpty := validIndex tableIt.prevIndex &&
        decide ((c.table.slot tableIt.prevIndex).protocol = ipahalNatInvalidProtocol)
      ipaTableDeleteEntry ifc c.table tableIt isPrevEmpty
    else c.table
  let indexTable := ipaTableDeleteEntry indexEntryInterface c.indexTable indexIt false
  let metaPrev :=
    if indexIt.currIndex ≥ indexTable.tableEntries then
      Function.update indexTable.metaPrev (indexIt.currIndex - indexTable.tableEntries) 0
    else indexTable.metaPrev
  { c with table := table, indexTable := { indexTable with metaPrev := metaPrev } }

/-- `ipa_NATI_del_ipv4_rule`. None of the callbacks used here reads `pdns`. -/
def ipaNATIDelIpv4Rule (ruleHdl : ℕ) (post : Bool) : ℤ × IpaNatIp4TableCache :=
  let ifc := entryInterface fun _ => 0
  if ¬ c.memDescValid then (einval, c)
  else
    match ipaTableGetEntry c.table ruleHdl with
    | .error ret => (ret, c)
    | .ok index =>
      match ipaTableIteratorInit ifc c.table index with
      | .error ret => (ret, c)
      | .ok tableIt =>
        match ipaTableGetEntryByIndex c.indexTable (c.table.slot index).indxTblEntry with
        | none => (eperm, c)
        | some indexIndex =>
          match ipaTableIteratorInit indexEntryInterface c.indexTable indexIndex with
          | .error ret => (ret, c)
          | .ok indexIt =>
            match indexDeleteCommand c indexIt with
            | (c', _, .error ret) => (ret, c')
            | (c', cmd, .ok indexIt') =>
              let cmd' := ipaTableCreateDeleteCommand ifc c'.table cmd tableIt
              let (ret, c'') := ipaNatiPostIpv4DmaCmd c' cmd' post
              if ret ≠ 0 then (ret, c'') else (0, eraseDeleted c'' tableIt indexIt')

/-- `ipa_NATI_clear_ipv4_tbl`, for an initialised cache. -/
def ipaNATIClearIpv4Tbl : IpaNatIp4TableCache :=
  { c with
    table := { ipaTableReset c.table with curTblCnt := 0, curExpnTblCnt := 0 }
    indexTable := { ipaTableReset c.indexTable with curTblCnt := 0, curExpnTblCnt := 0 } }

end Sm8750Modules.IpaNat
