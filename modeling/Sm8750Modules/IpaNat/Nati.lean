import Sm8750Modules.IpaNat.Drvi

/-!
# The static data of the NAT library

What the NAT state machine works on: `nati_obj` (`ipa_nat_statemach.h`), the two handle maps
of each memory (`ipa_nat_map.cpp`), and the tables that the driver keeps behind table handles,
one in DDR and one in SRAM (`ipa_nat_drvi.c`).

System calls are answered by the stream `Kernel`: the `n`-th call returns `ret n`, and hands
out the number `val n` where it hands out something. An operation that may post a command
list draws one answer for it, whether or not it gets that far. The recursive mutex that the
driver functions take is held already and taken to be available.
-/

namespace Sm8750Modules.IpaNat

/-! ### The static data -/

inductive IpaNatiState where
  | null
  | ddrOnly
  | sramOnly
  | hybrid
  | hybridDdr
  | last
  deriving DecidableEq, Repr

structure Kernel where
  ret : ℕ → ℤ
  val : ℕ → ℕ
  calls : ℕ

structure NatiSwitchStats where
  pass : ℕ
  fail : ℕ
  deriving DecidableEq, Repr

/-- A `std::map` from handles to handles. -/
abbrev IpaNatMap := ℕ → Option ℕ

/-- `ipa_nati_obj`, with the maps that `map_pairs` selects. -/
structure IpaNatiObj where
  prevState : IpaNatiState
  currState : IpaNatiState
  holdState : Bool
  stateToHold : IpaNatiState
  ddrTblHdl : ℕ
  sramTblHdl : ℕ
  totSlotsInSram : ℕ
  backToSramThresh : ℕ
  totRulesInTable : IpaNatMemIn → ℕ
  orig2newMap : IpaNatMemIn → IpaNatMap
  new2origMap : IpaNatMemIn → IpaNatMap
  swStats : IpaNatMemIn → NatiSwitchStats

structure IpaNatCache where
  tableCnt : ℕ
  ip4Tbl : IpaNatIp4TableCache

/-- The static data of the library. -/
structure Nati where
  obj : IpaNatiObj
  drvi : NatDrvi
  natCache : IpaNatMemIn → IpaNatCache
  kernel : Kernel

def zeroIpaTable (ρ : Type) [RecordLayout ρ] : IpaTable ρ where
  nmi := .ddr
  entrySize := 0
  tableEntries := 0
  expnTableEntries := 0
  totTblEnts := 0
  slot := fun _ => RecordLayout.zero
  curTblCnt := 0
  curExpnTblCnt := 0
  dmaHelp := fun _ => ⟨0, .natBaseTbl, .natBaseTbl, 0⟩
  hasMeta := false
  metaPrev := fun _ => 0

/-- A table cache that was zeroed with `memset`. -/
def zeroTableCache : IpaNatIp4TableCache := ⟨false, 0, zeroIpaTable _, zeroIpaTable _⟩

variable (w : Nati)

namespace Nati

/-- One system call: what it returns and hands out. -/
def sys : ℤ × ℕ × Nati :=
  (w.kernel.ret w.kernel.calls, w.kernel.val w.kernel.calls,
    { w with kernel := { w.kernel with calls := w.kernel.calls + 1 } })

def setState (s : IpaNatiState) : Nati :=
  { w with obj := { w.obj with prevState := w.obj.currState, currState := s } }

def back2UnstartedState : Nati :=
  { w with obj := { w.obj with prevState := .null, currState := .null } }

def setTable (nmi : IpaNatMemIn) (c : IpaNatIp4TableCache) : Nati :=
  { w with natCache := Function.update w.natCache nmi { w.natCache nmi with ip4Tbl := c } }

/-- The maps of a memory are replaced. -/
def setMaps (nmi : IpaNatMemIn) (o2n n2o : IpaNatMap) : Nati :=
  { w with obj := { w.obj with
      orig2newMap := Function.update w.obj.orig2newMap nmi o2n
      new2origMap := Function.update w.obj.new2origMap nmi n2o } }

/-- `tot_rules_in_table[sub]` is set; it is a `uint32_t`. -/
def setCntr (nmi : IpaNatMemIn) (n : ℕ) : Nati :=
  { w with obj := { w.obj with
      totRulesInTable := Function.update w.obj.totRulesInTable nmi (n % 2 ^ 32) } }

/-- `ipa_nat_map_clear` on both maps of a memory, and its counter. -/
def clearMaps (nmi : IpaNatMemIn) : Nati :=
  (w.setCntr nmi 0).setMaps nmi (fun _ => none) fun _ => none

def inHybridState : Bool :=
  w.obj.currState = .hybrid ∨ w.obj.currState = .hybridDdr

def chooseMemSub : IpaNatMemIn :=
  if w.obj.currState = .hybrid then .sram else .ddr

/-- The handle of the table in a memory. -/
def tblHdl : IpaNatMemIn → ℕ
  | .ddr => w.obj.ddrTblHdl
  | .sram => w.obj.sramTblHdl

/-- The table that an operation of a hybrid state works on, where the application names the
table `hdl`. -/
def hybridTblHdl (hdl : ℕ) : ℕ :=
  if w.obj.currState = .hybrid then hdl else w.obj.ddrTblHdl

end Nati

/-- The static data before the first call. -/
def natiInit (ver : ℕ) (kernel : Kernel) : Nati where
  obj := {
    prevState := .null
    currState := .null
    holdState := false
    stateToHold := .null
    ddrTblHdl := 0
    sramTblHdl := 0
    totSlotsInSram := 0
    backToSramThresh := 0
    totRulesInTable := fun _ => 0
    orig2newMap := fun _ _ => none
    new2origMap := fun _ _ => none
    swStats := fun _ => ⟨0, 0⟩ }
  drvi := { ver := ver, pdns := fun _ => 0, hashToken := 69 }
  natCache := fun _ => ⟨0, zeroTableCache⟩
  kernel := kernel

def ipaNatMapAdd (m : IpaNatMap) (key val : ℕ) : ℤ × IpaNatMap :=
  match m key with
  | some _ => (-1, m)
  | none => (0, Function.update m key (some val))

def ipaNatMapFind (m : IpaNatMap) (key : ℕ) : ℤ × ℕ :=
  match m key with
  | some val => (0, val)
  | none => (-1, 0)

def ipaNatMapDel (m : IpaNatMap) (key : ℕ) : ℤ × ℕ × IpaNatMap :=
  match m key with
  | some val => (0, val, Function.update m key none)
  | none => (-1, 0, m)

/-! ### Tables behind their handles -/

def makeTblHdl (hdl : ℕ) (nmi : IpaNatMemIn) : ℕ := nmi.toNat <<< 31 ||| hdl

/-- The memory that `BREAK_TBL_HDL` reads off a handle. -/
def tblHdlNmi (tblHdl : ℕ) : IpaNatMemIn :=
  if (tblHdl >>> 31) &&& 1 = 0 then .ddr else .sram

def validTblHdl (tblHdl : ℕ) : Bool := (tblHdl &&& 0xFF) == 1

/-- The table behind a handle. Most functions of the driver test `VALID_TBL_HDL` themselves;
for the others the public API has done so. -/
def Nati.lookup (tblHdl : ℕ) : Option IpaNatIp4TableCache :=
  if validTblHdl tblHdl ∧ (w.natCache (tblHdlNmi tblHdl)).tableCnt ≠ 0 then
    some (w.natCache (tblHdlNmi tblHdl)).ip4Tbl
  else none

section Driver

variable (w : Nati)

/-- `ipa_NATI_add_ipv4_tbl`: the return code and the new handle. -/
def natiAddIpv4Tbl (nmi : IpaNatMemIn) (publicIpAddr : UInt32) (numberOfEntries : ℕ) : ℤ × ℕ × Nati :=
  if (w.natCache nmi).tableCnt ≥ 1 then (einval, 0, w)
  else
    match ipaTableCalculateEntriesNum nmi numberOfEntries with
    | .error ret => (ret, 0, w)
    | .ok _ =>
      let (ret, addrOffset, w) := w.sys
      if ret ≠ 0 then (ret, 0, w)
      else
        match ipaNatiCreateTable nmi addrOffset numberOfEntries 0 with
        | .error ret => (ret, 0, w)
        | .ok c =>
          -- `ipa_nati_post_ipv4_init_cmd`
          let (ret, _, w) := w.sys
          if ret ≠ 0 then
            -- `ipa_nati_destroy_table`
            let (_, _, w) := w.sys
            (ret, 0, w.setTable nmi zeroTableCache)
          else
            (0, makeTblHdl 1 nmi, { w with
              drvi := { w.drvi with pdns := Function.update w.drvi.pdns 0 publicIpAddr }
              natCache := Function.update w.natCache nmi ⟨1, c⟩ })

/-- `ipa_NATI_del_ipv4_table`. The table is gone even when the kernel refuses to free it. -/
def natiDelIpv4Table (tblHdl : ℕ) : ℤ × Nati :=
  let nmi := tblHdlNmi tblHdl
  let cache := w.natCache nmi
  if ¬ validTblHdl tblHdl ∨ ¬ cache.ip4Tbl.memDescValid then (einval, w)
  else
    let (ret, _, w) := w.sys
    let cnt := if ret ≠ 0 then cache.tableCnt else cache.tableCnt - 1
    (ret, { w with natCache := Function.update w.natCache nmi ⟨cnt, zeroTableCache⟩ })

def natiAddIpv4Rule (tblHdl : ℕ) (clnt : IpaNatIpv4Rule) : ℤ × Option ℕ × Nati :=
  if ¬ validTblHdl tblHdl then (einval, none, w)
  else
    let nmi := tblHdlNmi tblHdl
    let (post, _, w) := w.sys
    let r := ipaNATIAddIpv4Rule w.drvi (w.natCache nmi).ip4Tbl clnt (post = 0)
    (r.ret, some r.ruleHdl, ({ w with drvi := r.drvi } : Nati).setTable nmi r.cache)

def natiDelIpv4Rule (tblHdl ruleHdl : ℕ) : ℤ × Nati :=
  if ¬ validTblHdl tblHdl then (einval, w)
  else
    let nmi := tblHdlNmi tblHdl
    let (post, _, w) := w.sys
    let (ret, c) := ipaNATIDelIpv4Rule (w.natCache nmi).ip4Tbl ruleHdl (post = 0)
    (ret, w.setTable nmi c)

def natiClearIpv4Tbl (tblHdl : ℕ) : ℤ × Nati :=
  match w.lookup tblHdl with
  | none => (einval, w)
  | some c => (0, w.setTable (tblHdlNmi tblHdl) (ipaNATIClearIpv4Tbl c))

/-- `ipa_NATI_post_ipv4_init_cmd`: the kernel is told to use this table. -/
def natiPostIpv4InitCmd (tblHdl : ℕ) : ℤ × Nati :=
  match w.lookup tblHdl with
  | none => (einval, w)
  | some _ =>
    let (ret, _, w) := w.sys
    (ret, w)

def natiQueryTimestamp (tblHdl ruleHdl : ℕ) : ℤ × Option ℕ :=
  let c := (w.natCache (tblHdlNmi tblHdl)).ip4Tbl
  if ¬ validTblHdl tblHdl ∨ ¬ c.memDescValid then (einval, none)
  else
    match ipaTableGetEntry c.table ruleHdl with
    | .error ret => (ret, none)
    | .ok i => (0, some (c.table.slot i).timeStamp.toNat)

def natiWalkIpv4Tbl {σ : Type} (tblHdl : ℕ)
    (walkCb : IpaTable IpaNatRule → ℕ → IpaNatRule → ℕ → σ → ℤ × σ) (s : σ) : ℤ × σ :=
  match w.lookup tblHdl with
  | none => (einval, s)
  | some c =>
    ipaTableWalk (entryInterface w.drvi.pdns) c.table 0 .whenSlotFilled (walkCb c.table) s

def natiWalkIpv4IndexTbl {σ : Type} (tblHdl : ℕ)
    (walkCb : IpaTable IpaNatIndxTblRule → ℕ → IpaNatIndxTblRule → ℕ → σ → ℤ × σ) (s : σ) :
    ℤ × σ :=
  match w.lookup tblHdl with
  | none => (einval, s)
  | some c =>
    ipaTableWalk indexEntryInterface c.indexTable 0 .whenSlotFilled (walkCb c.indexTable) s

def ipaNatiGetSramSize : ℤ × ℕ × Nati :=
  let (ret, size, w) := w.sys
  if ret ≠ 0 then (ret, 0, w) else if size = 0 then (einval, 0, w) else (0, size, w)

end Driver

/-- The bytes of a NAT table and its index table with `tot` entries in SRAM. -/
def sramTableSize (tot : ℕ) : ℕ :=
  (32 + 4) * (get2PowerTightUpperBound (basePercentage .sram tot) +
    getEvenTightUpperBound (expnPercentage .sram tot))

def calcNumSramLoop (sramSize : ℕ) : ℕ → ℕ → ℕ
  | 0, tot => tot - 1
  | fuel + 1, tot => if sramTableSize tot > sramSize then tot - 1
      else calcNumSramLoop sramSize fuel (tot + 1)

def ipaCalcNumSramTableEntries (sramSize : ℕ) : ℤ × ℕ :=
  let n := calcNumSramLoop sramSize ipaTableMaxEntries 1
  (if n ≠ 0 then 0 else -1, n)

/-- `ipa_nati_tbl_stats`; the average chain length is `totForAvg / totChains`. -/
structure IpaNatiTblStats where
  nmi : IpaNatMemIn
  totBaseEnts : ℕ
  totExpnEnts : ℕ
  totBaseEntsFilled : ℕ
  totExpnEntsFilled : ℕ
  totChains : ℕ
  minChainLen : ℕ
  maxChainLen : ℕ
  totForAvg : ℕ
  deriving DecidableEq, Repr

/-- The number of entries behind the link `next`, up to the number of slots. -/
def chainLength {ρ υ : Type} (ifc : IpaTableEntryInterface ρ υ) (t : IpaTable ρ) : ℕ → ℕ → ℕ
  | 0, _ => 0
  | fuel + 1, next =>
    if next = 0 then 0
    else chainLength ifc t fuel (ifc.entryGetNextIndex (t.slot next)) + 1

def genChainStats {ρ υ : Type} (ifc : IpaTableEntryInterface ρ υ) (t : IpaTable ρ) (ruleHdl : ℕ)
    (r : ρ) (_recordIndex : ℕ) (st : IpaNatiTblStats) : ℤ × IpaNatiTblStats :=
  if ruleHdl &&& 1 ≠ 0 then (1, st)
  else
    let next := ifc.entryGetNextIndex r
    if next = 0 then (0, st)
    else
      let chainLen := chainLength ifc t t.totTblEnts next + 1
      (0, { st with
        totChains := st.totChains + 1
        totForAvg := st.totForAvg + chainLen
        minChainLen := if st.minChainLen = 0 then chainLen else min st.minChainLen chainLen
        maxChainLen := max st.maxChainLen chainLen })

def tableStats {ρ υ : Type} (ifc : IpaTableEntryInterface ρ υ) (nmi : IpaNatMemIn)
    (t : IpaTable ρ) : ℤ × IpaNatiTblStats :=
  ipaTableWalk ifc t 0 .whenSlotFilled (genChainStats ifc t)
    ⟨nmi, t.tableEntries, t.expnTableEntries, t.curTblCnt, t.curExpnTblCnt, 0, 0, 0, 0⟩

def natiIpv4TblStats (tblHdl : ℕ) : ℤ × Option (IpaNatiTblStats × IpaNatiTblStats) :=
  match w.lookup tblHdl with
  | none => (einval, none)
  | some c =>
    let (ret, nat) := tableStats (entryInterface w.drvi.pdns) (tblHdlNmi tblHdl) c.table
    if ret < 0 then (einval, none)
    else
      let (ret, idx) := tableStats indexEntryInterface (tblHdlNmi tblHdl) c.indexTable
      if ret < 0 then (einval, none) else (0, some (nat, idx))

@[simp] theorem natiAddIpv4Rule_obj (w : Nati) (tblHdl : ℕ) (clnt : IpaNatIpv4Rule) :
    (natiAddIpv4Rule w tblHdl clnt).2.2.obj = w.obj := by
  unfold natiAddIpv4Rule
  split <;> rfl

@[simp] theorem natiDelIpv4Rule_obj (w : Nati) (tblHdl ruleHdl : ℕ) :
    (natiDelIpv4Rule w tblHdl ruleHdl).2.obj = w.obj := by
  unfold natiDelIpv4Rule
  split <;> rfl

@[simp] theorem natiClearIpv4Tbl_obj (w : Nati) (tblHdl : ℕ) :
    (natiClearIpv4Tbl w tblHdl).2.obj = w.obj := by
  unfold natiClearIpv4Tbl
  split <;> rfl

@[simp] theorem natiPostIpv4InitCmd_obj (w : Nati) (tblHdl : ℕ) :
    (natiPostIpv4InitCmd w tblHdl).2.obj = w.obj := by
  unfold natiPostIpv4InitCmd
  split <;> rfl

end Sm8750Modules.IpaNat
