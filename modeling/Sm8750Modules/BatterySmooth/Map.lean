import Sm8750Modules.Lib.Runs

/-!
# Battery smoothing — the map

The percentage that is shown for a battery is looked up in a map from the percentages to hundredths of a
percent of its charge. The map is rewritten when charging starts or ends, so that a part of the charge is
held in reserve without a jump of the percentage.

Charges are in hundredths of a percent, and a division rounds towards zero.
-/

namespace Sm8750Modules.BatterySmooth

def maxSoc : ℕ := 100

def percentScale : ℤ := 100

def fullScale : ℤ := 10000

def clampVal (x lo hi : ℤ) : ℤ := min (max x lo) hi

/-! ### The reserve table -/

structure ReserveCfg where
  startSoc : ℤ
  endSoc : ℤ
  dischgReserve : ℤ
  fullReserve : ℤ
  chgReserve : ℤ
  chgSplitSoc : ℤ
deriving DecidableEq, Repr

variable (cfg : ReserveCfg)

namespace ReserveCfg

/-- `is_valid_reserve`: at most ten percent, of either sign. -/
def isValidReserve (reserve : ℤ) : Bool := 0 ≤ |reserve| && |reserve| ≤ 1000

def validateValue : Bool :=
  isValidReserve cfg.dischgReserve && isValidReserve cfg.fullReserve && isValidReserve cfg.chgReserve

def validateSocRange : Bool :=
  !(cfg.startSoc < 0 || 100 < cfg.endSoc) && !(cfg.endSoc < cfg.startSoc) &&
    !(cfg.chgSplitSoc < 20 || 100 < cfg.chgSplitSoc)

/-- A slope between `MIN_SLOPE` and `MAX_SLOPE`. -/
def validSlope (slope : ℤ) : Bool := !(slope < 70 || 150 < slope)

def validateChgSlope : Bool :=
  (!(0 < cfg.chgSplitSoc) ||
    validSlope ((cfg.chgSplitSoc * percentScale - cfg.chgReserve).tdiv cfg.chgSplitSoc)) &&
  (!(cfg.chgSplitSoc < 100) ||
    validSlope ((fullScale - (cfg.chgSplitSoc * percentScale - cfg.chgReserve)).tdiv
      (100 - cfg.chgSplitSoc)))

def validate : Bool :=
  cfg.validateValue && cfg.validateSocRange && cfg.validateChgSlope

end ReserveCfg

/-- The ranges of neighbouring configurations follow each other. -/
def adjacent : List ReserveCfg → Bool
  | a :: b :: rest => b.startSoc == a.endSoc + 1 && adjacent (b :: rest)
  | _ => true

def validateContinuity (cfgs : List ReserveCfg) : Bool :=
  match cfgs.head?, cfgs.getLast? with
  | some first, some last => first.startSoc == 0 && last.endSoc == 100 && adjacent cfgs
  | _, _ => false

/-- The configurations that a property holds, six numbers each. -/
def readCfgs : List ℤ → List ReserveCfg
  | a :: b :: c :: d :: e :: f :: rest => ⟨a, b, c, d, e, f⟩ :: readCfgs rest
  | _ => []

def parseReserveConfig (prop : List ℤ) : Option (List ReserveCfg) :=
  if prop.length = 0 ∨ prop.length % 6 ≠ 0 ∨ 101 < prop.length / 6 then none
  else if (readCfgs prop).all ReserveCfg.validate && validateContinuity (readCfgs prop) then
    some (readCfgs prop)
  else none

/-- The binary search of `find_reserve_cfg_by_soc` in the configurations from `left` on and before
`right + 1`. -/
def searchCfg (cfgs : List ReserveCfg) (soc : ℤ) : ℕ → ℕ → ℕ → Option ReserveCfg
  | 0, _, _ => none
  | fuel + 1, left, stop =>
    if stop ≤ left then none
    else
      let mid := left + (stop - 1 - left) / 2
      match cfgs[mid]? with
      | none => none
      | some cfg =>
        if cfg.startSoc ≤ soc ∧ soc ≤ cfg.endSoc then some cfg
        else if soc < cfg.startSoc then searchCfg cfgs soc fuel left mid
        else searchCfg cfgs soc fuel (mid + 1) stop

def findReserveCfgBySoc (cfgs : List ReserveCfg) (soc : ℕ) : Option ReserveCfg :=
  searchCfg cfgs (clampVal soc 0 100) (cfgs.length + 1) 0 cfgs.length

/-- The map: `smooth_map`, of which the entries up to `maxSoc` count. -/
abbrev SmoothMap := ℕ → ℤ

/-- The height of a line at an entry. -/
def lineAt (x1 x2 y1 y2 : ℤ) (i : ℕ) : ℤ :=
  clampVal (y1 + ((i * percentScale - x1) *
    ((y2 - y1) * percentScale * percentScale).tdiv (x2 - x1)).tdiv (percentScale * percentScale))
    0 fullScale

/-- Whether a line is drawn. -/
def LineOk (startIndex endIndex : ℕ) (x1 x2 y1 y2 : ℤ) : Prop :=
  endIndex ≤ maxSoc ∧ startIndex ≤ endIndex ∧ x1 < x2 ∧ y1 < y2
deriving Decidable

variable (m : SmoothMap)

/-- `smooth_soc_to_soc_centi`: the entries of a range are put on a line. -/
def smoothSocToSocCenti (startIndex endIndex : ℕ) (x1 x2 y1 y2 : ℤ) : SmoothMap :=
  if LineOk startIndex endIndex x1 x2 y1 y2 then
    fun i => if startIndex ≤ i ∧ i ≤ endIndex then lineAt x1 x2 y1 y2 i else m i
  else m

def setEnds : SmoothMap :=
  Function.update (Function.update m 0 0) maxSoc fullScale

/-- `bs_init_map`, once a configuration is found. -/
def bsInitMap : SmoothMap :=
  let m : SmoothMap := fun i => i * percentScale
  let split := cfg.chgSplitSoc.toNat
  setEnds <|
    if split = maxSoc then smoothSocToSocCenti m 0 maxSoc 0 fullScale 0 (fullScale - cfg.chgReserve)
    else
      let m := smoothSocToSocCenti m 0 split 0 (split * percentScale) 0 (m split - cfg.chgReserve)
      smoothSocToSocCenti m (split + 1) maxSoc (split * percentScale) fullScale (m split) fullScale

/-! ### Charging -/

/-- What a rewrite is made from: the percentage shown, its hundredths and the charge. -/
structure Point where
  smoothSoc : ℕ
  smoothSocCenti : ℤ
  socCenti : ℤ
deriving DecidableEq, Repr

def lineToPoint (p : Point) : SmoothMap :=
  smoothSocToSocCenti m 0 p.smoothSoc 0 p.smoothSocCenti 0 p.socCenti

def lineToEntry (i : ℕ) (reserve : ℤ) : SmoothMap :=
  smoothSocToSocCenti m 0 i 0 (i * percentScale) 0 (m i - reserve)

def lineToFull (i : ℕ) : SmoothMap :=
  smoothSocToSocCenti m (i + 1) maxSoc (i * percentScale) fullScale (m i) fullScale

def handleChgMapSplitEqMax (p : Point) (cfg : ReserveCfg) : SmoothMap :=
  let whole (m : SmoothMap) :=
    smoothSocToSocCenti m 0 maxSoc 0 fullScale 0 (fullScale - cfg.chgReserve)
  if p.smoothSoc < maxSoc - 1 ∧ p.smoothSoc ≠ 0 then
    let m := lineToPoint m p
    if m p.smoothSoc ≤ fullScale - cfg.chgReserve then
      smoothSocToSocCenti m (p.smoothSoc + 1) maxSoc (p.smoothSoc * percentScale) fullScale
        (m p.smoothSoc) (fullScale - cfg.chgReserve)
    else whole m
  else whole m

def handleChgMapSmoothEqSplit (p : Point) (cfg : ReserveCfg) : SmoothMap :=
  if p.smoothSoc < maxSoc ∧ p.smoothSoc ≠ 0 then
    lineToFull (lineToEntry m p.smoothSoc cfg.chgReserve) p.smoothSoc
  else smoothSocToSocCenti m 0 maxSoc 0 fullScale 0 fullScale

def lineFromZero (p : Point) : SmoothMap :=
  if p.smoothSoc = 0 then Function.update m 0 0 else lineToPoint m p

def handleChgMapSmoothLtSplit (p : Point) (cfg : ReserveCfg) : SmoothMap :=
  let split := cfg.chgSplitSoc.toNat
  let m := lineFromZero m p
  if m p.smoothSoc < m split - cfg.chgReserve then
    let m := smoothSocToSocCenti m (p.smoothSoc + 1) split (p.smoothSoc * percentScale)
      (split * percentScale) (m p.smoothSoc) (m split - cfg.chgReserve)
    lineToFull m split
  else lineToFull m p.smoothSoc

def handleChgMapSmoothGtSplit (p : Point) (cfg : ReserveCfg) : SmoothMap :=
  let split := cfg.chgSplitSoc.toNat
  let m := lineToEntry m split cfg.chgReserve
  if m split < m p.smoothSoc then
    let m := smoothSocToSocCenti m (split + 1) p.smoothSoc (split * percentScale)
      (p.smoothSoc * percentScale) (m split) (m p.smoothSoc)
    lineToFull m p.smoothSoc
  else lineToFull m split

def bsUpdateChgMap (cfgs : List ReserveCfg) (m : SmoothMap) (p : Point) : SmoothMap :=
  match findReserveCfgBySoc cfgs p.smoothSoc with
  | none => m
  | some cfg =>
    let split := cfg.chgSplitSoc.toNat
    setEnds <|
      if split = maxSoc then handleChgMapSplitEqMax m p cfg
      else if p.smoothSoc = split then handleChgMapSmoothEqSplit m p cfg
      else if p.smoothSoc < split then handleChgMapSmoothLtSplit m p cfg
      else handleChgMapSmoothGtSplit m p cfg

def isDischgNoReserve (soc : ℤ) (p : Point) : Bool :=
  soc < 15 || p.smoothSoc < 15 || soc + 5 < p.smoothSoc

/-- The part of `bs_update_dischg_map` without a reserve. -/
def dischgNoReserve (p : Point) : SmoothMap :=
  lineToFull (lineFromZero m p) p.smoothSoc

/-- The part of `bs_update_dischg_map` that keeps the entry of the current percentage. -/
def dischgOther (p : Point) (cfg : ReserveCfg) : SmoothMap :=
  lineToFull (lineToEntry m (p.smoothSoc - 1) cfg.dischgReserve) p.smoothSoc

def bsUpdateDischgMap (cfgs : List ReserveCfg) (m : SmoothMap) (soc : ℤ) (chgFull : Bool)
    (p : Point) : SmoothMap :=
  match findReserveCfgBySoc cfgs p.smoothSoc with
  | none => m
  | some cfg =>
    let extraReserve := if chgFull then cfg.fullReserve else 0
    setEnds <|
      if p.smoothSoc = maxSoc then
        smoothSocToSocCenti m 0 maxSoc 0 p.smoothSocCenti 0
          (p.socCenti - cfg.dischgReserve - extraReserve)
      else if chgFull then
        smoothSocToSocCenti m 0 maxSoc 0 fullScale 0 (p.socCenti - cfg.dischgReserve - extraReserve)
      else if isDischgNoReserve soc p then dischgNoReserve m p
      else dischgOther m p cfg

/-! ### The percentage that is shown -/

def smoothSocOf (socCenti : ℤ) : ℕ :=
  ((List.range (maxSoc + 1)).find? fun i => socCenti ≤ m i).getD maxSoc

def bsUpdateSmoothSoc (socCenti : ℤ) : Point :=
  let i := smoothSocOf m socCenti
  { smoothSoc := i
    socCenti := socCenti
    smoothSocCenti :=
      if m i < socCenti then fullScale
      else if i = 0 then 0
      else if m i - m (i - 1) = 0 then i * percentScale
      else clampVal ((i - 1) * percentScale +
        ((socCenti - m (i - 1)) * percentScale).tdiv (m i - m (i - 1))) 0 fullScale }

/-- What the gauge says. -/
structure Reading where
  rm : ℤ
  fcc : ℤ
  /-- `oplus_gauge_get_batt_capacity_mah` -/
  capacity : ℤ
  socCenti : ℤ
  soc : ℤ
deriving DecidableEq, Repr

/-- `struct bs_strategy`, where it is initialised and the gauge is there. Until the first reading
`smooth_soc` is `-EINVAL`, and no rewrite sees it. -/
structure BsStrategy where
  cfgs : List ReserveCfg
  map : SmoothMap
  soc : ℤ
  chgOnline : Bool
  chgFull : Bool
  point : Point

variable (bs : BsStrategy)

namespace BsStrategy

/-- The charge that `bs_update_data` takes from a reading. -/
def readSocCenti (r : Reading) : ℤ :=
  let rm := max r.rm 0
  let fcc := if r.fcc ≤ 0 then (r.capacity * 90).tdiv 100 else r.fcc
  let socCenti :=
    if r.socCenti < 0 then
      if fcc ≤ 0 then bs.soc * percentScale
      else clampVal ((rm * fullScale).tdiv fcc) 0 fullScale
    else clampVal r.socCenti 0 fullScale
  if 300 ≤ |r.soc * percentScale - socCenti| then r.soc * percentScale else socCenti

def updateData (r : Reading) : BsStrategy :=
  { bs with soc := r.soc, point := bsUpdateSmoothSoc bs.map (bs.readSocCenti r) }

def initMap : BsStrategy :=
  match findReserveCfgBySoc bs.cfgs 0 with
  | none => bs
  | some cfg => { bs with map := bsInitMap cfg }

def rewrite : BsStrategy :=
  if bs.chgOnline then { bs with map := bsUpdateChgMap bs.cfgs bs.map bs.point }
  else
    { bs with
      map := bsUpdateDischgMap bs.cfgs bs.map bs.soc bs.chgFull bs.point
      chgFull := if (findReserveCfgBySoc bs.cfgs bs.point.smoothSoc).isSome then false
        else bs.chgFull }

def updateMap (r : Reading) : BsStrategy := (bs.updateData r).rewrite

/-- `bs_strategy_alloc_by_node`, once the table is accepted. -/
def alloc (cfgs : List ReserveCfg) : BsStrategy :=
  initMap
    { cfgs := cfgs, map := fun _ => 0, soc := 0, chgOnline := true, chgFull := false
      point := ⟨0, 0, 0⟩ }

end BsStrategy

/-- What happens to the strategy. -/
inductive Event where
  | initMap
  | updateMap (r : Reading)
  | getData (r : Reading)
  | setOnline (online : Bool)
  | setFull (full : Bool)
deriving DecidableEq, Repr

/-- A reading of a percentage. -/
def Event.InRange : Event → Prop
  | .updateMap r | .getData r => 0 ≤ r.soc ∧ r.soc ≤ 100
  | _ => True

instance (e : Event) : Decidable e.InRange := by
  cases e <;> unfold Event.InRange <;> infer_instance

namespace BsStrategy

def next : Event → BsStrategy
  | .initMap => bs.initMap
  | .updateMap r => bs.updateMap r
  | .getData r => bs.updateData r
  | .setOnline online => { bs with chgOnline := online }
  | .setFull full => { bs with chgFull := full }

end BsStrategy

def machine (allowed : BsStrategy → Event → Prop) : Runs.Machine BsStrategy Event where
  init bs := ∃ prop cfgs, parseReserveConfig prop = some cfgs ∧ bs = .alloc cfgs
  guard bs e := e.InRange ∧ allowed bs e
  next bs e := bs.next e

end Sm8750Modules.BatterySmooth
