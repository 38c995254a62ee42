import Sm8750Modules.Lib.Runs
import Sm8750Modules.IpaNat.Rule

/-!
# The PDN table

The public addresses of the packet data networks.
-/

namespace Sm8750Modules.IpaNat

open Runs Function

/-! ### The driver's calls -/

structure PdnEntry where
  publicIp : UInt32
  srcMetadata : UInt32
  dstMetadata : UInt32
deriving DecidableEq, Repr

def zeroTest : PdnEntry := ⟨0, 0, 0⟩

/-- The PDN table and how many NAT tables there are in each memory. -/
structure PdnState where
  pdns : ℕ → PdnEntry
  numPdns : ℕ
  tableCnt : IpaNatMemIn → ℕ

def ipaNatMaxIp4Tbls : ℕ := 1

variable (s : PdnState)

/-- `ipa_nati_modify_pdn`: there is a descriptor while there is a NAT table, and `ioctl` says whether the kernel
takes the entry. -/
def modifyPdn (pdnIndex : ℕ) (entry : PdnEntry) (ioctl : Bool) : ℤ × PdnState :=
  if s.tableCnt .ddr = 0 ∧ s.tableCnt .sram = 0 then (eio, s)
  else if !ioctl then (eperm, s)
  else (0, { s with pdns := Function.update s.pdns pdnIndex entry })

/-- What the loop of `ipa_nati_alloc_pdn` ends at. -/
inductive PdnScan where
  | same (i : ℕ)
  | empty (i : ℕ)
  | full
deriving DecidableEq

/-- The loop of `ipa_nati_alloc_pdn`, over `n` entries from `i` on. -/
def pdnScan (pdns : ℕ → PdnEntry) (publicIp : UInt32) : ℕ → ℕ → PdnScan
  | 0, _ => .full
  | n + 1, i =>
    if (pdns i).publicIp = publicIp then .same i
    else if pdns i = zeroTest then .empty i
    else pdnScan pdns publicIp n (i + 1)

/-- `ipa_nati_alloc_pdn`: the result, `*pdn_index` where it is written, and the table. -/
def allocPdn (info : PdnEntry) (ioctl : Bool) : ℤ × Option ℕ × PdnState :=
  if ipaMaxPdnNum - 1 ≤ s.numPdns then (eio, none, s)
  else
    match pdnScan s.pdns info.publicIp (ipaMaxPdnNum - 1) 0 with
    | .same i => (0, some i, s)
    | .full => (eio, none, s)
    | .empty i =>
      match modifyPdn s i info ioctl with
      | (ret, s) => if ret = 0 then (0, some i, { s with numPdns := s.numPdns + 1 }) else (ret, none, s)

/-- `ipa_nati_dealloc_pdn`, of an entry of the array. -/
def deallocPdn (pdnIndex : Fin ipaMaxPdnNum) (ioctl : Bool) : ℤ × PdnState :=
  if s.numPdns = 0 then (eio, s)
  else if s.pdns pdnIndex = zeroTest then (eio, s)
  else
    match modifyPdn s pdnIndex zeroTest ioctl with
    | (ret, s) => if ret ≠ 0 then (eio, s) else (0, { s with numPdns := s.numPdns - 1 })

/-- `ipa_NATI_add_ipv4_tbl`, as far as the PDN table goes. -/
def createPdn (nmi : IpaNatMemIn) (publicIpAddr : UInt32) : ℤ × PdnState :=
  if ipaNatMaxIp4Tbls ≤ s.tableCnt nmi then (einval, s)
  else (0, {
    pdns := Function.update s.pdns 0 { s.pdns 0 with publicIp := publicIpAddr }
    numPdns := 1
    tableCnt := Function.update s.tableCnt nmi (s.tableCnt nmi + 1) })

/-- `ipa_NATI_del_ipv4_table` -/
def deletePdn (nmi : IpaNatMemIn) : ℤ × PdnState :=
  if s.tableCnt nmi = 0 then (einval, s)
  else (0, { s with tableCnt := Function.update s.tableCnt nmi (s.tableCnt nmi - 1) })

inductive PdnOp where
  | create (nmi : IpaNatMemIn) (publicIpAddr : UInt32)
  | delete (nmi : IpaNatMemIn)
  | alloc (info : PdnEntry) (ioctl : Bool)
  | dealloc (pdnIndex : Fin ipaMaxPdnNum) (ioctl : Bool)

/-- The result of a call, and the table after it. -/
def PdnState.call : PdnOp → ℤ × PdnState
  | .create nmi publicIpAddr => createPdn s nmi publicIpAddr
  | .delete nmi => deletePdn s nmi
  | .alloc info ioctl => ((allocPdn s info ioctl).1, (allocPdn s info ioctl).2.2)
  | .dealloc pdnIndex ioctl => deallocPdn s pdnIndex ioctl

def PdnState.start : PdnState := ⟨fun _ => zeroTest, 0, fun _ => 0⟩

/-- The count is right, addresses differ, and an address that is present is found. -/
structure PdnRight (s : PdnState) : Prop where
  count : s.numPdns = ((Finset.range (ipaMaxPdnNum - 1)).filter fun i => s.pdns i ≠ zeroTest).card
  distinct : ∀ i < ipaMaxPdnNum, ∀ j < ipaMaxPdnNum, s.pdns i ≠ zeroTest → s.pdns j ≠ zeroTest →
    (s.pdns i).publicIp = (s.pdns j).publicIp → i = j
  existing : ∀ i < ipaMaxPdnNum - 1, s.pdns i ≠ zeroTest → ∀ info : PdnEntry,
    info.publicIp = (s.pdns i).publicIp → ∀ ioctl,
      (allocPdn s info ioctl).1 = 0 ∧ (allocPdn s info ioctl).2.1 = some i

def PdnState.HasDesc : Prop := s.tableCnt .ddr ≠ 0 ∨ s.tableCnt .sram ≠ 0

/-- The calls that keep it: a NAT table is created while no other entry is used, and for an address or with
metadata; an allocation leaves an entry free, unless the scan meets the address; and only the last used entry
is freed. -/
def PdnKeeps : PdnOp → Prop
  | .create nmi publicIpAddr => s.tableCnt nmi = 0 →
    { s.pdns 0 with publicIp := publicIpAddr } ≠ zeroTest ∧ ∀ i < ipaMaxPdnNum - 1, 0 < i → s.pdns i = zeroTest
  | .delete _ => True
  | .alloc info ioctl => s.HasDesc → ioctl = true →
    (∃ i ≤ s.numPdns, (s.pdns i).publicIp = info.publicIp) ∨ s.numPdns + 1 < ipaMaxPdnNum - 1
  | .dealloc pdnIndex ioctl => s.HasDesc → ioctl = true →
    ∀ i < ipaMaxPdnNum - 1, (pdnIndex : ℕ) < i → s.pdns i = zeroTest

/-- The runs of calls that keep the table right. -/
def pdnMachine : Machine PdnState PdnOp where
  init s := s = .start
  guard := PdnKeeps
  next s op := (s.call op).2

/-! ### A table without holes -/

section Filled

variable {s : PdnState} {k : ℕ}

/-- The first `k` entries are used, and there is a free one behind them. -/
structure Filled (s : PdnState) (k : ℕ) : Prop where
  room : k < ipaMaxPdnNum - 1
  num : s.numPdns = k
  used : ∀ i < ipaMaxPdnNum, s.pdns i ≠ zeroTest ↔ i < k
  distinct : ∀ i < k, ∀ j < k, (s.pdns i).publicIp = (s.pdns j).publicIp → i = j

variable {publicIp : UInt32} {pdns : ℕ → PdnEntry}

theorem pdnScan_skip (m n i : ℕ)
    (h : ∀ j, i ≤ j → j < i + m → (pdns j).publicIp ≠ publicIp ∧ pdns j ≠ zeroTest) :
    pdnScan pdns publicIp (m + n) i = pdnScan pdns publicIp n (i + m) := by
  induction m generalizing i with
  | zero => rw [Nat.zero_add, Nat.add_zero]
  | succ m ih =>
    obtain ⟨hip, hzero⟩ := h i le_rfl (by omega)
    rw [Nat.succ_add, pdnScan, if_neg hip, if_neg hzero, ih (i + 1) fun j hj hlt => h j (by omega) (by omega)]
    congr 1
    omega

theorem pdnScan_at {m n : ℕ} (hm : m < n)
    (h : ∀ j < m, (pdns j).publicIp ≠ publicIp ∧ pdns j ≠ zeroTest) : pdnScan pdns publicIp n 0 =
      if (pdns m).publicIp = publicIp then .same m
      else if pdns m = zeroTest then .empty m
      else pdnScan pdns publicIp (n - m - 1) (m + 1) := by
  have hskip := pdnScan_skip m (n - m) 0 fun j _ hj => h j (by omega)
  rw [Nat.add_sub_cancel' hm.le, Nat.zero_add] at hskip
  rw [hskip, show n - m = n - m - 1 + 1 by omega, pdnScan]
  rfl

variable {i : ℕ}

/-- An entry that the scan finds has no free entry before it. -/
theorem ne_zero_of_pdnScan {n m : ℕ}
    (h : pdnScan pdns publicIp n i = .same m) : ∀ j, i ≤ j → j < m → pdns j ≠ zeroTest := by
  induction n generalizing i with
  | zero => cases h
  | succ n ih =>
    rw [pdnScan] at h
    intro j hj hlt
    split_ifs at h with hip hzero
    · cases h
      omega
    · by_cases hji : j = i
      · rw [hji]
        exact hzero
      · exact ih h j (by omega) hlt

variable {e : PdnEntry}

theorem modifyPdn_of_desc (hd : s.HasDesc) :
    modifyPdn s i e true = (0, { s with pdns := update s.pdns i e }) := by
  rw [modifyPdn, if_neg (not_and_or.mpr hd)]
  rfl

theorem modifyPdn_refused {ioctl : Bool} (hd : ¬ (s.HasDesc ∧ ioctl = true)) :
    (modifyPdn s i e ioctl).1 ≠ 0 ∧ (modifyPdn s i e ioctl).2 = s := by
  rw [modifyPdn]
  split_ifs with hnone hio
  · exact ⟨(by decide : eio ≠ 0), rfl⟩
  · exact ⟨(by decide : eperm ≠ 0), rfl⟩
  · exact absurd ⟨not_and_or.mp hnone, by simpa using hio⟩ hd

namespace Filled

theorem zero_at (h : Filled s k) (hi : i < ipaMaxPdnNum) (hki : k ≤ i) : s.pdns i = zeroTest :=
  not_not.mp fun hne => absurd ((h.used i hi).mp hne) (by omega)

theorem ne_zero (h : Filled s k) (hi : i < k) : s.pdns i ≠ zeroTest :=
  (h.used i (hi.trans (h.room.trans (by decide)))).mpr hi

theorem scan_same (h : Filled s k) (hip : ∃ i ≤ k, (s.pdns i).publicIp = publicIp) :
    ∃ m, (s.pdns m).publicIp = publicIp ∧ (∀ i ≤ k, (s.pdns i).publicIp = publicIp → m ≤ i) ∧
      pdnScan s.pdns publicIp (ipaMaxPdnNum - 1) 0 = .same m := by
  classical
  have hroom := h.room
  have hex : ∃ i, i ≤ k ∧ (s.pdns i).publicIp = publicIp := hip
  obtain ⟨hle, hfound⟩ := Nat.find_spec hex
  refine ⟨Nat.find hex, hfound, fun i hi he => Nat.find_min' hex ⟨hi, he⟩, ?_⟩
  rw [pdnScan_at (hle.trans_lt hroom), if_pos hfound]
  exact fun j hj => ⟨fun he => Nat.find_min hex hj ⟨by omega, he⟩, h.ne_zero (by omega)⟩

theorem scan_new (h : Filled s k) (hip : ∀ i ≤ k, (s.pdns i).publicIp ≠ publicIp) :
    pdnScan s.pdns publicIp (ipaMaxPdnNum - 1) 0 = .empty k := by
  rw [pdnScan_at h.room fun j hj => ⟨hip j hj.le, h.ne_zero hj⟩, if_neg (hip k le_rfl),
    if_pos (h.zero_at (h.room.trans (by decide)) le_rfl)]

theorem card_eq (hk : k ≤ ipaMaxPdnNum - 1) (hused : ∀ i < ipaMaxPdnNum, s.pdns i ≠ zeroTest ↔ i < k) :
    ((Finset.range (ipaMaxPdnNum - 1)).filter fun i => s.pdns i ≠ zeroTest).card = k := by
  have hset : (Finset.range (ipaMaxPdnNum - 1)).filter (fun i => s.pdns i ≠ zeroTest) = Finset.range k := by
    ext i
    rw [Finset.mem_filter, Finset.mem_range, Finset.mem_range]
    constructor
    · rintro ⟨hi, hne⟩
      exact (hused i (hi.trans (by decide))).mp hne
    · intro hi
      exact ⟨hi.trans_le hk, (hused i ((hi.trans_le hk).trans (by decide))).mpr hi⟩
  rw [hset, Finset.card_range]

/-- **A table without holes is right.** -/
theorem right (h : Filled s k) : PdnRight s := by
  refine ⟨h.num.trans (card_eq h.room.le h.used).symm, ?_, ?_⟩
  · intro i hi j hj hni hnj
    exact h.distinct i ((h.used i hi).mp hni) j ((h.used j hj).mp hnj)
  · intro i hi hne info hinfo ioctl
    have hik := (h.used i (hi.trans (by decide))).mp hne
    obtain ⟨m, hip, hmin, hscan⟩ := h.scan_same ⟨i, hik.le, hinfo.symm⟩
    have hmi := hmin i hik.le hinfo.symm
    rw [allocPdn, if_neg (by rw [h.num]; exact not_le.mpr h.room), hscan]
    exact ⟨rfl, congrArg some (h.distinct m (hmi.trans_lt hik) i hik (hip.trans hinfo))⟩

end Filled

/-- **When the table is right**: it has no holes, and a free entry. -/
theorem right_iff : PdnRight s ∧ s.pdns (ipaMaxPdnNum - 1) = zeroTest ↔ ∃ k, Filled s k := by
  classical
  constructor
  · rintro ⟨hright, hlast⟩
    have hex : ∃ k, s.pdns k = zeroTest := ⟨_, hlast⟩
    have hle : Nat.find hex ≤ ipaMaxPdnNum - 1 := Nat.find_le hlast
    have hscan : ∀ i < ipaMaxPdnNum - 1, s.pdns i ≠ zeroTest →
        s.numPdns < ipaMaxPdnNum - 1 ∧ ∀ j < i, s.pdns j ≠ zeroTest := by
      intro i hi hne
      obtain ⟨hret, hidx⟩ := hright.existing i hi hne (s.pdns i) rfl false
      rw [allocPdn] at hret hidx
      split_ifs at hret hidx with hnum
      refine ⟨not_le.mp hnum, fun j hj => ?_⟩
      cases hscan : pdnScan s.pdns (s.pdns i).publicIp (ipaMaxPdnNum - 1) 0 with
      | same m =>
        simp only [hscan, Option.some.injEq] at hidx
        rw [hidx] at hscan
        exact ne_zero_of_pdnScan hscan j (Nat.zero_le j) hj
      | empty m =>
        simp only [hscan] at hret
        split_ifs at hret with hzero
        · exact absurd hzero (modifyPdn_refused (by simp)).1
        · exact absurd hret hzero
      | full => simp [hscan] at hidx
    have hused : ∀ i < ipaMaxPdnNum, s.pdns i ≠ zeroTest ↔ i < Nat.find hex := by
      intro i hi
      refine ⟨fun hne => ?_, fun hlt => Nat.find_min hex hlt⟩
      by_contra hge
      have hspec := Nat.find_spec hex
      by_cases hil : i = ipaMaxPdnNum - 1
      · exact hne (hil ▸ hlast)
      · have hlt : i < ipaMaxPdnNum - 1 := by
          have : ipaMaxPdnNum = 16 := rfl
          omega
        rcases (not_lt.mp hge).lt_or_eq with hfind | hfind
        · exact (hscan i hlt hne).2 _ hfind hspec
        · exact hne (hfind ▸ hspec)
    have hnum : s.numPdns = Nat.find hex := hright.count.trans (Filled.card_eq hle hused)
    refine ⟨Nat.find hex, lt_of_le_of_ne hle fun hfull => ?_, hnum, hused, ?_⟩
    · have hfirst := (hused 0 (by decide)).mpr (by rw [hfull]; decide)
      have hlt := (hscan 0 (by decide) hfirst).1
      omega
    · intro i hi j hj
      have hi' := hi.trans_le (hle.trans (by decide : _ ≤ ipaMaxPdnNum - 1))
      have hj' := hj.trans_le (hle.trans (by decide : _ ≤ ipaMaxPdnNum - 1))
      exact hright.distinct i (hi'.trans (by decide)) j (hj'.trans (by decide)) (Nat.find_min hex hi) (Nat.find_min hex hj)
  · rintro ⟨k, h⟩
    exact ⟨h.right, h.zero_at (by decide) (Nat.le_of_lt_succ (h.room.trans (by decide)))⟩

section Written

variable {s' : PdnState} {e : PdnEntry} {i : ℕ}

theorem filled_reset (h : Filled s k) (hp : s'.pdns = update s.pdns 0 e) (hn : s'.numPdns = 1) :
    (∃ k', Filled s' k') ↔ e ≠ zeroTest ∧ ∀ j < ipaMaxPdnNum - 1, 0 < j → s.pdns j = zeroTest := by
  have hfirst : s'.pdns 0 = e := by rw [hp, update_self]
  have hrest : ∀ j, 0 < j → s'.pdns j = s.pdns j := fun j hj => by rw [hp, update_of_ne hj.ne']
  constructor
  · rintro ⟨k', h'⟩
    obtain rfl : 1 = k' := hn.symm.trans h'.num
    refine ⟨hfirst ▸ h'.ne_zero Nat.one_pos, fun j hj hpos => ?_⟩
    rw [← hrest j hpos]
    exact h'.zero_at (hj.trans (by decide)) hpos
  · rintro ⟨hne, hzero⟩
    refine ⟨1, by decide, hn, fun j hj => ?_, fun j hj j' hj' _ => by omega⟩
    by_cases hj0 : j = 0
    · rw [hj0, hfirst]
      exact iff_of_true hne Nat.one_pos
    · rw [hrest j (Nat.pos_of_ne_zero hj0)]
      refine iff_of_false (not_not.mpr ?_) (by omega)
      by_cases hlast : j < ipaMaxPdnNum - 1
      · exact hzero j hlast (Nat.pos_of_ne_zero hj0)
      · exact h.zero_at hj (h.room.le.trans (not_lt.mp hlast))

theorem filled_push (h : Filled s k) (hp : s'.pdns = update s.pdns k e) (hn : s'.numPdns = k + 1)
    (hne : e ≠ zeroTest) (hnew : ∀ j < k, (s.pdns j).publicIp ≠ e.publicIp) :
    (∃ k', Filled s' k') ↔ k + 1 < ipaMaxPdnNum - 1 := by
  have hlast : s'.pdns k = e := by rw [hp, update_self]
  have hrest : ∀ j, j ≠ k → s'.pdns j = s.pdns j := fun j hj => by rw [hp, update_of_ne hj]
  constructor
  · rintro ⟨k', h'⟩
    obtain rfl : k + 1 = k' := hn.symm.trans h'.num
    exact h'.room
  · intro hroom
    refine ⟨k + 1, hroom, hn, fun j hj => ?_, fun j hj j' hj' he => ?_⟩
    · by_cases hjk : j = k
      · rw [hjk, hlast]
        exact iff_of_true hne (Nat.lt_succ_self k)
      · rw [hrest j hjk, h.used j hj]
        omega
    · by_cases hjk : j = k
      · by_cases hjk' : j' = k
        · exact hjk.trans hjk'.symm
        · rw [hjk, hlast, hrest j' hjk'] at he
          exact absurd he.symm (hnew j' (by omega))
      · by_cases hjk' : j' = k
        · rw [hjk', hlast, hrest j hjk] at he
          exact absurd he (hnew j (by omega))
        · rw [hrest j hjk, hrest j' hjk'] at he
          exact h.distinct j (by omega) j' (by omega) he

theorem filled_pop (h : Filled s k) (hi : i < k) (hp : s'.pdns = update s.pdns i zeroTest)
    (hn : s'.numPdns + 1 = k) :
    (∃ k', Filled s' k') ↔ ∀ j < ipaMaxPdnNum - 1, i < j → s.pdns j = zeroTest := by
  have hfreed : s'.pdns i = zeroTest := by rw [hp, update_self]
  have hrest : ∀ j, j ≠ i → s'.pdns j = s.pdns j := fun j hj => by rw [hp, update_of_ne hj]
  constructor
  · rintro ⟨k', h'⟩ j hj hlt
    obtain rfl : s'.numPdns = k' := h'.num
    have hle : s'.numPdns ≤ i := not_lt.mp fun hused => h'.ne_zero hused hfreed
    exact h.zero_at (hj.trans (by decide)) (by omega)
  · intro hbehind
    have hlast : i + 1 = k := by
      by_contra hne
      have hlt : i + 1 < k := by omega
      exact h.ne_zero hlt (hbehind _ (hlt.trans h.room) (Nat.lt_succ_self _))
    refine ⟨i, hi.trans h.room, by omega, fun j hj => ?_, fun j hj j' hj' he => ?_⟩
    · by_cases hji : j = i
      · rw [hji, hfreed]
        exact iff_of_false (not_not.mpr rfl) (lt_irrefl _)
      · rw [hrest j hji, h.used j hj]
        omega
    · rw [hrest j hj.ne, hrest j' hj'.ne] at he
      exact h.distinct j (hj.trans hi) j' (hj'.trans hi) he

end Written

theorem filled_create (h : Filled s k) (nmi : IpaNatMemIn) (publicIpAddr : UInt32) :
    (∃ k', Filled (createPdn s nmi publicIpAddr).2 k') ↔ PdnKeeps s (.create nmi publicIpAddr) := by
  rw [createPdn, PdnKeeps]
  split_ifs with hfull
  · exact iff_of_true ⟨k, h⟩ fun hz => absurd (hz ▸ hfull) (by decide)
  · rw [imp_iff_right (Nat.lt_one_iff.mp (not_le.mp hfull))]
    exact filled_reset h rfl rfl

theorem filled_alloc (h : Filled s k) (info : PdnEntry) (ioctl : Bool) :
    (∃ k', Filled (allocPdn s info ioctl).2.2 k') ↔ PdnKeeps s (.alloc info ioctl) := by
  rw [allocPdn, if_neg (by rw [h.num]; exact not_le.mpr h.room), PdnKeeps, h.num]
  by_cases hip : ∃ i ≤ k, (s.pdns i).publicIp = info.publicIp
  · obtain ⟨m, -, -, hscan⟩ := h.scan_same hip
    rw [hscan]
    exact iff_of_true ⟨k, h⟩ fun _ _ => .inl hip
  have hnew : ∀ i ≤ k, (s.pdns i).publicIp ≠ info.publicIp := fun i hi he => hip ⟨i, hi, he⟩
  have hne : info ≠ zeroTest := by
    rintro rfl
    refine hnew k le_rfl ?_
    rw [h.zero_at (h.room.trans (by decide)) le_rfl]
  rw [h.scan_new hnew]
  by_cases hd : s.HasDesc ∧ ioctl = true
  · obtain ⟨hdesc, rfl⟩ := hd
    simp only [modifyPdn_of_desc hdesc, hdesc, hip, if_true, false_or, true_imp_iff, h.num]
    exact filled_push h rfl rfl hne fun j hj => hnew j hj.le
  · obtain ⟨hret, hsame⟩ := modifyPdn_refused (e := info) (i := k) hd
    simp only [hret, if_false, hsame]
    exact iff_of_true ⟨k, h⟩ fun hdesc hio => absurd ⟨hdesc, hio⟩ hd

theorem filled_dealloc (h : Filled s k) (pdnIndex : Fin ipaMaxPdnNum) (ioctl : Bool) :
    (∃ k', Filled (deallocPdn s pdnIndex ioctl).2 k') ↔ PdnKeeps s (.dealloc pdnIndex ioctl) := by
  rw [deallocPdn, PdnKeeps]
  split_ifs with hnone hzero
  · refine iff_of_true ⟨k, h⟩ fun _ _ i hi _ => h.zero_at (hi.trans (by decide)) ?_
    rw [← h.num, hnone]
    exact Nat.zero_le i
  · refine iff_of_true ⟨k, h⟩ fun _ _ i hi hlt => h.zero_at (hi.trans (by decide)) (le_trans ?_ hlt.le)
    exact not_lt.mp fun hk => h.ne_zero hk hzero
  · have hk := (h.used pdnIndex pdnIndex.2).mp hzero
    by_cases hd : s.HasDesc ∧ ioctl = true
    · obtain ⟨hdesc, rfl⟩ := hd
      simp only [modifyPdn_of_desc hdesc, hdesc, true_imp_iff, ne_eq, not_true, if_false]
      exact filled_pop h hk rfl ((Nat.sub_add_cancel (Nat.pos_of_ne_zero hnone)).trans h.num)
    · obtain ⟨hret, hsame⟩ := modifyPdn_refused (e := zeroTest) (i := pdnIndex) hd
      simp only [hret, ne_eq, not_false_iff, if_true, hsame]
      exact iff_of_true ⟨k, h⟩ fun hdesc hio => absurd ⟨hdesc, hio⟩ hd

theorem filled_call (h : Filled s k) (op : PdnOp) : (∃ k', Filled (s.call op).2 k') ↔ PdnKeeps s op := by
  cases op with
  | create nmi publicIpAddr => exact filled_create h nmi publicIpAddr
  | delete nmi =>
    refine iff_of_true ⟨k, ?_⟩ trivial
    rw [PdnState.call, deletePdn]
    split_ifs
    · exact h
    · exact ⟨h.room, h.num, h.used, h.distinct⟩
  | alloc info ioctl => exact filled_alloc h info ioctl
  | dealloc pdnIndex ioctl => exact filled_dealloc h pdnIndex ioctl

theorem lt_of_pdnScan {n m : ℕ} (h : pdnScan pdns publicIp n i = .empty m) : m < i + n := by
  induction n generalizing i with
  | zero => cases h
  | succ n ih =>
    rw [pdnScan] at h
    split_ifs at h
    · cases h
      omega
    · have := ih h
      omega

section

variable (hlast : s.pdns (ipaMaxPdnNum - 1) = zeroTest)
include hlast

theorem modifyPdn_last
    (hi : i = ipaMaxPdnNum - 1 → e = zeroTest) (ioctl : Bool) : (modifyPdn s i e ioctl).2.pdns (ipaMaxPdnNum - 1) = zeroTest := by
  rw [modifyPdn]
  split_ifs
  · exact hlast
  · exact hlast
  · show update s.pdns i e _ = _
    by_cases he : ipaMaxPdnNum - 1 = i
    · rw [he, update_self, hi he.symm]
    · rw [update_of_ne he, hlast]

/-- The entry that is not scanned stays zero. -/
theorem last_call (op : PdnOp) : (s.call op).2.pdns (ipaMaxPdnNum - 1) = zeroTest := by
  cases op with
  | create nmi publicIpAddr =>
    rw [PdnState.call, createPdn]
    split_ifs
    · exact hlast
    · exact hlast
  | delete nmi =>
    rw [PdnState.call, deletePdn]
    split_ifs <;> exact hlast
  | alloc info ioctl =>
    show (allocPdn s info ioctl).2.2.pdns _ = _
    rw [allocPdn]
    split_ifs
    · exact hlast
    · cases hscan : pdnScan s.pdns info.publicIp (ipaMaxPdnNum - 1) 0 with
      | same i => exact hlast
      | full => exact hlast
      | empty i =>
        have hlt := lt_of_pdnScan hscan
        have hkept := modifyPdn_last (e := info) (i := i) hlast (fun hi => by omega) ioctl
        simp only
        split_ifs <;> exact hkept
  | dealloc pdnIndex ioctl =>
    show (deallocPdn s pdnIndex ioctl).2.pdns _ = _
    rw [deallocPdn]
    have hkept := modifyPdn_last (e := zeroTest) (i := pdnIndex) hlast (fun _ => rfl) ioctl
    split_ifs
    · exact hlast
    · exact hlast
    · simp only
      split_ifs <;> exact hkept

theorem last_exec (ops : List PdnOp) : (pdnMachine.exec s ops).pdns (ipaMaxPdnNum - 1) = zeroTest := by
  induction ops generalizing s with
  | nil => exact hlast
  | cons op ops ih => exact ih (last_call hlast op)

end

end Filled

/-- **When the PDN table is right all along a run**: exactly when each call keeps it. -/
theorem pdnRight_iff (ops : List PdnOp) :
    (∀ n, PdnRight (pdnMachine.exec .start (ops.take n))) ↔ pdnMachine.Allows .start ops := by
  have hstart : Filled .start 0 := ⟨by decide, rfl, fun _ _ => by simp [PdnState.start], nofun⟩
  have hexact := Machine.exact (M := pdnMachine)
    (I := fun s => PdnRight s ∧ s.pdns (ipaMaxPdnNum - 1) = zeroTest) (fun s op hs => by
      obtain ⟨k, h⟩ := right_iff.mp hs
      exact right_iff.trans (filled_call h op)) (right_iff.mpr ⟨0, hstart⟩) ops
  rw [← hexact]
  exact forall_congr' fun n => (and_iff_left (last_exec rfl _)).symm

def pdnRecreated : List PdnOp :=
  [.create .ddr 1, .alloc ⟨2, 0, 0⟩ true, .delete .ddr, .create .ddr 1]

def pdnHole : List PdnOp := [.create .ddr 1, .alloc ⟨2, 0, 0⟩ true, .dealloc ⟨0, by decide⟩ true]

/-- **The PDN table can be wrong** after calls that all succeed. -/
theorem not_pdnRight :
    (¬ ∀ ops : List PdnOp, PdnRight (pdnMachine.exec .start ops)) ∧
    (pdnMachine.exec .start pdnRecreated).numPdns = 1 ∧
    (pdnMachine.exec .start pdnRecreated).pdns 1 = ⟨2, 0, 0⟩ ∧
    (allocPdn (pdnMachine.exec .start pdnHole) ⟨2, 0, 0⟩ true).2.1 = some 0 := by
  refine ⟨fun hall => ?_, by decide, by decide, by decide⟩
  exact absurd (hall pdnRecreated).count (by decide)

end Sm8750Modules.IpaNat
