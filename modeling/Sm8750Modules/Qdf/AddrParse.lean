import Sm8750Modules.Qdf.Ipv6Exact

/-!
# Parsing MAC and IPv4 addresses in QDF

Both parsers read a fixed number of groups with a separator between them. For a MAC address the character
behind the first pair tells whether there are separators at all.
-/

namespace Qdf

open Horner
open List hiding Vector

/-! ## The parsers -/

def decVal (c : UInt8) : Option ℕ := if chr '0' ≤ c ∧ c ≤ chr '9' then some (c - chr '0').toNat else none

def consumeDec (str : List UInt8) : Option (ℕ × List UInt8) :=
  match decVal (peek str) with
  | none => none
  | some digit => some (digit, str.tail)

/-- The loop of `qdf_consume_octet_dec`. -/
def octetLoop : ℕ → List UInt8 → ℕ → ℕ → ℕ × ℕ × List UInt8
  | 0, str, len, octet => (len, octet, str)
  | i + 1, str, len, octet =>
    match consumeDec str with
    | none => (len, octet, str)
    | some (digit, rest) => octetLoop i rest (len + 1) ((octet * 10 + digit) % 2 ^ 16)

def consumeOctetDec (str : List UInt8) : Option (UInt8 × List UInt8) :=
  match octetLoop 3 str 0 0 with
  | (len, octet, rest) => if len = 0 then none else if 255 < octet then none else some (octet.toUInt8, rest)

def consumeHexPair (str : List UInt8) : Option (UInt8 × List UInt8) :=
  match consumeHex str with
  | none => none
  | some (hi, str) =>
    match consumeHex str with
    | none => none
    | some (low, rest) => some ((hi <<< 4 ||| low).toUInt8, rest)

def consumeSep (sep : Option Char) (str : List UInt8) : Option (List UInt8) :=
  match sep with
  | none => some str
  | some c => consumeChar str c

/-- The loop of both parsers, over the groups behind the first one. -/
def addrLoop (consume : List UInt8 → Option (UInt8 × List UInt8)) (sep : Option Char) :
    ℕ → List UInt8 → Option (List UInt8 × List UInt8)
  | 0, str => some ([], str)
  | n + 1, str =>
    match consumeSep sep str with
    | none => none
    | some str =>
      match consume str with
      | none => none
      | some (byte, rest) => (addrLoop consume sep n rest).map fun p => (byte :: p.1, p.2)

/-- A first group, and `n` more behind the separator that `sep` tells from what follows it. -/
def addrParse (consume : List UInt8 → Option (UInt8 × List UInt8)) (sep : List UInt8 → Option Char) (n : ℕ)
    (str : CString) (out : List UInt8) : Except Status Unit × List UInt8 :=
  match consume (leftTrim str.bytes) with
  | none => (.error .failure, out)
  | some (byte, rest) =>
    match addrLoop consume (sep rest) n rest with
    | none => (.error .failure, out)
    | some (bytes, rest) =>
      if peek (leftTrim rest) ≠ 0 then (.error .failure, out) else (.ok (), byte :: bytes)

def colons (rest : List UInt8) : Option Char := if peek rest = chr ':' then some ':' else none

def macParse : CString → List UInt8 → Except Status Unit × List UInt8 := addrParse consumeHexPair colons 5

def ipv4Parse : CString → List UInt8 → Except Status Unit × List UInt8 :=
  addrParse consumeOctetDec (fun _ => some '.') 3

def IsHexPair (cs : List UInt8) (byte : UInt8) : Prop :=
  ∃ ds, List.Forall₂ (IsDigit 16) cs ds ∧ ds.length = 2 ∧ value 16 ds = byte.toNat

def IsOctet (cs : List UInt8) (byte : UInt8) : Prop :=
  ∃ ds, List.Forall₂ (IsDigit 10) cs ds ∧ 1 ≤ ds.length ∧ ds.length ≤ 3 ∧ value 10 ds = byte.toNat

/-- `n` groups between whitespace, with one of the separators between every two of them, and their bytes. -/
inductive GroupsOf (IsGroup : List UInt8 → UInt8 → Prop) (n : ℕ) (seps : List (List UInt8)) :
    List UInt8 → List UInt8 → Prop where
  | mk {w w' sep : List UInt8} {gs : List (List UInt8)} {bytes : List UInt8}
    (hw : ∀ c ∈ w, isSpace c = true) (hsep : sep ∈ seps) (hgs : List.Forall₂ IsGroup gs bytes)
    (hlen : bytes.length = n) (hw' : ∀ c ∈ w', isSpace c = true) :
    GroupsOf IsGroup n seps (w ++ (List.intercalate sep gs ++ w')) bytes

def MacAddr : List UInt8 → List UInt8 → Prop := GroupsOf IsHexPair 6 [[], [chr ':']]

def Ipv4Addr : List UInt8 → List UInt8 → Prop := GroupsOf IsOctet 4 [[chr '.']]

/-! ## One group -/

section Group

variable {str rest cs : List UInt8} {ds : List ℕ} {byte : UInt8}

theorem decVal_eq : ∀ c, decVal c = (hexVal c).filter (· < 10) := by decide +kernel

theorem decVal_eq_some_iff {c : UInt8} {d : ℕ} : decVal c = some d ↔ IsDigit 10 c d := by
  rw [decVal_eq, Option.filter_eq_some_iff, decide_eq_true_eq, IsDigit]

/-- What is read so far has room for the digits that may follow. -/
theorem octet_step {d v i : ℕ} (hd : d < 10) (hv : (v + 1) * 10 ^ (i + 1) ≤ 1000) :
    (d + 10 * v + 1) * 10 ^ i ≤ 1000 ∧ (v * 10 + d) % 2 ^ 16 = d + 10 * v := by
  have hnext : (d + 10 * v + 1) * 10 ^ i ≤ 1000 := by
    refine le_trans ?_ hv
    rw [pow_succ', ← Nat.mul_assoc]
    exact Nat.mul_le_mul_right _ (by omega)
  refine ⟨hnext, ?_⟩
  have hpos : 0 < 10 ^ i := by positivity
  have hle := (Nat.le_mul_of_pos_right _ hpos).trans hnext
  omega

theorem octetLoop_digits (hds : List.Forall₂ (IsDigit 10) cs ds) {i len v : ℕ} (hi : ds.length ≤ i)
    (hend : ds.length = i ∨ decVal (peek rest) = none) (hv : (v + 1) * 10 ^ i ≤ 1000) :
    octetLoop i (cs ++ rest) len v = (len + ds.length, ds.foldl (fun v d => d + 10 * v) v, rest) := by
  induction hds generalizing i len v with
  | nil =>
    cases i with
    | zero => rfl
    | succ i =>
      rw [nil_append, octetLoop, consumeDec, hend.resolve_left (by simp)]
      rfl
  | @cons c d cs ds hd _ ih =>
    cases i with
    | zero => exact absurd hi (by simp)
    | succ i =>
      obtain ⟨hnext, hmod⟩ := octet_step hd.2 hv
      rw [length_cons] at hi hend
      rw [cons_append, octetLoop, consumeDec, peek_cons, decVal_eq_some_iff.mpr hd]
      simp only [tail_cons, hmod, foldl_cons, length_cons]
      rw [ih (by omega) (hend.imp_left fun h => by omega) hnext]
      congr 1
      omega

theorem exists_of_octetLoop {i len v : ℕ} {p : ℕ × ℕ × List UInt8} (hloop : octetLoop i str len v = p)
    (hv : (v + 1) * 10 ^ i ≤ 1000) : ∃ cs ds, str = cs ++ p.2.2 ∧ List.Forall₂ (IsDigit 10) cs ds ∧
      ds.length ≤ i ∧ p.1 = len + ds.length ∧ p.2.1 = ds.foldl (fun v d => d + 10 * v) v := by
  induction i generalizing str len v with
  | zero =>
    rw [← hloop]
    exact ⟨[], [], rfl, .nil, le_rfl, rfl, rfl⟩
  | succ i ih =>
    rw [octetLoop, consumeDec] at hloop
    cases hval : decVal (peek str) with
    | none =>
      rw [hval] at hloop
      rw [← hloop]
      exact ⟨[], [], rfl, .nil, Nat.zero_le _, rfl, rfl⟩
    | some d =>
      have hd := decVal_eq_some_iff.mp hval
      obtain ⟨hnext, hmod⟩ := octet_step hd.2 hv
      simp only [hval, hmod] at hloop
      cases str with
      | nil => cases hval
      | cons c str =>
        obtain ⟨cs, ds, hstr, hds, hle, hlen, hvalue⟩ := ih hloop hnext
        refine ⟨c :: cs, d :: ds, ?_, .cons hd hds, Nat.succ_le_succ hle, ?_, hvalue⟩
        · rw [cons_append, ← hstr]
          rfl
        · rw [hlen, length_cons]
          omega

theorem value_eq_foldl (b : ℕ) (ds : List ℕ) : value b ds = ds.foldl (fun v d => d + b * v) 0 := by
  rw [value, Nat.ofDigits_eq_foldr, foldr_reverse]
  rfl

theorem consumeOctetDec_octet (hcs : IsOctet cs byte) (hrest : decVal (peek rest) = none) :
    consumeOctetDec (cs ++ rest) = some (byte, rest) := by
  obtain ⟨ds, hds, hpos, hle, hvalue⟩ := hcs
  rw [value_eq_foldl] at hvalue
  have hbyte := byte.toNat_lt
  rw [consumeOctetDec, octetLoop_digits hds hle (.inr hrest) (by decide), hvalue]
  simp only
  rw [if_neg (by omega), if_neg (by omega), Nat.toUInt8_eq, UInt8.ofNat_toNat]

theorem exists_octet {p : UInt8 × List UInt8} (hsome : consumeOctetDec str = some p) :
    ∃ cs, IsOctet cs p.1 ∧ str = cs ++ p.2 := by
  obtain ⟨cs, ds, hstr, hds, hle, hlen, hvalue⟩ := exists_of_octetLoop (rfl : octetLoop 3 str 0 0 = _) (by decide)
  rw [consumeOctetDec] at hsome
  simp only at hsome
  split_ifs at hsome with hzero hbig
  rw [← Option.some.inj hsome]
  refine ⟨cs, ⟨ds, hds, by omega, hle, ?_⟩, hstr⟩
  rw [value_eq_foldl, ← hvalue, Nat.toUInt8_eq, UInt8.toNat_ofNat_of_lt' (Nat.lt_succ_of_le (not_lt.mp hbig))]

theorem hexPair_value : ∀ hi < 16, ∀ low < 16, hi <<< 4 ||| low = low + 16 * hi := by decide

theorem consumeHexPair_pair (hcs : IsHexPair cs byte) : consumeHexPair (cs ++ rest) = some (byte, rest) := by
  obtain ⟨ds, hds, hlen, hvalue⟩ := hcs
  obtain ⟨hi, low, rfl⟩ := length_eq_two.mp hlen
  obtain ⟨c, cs, hhi, htail, rfl⟩ := forall₂_cons_right_iff.mp hds
  obtain ⟨d, cs, hlow, hnil, rfl⟩ := forall₂_cons_right_iff.mp htail
  rw [forall₂_nil_right_iff.mp hnil, cons_append, cons_append, nil_append]
  rw [value_eq_foldl] at hvalue
  simp only [foldl_cons, foldl_nil, Nat.mul_zero, Nat.add_zero] at hvalue
  simp only [consumeHexPair, consumeHex, peek_cons, hhi.1, hlow.1, tail_cons,
    hexPair_value hi hhi.2 low hlow.2, hvalue, Nat.toUInt8_eq, UInt8.ofNat_toNat]

theorem exists_hexPair {p : UInt8 × List UInt8} (hsome : consumeHexPair str = some p) :
    ∃ cs, IsHexPair cs p.1 ∧ str = cs ++ p.2 := by
  rw [consumeHexPair, consumeHex] at hsome
  cases hhi : hexVal (peek str) with
  | none => simp [hhi] at hsome
  | some hi =>
    simp only [hhi, consumeHex] at hsome
    cases hlow : hexVal (peek str.tail) with
    | none => simp [hlow] at hsome
    | some low =>
      simp only [hlow, Option.some.injEq] at hsome
      obtain _ | ⟨c, _ | ⟨d, rest⟩⟩ := str
      · cases hhi
      · cases hlow
      · have hhi' := hexVal_lt _ hi hhi
        have hlow' := hexVal_lt _ low hlow
        rw [← hsome]
        refine ⟨[c, d], ⟨[hi, low], .cons ⟨hhi, hhi'⟩ (.cons ⟨hlow, hlow'⟩ .nil), rfl, ?_⟩, rfl⟩
        have hlt : low + 16 * hi < 2 ^ 8 := by omega
        rw [hexPair_value hi hhi' low hlow', value_eq_foldl, Nat.toUInt8_eq, UInt8.toNat_ofNat_of_lt' hlt]
        rfl

end Group

section Groups

variable {consume : List UInt8 → Option (UInt8 × List UInt8)} {IsGroup : List UInt8 → UInt8 → Prop}
  {Ends : List UInt8 → Prop} {sep : Option Char} {str rest : List UInt8} {gs : List (List UInt8)}
  {bytes : List UInt8} {n : ℕ}

def sepBytes : Option Char → List UInt8
  | none => []
  | some c => [chr c]

theorem consumeSep_sep (sep : Option Char) (rest : List UInt8) : consumeSep sep (sepBytes sep ++ rest) = some rest := by
  cases sep with
  | none => rfl
  | some c => exact if_neg (not_not.mpr rfl)

theorem eq_of_consumeSep (hnul : 0 ∉ str) (hc : ∀ c ∈ sep, chr c ≠ 0) (h : consumeSep sep str = some rest) :
    str = sepBytes sep ++ rest := by
  cases sep with
  | none => exact Option.some.inj h
  | some c =>
    rw [consumeSep, consumeChar] at h
    split_ifs at h with hpeek
    cases str with
    | nil => exact absurd (not_not.mp hpeek).symm (hc c rfl)
    | cons d str =>
      rw [peek_cons, not_not] at hpeek
      rw [← Option.some.inj h, hpeek]
      rfl

theorem addrLoop_groups (hconsume : ∀ g byte rest, IsGroup g byte → Ends rest →
      consume (g ++ rest) = some (byte, rest))
    (hsep : ∀ g byte rest, IsGroup g byte → Ends (sepBytes sep ++ (g ++ rest)))
    (hgs : List.Forall₂ IsGroup gs bytes) (hrest : Ends rest) :
    Ends (gs.flatMap (sepBytes sep ++ ·) ++ rest) ∧
      addrLoop consume sep bytes.length (gs.flatMap (sepBytes sep ++ ·) ++ rest) = some (bytes, rest) := by
  induction hgs with
  | nil => exact ⟨hrest, rfl⟩
  | @cons g byte gs bytes hg _ ih =>
    rw [flatMap_cons, append_assoc, append_assoc]
    refine ⟨hsep g byte _ hg, ?_⟩
    rw [length_cons, addrLoop, consumeSep_sep]
    simp only [hconsume g byte _ hg ih.1, ih.2, Option.map_some]

theorem exists_of_addrLoop (hexists : ∀ str p, consume str = some p → ∃ g, IsGroup g p.1 ∧ str = g ++ p.2)
    (hnul : 0 ∉ str) (hc : ∀ c ∈ sep, chr c ≠ 0) {p : List UInt8 × List UInt8}
    (h : addrLoop consume sep n str = some p) :
    ∃ gs, List.Forall₂ IsGroup gs p.1 ∧ p.1.length = n ∧ str = gs.flatMap (sepBytes sep ++ ·) ++ p.2 := by
  induction n generalizing str p with
  | zero =>
    rw [← Option.some.inj h]
    exact ⟨[], .nil, rfl, rfl⟩
  | succ n ih =>
    rw [addrLoop] at h
    cases hskip : consumeSep sep str with
    | none => simp [hskip] at h
    | some behind =>
      have hstr := eq_of_consumeSep hnul hc hskip
      simp only [hskip] at h
      cases hread : consume behind with
      | none => simp [hread] at h
      | some q =>
        obtain ⟨g, hg, hbehind⟩ := hexists behind q hread
        simp only [hread] at h
        obtain ⟨r, hloop, rfl⟩ := Option.map_eq_some_iff.mp h
        have hmem : 0 ∉ q.2 := fun hzero => hnul (by
          rw [hstr, hbehind]
          exact mem_append_right _ (mem_append_right _ hzero))
        obtain ⟨gs, hgs, hlen, hrest⟩ := ih hmem hloop
        refine ⟨g :: gs, .cons hg hgs, congrArg Nat.succ hlen, ?_⟩
        rw [hstr, hbehind, hrest, flatMap_cons, append_assoc, append_assoc]

theorem intercalate_cons (sep g : List UInt8) (gs : List (List UInt8)) :
    List.intercalate sep (g :: gs) = g ++ gs.flatMap (sep ++ ·) := by
  induction gs generalizing g with
  | nil => simp
  | cons g' gs ih => rw [intercalate_cons_cons, ih, flatMap_cons, append_assoc, append_assoc]

end Groups

section Accepted

variable {consume : List UInt8 → Option (UInt8 × List UInt8)} {IsGroup : List UInt8 → UInt8 → Prop}
  {Ends : List UInt8 → Prop} {sepOf : List UInt8 → Option Char} {seps : List (List UInt8)} {n : ℕ}
  {s : CString} {out bytes : List UInt8}

structure ReadsGroups (consume : List UInt8 → Option (UInt8 × List UInt8)) (IsGroup : List UInt8 → UInt8 → Prop)
    (Ends : List UInt8 → Prop) (sepOf : List UInt8 → Option Char) (seps : List (List UInt8)) : Prop where
  reads : ∀ g byte rest, IsGroup g byte → Ends rest → consume (g ++ rest) = some (byte, rest)
  is_group : ∀ str p, consume str = some p → ∃ g, IsGroup g p.1 ∧ str = g ++ p.2
  digit : ∀ g byte rest, IsGroup g byte → (hexVal (peek (g ++ rest))).isSome = true
  ends : ∀ w, (∀ c ∈ w, isSpace c = true) → Ends w
  sep : ∀ sep ∈ seps, ∃ c, sep = sepBytes c ∧ ∀ g byte rest, IsGroup g byte →
    Ends (sep ++ (g ++ rest)) ∧ sepOf (sep ++ (g ++ rest)) = c
  sep_mem : ∀ rest, sepBytes (sepOf rest) ∈ seps ∧ ∀ c ∈ sepOf rest, chr c ≠ 0

/-- **What the parsers accept**: the groups and nothing else. -/
theorem addrParse_eq_ok_iff (hreads : ReadsGroups consume IsGroup Ends sepOf seps) :
    addrParse consume sepOf (n + 1) s out = (.ok (), bytes) ↔ GroupsOf IsGroup (n + 2) seps s.bytes bytes := by
  constructor
  · intro h
    rw [addrParse] at h
    cases hfirst : consume (leftTrim s.bytes) with
    | none => simp [hfirst] at h
    | some p =>
      obtain ⟨byte, rest⟩ := p
      simp only [hfirst] at h
      cases hloop : addrLoop consume (sepOf rest) (n + 1) rest with
      | none => simp [hloop] at h
      | some q =>
        simp only [hloop] at h
        split_ifs at h with hend
        · cases (Prod.mk.inj h).1
        obtain ⟨w, hw, hs⟩ := exists_leftTrim s.bytes
        obtain ⟨g, hg, htrim⟩ := hreads.is_group _ _ hfirst
        simp only at hg htrim
        have hnul := s.noNul
        rw [hs, htrim] at hnul
        have hmem : 0 ∉ rest := fun hzero => hnul (mem_append_right _ (mem_append_right _ hzero))
        obtain ⟨hsep, hchar⟩ := hreads.sep_mem rest
        obtain ⟨gs, hgs, hlen, hrest⟩ := exists_of_addrLoop hreads.is_group hmem hchar hloop
        have hend' : 0 ∉ q.2 := fun hzero => hmem (by rw [hrest]; exact mem_append_right _ hzero)
        have hspaces := (peek_leftTrim_iff hend').mp (not_not.mp hend)
        have hwhole : s.bytes = w ++ (List.intercalate (sepBytes (sepOf rest)) (g :: gs) ++ q.2) := by
          rw [hs, htrim, intercalate_cons, append_assoc g, ← hrest]
        rw [hwhole, ← (Prod.mk.inj h).2]
        exact .mk hw hsep (.cons hg hgs) (congrArg Nat.succ hlen) hspaces
  · intro h
    generalize hstr : s.bytes = str at h
    cases h with
    | @mk w w' sep gs bytes hw hsep hgs hlen hw' =>
      obtain ⟨c, rfl, hbehind⟩ := hreads.sep sep hsep
      cases hgs with
      | nil => cases hlen
      | @cons g byte gs bytes hg hgs =>
        rw [length_cons, Nat.succ_inj] at hlen
        obtain ⟨hstop, hloop⟩ := addrLoop_groups hreads.reads (fun g byte rest hg => (hbehind g byte rest hg).1) hgs
          (hreads.ends w' hw')
        have htrim : leftTrim s.bytes = g ++ (gs.flatMap (sepBytes c ++ ·) ++ w') := by
          rw [hstr, leftTrim_append hw, intercalate_cons, append_assoc]
          exact leftTrim_eq_self (ne_of_hexVal _ (hreads.digit g byte _ hg)).2.2.2.2
        have hsepOf : sepOf (gs.flatMap (sepBytes c ++ ·) ++ w') = c := by
          cases hgs with
          | nil => cases hlen
          | @cons g' byte' gs bytes hg' hgs =>
            rw [flatMap_cons, append_assoc, append_assoc]
            exact (hbehind g' byte' _ hg').2
        have hempty : peek (leftTrim w') = 0 := by
          rw [leftTrim_spaces hw']
          rfl
        simp only [addrParse, htrim, hreads.reads g byte _ hg hstop, hsepOf]
        rw [← hlen, hloop]
        simp only [hempty]
        rfl

theorem addrParse_error {e : Status} (h : (addrParse consume sepOf n s out).1 = .error e) :
    (addrParse consume sepOf n s out).2 = out := by
  rw [addrParse] at h ⊢
  cases hfirst : consume (leftTrim s.bytes) with
  | none => rfl
  | some p =>
    simp only [hfirst] at h ⊢
    cases hloop : addrLoop consume (sepOf p.2) n p.2 with
    | none => rfl
    | some q =>
      simp only [hloop] at h ⊢
      split_ifs at h ⊢
      rfl

theorem decVal_peek_spaces {w : List UInt8} (hw : ∀ c ∈ w, isSpace c = true) : decVal (peek w) = none := by
  rw [decVal_eq, hexVal_peek_spaces hw]
  rfl

theorem hexVal_peek_group {g : List UInt8} {ds : List ℕ} {radix : ℕ} (hds : List.Forall₂ (IsDigit radix) g ds)
    (hne : ds ≠ []) (rest : List UInt8) : (hexVal (peek (g ++ rest))).isSome = true := by
  cases hds with
  | nil => exact absurd rfl hne
  | cons hd _ => exact Option.isSome_of_mem hd.1

theorem readsHexPairs : ReadsGroups consumeHexPair IsHexPair (fun _ => True) colons [[], [chr ':']] where
  reads _ _ _ hg _ := consumeHexPair_pair hg
  is_group _ _ := exists_hexPair
  digit g byte rest := fun ⟨ds, hds, hlen, _⟩ => hexVal_peek_group hds (by rintro rfl; cases hlen) rest
  ends _ _ := trivial
  sep := by
    rw [forall_mem_cons, forall_mem_singleton]
    refine ⟨⟨none, rfl, fun g byte rest ⟨ds, hds, hlen, _⟩ => ⟨trivial, if_neg ?_⟩⟩,
      some ':', rfl, fun g byte rest _ => ⟨trivial, if_pos rfl⟩⟩
    exact (ne_of_hexVal _ (hexVal_peek_group hds (by rintro rfl; cases hlen) rest)).2.2.2.1
  sep_mem rest := by
    rw [colons]
    split_ifs
    · exact ⟨by simp [sepBytes], by rintro _ ⟨⟩; decide⟩
    · exact ⟨by simp [sepBytes], nofun⟩

theorem readsOctets : ReadsGroups consumeOctetDec IsOctet (fun rest => decVal (peek rest) = none)
    (fun _ => some '.') [[chr '.']] where
  reads _ _ _ hg hrest := consumeOctetDec_octet hg hrest
  is_group _ _ := exists_octet
  digit g byte rest := fun ⟨ds, hds, hpos, _⟩ => hexVal_peek_group hds (by rintro rfl; cases hpos) rest
  ends _ hw := decVal_peek_spaces hw
  sep := by
    rw [forall_mem_singleton]
    exact ⟨some '.', rfl, fun g byte rest _ => ⟨rfl, rfl⟩⟩
  sep_mem _ := ⟨mem_singleton_self _, by rintro _ ⟨⟩; decide⟩

end Accepted

def printPair (byte : UInt8) : List UInt8 := [byte.toNat / 16, byte.toNat % 16].map hexChar

/-- The digits that `%d` prints of a byte. -/
def octetDigits (n : ℕ) : List ℕ :=
  if n < 10 then [n] else if n < 100 then [n / 10, n % 10] else [n / 100, n / 10 % 10, n % 10]

/-- An address as `QDF_MAC_ADDR_FMT` prints it. -/
def printMac (addr : List UInt8) : List UInt8 := List.intercalate [chr ':'] (addr.map printPair)

/-- An address as `QDF_IPV4_ADDR_STR` prints it. -/
def printIpv4 (addr : List UInt8) : List UInt8 :=
  List.intercalate [chr '.'] (addr.map fun byte => (octetDigits byte.toNat).map hexChar)

theorem isDigit_print {radix : ℕ} (hradix : radix ≤ 16) {ds : List ℕ} (h : ∀ d ∈ ds, d < radix) :
    List.Forall₂ (IsDigit radix) (ds.map hexChar) ds := by
  rw [forall₂_map_left_iff, forall₂_same]
  exact fun d hd => ⟨(isDigit_hexChar d ((h d hd).trans_le hradix)).1, h d hd⟩

theorem isHexPair_print (byte : UInt8) : IsHexPair (printPair byte) byte := by
  have hbyte := byte.toNat_lt
  refine ⟨[byte.toNat / 16, byte.toNat % 16], isDigit_print le_rfl ?_, rfl, ?_⟩
  · rw [forall_mem_cons, forall_mem_singleton]
    omega
  · rw [value_eq_foldl]
    exact Nat.mod_add_div _ 16

theorem isOctet_print (byte : UInt8) : IsOctet ((octetDigits byte.toNat).map hexChar) byte := by
  have hbyte := byte.toNat_lt
  refine ⟨octetDigits byte.toNat, isDigit_print (by decide) ?_, ?_⟩
  · rw [octetDigits]
    split_ifs
    · rwa [forall_mem_singleton]
    · rw [forall_mem_cons, forall_mem_singleton]
      omega
    · rw [forall_mem_cons, forall_mem_cons, forall_mem_singleton]
      omega
  · rw [octetDigits, value_eq_foldl]
    split_ifs
    · exact ⟨by simp, by simp, Nat.add_zero _⟩
    · exact ⟨by simp, by simp, Nat.mod_add_div _ 10⟩
    · refine ⟨by simp, by simp, ?_⟩
      simp only [foldl_cons, foldl_nil]
      omega

theorem groupsOf_print {IsGroup : List UInt8 → UInt8 → Prop} {print : UInt8 → List UInt8} {n : ℕ}
    {sep : List UInt8} {seps : List (List UInt8)} (hsep : sep ∈ seps) (hprint : ∀ byte, IsGroup (print byte) byte)
    (addr : Vector UInt8 n) : GroupsOf IsGroup n seps (List.intercalate sep (addr.toList.map print)) addr.toList := by
  have hgs : List.Forall₂ IsGroup (addr.toList.map print) addr.toList := by
    rw [forall₂_map_left_iff, forall₂_same]
    exact fun byte _ => hprint byte
  have hblank : ∀ c ∈ ([] : List UInt8), isSpace c = true := nofun
  have hgroups := GroupsOf.mk hblank hsep hgs (Vector.length_toList) hblank
  rwa [nil_append, append_nil] at hgroups

/-- **A parser accepts the addresses and nothing else**, leaves the output alone where it fails, and reads an
address as it has been printed. -/
structure ParsesExactly (parse : CString → List UInt8 → Except Status Unit × List UInt8)
    (Addr : List UInt8 → List UInt8 → Prop) (n : ℕ) (print : List UInt8 → List UInt8) : Prop where
  accepts : ∀ s out bytes, parse s out = (.ok (), bytes) ↔ Addr s.bytes bytes
  untouched : ∀ s out e, (parse s out).1 = .error e → (parse s out).2 = out
  printed : ∀ (addr : Vector UInt8 n) s out, s.bytes = print addr.toList → parse s out = (.ok (), addr.toList)

theorem mac_ipv4_parsesExactly :
    ParsesExactly macParse MacAddr 6 printMac ∧ ParsesExactly ipv4Parse Ipv4Addr 4 printIpv4 := by
  have hmac : ∀ s out bytes, macParse s out = (.ok (), bytes) ↔ MacAddr s.bytes bytes := fun _ _ _ =>
    addrParse_eq_ok_iff readsHexPairs
  have hipv4 : ∀ s out bytes, ipv4Parse s out = (.ok (), bytes) ↔ Ipv4Addr s.bytes bytes := fun _ _ _ =>
    addrParse_eq_ok_iff readsOctets
  refine ⟨⟨hmac, fun _ _ _ => addrParse_error, fun addr s out hs => ?_⟩,
    ⟨hipv4, fun _ _ _ => addrParse_error, fun addr s out hs => ?_⟩⟩
  · rw [hmac, hs]
    exact groupsOf_print (by simp) isHexPair_print addr
  · rw [hipv4, hs]
    exact groupsOf_print (by simp) isOctet_print addr

/-- The end of a string amid a pair is not an address. -/
example : (macParse ⟨[97, 97, 58, 98], by decide⟩ []).1 = .error .failure := by decide

end Qdf
