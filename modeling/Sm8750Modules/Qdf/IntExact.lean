import Sm8750Modules.Qdf.IntParse

/-!
# Parsing integers in QDF — which integers are right

A parser is exact on a string when it accepts the integers of its type, as they are written, and
answers every other integer with `QDF_STATUS_E_RANGE`.
-/

namespace Qdf

open Horner List

/-- The parsers of integers. -/
inductive IntKind where
  | int32
  | uint8
  | uint16
  | uint32
  | int64
  | uint64
deriving DecidableEq

namespace IntKind

def parse : IntKind → CString → Except Status ℤ
  | int32 => int32Parse
  | uint8 => uint8Parse
  | uint16 => uint16Parse
  | uint32 => uint32Parse
  | int64 => int64Parse
  | uint64 => uint64Parse

/-- The integers of a type; an unsigned one has no minus. -/
def Fits : IntKind → Bool → ℕ → Prop
  | int32, neg, n => if neg then n ≤ 2 ^ 31 else n < 2 ^ 31
  | uint8, neg, n => neg = false ∧ n < 2 ^ 8
  | uint16, neg, n => neg = false ∧ n < 2 ^ 16
  | uint32, neg, n => neg = false ∧ n < 2 ^ 32
  | int64, neg, n => if neg then n ≤ 2 ^ 63 else n < 2 ^ 63
  | uint64, neg, n => neg = false ∧ n < 2 ^ 64

instance (k : IntKind) (neg : Bool) (n : ℕ) : Decidable (k.Fits neg n) := by
  cases k <;> unfold Fits <;> infer_instance

end IntKind

def signedValue (neg : Bool) (n : ℕ) : ℤ := if neg then -n else n

def Denotes (s : CString) (neg : Bool) (n : ℕ) : Prop :=
  ∃ radix ds, ds ≠ [] ∧ Literal s.bytes neg radix ds ∧ value radix ds = n

/-- **A parser is exact on a string**. -/
structure Exact (k : IntKind) (s : CString) : Prop where
  accepts : ∀ z, k.parse s = .ok z ↔ ∃ neg n, Denotes s neg n ∧ k.Fits neg n ∧ signedValue neg n = z
  refuses : ∀ neg n, Denotes s neg n → ¬ k.Fits neg n → k.parse s = .error .range

/-- A digit follows the prefix of the radix, and a value of `2 ^ 64` or more drops while it is read. -/
structure Readable (k : IntKind) (s : CString) : Prop where
  digit : ∀ neg radix, Literal s.bytes neg radix [] → ¬ k.Fits neg 0
  drops : ∀ neg radix ds, Literal s.bytes neg radix ds → 2 ^ 64 ≤ value radix ds →
    NeverDrops radix (2 ^ 64) ds → ¬ k.Fits neg (value radix ds % 2 ^ 64)

section Parse

variable {k : IntKind} {s : CString} {neg : Bool} {v : ℕ}

theorem uint64Parse_ok (h : intParse s = .ok (v, neg)) :
    uint64Parse s = if neg = false then .ok (v : ℤ) else .error .range := by
  rw [uint64Parse, h]
  cases neg with
  | true => rfl
  | false => rfl

theorem int64Parse_ok (h : intParse s = .ok (v, neg)) (hv : v < 2 ^ 64) : int64Parse s =
    if (if neg then v ≤ 2 ^ 63 else v < 2 ^ 63) then .ok (signedValue neg v) else .error .range := by
  rw [int64Parse, h]
  cases neg with
  | true =>
    show (if 0 < toInt64 (2 ^ 64 - v) then _ else _) = if v ≤ 2 ^ 63 then _ else _
    by_cases hle : v ≤ 2 ^ 63
    · have hval : toInt64 (2 ^ 64 - v) = -v := by
        rw [toInt64]
        split_ifs
        · omega
        · omega
      rw [if_pos hle, hval, if_neg (by omega)]
      rfl
    · have hval : 0 < toInt64 (2 ^ 64 - v) := by
        rw [toInt64]
        split_ifs
        · omega
        · omega
      rw [if_neg hle, if_pos hval]
  | false =>
    show (if toInt64 v < 0 then _ else _) = if v < 2 ^ 63 then _ else _
    by_cases hlt : v < 2 ^ 63
    · have hval : toInt64 v = v := by
        rw [toInt64]
        split_ifs
        · omega
        · omega
      rw [if_pos hlt, hval, if_neg (by omega)]
      rfl
    · have hval : toInt64 v < 0 := by
        rw [toInt64]
        split_ifs
        · omega
        · omega
      rw [if_neg hlt, if_pos hval]

theorem narrowParse_unsigned (h : intParse s = .ok (v, neg)) (w : ℕ) :
    narrowParse uint64Parse (fun n => n % 2 ^ w) s =
      if neg = false ∧ v < 2 ^ w then .ok (signedValue neg v) else .error .range := by
  rw [narrowParse, uint64Parse_ok h]
  cases neg with
  | true => rfl
  | false =>
    show (if (v : ℤ) % 2 ^ w ≠ v then _ else _) = _
    have hiff : (v : ℤ) % 2 ^ w = v ↔ v < 2 ^ w := by
      rw [← Nat.mod_eq_iff_lt (by positivity : 2 ^ w ≠ 0)]
      exact_mod_cast Iff.rfl
    by_cases hlt : v < 2 ^ w
    · rw [if_neg (not_not.mpr (hiff.mpr hlt)), if_pos ⟨rfl, hlt⟩]
      rfl
    · rw [if_pos fun hmod => hlt (hiff.mp hmod), if_neg fun hn => hlt hn.2]

theorem bmod_eq_iff (z : ℤ) : z.bmod (2 ^ 32) = z ↔ -2 ^ 31 ≤ z ∧ z < 2 ^ 31 := by
  rw [Int.bmod_def]
  split_ifs
  · omega
  · omega

theorem int32Parse_ok (h : intParse s = .ok (v, neg)) (hv : v < 2 ^ 64) : int32Parse s =
    if (if neg then v ≤ 2 ^ 31 else v < 2 ^ 31) then .ok (signedValue neg v) else .error .range := by
  rw [int32Parse, narrowParse, int64Parse_ok h hv]
  by_cases hwide : if neg then v ≤ 2 ^ 63 else v < 2 ^ 63
  · rw [if_pos hwide]
    show (if (signedValue neg v).bmod (2 ^ 32) ≠ signedValue neg v then _ else _) = _
    have hiff : (signedValue neg v).bmod (2 ^ 32) = signedValue neg v ↔
        if neg then v ≤ 2 ^ 31 else v < 2 ^ 31 := by
      rw [bmod_eq_iff]
      cases neg with
      | true =>
        show -2 ^ 31 ≤ -(v : ℤ) ∧ -(v : ℤ) < 2 ^ 31 ↔ v ≤ 2 ^ 31
        omega
      | false =>
        show -2 ^ 31 ≤ (v : ℤ) ∧ (v : ℤ) < 2 ^ 31 ↔ v < 2 ^ 31
        omega
    by_cases hfits : if neg then v ≤ 2 ^ 31 else v < 2 ^ 31
    · rw [if_neg (not_not.mpr (hiff.mpr hfits)), if_pos hfits]
    · rw [if_pos fun hmod => hfits (hiff.mp hmod), if_neg hfits]
  · have hnarrow : ¬ if neg then v ≤ 2 ^ 31 else v < 2 ^ 31 := by
      cases neg with
      | true => exact fun hle : v ≤ 2 ^ 31 => hwide (show v ≤ 2 ^ 63 by omega)
      | false => exact fun hlt : v < 2 ^ 31 => hwide (show v < 2 ^ 63 by omega)
    rw [if_neg hwide, if_neg hnarrow]

/-- **What a parser does** with the remainder that has been read. -/
theorem parse_ok (k : IntKind) (h : intParse s = .ok (v, neg)) (hv : v < 2 ^ 64) :
    k.parse s = if k.Fits neg v then .ok (signedValue neg v) else .error .range := by
  cases k with
  | int32 => exact int32Parse_ok h hv
  | uint8 => exact narrowParse_unsigned h 8
  | uint16 => exact narrowParse_unsigned h 16
  | uint32 => exact narrowParse_unsigned h 32
  | int64 => exact int64Parse_ok h hv
  | uint64 =>
    show uint64Parse s = if neg = false ∧ v < 2 ^ 64 then _ else _
    rw [uint64Parse_ok h]
    cases neg with
    | true => rfl
    | false => rw [if_pos rfl, if_pos ⟨rfl, hv⟩]; rfl

theorem parse_error (k : IntKind) {e : Status} (h : intParse s = .error e) : k.parse s = .error e := by
  have hint64 : int64Parse s = .error e := by rw [int64Parse, h]
  have huint64 : uint64Parse s = .error e := by rw [uint64Parse, h]
  cases k with
  | int32 => show narrowParse _ _ s = _; rw [narrowParse, hint64]
  | uint8 => show narrowParse _ _ s = _; rw [narrowParse, huint64]
  | uint16 => show narrowParse _ _ s = _; rw [narrowParse, huint64]
  | uint32 => show narrowParse _ _ s = _; rw [narrowParse, huint64]
  | int64 => exact hint64
  | uint64 => exact huint64

theorem IntKind.Fits.lt {n : ℕ} (h : k.Fits neg n) : n < 2 ^ 64 := by
  have hsigned : ∀ w ≤ 63, (if neg then n ≤ 2 ^ w else n < 2 ^ w) → n < 2 ^ 64 := by
    intro w hw hn
    have hpow : 2 ^ w ≤ 2 ^ 63 := Nat.pow_le_pow_right (by decide) hw
    split_ifs at hn
    · omega
    · omega
  cases k with
  | int32 => exact hsigned 31 (by decide) h
  | int64 => exact hsigned 63 (by decide) h
  | uint8 => exact h.2.trans (by decide)
  | uint16 => exact h.2.trans (by decide)
  | uint32 => exact h.2.trans (by decide)
  | uint64 => exact h.2

theorem parse_eq_ok_iff (k : IntKind) (s : CString) (z : ℤ) : k.parse s = .ok z ↔
    ∃ neg radix ds, Literal s.bytes neg radix ds ∧ NeverDrops radix (2 ^ 64) ds ∧
      k.Fits neg (value radix ds % 2 ^ 64) ∧ signedValue neg (value radix ds % 2 ^ 64) = z := by
  have hlt : ∀ n : ℕ, n % 2 ^ 64 < 2 ^ 64 := fun n => Nat.mod_lt n (by decide)
  constructor
  · intro h
    cases hread : intParse s with
    | error e =>
      rw [parse_error k hread] at h
      cases h
    | ok p =>
      obtain ⟨v, neg⟩ := p
      obtain ⟨radix, ds, hlit, hdrops, rfl⟩ := intParse_eq_ok_iff.mp hread
      rw [parse_ok k hread (hlt _)] at h
      split_ifs at h with hfits
      exact ⟨neg, radix, ds, hlit, hdrops, hfits, Except.ok.inj h⟩
  · rintro ⟨neg, radix, ds, hlit, hdrops, hfits, hz⟩
    have hread := intParse_eq_ok_iff.mpr ⟨radix, ds, hlit, hdrops, rfl⟩
    rw [parse_ok k hread (hlt _), if_pos hfits, hz]

end Parse

section Exact

variable {k : IntKind} {s : CString} {neg neg' : Bool} {radix radix' : ℕ} {ds ds' : List ℕ}

theorem digits_unique {cs cs' w w' : List UInt8} (hds : List.Forall₂ (IsDigit radix) cs ds)
    (hds' : List.Forall₂ (IsDigit radix) cs' ds') (hw : hexVal (peek w) = none)
    (hw' : hexVal (peek w') = none) (h : cs ++ w = cs' ++ w') : ds = ds' := by
  induction hds generalizing cs' ds' with
  | nil =>
    cases hds' with
    | nil => rfl
    | cons hd _ =>
      rw [nil_append] at h
      rw [h, cons_append, peek_cons, hd.1] at hw
      cases hw
  | cons hd _ ih =>
    cases hds' with
    | nil =>
      rw [nil_append] at h
      rw [← h, cons_append, peek_cons, hd.1] at hw'
      cases hw'
    | cons hd' hds' =>
      obtain ⟨rfl, htail⟩ := List.cons.inj h
      rw [Option.some.inj (hd.1.symm.trans hd'.1), ih hds' htail]

theorem Literal.scan {str : List UInt8} (h : Literal str neg radix ds) :
    ∃ cs w, List.Forall₂ (IsDigit radix) cs ds ∧ hexVal (peek w) = none ∧
      (consumeSign (leftTrim str)).1 = neg ∧
      consumeRadix (consumeSign (leftTrim str)).2 = some (radix, cs ++ w) := by
  cases h with
  | @mk w sign pre cs w' _ _ _ hw hsign hpre hds hfirst hw' =>
    refine ⟨cs, w', hds, hexVal_peek_spaces hw', ?_⟩
    rw [leftTrim_literal hw hsign hpre hds hfirst, consumeSign_literal hsign hpre hds hfirst]
    exact ⟨rfl, consumeRadix_prefix hpre hds hfirst hw'⟩

theorem Literal.unique {str : List UInt8} (h : Literal str neg radix ds) (h' : Literal str neg' radix' ds') :
    neg = neg' ∧ radix = radix' ∧ ds = ds' := by
  obtain ⟨cs, w, hds, hw, hneg, hscan⟩ := h.scan
  obtain ⟨cs', w', hds', hw', hneg', hscan'⟩ := h'.scan
  obtain ⟨hradix, hrest⟩ := Prod.mk.inj (Option.some.inj (hscan.symm.trans hscan'))
  subst hradix
  exact ⟨hneg.symm.trans hneg', rfl, digits_unique hds hds' hw hw' hrest⟩

theorem Literal.radix_pos {str : List UInt8} (h : Literal str neg radix ds) : 0 < radix := by
  cases h with
  | mk _ _ hpre => cases hpre <;> decide

theorem parse_of_fits {n : ℕ} (h : Denotes s neg n) (hfits : k.Fits neg n) :
    k.parse s = .ok (signedValue neg n) := by
  obtain ⟨radix, ds, -, hlit, rfl⟩ := h
  have hmod := Nat.mod_eq_of_lt hfits.lt
  exact (parse_eq_ok_iff k s _).mpr ⟨neg, radix, ds, hlit, neverDrops_of_lt hlit.radix_pos hfits.lt,
    by rw [hmod]; exact hfits, by rw [hmod]⟩

theorem parse_eq_range (hlit : Literal s.bytes neg radix ds)
    (h : NeverDrops radix (2 ^ 64) ds → ¬ k.Fits neg (value radix ds % 2 ^ 64)) :
    k.parse s = .error .range := by
  by_cases hdrops : NeverDrops radix (2 ^ 64) ds
  · rw [parse_ok k (intParse_eq_ok_iff.mpr ⟨radix, ds, hlit, hdrops, rfl⟩) (Nat.mod_lt _ (by decide)),
      if_neg (h hdrops)]
  · exact parse_error k (intParse_eq_range hlit hdrops)

/-- **When a parser is exact.** -/
theorem exact_iff (k : IntKind) (s : CString) : Exact k s ↔ Readable k s := by
  constructor
  · intro h
    refine ⟨fun neg radix hlit hfits => ?_, fun neg radix ds hlit hbig hdrops hfits => ?_⟩
    · -- the prefix alone is read as zero
      have hread : k.parse s = .ok (signedValue neg 0) :=
        (parse_eq_ok_iff k s _).mpr ⟨neg, radix, [], hlit, nofun, hfits, rfl⟩
      obtain ⟨neg', n, ⟨radix', ds', hne, hlit', -⟩, -⟩ := (h.accepts _).mp hread
      exact hne (hlit.unique hlit').2.2.symm
    · have hread : k.parse s = .ok (signedValue neg (value radix ds % 2 ^ 64)) :=
        (parse_eq_ok_iff k s _).mpr ⟨neg, radix, ds, hlit, hdrops, hfits, rfl⟩
      obtain ⟨neg', n, ⟨radix', ds', -, hlit', rfl⟩, hfits', -⟩ := (h.accepts _).mp hread
      obtain ⟨-, rfl, rfl⟩ := hlit.unique hlit'
      exact absurd hfits'.lt (Nat.not_lt.mpr hbig)
  · intro h
    refine ⟨fun z => ⟨fun hread => ?_, ?_⟩, fun neg n hden hfits => ?_⟩
    · obtain ⟨neg, radix, ds, hlit, hdrops, hfits, rfl⟩ := (parse_eq_ok_iff k s z).mp hread
      have hne : ds ≠ [] := by
        rintro rfl
        exact h.digit neg radix hlit hfits
      have hlt : value radix ds < 2 ^ 64 := by
        by_contra hbig
        exact h.drops neg radix ds hlit (Nat.le_of_not_lt hbig) hdrops hfits
      rw [Nat.mod_eq_of_lt hlt] at hfits ⊢
      exact ⟨neg, _, ⟨radix, ds, hne, hlit, rfl⟩, hfits, rfl⟩
    · rintro ⟨neg, n, hden, hfits, rfl⟩
      exact parse_of_fits hden hfits
    · obtain ⟨radix, ds, -, hlit, rfl⟩ := hden
      refine parse_eq_range hlit fun hdrops hmod => ?_
      by_cases hlt : value radix ds < 2 ^ 64
      · rw [Nat.mod_eq_of_lt hlt] at hmod
        exact hfits hmod
      · exact h.drops neg radix ds hlit (Nat.le_of_not_lt hlt) hdrops hmod

/-- `30000000000000000000` -/
def thirtyQuintillion : CString := ⟨chr '3' :: List.replicate 19 (chr '0'), by decide⟩

theorem literal_decimal {cs : List UInt8} (hds : List.Forall₂ (IsDigit 10) cs ds) (hne : ds ≠ []) :
    Literal cs false 10 ds := by
  have hnone : ∀ c ∈ ([] : List UInt8), isSpace c = true := by simp
  have h := Literal.mk hnone .none .none hds (fun _ => hne) hnone
  rwa [append_nil] at h

theorem forall₂_zeros (n : ℕ) :
    List.Forall₂ (IsDigit 10) (List.replicate n (chr '0')) (List.replicate n 0) := by
  induction n with
  | zero => exact .nil
  | succ n ih => exact .cons ⟨by decide, by decide⟩ ih

theorem denotes_thirtyQuintillion : Denotes thirtyQuintillion false (3 * 10 ^ 19) :=
  ⟨10, 3 :: List.replicate 19 0, by simp,
    literal_decimal (.cons ⟨by decide, by decide⟩ (forall₂_zeros 19)) (by simp), by decide⟩

/-- A value above `2 ^ 64` is accepted as its remainder. -/
theorem not_exact_thirtyQuintillion : uint64Parse thirtyQuintillion = .ok 11553255926290448384 ∧
    ¬ Exact .uint64 thirtyQuintillion := by
  have hread : uint64Parse thirtyQuintillion = .ok 11553255926290448384 := by decide +kernel
  refine ⟨hread, fun h => ?_⟩
  have hrange := h.refuses false (3 * 10 ^ 19) denotes_thirtyQuintillion (by decide)
  rw [show IntKind.uint64.parse thirtyQuintillion = _ from hread] at hrange
  cases hrange

end Exact

end Qdf
