import Sm8750Modules.Lib.Horner
import Sm8750Modules.Qdf.Consume

/-!
# Parsing integers in QDF

An integer has whitespace around it, a sign, and the prefix of a radix. Its digits are added up in a
`uint64_t`; an overflow is taken for a sum that becomes less than it was.
-/

namespace Qdf

open Horner List

/-- `qdf_consume_radix`: the radix, and what follows its prefix. -/
def consumeRadix (str : List UInt8) : Option (ℕ × List UInt8) :=
  if peek str = chr '0' then
    if peek str.tail = chr 'b' then some (2, str.tail.tail)
    else if peek str.tail = chr 'o' then some (8, str.tail.tail)
    else if peek str.tail = chr 'x' then some (16, str.tail.tail)
    else some (10, str)
  else if chr '0' ≤ peek str ∧ peek str ≤ chr '9' then some (10, str)
  else none

/-- The loop of `__qdf_int_parse_lazy`, which consumes hexadecimal digits of any radix. -/
def digitsLoop (radix : ℕ) : List UInt8 → ℕ → Except Status (ℕ × List UInt8)
  | [], value => .ok (value, [])
  | c :: rest, value =>
    match hexVal c with
    | none => .ok (value, c :: rest)
    | some digit =>
      if radix ≤ digit then .error .failure
      else if (value * radix + digit) % 2 ^ 64 < value then .error .range
      else digitsLoop radix rest ((value * radix + digit) % 2 ^ 64)

/-- The sign: whether it is negative, and what follows. -/
def consumeSign (str : List UInt8) : Bool × List UInt8 :=
  match consumeChar str '-' with
  | some rest => (true, rest)
  | none => (false, (consumeChar str '+').getD str)

/-- `__qdf_int_parse_lazy`: the sum, whether it is negative, and what follows. -/
def intParseLazy (str : List UInt8) : Except Status (ℕ × Bool × List UInt8) :=
  match consumeRadix (consumeSign (leftTrim str)).2 with
  | none => .error .failure
  | some (radix, rest) =>
    match digitsLoop radix rest 0 with
    | .error e => .error e
    | .ok (value, rest) => .ok (value, (consumeSign (leftTrim str)).1, rest)

def intParse (str : CString) : Except Status (ℕ × Bool) :=
  match intParseLazy str.bytes with
  | .error e => .error e
  | .ok (value, negate, rest) =>
    if peek (leftTrim rest) ≠ 0 then .error .failure else .ok (value, negate)

/-- The cast of a `uint64_t` to `int64_t`. -/
def toInt64 (n : ℕ) : ℤ := if n % 2 ^ 64 < 2 ^ 63 then (n % 2 ^ 64 : ℕ) else (n % 2 ^ 64 : ℕ) - 2 ^ 64

def int64Parse (str : CString) : Except Status ℤ :=
  match intParse str with
  | .error e => .error e
  | .ok (value, negate) =>
    if negate then
      if 0 < toInt64 (2 ^ 64 - value) then .error .range else .ok (toInt64 (2 ^ 64 - value))
    else if toInt64 value < 0 then .error .range
    else .ok (toInt64 value)

def uint64Parse (str : CString) : Except Status ℤ :=
  match intParse str with
  | .error e => .error e
  | .ok (value, negate) => if negate then .error .range else .ok value

/-- `qdf_uint8_parse` and its siblings. -/
def narrowParse (parse : CString → Except Status ℤ) (cast : ℤ → ℤ) (str : CString) : Except Status ℤ :=
  match parse str with
  | .error e => .error e
  | .ok value => if cast value ≠ value then .error .range else .ok value

def int32Parse : CString → Except Status ℤ := narrowParse int64Parse fun n => n.bmod (2 ^ 32)

def uint8Parse : CString → Except Status ℤ := narrowParse uint64Parse fun n => n % 2 ^ 8

def uint16Parse : CString → Except Status ℤ := narrowParse uint64Parse fun n => n % 2 ^ 16

def uint32Parse : CString → Except Status ℤ := narrowParse uint64Parse fun n => n % 2 ^ 32

/-- A sign, and whether it is negative. -/
inductive Sign : List UInt8 → Bool → Prop where
  | none : Sign [] false
  | plus : Sign [chr '+'] false
  | minus : Sign [chr '-'] true

inductive Prefix : List UInt8 → ℕ → Prop where
  | none : Prefix [] 10
  | bin : Prefix [chr '0', chr 'b'] 2
  | oct : Prefix [chr '0', chr 'o'] 8
  | hex : Prefix [chr '0', chr 'x'] 16

def IsDigit (radix : ℕ) (c : UInt8) (d : ℕ) : Prop := hexVal c = some d ∧ d < radix

/-- Whitespace, a sign, the prefix of a radix, digits of that radix and whitespace. -/
inductive Literal : List UInt8 → Bool → ℕ → List ℕ → Prop where
  | mk {w sign pre cs w' : List UInt8} {neg : Bool} {radix : ℕ} {ds : List ℕ}
    (hw : ∀ c ∈ w, isSpace c = true) (hsign : Sign sign neg) (hpre : Prefix pre radix)
    (hds : List.Forall₂ (IsDigit radix) cs ds) (hfirst : pre = [] → ds ≠ [])
    (hw' : ∀ c ∈ w', isSpace c = true) : Literal (w ++ (sign ++ (pre ++ (cs ++ w')))) neg radix ds

section Digits

variable {radix : ℕ} {cs rest : List UInt8} {ds : List ℕ}

theorem digitsLoop_stop {v : ℕ} (h : hexVal (peek rest) = none) : digitsLoop radix rest v = .ok (v, rest) := by
  cases rest with
  | nil => rfl
  | cons c rest =>
    rw [peek_cons] at h
    simp only [digitsLoop, h]

theorem digitsLoop_digits (hds : List.Forall₂ (IsDigit radix) cs ds) (h : hexVal (peek rest) = none) (v : ℕ) :
    digitsLoop radix (cs ++ rest) v =
      match accumulate radix (2 ^ 64) ds v with
      | none => .error .range
      | some v => .ok (v, rest) := by
  induction hds generalizing v with
  | nil => exact digitsLoop_stop h
  | @cons c d cs ds hd _ ih =>
    obtain ⟨hval, hlt⟩ := hd
    simp only [cons_append, digitsLoop, hval, accumulate, if_neg (Nat.not_le.mpr hlt)]
    split_ifs
    · rfl
    · exact ih _

theorem exists_of_digitsLoop {str : List UInt8} {v v' : ℕ} (h : digitsLoop radix str v = .ok (v', rest)) :
    ∃ cs ds, str = cs ++ rest ∧ List.Forall₂ (IsDigit radix) cs ds ∧
      accumulate radix (2 ^ 64) ds v = some v' := by
  induction str generalizing v with
  | nil =>
    cases h
    exact ⟨[], [], rfl, .nil, rfl⟩
  | cons c str ih =>
    rw [digitsLoop] at h
    cases hval : hexVal c with
    | none =>
      rw [hval] at h
      cases h
      exact ⟨[], [], rfl, .nil, rfl⟩
    | some d =>
      simp only [hval] at h
      split_ifs at h with hradix hdrop
      obtain ⟨cs, ds, hstr, hds, hacc⟩ := ih h
      refine ⟨c :: cs, d :: ds, by rw [hstr]; rfl, .cons ⟨hval, Nat.lt_of_not_le hradix⟩ hds, ?_⟩
      rw [accumulate, if_neg hdrop]
      exact hacc

end Digits

section Radix

variable {sign pre rest str : List UInt8} {neg : Bool} {radix : ℕ}

theorem consumeSign_sign (h : Sign sign neg) (hplus : peek rest ≠ chr '+') (hminus : peek rest ≠ chr '-') :
    consumeSign (sign ++ rest) = (neg, rest) := by
  cases h with
  | none =>
    rw [nil_append, consumeSign, consumeChar, if_pos hminus, consumeChar, if_pos hplus]
    rfl
  | plus => rfl
  | minus => rfl

theorem exists_consumeSign (str : List UInt8) :
    ∃ sign, Sign sign (consumeSign str).1 ∧ str = sign ++ (consumeSign str).2 := by
  have hne : chr '-' ≠ 0 ∧ chr '+' ≠ 0 := by decide
  cases str with
  | nil => exact ⟨[], .none, rfl⟩
  | cons c rest =>
    by_cases hminus : c = chr '-'
    · rw [hminus]
      exact ⟨_, .minus, rfl⟩
    · have hs : consumeSign (c :: rest) = (false, (consumeChar (c :: rest) '+').getD (c :: rest)) := by
        rw [consumeSign, consumeChar, peek_cons, if_pos hminus]
      rw [hs]
      by_cases hplus : c = chr '+'
      · rw [hplus]
        exact ⟨_, .plus, rfl⟩
      · rw [consumeChar, peek_cons, if_pos hplus]
        exact ⟨_, .none, rfl⟩

theorem isDigit_ten_iff : ∀ c, chr '0' ≤ c ∧ c ≤ chr '9' ↔ ∃ d ∈ hexVal c, d < 10 := by decide +kernel

theorem consumeRadix_prefix {cs w : List UInt8} {ds : List ℕ} (hpre : Prefix pre radix)
    (hds : List.Forall₂ (IsDigit radix) cs ds) (hfirst : pre = [] → ds ≠ [])
    (hw : ∀ c ∈ w, isSpace c = true) : consumeRadix (pre ++ (cs ++ w)) = some (radix, cs ++ w) := by
  cases hpre with
  | bin => rfl
  | oct => rfl
  | hex => rfl
  | none =>
    cases hds with
    | nil => exact absurd rfl (hfirst rfl)
    | @cons c d cs ds hd hds =>
      have hdigit := (isDigit_ten_iff c).mpr ⟨d, hd.1, hd.2⟩
      -- a zero is not followed by a letter of a prefix
      have hnext : peek (cs ++ w) ≠ chr 'b' ∧ peek (cs ++ w) ≠ chr 'o' ∧ peek (cs ++ w) ≠ chr 'x' := by
        cases hds with
        | nil =>
          cases w with
          | nil => decide
          | cons c w => exact (ne_of_isSpace c (hw c mem_cons_self)).2.2.2.2
        | @cons c' d' _ _ hd' _ =>
          have hletters : ∀ c, (∃ d ∈ hexVal c, d < 10) → c ≠ chr 'b' ∧ c ≠ chr 'o' ∧ c ≠ chr 'x' := by
            decide +kernel
          exact hletters c' ⟨d', hd'.1, hd'.2⟩
      obtain ⟨hb, ho, hx⟩ := hnext
      show consumeRadix (c :: (cs ++ w)) = _
      rw [consumeRadix, peek_cons, tail_cons, if_neg hb, if_neg ho, if_neg hx, if_pos hdigit, ite_self]
      rfl

theorem exists_consumeRadix (h : consumeRadix str = some (radix, rest)) :
    ∃ pre, Prefix pre radix ∧ str = pre ++ rest ∧ (pre = [] → ∃ d, IsDigit 10 (peek rest) d) := by
  have hcons : ∀ (l : List UInt8) (c : Char), chr c ≠ 0 → peek l = chr c → l = chr c :: l.tail := by
    intro l c hc hl
    cases l with
    | nil => exact absurd hl.symm hc
    | cons a l => rw [← hl]; rfl
  rw [consumeRadix] at h
  by_cases hzero : peek str = chr '0'
  · rw [if_pos hzero] at h
    have hstr := hcons str '0' (by decide) hzero
    split_ifs at h with hb ho hx
    · obtain ⟨rfl, rfl⟩ := Prod.mk.inj (Option.some.inj h)
      refine ⟨_, .bin, ?_, nofun⟩
      rw [hstr, hcons _ 'b' (by decide) hb]
      rfl
    · obtain ⟨rfl, rfl⟩ := Prod.mk.inj (Option.some.inj h)
      refine ⟨_, .oct, ?_, nofun⟩
      rw [hstr, hcons _ 'o' (by decide) ho]
      rfl
    · obtain ⟨rfl, rfl⟩ := Prod.mk.inj (Option.some.inj h)
      refine ⟨_, .hex, ?_, nofun⟩
      rw [hstr, hcons _ 'x' (by decide) hx]
      rfl
    · obtain ⟨rfl, rfl⟩ := Prod.mk.inj (Option.some.inj h)
      refine ⟨[], .none, rfl, fun _ => ⟨0, ?_⟩⟩
      rw [hzero]
      exact ⟨by decide, by decide⟩
  · rw [if_neg hzero] at h
    split_ifs at h with hdigit
    obtain ⟨rfl, rfl⟩ := Prod.mk.inj (Option.some.inj h)
    obtain ⟨d, hd, hlt⟩ := (isDigit_ten_iff _).mp hdigit
    exact ⟨[], .none, rfl, fun _ => ⟨d, hd, hlt⟩⟩

end Radix

section Whole

variable {neg : Bool} {radix v : ℕ} {ds : List ℕ} {str : List UInt8} {s : CString}

theorem hexVal_peek_spaces {w : List UInt8} (hw : ∀ c ∈ w, isSpace c = true) : hexVal (peek w) = none := by
  cases w with
  | nil => rfl
  | cons c w => exact hexVal_of_isSpace c (hw c mem_cons_self)

theorem hexVal_peek_digits {pre cs w : List UInt8} (hpre : Prefix pre radix)
    (hds : List.Forall₂ (IsDigit radix) cs ds) (hfirst : pre = [] → ds ≠ []) :
    (hexVal (peek (pre ++ (cs ++ w)))).isSome = true := by
  cases hpre with
  | bin => rfl
  | oct => rfl
  | hex => rfl
  | none =>
    cases hds with
    | nil => exact absurd rfl (hfirst rfl)
    | cons hd _ => exact Option.isSome_of_mem hd.1

section Parts

variable {w sign pre cs w' : List UInt8}

theorem leftTrim_literal (hw : ∀ c ∈ w, isSpace c = true) (hsign : Sign sign neg) (hpre : Prefix pre radix)
    (hds : List.Forall₂ (IsDigit radix) cs ds) (hfirst : pre = [] → ds ≠ []) :
    leftTrim (w ++ (sign ++ (pre ++ (cs ++ w')))) = sign ++ (pre ++ (cs ++ w')) := by
  obtain ⟨-, -, -, -, hspace⟩ := ne_of_hexVal _ (hexVal_peek_digits (w := w') hpre hds hfirst)
  rw [leftTrim_append hw]
  refine leftTrim_eq_self ?_
  cases hsign with
  | none => exact hspace
  | plus => rfl
  | minus => rfl

theorem consumeSign_literal (hsign : Sign sign neg) (hpre : Prefix pre radix)
    (hds : List.Forall₂ (IsDigit radix) cs ds) (hfirst : pre = [] → ds ≠ []) :
    consumeSign (sign ++ (pre ++ (cs ++ w'))) = (neg, pre ++ (cs ++ w')) := by
  obtain ⟨-, hplus, hminus, -⟩ := ne_of_hexVal _ (hexVal_peek_digits (w := w') hpre hds hfirst)
  exact consumeSign_sign hsign hplus hminus

end Parts

theorem intParseLazy_literal (h : Literal str neg radix ds) : ∃ w, (∀ c ∈ w, isSpace c = true) ∧
    intParseLazy str = match accumulate radix (2 ^ 64) ds 0 with
      | none => .error .range
      | some v => .ok (v, neg, w) := by
  cases h with
  | @mk w sign pre cs w' _ _ _ hw hsign hpre hds hfirst hw' =>
    refine ⟨w', hw', ?_⟩
    simp only [intParseLazy, leftTrim_literal hw hsign hpre hds hfirst,
      consumeSign_literal hsign hpre hds hfirst, consumeRadix_prefix hpre hds hfirst hw',
      digitsLoop_digits hds (hexVal_peek_spaces hw')]
    cases accumulate radix (2 ^ 64) ds 0 with
    | none => rfl
    | some v => rfl

theorem intParse_literal (h : Literal s.bytes neg radix ds) :
    intParse s = match accumulate radix (2 ^ 64) ds 0 with
      | none => .error .range
      | some v => .ok (v, neg) := by
  obtain ⟨w, hw, hlazy⟩ := intParseLazy_literal h
  have hnil : leftTrim w = [] := by
    have htrim := leftTrim_append hw []
    rwa [append_nil] at htrim
  rw [intParse, hlazy]
  cases accumulate radix (2 ^ 64) ds 0 with
  | none => rfl
  | some v =>
    show (if peek (leftTrim w) ≠ 0 then _ else _) = _
    rw [hnil]
    rfl

theorem exists_literal (h : intParse s = .ok (v, neg)) :
    ∃ radix ds, Literal s.bytes neg radix ds ∧ accumulate radix (2 ^ 64) ds 0 = some v := by
  obtain ⟨w, hw, htrim⟩ := exists_leftTrim s.bytes
  obtain ⟨sign, hsign, hrest⟩ := exists_consumeSign (leftTrim s.bytes)
  rw [intParse, intParseLazy] at h
  cases hradix : consumeRadix (consumeSign (leftTrim s.bytes)).2 with
  | none =>
    rw [hradix] at h
    cases h
  | some p =>
    obtain ⟨radix, digits⟩ := p
    obtain ⟨pre, hpre, hdigits, hfirst⟩ := exists_consumeRadix hradix
    cases hloop : digitsLoop radix digits 0 with
    | error e =>
      simp only [hradix, hloop] at h
      cases h
    | ok q =>
      obtain ⟨v', w'⟩ := q
      obtain ⟨cs, ds, hcs, hds, hacc⟩ := exists_of_digitsLoop hloop
      simp only [hradix, hloop] at h
      split_ifs at h with hend
      obtain ⟨rfl, hneg⟩ := Prod.mk.inj (Except.ok.inj h)
      have hbytes : s.bytes = w ++ (sign ++ (pre ++ (cs ++ w'))) := by rw [← hcs, ← hdigits, ← hrest, ← htrim]
      have hnul : 0 ∉ w' := fun hmem => s.noNul (by
        rw [hbytes]
        simp only [mem_append, hmem, or_true])
      refine ⟨radix, ds, ?_, hacc⟩
      rw [hbytes, ← hneg]
      refine .mk hw hsign hpre hds ?_ ((peek_leftTrim_iff hnul).mp (not_not.mp hend))
      rintro hpre' rfl
      obtain ⟨d, hd, -⟩ := hfirst hpre'
      cases hds
      rw [hcs, nil_append, hexVal_peek_spaces ((peek_leftTrim_iff hnul).mp (not_not.mp hend))] at hd
      cases hd

/-- **What is read**: the remainder of the value of a literal, where the remainders never drop. -/
theorem intParse_eq_ok_iff : intParse s = .ok (v, neg) ↔ ∃ radix ds, Literal s.bytes neg radix ds ∧
    NeverDrops radix (2 ^ 64) ds ∧ value radix ds % 2 ^ 64 = v := by
  constructor
  · intro h
    obtain ⟨radix, ds, hlit, hacc⟩ := exists_literal h
    exact ⟨radix, ds, hlit, (accumulate_eq_some_iff ds v).mp hacc⟩
  · rintro ⟨radix, ds, hlit, hread⟩
    rw [intParse_literal hlit, (accumulate_eq_some_iff ds v).mpr hread]

theorem intParse_eq_range (h : Literal s.bytes neg radix ds) (hdrop : ¬ NeverDrops radix (2 ^ 64) ds) :
    intParse s = .error .range := by
  rw [intParse_literal h]
  cases hacc : accumulate radix (2 ^ 64) ds 0 with
  | none => rfl
  | some v => exact absurd ((accumulate_eq_some_iff ds v).mp hacc).1 hdrop

end Whole

end Qdf
