import Sm8750Modules.Qdf.IntExact

/-!
# Parsing arrays of integers in QDF

An array is written as its elements with commas between them. Each of the four parsers has its own range
check, and that of `qdf_int32_array_parse` is the check of `qdf_int64_parse`: what it stores is cut down to
32 bits.
-/

namespace Qdf

open List

/-- The check of the sign, as in `qdf_int64_parse`. -/
def signedCheck (value : ℕ) (negate : Bool) : Option ℤ :=
  if negate then
    if 0 < toInt64 (2 ^ 64 - value) then none else some (toInt64 (2 ^ 64 - value))
  else if toInt64 value < 0 then none
  else some (toInt64 value)

def unsignedCheck (w value : ℕ) (negate : Bool) : Option ℤ :=
  if (value : ℤ) % 2 ^ w ≠ value ∨ negate = true then none else some value

/-- The loop of the parsers: `check` is the range check and what is stored, and `room` how many elements
there is room for. -/
def arrayLoop (check : ℕ → Bool → Option ℤ) : ℕ → List UInt8 → Except Status (List ℤ)
  | 0, _ => .error .failure
  | room + 1, inStr =>
    match intParseLazy inStr with
    | .error e => .error e
    | .ok (value, negate, rest) =>
      match check value negate with
      | none => .error .range
      | some elem =>
        if peek (leftTrim rest) = chr ',' then
          match arrayLoop check room (leftTrim rest).tail with
          | .error e => .error e
          | .ok elems => .ok (elem :: elems)
        else if peek (leftTrim rest) = 0 then .ok [elem]
        else .error .failure

/-- The types that arrays of are parsed. -/
inductive ArrayKind where
  | int32
  | uint32
  | uint16
  | uint8
deriving DecidableEq

namespace ArrayKind

def check : ArrayKind → ℕ → Bool → Option ℤ
  | int32 => fun value negate => (signedCheck value negate).map fun n => n.bmod (2 ^ 32)
  | uint32 => unsignedCheck 32
  | uint16 => unsignedCheck 16
  | uint8 => unsignedCheck 8

/-- `qdf_int32_array_parse` and its siblings. -/
def parse (k : ArrayKind) (inStr : CString) (arraySize : ℕ) : Except Status (List ℤ) :=
  arrayLoop k.check arraySize inStr.bytes

/-- The type of the elements. -/
def scalar : ArrayKind → IntKind
  | int32 => .int32
  | uint32 => .uint32
  | uint16 => .uint16
  | uint8 => .uint8

end ArrayKind

/-- The elements between the commas of a string. -/
inductive Elements : List UInt8 → List CString → Prop where
  | last (e : CString) (h : chr ',' ∉ e.bytes) : Elements e.bytes [e]
  | cons (e : CString) {str : List UInt8} {es : List CString} (h : chr ',' ∉ e.bytes) (hes : Elements str es) :
    Elements (e.bytes ++ chr ',' :: str) (e :: es)

theorem exists_elements {str : List UInt8} (hnul : 0 ∉ str) : ∃ es, Elements str es := by
  obtain ⟨n, hn⟩ : ∃ n, str.length = n := ⟨_, rfl⟩
  induction n using Nat.strong_induction_on generalizing str with
  | h n ih =>
    by_cases hcomma : chr ',' ∈ str
    · obtain ⟨pre, rest, rfl, hpre⟩ := append_of_mem hcomma |> fun _ => eq_append_cons_of_mem hcomma
      rw [mem_append, not_or] at hnul
      obtain ⟨es, hes⟩ := ih rest.length (by rw [← hn]; simp; omega)
        (fun h => hnul.2 (mem_cons_of_mem _ h)) rfl
      exact ⟨_, .cons ⟨pre, hnul.1⟩ hpre hes⟩
    · exact ⟨_, .last ⟨str, hnul⟩ hcomma⟩

/-- The first element that is refused is out of range, and there is room for it. -/
def FirstOut (read : CString → Except Status ℤ) (size : ℕ) (es : List CString) : Prop :=
  ∃ as e bs, es = as ++ e :: bs ∧ as.length < size ∧ (∀ a ∈ as, ∃ v, read a = .ok v) ∧
    read e = .error .range

/-- **The array parser agrees with the one of an element**: it accepts one element or more that there is room
for and that the other accepts, stores what that one reads, and an element out of range is told. -/
structure Agrees (k : ArrayKind) (inStr : CString) (arraySize : ℕ) (es : List CString) : Prop where
  accepts : ∀ vs, k.parse inStr arraySize = .ok vs ↔ 1 ≤ es.length ∧ es.length ≤ arraySize ∧
    List.Forall₂ (fun e v => k.scalar.parse e = .ok v) es vs
  range : FirstOut k.scalar.parse arraySize es → k.parse inStr arraySize = .error .range

def readWith (check : ℕ → Bool → Option ℤ) (e : CString) : Except Status ℤ :=
  match intParseLazy e.bytes with
  | .error err => .error err
  | .ok (value, negate, rest) =>
    match check value negate with
    | none => .error .range
    | some elem => if peek (leftTrim rest) = 0 then .ok elem else .error .failure

/-! ## A comma ends what is read -/

section Comma

variable {e rest : List UInt8}

theorem leftTrim_comma (e rest : List UInt8) :
    leftTrim (e ++ chr ',' :: rest) = leftTrim e ++ chr ',' :: rest := by
  induction e with
  | nil => rfl
  | cons c e ih =>
    rw [cons_append, leftTrim, leftTrim, dropWhile_cons, dropWhile_cons]
    split_ifs
    · exact ih
    · rfl

theorem consumeChar_comma (e rest : List UInt8) {c : Char} (hc : chr c ≠ chr ',') (hnul : chr c ≠ 0) :
    consumeChar (e ++ chr ',' :: rest) c = (consumeChar e c).map (· ++ chr ',' :: rest) := by
  cases e with
  | nil => rw [nil_append, consumeChar, consumeChar, peek_cons, peek_nil, if_pos hc.symm, if_pos hnul.symm]; rfl
  | cons d e =>
    rw [cons_append, consumeChar, consumeChar, peek_cons, peek_cons]
    split_ifs <;> rfl

theorem consumeSign_comma (e rest : List UInt8) : consumeSign (e ++ chr ',' :: rest) =
    ((consumeSign e).1, (consumeSign e).2 ++ chr ',' :: rest) := by
  rw [consumeSign, consumeSign, consumeChar_comma e rest (by decide) (by decide)]
  cases consumeChar e '-' with
  | some r => rfl
  | none =>
    rw [Option.map_none]
    simp only
    rw [consumeChar_comma e rest (by decide) (by decide)]
    cases consumeChar e '+' <;> rfl

theorem consumeRadix_comma (e rest : List UInt8) : consumeRadix (e ++ chr ',' :: rest) =
    (consumeRadix e).map fun p => (p.1, p.2 ++ chr ',' :: rest) := by
  match e with
  | [] => rfl
  | [c] =>
    by_cases hzero : c = chr '0'
    · rw [hzero]
      rfl
    · have hother : ∀ t, consumeRadix (c :: t) =
          if chr '0' ≤ c ∧ c ≤ chr '9' then some (10, c :: t) else none := fun t => by
        rw [consumeRadix, if_neg (show peek (c :: t) ≠ chr '0' from hzero)]
        rfl
      rw [cons_append, hother, hother]
      split_ifs <;> rfl
  | c :: d :: e =>
    unfold consumeRadix
    split_ifs <;> first | rfl | contradiction

theorem digitsLoop_comma (radix : ℕ) (e rest : List UInt8) (v : ℕ) :
    digitsLoop radix (e ++ chr ',' :: rest) v =
      (digitsLoop radix e v).map fun p => (p.1, p.2 ++ chr ',' :: rest) := by
  induction e generalizing v with
  | nil => rfl
  | cons c e ih =>
    rw [cons_append, digitsLoop, digitsLoop]
    cases hexVal c with
    | none => rfl
    | some d =>
      simp only
      split_ifs
      · rfl
      · rfl
      · exact ih _

theorem intParseLazy_comma (e rest : List UInt8) : intParseLazy (e ++ chr ',' :: rest) =
    (intParseLazy e).map fun p => (p.1, p.2.1, p.2.2 ++ chr ',' :: rest) := by
  rw [intParseLazy, intParseLazy, leftTrim_comma, consumeSign_comma]
  simp only
  rw [consumeRadix_comma]
  cases consumeRadix (consumeSign (leftTrim e)).2 with
  | none => rfl
  | some p =>
    obtain ⟨radix, r⟩ := p
    simp only [Option.map_some]
    rw [digitsLoop_comma]
    cases digitsLoop radix r 0 <;> rfl

theorem suffix_of_intParseLazy {p : ℕ × Bool × List UInt8} (h : intParseLazy e = .ok p) : p.2.2 <:+ e := by
  obtain ⟨w, -, hw⟩ := exists_leftTrim e
  obtain ⟨sign, -, hsign⟩ := exists_consumeSign (leftTrim e)
  rw [intParseLazy] at h
  cases hradix : consumeRadix (consumeSign (leftTrim e)).2 with
  | none =>
    rw [hradix] at h
    cases h
  | some q =>
    obtain ⟨radix, r⟩ := q
    obtain ⟨pre, -, hpre, -⟩ := exists_consumeRadix hradix
    rw [hradix] at h
    simp only at h
    cases hdigits : digitsLoop radix r 0 with
    | error err =>
      rw [hdigits] at h
      cases h
    | ok q =>
      obtain ⟨v, rest⟩ := q
      obtain ⟨cs, ds, hcs, -, -⟩ := exists_of_digitsLoop hdigits
      rw [hdigits] at h
      cases h
      refine ⟨w ++ sign ++ pre ++ cs, ?_⟩
      simp only [append_assoc]
      rw [← hcs, ← hpre, ← hsign, ← hw]

end Comma

variable (check : ℕ → Bool → Option ℤ)

theorem arrayLoop_last (room : ℕ) {e : CString} (h : chr ',' ∉ e.bytes) :
    arrayLoop check (room + 1) e.bytes = match readWith check e with
      | .error err => .error err
      | .ok v => .ok [v] := by
  rw [arrayLoop, readWith]
  cases hread : intParseLazy e.bytes with
  | error err => rfl
  | ok p =>
    obtain ⟨value, negate, rest⟩ := p
    have hrest : peek (leftTrim rest) ≠ chr ',' := by
      obtain ⟨w, -, hw⟩ := exists_leftTrim rest
      have hmem : chr ',' ∉ leftTrim rest := fun hmem => h ((suffix_of_intParseLazy hread).subset
        (by rw [hw]; exact mem_append_right w hmem))
      cases htrim : leftTrim rest with
      | nil => decide
      | cons c t =>
        rintro rfl
        rw [htrim] at hmem
        exact hmem mem_cons_self
    simp only
    cases check value negate with
    | none => rfl
    | some elem =>
      simp only [if_neg hrest]
      split_ifs <;> rfl

theorem arrayLoop_cons (room : ℕ) (e : CString) {str : List UInt8}
    (h : chr ',' ∉ e.bytes) : arrayLoop check (room + 1) (e.bytes ++ chr ',' :: str) =
      match readWith check e with
      | .error err => .error err
      | .ok v => match arrayLoop check room str with
        | .error err => .error err
        | .ok vs => .ok (v :: vs) := by
  rw [arrayLoop, readWith, intParseLazy_comma]
  cases hread : intParseLazy e.bytes with
  | error err => rfl
  | ok p =>
    obtain ⟨value, negate, rest⟩ := p
    have hmem : ∀ c ∈ leftTrim rest, c ∈ e.bytes := fun c hc => by
      obtain ⟨w, -, hw⟩ := exists_leftTrim rest
      exact (suffix_of_intParseLazy hread).subset (by rw [hw]; exact mem_append_right w hc)
    simp only [Except.map, leftTrim_comma]
    cases check value negate with
    | none => rfl
    | some elem =>
      simp only
      cases htrim : leftTrim rest with
      | nil => rfl
      | cons c t =>
        have hc := hmem c (by rw [htrim]; exact mem_cons_self)
        have hne : c ≠ chr ',' := by
          rintro rfl
          exact h hc
        have hzero : c ≠ 0 := by
          rintro rfl
          exact e.noNul hc
        rw [if_neg (show peek (c :: t ++ chr ',' :: str) ≠ chr ',' from hne),
          if_neg (show peek (c :: t ++ chr ',' :: str) ≠ 0 from hzero),
          if_neg (show peek (c :: t) ≠ 0 from hzero)]

section Whole

variable {check : ℕ → Bool → Option ℤ} {str : List UInt8} {es : List CString}

theorem Elements.ne_nil (h : Elements str es) : es ≠ [] := by
  cases h with
  | last => exact cons_ne_nil _ _
  | cons => exact cons_ne_nil _ _

theorem arrayLoop_eq_ok_iff (h : Elements str es) (room : ℕ) (vs : List ℤ) :
    arrayLoop check room str = .ok vs ↔
      es.length ≤ room ∧ List.Forall₂ (fun e v => readWith check e = .ok v) es vs := by
  induction h generalizing room vs with
  | last e hcomma =>
    cases room with
    | zero => simp [arrayLoop]
    | succ room =>
      rw [arrayLoop_last check room hcomma]
      cases hread : readWith check e with
      | error err => simp [forall₂_cons_left_iff, hread]
      | ok v =>
        simp only [Except.ok.injEq, length_singleton, forall₂_cons_left_iff, hread,
          forall₂_nil_left_iff]
        constructor
        · rintro rfl
          exact ⟨by omega, v, [], rfl, rfl, rfl⟩
        · rintro ⟨-, _, _, rfl, rfl, rfl⟩
          rfl
  | @cons e str es hcomma hes ih =>
    cases room with
    | zero => simp [arrayLoop]
    | succ room =>
      rw [arrayLoop_cons check room e hcomma]
      cases hread : readWith check e with
      | error err => simp [forall₂_cons_left_iff, hread]
      | ok v =>
        simp only [length_cons, forall₂_cons_left_iff, hread, Except.ok.injEq]
        cases hloop : arrayLoop check room str with
        | error err =>
          refine iff_of_false nofun ?_
          rintro ⟨hlen, _, us, -, hus, -⟩
          rw [(ih room us).mpr ⟨by omega, hus⟩] at hloop
          cases hloop
        | ok us =>
          obtain ⟨hlen, hus⟩ := (ih room us).mp hloop
          simp only [Except.ok.injEq]
          constructor
          · rintro rfl
            exact ⟨by omega, v, us, rfl, hus, rfl⟩
          · rintro ⟨hlen', _, us', rfl, hus', rfl⟩
            have hsame := (ih room us').mpr ⟨by omega, hus'⟩
            rw [hloop] at hsame
            rw [Except.ok.inj hsame]

theorem arrayLoop_eq_range_iff (h : Elements str es) (room : ℕ) :
    arrayLoop check room str = .error .range ↔ FirstOut (readWith check) room es := by
  have hsplit : ∀ {e : CString} {es : List CString} {room : ℕ}, FirstOut (readWith check) (room + 1) (e :: es) ↔
      readWith check e = .error .range ∨
        (∃ v, readWith check e = .ok v) ∧ FirstOut (readWith check) room es := by
    intro e es room
    constructor
    · rintro ⟨as, e', bs, heq, hlen, has, he⟩
      cases as with
      | nil =>
        obtain ⟨rfl, -⟩ := List.cons.inj heq
        exact .inl he
      | cons a as =>
        obtain ⟨rfl, rfl⟩ := List.cons.inj heq
        obtain ⟨ha, has⟩ := forall_mem_cons.mp has
        exact .inr ⟨ha, as, e', bs, rfl, Nat.lt_of_succ_lt_succ hlen, has, he⟩
    · rintro (he | ⟨ha, as, e', bs, rfl, hlen, has, he⟩)
      · exact ⟨[], e, es, rfl, Nat.succ_pos _, nofun, he⟩
      · exact ⟨e :: as, e', bs, rfl, Nat.succ_lt_succ hlen, forall_mem_cons.mpr ⟨ha, has⟩, he⟩
  have hzero : ∀ es, ¬ FirstOut (readWith check) 0 es := fun es ⟨_, _, _, _, hlen, _⟩ => by omega
  induction h generalizing room with
  | last e hcomma =>
    cases room with
    | zero => exact iff_of_false nofun (hzero _)
    | succ room =>
      have hnil : ¬ FirstOut (readWith check) room [] := fun ⟨as, e, bs, heq, _⟩ => by simp at heq
      rw [arrayLoop_last check room hcomma, hsplit]
      cases hread : readWith check e with
      | error err => simp
      | ok v => simp [hnil]
  | @cons e str es hcomma hes ih =>
    cases room with
    | zero => exact iff_of_false nofun (hzero _)
    | succ room =>
      have hrest : arrayLoop check room str = .error .range ↔ FirstOut (readWith check) room es := ih room
      rw [arrayLoop_cons check room e hcomma, hsplit, ← hrest]
      cases hread : readWith check e with
      | error err => simp
      | ok v => cases hloop : arrayLoop check room str <;> simp

theorem exists_firstRefused (read : CString → Except Status ℤ) (es : List CString) :
    (∀ e ∈ es, ∃ v, read e = .ok v) ∨ ∃ as e bs err, es = as ++ e :: bs ∧
      (∀ a ∈ as, ∃ v, read a = .ok v) ∧ read e = .error err := by
  induction es with
  | nil => exact .inl nofun
  | cons e es ih =>
    cases hread : read e with
    | error err => exact .inr ⟨[], e, es, err, rfl, nofun, hread⟩
    | ok v =>
      rcases ih with hall | ⟨as, e', bs, err, rfl, has, he⟩
      · exact .inl (forall_mem_cons.mpr ⟨⟨v, hread⟩, hall⟩)
      · exact .inr ⟨e :: as, e', bs, err, rfl, forall_mem_cons.mpr ⟨⟨v, hread⟩, has⟩, he⟩

end Whole

section Checks

variable {k : ArrayKind} {e : CString} {value : ℕ} {neg : Bool} {v : ℤ}

theorem readWith_ok {check : ℕ → Bool → Option ℤ} (h : readWith check e = .ok v) :
    ∃ value neg, intParse e = .ok (value, neg) ∧ check value neg = some v := by
  rw [readWith] at h
  cases hread : intParseLazy e.bytes with
  | error err =>
    rw [hread] at h
    cases h
  | ok p =>
    obtain ⟨value, neg, rest⟩ := p
    rw [hread] at h
    simp only at h
    cases hcheck : check value neg with
    | none =>
      rw [hcheck] at h
      cases h
    | some elem =>
      rw [hcheck] at h
      simp only at h
      split_ifs at h with hend
      refine ⟨value, neg, ?_, hcheck.trans (congrArg some (Except.ok.inj h))⟩
      rw [intParse, hread]
      exact if_neg (not_not.mpr hend)

theorem readWith_of_intParse (h : intParse e = .ok (value, neg)) :
    readWith check e = match check value neg with
      | none => .error .range
      | some elem => .ok elem := by
  rw [intParse] at h
  rw [readWith]
  cases hread : intParseLazy e.bytes with
  | error err =>
    rw [hread] at h
    cases h
  | ok p =>
    obtain ⟨value', neg', rest⟩ := p
    rw [hread] at h
    simp only at h
    split_ifs at h with hend
    obtain ⟨rfl, rfl⟩ := Prod.mk.inj (Except.ok.inj h)
    simp only [if_pos (not_not.mp hend)]

theorem int64Parse_eq (h : intParse e = .ok (value, neg)) : int64Parse e =
    match signedCheck value neg with
      | none => .error .range
      | some z => .ok z := by
  rw [int64Parse, h, signedCheck]
  cases neg with
  | true =>
    show (if _ then _ else _) = _
    split_ifs <;> simp_all
  | false =>
    show (if _ then _ else _) = _
    split_ifs <;> simp_all

theorem lt_of_intParse (h : intParse e = .ok (value, neg)) : value < 2 ^ 64 := by
  obtain ⟨radix, ds, -, -, rfl⟩ := intParse_eq_ok_iff.mp h
  exact Nat.mod_lt _ (by decide)

theorem unsigned_iff (w value : ℕ) : (value : ℤ) % 2 ^ w = value ↔ value < 2 ^ w := by
  rw [← Nat.mod_eq_iff_lt (by positivity : 2 ^ w ≠ 0)]
  exact_mod_cast Iff.rfl

theorem unsignedCheck_pos {w : ℕ} (h : neg = false ∧ value < 2 ^ w) :
    unsignedCheck w value neg = some (signedValue neg value) := by
  obtain ⟨rfl, hlt⟩ := h
  exact if_neg (not_or.mpr ⟨not_not.mpr ((unsigned_iff w value).mpr hlt), nofun⟩)

theorem unsignedCheck_neg {w : ℕ} (h : ¬ (neg = false ∧ value < 2 ^ w)) :
    unsignedCheck w value neg = none := by
  refine if_pos ?_
  rw [not_and_or, Bool.not_eq_false] at h
  exact h.symm.imp_left fun hlt => mt (unsigned_iff w value).mp hlt

theorem check_unsigned (hk : k ≠ .int32) (h : intParse e = .ok (value, neg)) :
    k.scalar.parse e = match k.check value neg with
      | none => .error .range
      | some z => .ok z := by
  rw [parse_ok k.scalar h (lt_of_intParse h)]
  by_cases hfits : k.scalar.Fits neg value
  · have hcheck : k.check value neg = some (signedValue neg value) := by
      cases k with
      | int32 => exact absurd rfl hk
      | uint32 | uint16 | uint8 => exact unsignedCheck_pos hfits
    rw [if_pos hfits, hcheck]
  · have hcheck : k.check value neg = none := by
      cases k with
      | int32 => exact absurd rfl hk
      | uint32 | uint16 | uint8 => exact unsignedCheck_neg hfits
    rw [if_neg hfits, hcheck]

theorem read_of_scalar (h : k.scalar.parse e = .ok v) : readWith k.check e = .ok v := by
  cases hread : intParse e with
  | error err =>
    rw [parse_error _ hread] at h
    cases h
  | ok p =>
    obtain ⟨value, neg⟩ := p
    rw [readWith_of_intParse k.check hread]
    by_cases hk : k = .int32
    · subst hk
      have h32 : narrowParse int64Parse (fun n => n.bmod (2 ^ 32)) e = .ok v := h
      rw [narrowParse, int64Parse_eq hread] at h32
      cases hcheck : signedCheck value neg with
      | none =>
        rw [hcheck] at h32
        cases h32
      | some z =>
        rw [hcheck] at h32
        simp only at h32
        split_ifs at h32 with hz
        rw [show ArrayKind.int32.check value neg = some (z.bmod (2 ^ 32)) from
            congrArg (Option.map fun n : ℤ => n.bmod (2 ^ 32)) hcheck,
          not_not.mp hz, ← Except.ok.inj h32]
    · exact (check_unsigned hk hread).symm.trans h

theorem scalar_of_read (h : readWith k.check e = .ok v) :
    k.scalar.parse e = .ok v ∨ k.scalar.parse e = .error .range := by
  obtain ⟨value, neg, hread, -⟩ := readWith_ok h
  have hscalar := parse_ok k.scalar hread (lt_of_intParse hread)
  by_cases hfits : k.scalar.Fits neg value
  · rw [if_pos hfits] at hscalar
    rw [read_of_scalar hscalar] at h
    exact .inl (hscalar.trans h)
  · rw [if_neg hfits] at hscalar
    exact .inr hscalar

theorem read_range_of_unsigned (hk : k ≠ .int32) (h : k.scalar.parse e = .error .range) :
    readWith k.check e = .error .range := by
  cases hread : intParse e with
  | ok p =>
    obtain ⟨value, neg⟩ := p
    rw [readWith_of_intParse k.check hread]
    exact (check_unsigned hk hread).symm.trans h
  | error err =>
    rw [parse_error _ hread] at h
    cases h
    -- no character after the number is out of range
    rw [intParse] at hread
    rw [readWith]
    cases hlazy : intParseLazy e.bytes with
    | error err =>
      rw [hlazy] at hread
      cases hread
      rfl
    | ok p =>
      obtain ⟨value, neg, rest⟩ := p
      rw [hlazy] at hread
      simp only at hread
      split_ifs at hread
      cases hread

end Checks

section Agreement

variable {k : ArrayKind} {inStr : CString} {es : List CString} {arraySize : ℕ}

theorem FirstOut.mono {read read' : CString → Except Status ℤ}
    (hok : ∀ e v, read e = .ok v → read' e = .ok v)
    (hout : ∀ e, read e = .error .range → read' e = .error .range) (h : FirstOut read arraySize es) :
    FirstOut read' arraySize es := by
  obtain ⟨as, e, bs, heq, hlen, has, he⟩ := h
  exact ⟨as, e, bs, heq, hlen, fun a ha => (has a ha).imp fun v hv => hok a v hv, hout e he⟩

/-- A number that does not fit 64 bits is reached: there is room for it, and each element before it is read
by `qdf_int64_parse`. -/
def ReachesTooLong (arraySize : ℕ) (es : List CString) : Prop :=
  ∃ as e bs, es = as ++ e :: bs ∧ as.length < arraySize ∧ (∀ a ∈ as, ∃ v, int64Parse a = .ok v) ∧
    (intParseLazy e.bytes = .error .range ∨
      ∃ p, intParseLazy e.bytes = .ok p ∧ signedCheck p.1 p.2.1 = none)

theorem read_iff_int64 {e : CString} :
    (∃ v, readWith ArrayKind.int32.check e = .ok v) ↔ ∃ v, int64Parse e = .ok v := by
  cases hread : intParse e with
  | error err =>
    refine iff_of_false (fun ⟨v, hv⟩ => ?_) (fun ⟨v, hv⟩ => ?_)
    · obtain ⟨value, neg, hok, -⟩ := readWith_ok hv
      rw [hread] at hok
      cases hok
    · rw [int64Parse, hread] at hv
      cases hv
  | ok p =>
    obtain ⟨value, neg⟩ := p
    rw [readWith_of_intParse _ hread, int64Parse_eq hread, ArrayKind.check]
    cases hcheck : signedCheck value neg <;> simp [hcheck]

theorem read_range_iff {e : CString} : readWith ArrayKind.int32.check e = .error .range ↔
    intParseLazy e.bytes = .error .range ∨ ∃ p, intParseLazy e.bytes = .ok p ∧ signedCheck p.1 p.2.1 = none := by
  rw [readWith]
  cases intParseLazy e.bytes with
  | error err => simp
  | ok p =>
    obtain ⟨value, neg, rest⟩ := p
    simp only [ArrayKind.check, Except.ok.injEq, exists_eq_left']
    cases signedCheck value neg with
    | none => simp
    | some z =>
      simp only [Option.map_some]
      split_ifs <;> simp

theorem firstOut_iff : FirstOut (readWith ArrayKind.int32.check) arraySize es ↔ ReachesTooLong arraySize es := by
  unfold FirstOut ReachesTooLong
  simp only [read_iff_int64, read_range_iff]

end Agreement

end Qdf
