import Sm8750Modules.Qdf.IntParse

/-!
# Parsing IPv6 addresses in QDF

An address is eight groups of hexadecimal digits with colons between them, and a pair of colons
stands for groups that are zero.
-/

namespace Qdf

open Horner
open List hiding Vector

/-- The loop of `qdf_consume_hextet`. -/
def hextetLoop : ℕ → List UInt8 → ℕ → ℕ → ℕ × ℕ × List UInt8
  | 0, str, len, hextet => (len, hextet, str)
  | i + 1, str, len, hextet =>
    match consumeHex str with
    | none => (len, hextet, str)
    | some (digit, rest) => hextetLoop i rest (len + 1) ((hextet * 2 ^ 4 + digit) % 2 ^ 16)

def consumeHextet (str : List UInt8) : Option (ℕ × List UInt8) :=
  match hextetLoop 4 str 0 0 with
  | (len, hextet, rest) => if len = 0 then none else some (hextet, rest)

/-- The local variables of `qdf_ipv6_parse`; `zeroComp` is -1 before a pair of colons. -/
structure Progress where
  str : List UInt8
  addr : List UInt8
  hextetsFound : ℕ
  zeroComp : ℤ

def hextetBytes (hextet : ℕ) : List UInt8 := [(hextet >>> 8).toUInt8, hextet.toUInt8]

/-- A group goes to its place in the address. -/
def Progress.store (p : Progress) (hextet : ℕ) (str : List UInt8) : Progress :=
  { p with
    str := str
    addr := (p.addr.set (p.hextetsFound * 2) (hextet >>> 8).toUInt8).set (p.hextetsFound * 2 + 1)
      hextet.toUInt8
    hextetsFound := p.hextetsFound + 1 }

/-- The loop of `qdf_ipv6_parse`, over the groups that there is room for. -/
def ipv6Loop : ℕ → Progress → Option Progress
  | 0, p => some p
  | n + 1, p =>
    match consumeHextet p.str with
    | none => if (p.hextetsFound : ℤ) ≠ p.zeroComp then none else some p
    | some (hextet, str) =>
      match consumeChar str ':' with
      | none => some (p.store hextet str)
      | some str =>
        match consumeChar str ':' with
        | none => ipv6Loop n (p.store hextet str)
        | some str =>
          if 0 ≤ p.zeroComp then none
          else ipv6Loop n { p.store hextet str with zeroComp := (p.hextetsFound + 1 : ℕ) }

def hextetCount : ℕ := 8

/-- `qdf_mem_move` within an array. -/
def memMove (bytes : List UInt8) (dst src n : ℕ) : List UInt8 :=
  bytes.take dst ++ (bytes.drop src).take n ++ bytes.drop (dst + n)

/-- `qdf_mem_zero` within an array. -/
def memZero (bytes : List UInt8) (src n : ℕ) : List UInt8 :=
  bytes.take src ++ List.replicate n 0 ++ bytes.drop (src + n)

def applyZeroComp (addr : List UInt8) (hextets zeroCompIndex : ℕ) : List UInt8 :=
  let zeroCompSize := (hextetCount - hextets) * 2
  let bytesToMove := (hextets - zeroCompIndex) * 2
  let src := zeroCompIndex * 2
  let dst := src + zeroCompSize
  memZero (if bytesToMove ≠ 0 then memMove addr dst src bytesToMove else addr) src (dst - src)

/-- What follows the loop of `qdf_ipv6_parse`. -/
def ipv6Finish (p : Progress) (out : List UInt8) : Except Status Unit × List UInt8 :=
  if peek (leftTrim p.str) ≠ 0 then (.error .failure, out)
  else if p.hextetsFound < hextetCount then
    if p.zeroComp < 0 then (.error .failure, out)
    else (.ok (), applyZeroComp p.addr p.hextetsFound p.zeroComp.toNat)
  else if -1 < p.zeroComp then (.error .failure, out)
  else (.ok (), p.addr)

/-- What `qdf_ipv6_parse` does before its loop: a pair of colons may lead. -/
def ipv6Start (str : List UInt8) (stack : List UInt8) : Option Progress :=
  match consumeChar str ':' with
  | none => some ⟨str, stack, 0, -1⟩
  | some str =>
    match consumeChar str ':' with
    | none => none
    | some str => some ⟨str, stack, 0, 0⟩

/-- `qdf_ipv6_parse` up to the end of its loop. -/
def ipv6Scan (str : List UInt8) (stack : List UInt8) : Option Progress :=
  (ipv6Start (leftTrim str) stack).bind (ipv6Loop hextetCount)

/-- `qdf_ipv6_parse`: the status, and `*out_addr`; `stack` is what the local address holds. -/
def ipv6Parse (str : CString) (stack : Vector UInt8 16) (out : List UInt8) :
    Except Status Unit × List UInt8 :=
  match ipv6Scan str.bytes stack.toList with
  | none => (.error .failure, out)
  | some p => ipv6Finish p out

def IsHextet (cs : List UInt8) (hextet : ℕ) : Prop :=
  ∃ ds, List.Forall₂ (IsDigit 16) cs ds ∧ 1 ≤ ds.length ∧ ds.length ≤ 4 ∧ value 16 ds = hextet

def joined (gs : List (List UInt8)) : List UInt8 := List.intercalate [chr ':'] gs

/-- A string is an address, and these are its bytes. -/
inductive Address : List UInt8 → List UInt8 → Prop where
  | full {w w' : List UInt8} {gs : List (List UInt8)} {hs : List ℕ}
    (hw : ∀ c ∈ w, isSpace c = true) (hgs : List.Forall₂ IsHextet gs hs) (hlen : hs.length = hextetCount)
    (hw' : ∀ c ∈ w', isSpace c = true) : Address (w ++ (joined gs ++ w')) (hs.flatMap hextetBytes)
  | compressed {w w' : List UInt8} {gs gs' : List (List UInt8)} {hs hs' : List ℕ}
    (hw : ∀ c ∈ w, isSpace c = true) (hgs : List.Forall₂ IsHextet gs hs)
    (hgs' : List.Forall₂ IsHextet gs' hs') (hlen : hs.length + hs'.length < hextetCount)
    (hw' : ∀ c ∈ w', isSpace c = true) :
    Address (w ++ (joined gs ++ (chr ':' :: chr ':' :: (joined gs' ++ w'))))
      (hs.flatMap hextetBytes ++ List.replicate ((hextetCount - (hs.length + hs'.length)) * 2) 0 ++
        hs'.flatMap hextetBytes)

/-- Eight groups with a colon behind the last one. -/
inductive Trailing : List UInt8 → List UInt8 → Prop where
  | mk {w w' : List UInt8} {gs : List (List UInt8)} {hs : List ℕ}
    (hw : ∀ c ∈ w, isSpace c = true) (hgs : List.Forall₂ IsHextet gs hs) (hlen : hs.length = hextetCount)
    (hw' : ∀ c ∈ w', isSpace c = true) :
    Trailing (w ++ (joined gs ++ (chr ':' :: w'))) (hs.flatMap hextetBytes)

section Hextet

variable {str rest cs : List UInt8} {ds : List ℕ} {h : ℕ}

theorem hextetLoop_stop (hrest : hexVal (peek rest) = none) (i len : ℕ) :
    hextetLoop i rest len h = (len, h, rest) := by
  cases i with
  | zero => rfl
  | succ i => simp only [hextetLoop, consumeHex, hrest]

theorem hextet_step {p : List ℕ} {d : ℕ} (hp : ∀ e ∈ p, e < 16) (hd : d < 16) (hlen : p.length < 4) :
    (value 16 p * 2 ^ 4 + d) % 2 ^ 16 = value 16 (p ++ [d]) := by
  have hlt : value 16 (p ++ [d]) < 16 ^ (p ++ [d]).length := by
    refine value_lt_pow (by decide) ?_
    simp only [mem_append, mem_singleton]
    rintro e (he | rfl)
    · exact hp e he
    · exact hd
  have hpow : 16 ^ (p ++ [d]).length ≤ 16 ^ 4 := Nat.pow_le_pow_right (by decide) (by
    rw [length_append, length_singleton]
    exact hlen)
  rw [value_concat] at hlt ⊢
  exact Nat.mod_eq_of_lt (hlt.trans_le hpow)

theorem hextetLoop_digits (hds : List.Forall₂ (IsDigit 16) cs ds) (hrest : hexVal (peek rest) = none)
    (p : List ℕ) (i : ℕ) (hp : ∀ d ∈ p, d < 16) (hlen : p.length + ds.length ≤ 4) (hi : ds.length ≤ i) :
    hextetLoop i (cs ++ rest) p.length (value 16 p) = ((p ++ ds).length, value 16 (p ++ ds), rest) := by
  induction hds generalizing p i with
  | nil =>
    rw [append_nil]
    exact hextetLoop_stop hrest i p.length
  | @cons c d cs ds hd _ ih =>
    cases i with
    | zero => exact absurd hi (by simp)
    | succ i =>
      rw [length_cons] at hlen hi
      have hstep := ih (p ++ [d]) i
        (by simp only [mem_append, mem_singleton]; rintro e (he | rfl); exacts [hp e he, hd.2])
        (by rw [length_append, length_singleton]; omega) (by omega)
      rw [← append_cons, length_append, length_singleton] at hstep
      rw [cons_append, hextetLoop, consumeHex, peek_cons, hd.1]
      simp only [hextet_step hp hd.2 (by omega)]
      exact hstep

theorem exists_of_hextetLoop {p : List ℕ} {i len : ℕ} (hp : ∀ d ∈ p, d < 16) (hi : p.length + i ≤ 4)
    (hloop : hextetLoop i str p.length (value 16 p) = (len, h, rest)) :
    ∃ cs ds, str = cs ++ rest ∧ List.Forall₂ (IsDigit 16) cs ds ∧ ds.length ≤ i ∧
      len = p.length + ds.length ∧ value 16 (p ++ ds) = h := by
  induction i generalizing p str with
  | zero =>
    obtain ⟨rfl, hrest⟩ := Prod.mk.inj hloop
    obtain ⟨rfl, rfl⟩ := Prod.mk.inj hrest
    exact ⟨[], [], rfl, .nil, le_rfl, rfl, by rw [append_nil]⟩
  | succ i ih =>
    rw [hextetLoop, consumeHex] at hloop
    cases hval : hexVal (peek str) with
    | none =>
      simp only [hval] at hloop
      obtain ⟨rfl, hrest⟩ := Prod.mk.inj hloop
      obtain ⟨rfl, rfl⟩ := Prod.mk.inj hrest
      exact ⟨[], [], rfl, .nil, Nat.zero_le _, rfl, by rw [append_nil]⟩
    | some d =>
      have hd := hexVal_lt _ d hval
      simp only [hval, hextet_step hp hd (show p.length < 4 by omega)] at hloop
      cases str with
      | nil => cases hval
      | cons c str =>
        have hlen : p.length + 1 = (p ++ [d]).length := by rw [length_append, length_singleton]
        rw [hlen] at hloop
        obtain ⟨cs, ds, hstr, hds, hle, hlen', hvalue⟩ := ih (p := p ++ [d])
          (by simp only [mem_append, mem_singleton]; rintro e (he | rfl); exacts [hp e he, hd])
          (by rw [← hlen]; omega) hloop
        refine ⟨c :: cs, d :: ds, ?_, .cons ⟨hval, hd⟩ hds, by rw [length_cons]; omega, ?_, ?_⟩
        · rw [cons_append, ← hstr]
          rfl
        · rw [hlen', ← hlen, length_cons]
          omega
        · rw [append_cons]
          exact hvalue

theorem consumeHextet_hextet (hcs : IsHextet cs h) (hrest : hexVal (peek rest) = none) :
    consumeHextet (cs ++ rest) = some (h, rest) := by
  obtain ⟨ds, hds, hpos, hle, rfl⟩ := hcs
  have hloop := hextetLoop_digits hds hrest [] 4 (by simp) (by simpa using hle) hle
  rw [nil_append, length_nil, value_nil] at hloop
  simp only [consumeHextet, hloop]
  exact if_neg (by omega)

theorem exists_hextet (hsome : consumeHextet str = some (h, rest)) :
    ∃ cs, IsHextet cs h ∧ str = cs ++ rest := by
  rw [consumeHextet] at hsome
  cases hloop : hextetLoop 4 str 0 0 with
  | mk len p =>
    obtain ⟨h', rest'⟩ := p
    simp only [hloop] at hsome
    split_ifs at hsome with hlen
    obtain ⟨rfl, rfl⟩ := Prod.mk.inj (Option.some.inj hsome)
    obtain ⟨cs, ds, hstr, hds, hle, hlen', hvalue⟩ :=
      exists_of_hextetLoop (p := []) (by simp) (by simp) hloop
    rw [length_nil, Nat.zero_add] at hlen'
    exact ⟨cs, ⟨ds, hds, by omega, hle, hvalue⟩, hstr⟩

theorem consumeHextet_none (hstr : hexVal (peek str) = none) : consumeHextet str = none := by
  simp only [consumeHextet, hextetLoop_stop hstr]
  rfl

end Hextet

section Bytes

variable {done rest front back junk : List UInt8} {hs : List ℕ} {found : ℕ}

/-- Groups go to their places one after another. -/
def storeAll (addr : List UInt8) (found : ℕ) : List ℕ → List UInt8
  | [] => addr
  | hextet :: hs =>
    storeAll ((addr.set (found * 2) (hextet >>> 8).toUInt8).set (found * 2 + 1) hextet.toUInt8) (found + 1) hs

theorem length_flatMap_hextetBytes (hs : List ℕ) : (hs.flatMap hextetBytes).length = hs.length * 2 := by
  induction hs with
  | nil => rfl
  | cons h hs ih =>
    rw [flatMap_cons, length_append, ih, length_cons]
    show 2 + _ = _
    omega

theorem storeAll_append (hdone : done.length = found * 2) (hrest : hs.length * 2 ≤ rest.length) :
    storeAll (done ++ rest) found hs = done ++ hs.flatMap hextetBytes ++ rest.drop (hs.length * 2) := by
  induction hs generalizing done rest found with
  | nil =>
    rw [flatMap_nil, append_nil, length_nil, Nat.zero_mul, drop_zero]
    rfl
  | cons h hs ih =>
    rw [length_cons] at hrest
    obtain ⟨a, b, rest, rfl⟩ : ∃ a b tail, rest = a :: b :: tail := by
      match rest, hrest with
      | a :: b :: tail, _ => exact ⟨a, b, tail, rfl⟩
      | [], hrest => exact absurd hrest (by rw [length_nil]; omega)
      | [_], hrest => exact absurd hrest (by rw [length_singleton]; omega)
    have hset : ((done ++ a :: b :: rest).set (found * 2) (h >>> 8).toUInt8).set (found * 2 + 1) h.toUInt8 =
        done ++ hextetBytes h ++ rest := by
      rw [← hdone, set_append_right _ _ le_rfl, Nat.sub_self, set_cons_zero,
        set_append_right _ _ (Nat.le_add_right _ 1), Nat.add_sub_cancel_left, set_cons_succ,
        set_cons_zero, append_assoc]
      rfl
    rw [storeAll, hset, ih]
    · rw [flatMap_cons, length_cons, Nat.succ_mul]
      simp only [append_assoc, drop_succ_cons]
    · rw [length_append, hdone]
      show _ + 2 = _
      omega
    · simp only [length_cons] at hrest
      omega

/-- **What is moved**: the groups behind the pair of colons go to the end, and zeros take their place. -/
theorem applyZeroComp_eq {zc : ℕ} (hfront : front.length = zc * 2) (hback : back.length = (found - zc) * 2)
    (hjunk : junk.length = (hextetCount - found) * 2) :
    applyZeroComp (front ++ (back ++ junk)) found zc =
      front ++ List.replicate ((hextetCount - found) * 2) 0 ++ back := by
  have hmove : (if (found - zc) * 2 ≠ 0 then
      memMove (front ++ (back ++ junk)) (zc * 2 + (hextetCount - found) * 2) (zc * 2) ((found - zc) * 2)
      else front ++ (back ++ junk)) = (front ++ (back ++ junk)).take (front ++ junk).length ++ back := by
    rw [length_append, hfront, hjunk]
    split_ifs with hnone
    · rw [memMove, ← hfront, drop_left, ← hback, take_left, drop_eq_nil_of_le,
        append_nil]
      simp only [length_append]
      omega
    · have hnil : back = [] := eq_nil_of_length_eq_zero (by omega)
      rw [hnil, nil_append, append_nil, ← hfront, ← hjunk, ← length_append, take_length]
  have hlen : ((front ++ (back ++ junk)).take (front ++ junk).length).length = (front ++ junk).length := by
    rw [length_take]
    simp only [length_append]
    omega
  have hle : front.length ≤ (front ++ junk).length := by
    rw [length_append]
    exact Nat.le_add_right _ _
  have htake : ((front ++ (back ++ junk)).take (front ++ junk).length).take front.length = front := by
    rw [take_take, Nat.min_eq_left hle, take_left]
  have hsize : zc * 2 + (hextetCount - found) * 2 - zc * 2 = (hextetCount - found) * 2 := by omega
  rw [applyZeroComp]
  simp only [hmove, hsize]
  generalize (front ++ (back ++ junk)).take (front ++ junk).length = moved at hlen htake
  rw [memZero, ← hfront, take_append_of_le_length (hlen ▸ hle), htake, ← hjunk, ← length_append,
    ← hlen, drop_left]

end Bytes

end Qdf
