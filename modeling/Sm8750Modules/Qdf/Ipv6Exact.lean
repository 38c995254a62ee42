import Sm8750Modules.Qdf.Ipv6Parse

/-!
# Parsing IPv6 addresses in QDF — what is accepted

The loop takes the colon behind a group before it knows whether there is room for another one, and is left
with it when there is none: eight groups are accepted also with a colon behind the last one.
-/

namespace Qdf

open Horner
open List hiding Vector

/-! ## What the loop does -/

variable (addr : List UInt8)

section Loop

variable {g rest str addr : List UInt8} {gs : List (List UInt8)} {h n f : ℕ} {hs : List ℕ} {zc : ℤ}

theorem consumeChar_colon (rest : List UInt8) : consumeChar (chr ':' :: rest) ':' = some rest := rfl

theorem hexVal_colon (rest : List UInt8) : hexVal (peek (chr ':' :: rest)) = none := by
  rw [peek_cons]
  decide

theorem isSpace_colon (rest : List UInt8) : isSpace (peek (chr ':' :: rest)) = false := by
  rw [peek_cons]
  decide

theorem consumeChar_of_ne {c : Char} (hne : peek rest ≠ chr c) : consumeChar rest c = none := if_pos hne

theorem eq_cons_of_consumeChar (hsome : consumeChar str ':' = some rest) : str = chr ':' :: rest := by
  rw [consumeChar] at hsome
  split_ifs at hsome with hne
  rw [not_ne_iff] at hne
  cases str with
  | nil => exact absurd hne (by decide)
  | cons c str =>
    rw [peek_cons] at hne
    rw [hne, ← Option.some.inj hsome]
    rfl

theorem IsHextet.peek (hg : IsHextet g h) (rest : List UInt8) : (hexVal (peek (g ++ rest))).isSome = true := by
  obtain ⟨ds, hds, hpos, -⟩ := hg
  cases hds with
  | nil => exact absurd hpos (by decide)
  | cons hd _ => exact Option.isSome_of_mem hd.1

theorem joined_cons_cons (g g' : List UInt8) (gs : List (List UInt8)) :
    joined (g :: g' :: gs) = g ++ (chr ':' :: joined (g' :: gs)) := rfl

theorem joined_singleton (g : List UInt8) : joined [g] = g := append_nil g

theorem peek_joined (hgs : List.Forall₂ IsHextet gs hs) (hne : gs ≠ []) (rest : List UInt8) :
    (hexVal (peek (joined gs ++ rest))).isSome = true := by
  cases hgs with
  | nil => exact absurd rfl hne
  | @cons g h gs hs hg hgs =>
    cases gs with
    | nil =>
      rw [joined_singleton]
      exact hg.peek rest
    | cons g' gs =>
      rw [joined_cons_cons, append_assoc]
      exact hg.peek _

theorem storeAll_concat (f : ℕ) (hs : List ℕ) (h : ℕ) :
    storeAll addr f (hs ++ [h]) = storeAll (storeAll addr f hs) (f + hs.length) [h] := by
  induction hs generalizing addr f with
  | nil => rfl
  | cons h' hs ih =>
    rw [cons_append, storeAll, ih, length_cons, Nat.add_right_comm, Nat.add_assoc]
    rfl

theorem ipv6Loop_hextet (hg : IsHextet g h) (hrest : hexVal (peek rest) = none) :
    ipv6Loop (n + 1) ⟨g ++ rest, addr, f, zc⟩ =
      match consumeChar rest ':' with
      | none => some ⟨rest, storeAll addr f [h], f + 1, zc⟩
      | some str =>
        match consumeChar str ':' with
        | none => ipv6Loop n ⟨str, storeAll addr f [h], f + 1, zc⟩
        | some str =>
          if 0 ≤ zc then none else ipv6Loop n ⟨str, storeAll addr f [h], f + 1, (f + 1 : ℕ)⟩ := by
  simp only [ipv6Loop, consumeHextet_hextet hg hrest]
  rfl

theorem ipv6Loop_colon (hg : IsHextet g h) (hrest : peek rest ≠ chr ':') :
    ipv6Loop (n + 1) ⟨g ++ (chr ':' :: rest), addr, f, zc⟩ =
      ipv6Loop n ⟨rest, storeAll addr f [h], f + 1, zc⟩ := by
  rw [ipv6Loop_hextet hg (hexVal_colon _)]
  simp only [consumeChar_colon, consumeChar_of_ne hrest]

section

variable (hgs : List.Forall₂ IsHextet gs hs)
include hgs

theorem ipv6Loop_last (hne : gs ≠ []) :
    ∃ g h hs₀, IsHextet g h ∧ hs = hs₀ ++ [h] ∧ ∀ tail n addr f zc,
      ipv6Loop (hs₀.length + n) ⟨joined gs ++ tail, addr, f, zc⟩ =
        ipv6Loop n ⟨g ++ tail, storeAll addr f hs₀, f + hs₀.length, zc⟩ := by
  induction hgs with
  | nil => exact absurd rfl hne
  | @cons g h gs hs hg hgs ih =>
    cases hgs with
    | nil =>
      refine ⟨g, h, [], hg, rfl, fun tail n addr f zc => ?_⟩
      rw [joined_singleton, length_nil, Nat.zero_add]
      rfl
    | @cons g' h' gs hs hg' hgs =>
      obtain ⟨gl, hl, hs₀, hgl, heq, hloop⟩ := ih (cons_ne_nil _ _)
      refine ⟨gl, hl, h :: hs₀, hgl, by rw [heq]; rfl, fun tail n addr f zc => ?_⟩
      have hpeek := peek_joined (.cons hg' hgs) (cons_ne_nil _ _) tail
      rw [joined_cons_cons, append_assoc, cons_append, length_cons, Nat.add_right_comm,
        ipv6Loop_colon hg (ne_of_hexVal _ hpeek).2.2.2.1, hloop, Nat.add_right_comm, Nat.add_assoc f]
      rfl

theorem ipv6Loop_joined (hne : gs ≠ []) (hlen : hs.length ≤ n)
    (hhex : hexVal (peek rest) = none) (hcolon : peek rest ≠ chr ':') :
    ipv6Loop n ⟨joined gs ++ rest, addr, f, zc⟩ = some ⟨rest, storeAll addr f hs, f + hs.length, zc⟩ := by
  obtain ⟨g, h, hs₀, hg, rfl, hloop⟩ := ipv6Loop_last hgs hne
  rw [length_append, length_singleton] at hlen ⊢
  obtain ⟨k, rfl⟩ := Nat.exists_eq_add_of_le hlen
  rw [Nat.add_assoc, Nat.add_comm 1 k, hloop, ipv6Loop_hextet hg hhex, consumeChar_of_ne hcolon,
    storeAll_concat]
  rfl

theorem ipv6Loop_compressed (hne : gs ≠ []) (hlen : hs.length ≤ n)
    (hzc : zc < 0) :
    ipv6Loop n ⟨joined gs ++ (chr ':' :: chr ':' :: rest), addr, f, zc⟩ =
      ipv6Loop (n - hs.length) ⟨rest, storeAll addr f hs, f + hs.length, (f + hs.length : ℕ)⟩ := by
  obtain ⟨g, h, hs₀, hg, rfl, hloop⟩ := ipv6Loop_last hgs hne
  rw [length_append, length_singleton] at hlen ⊢
  obtain ⟨k, rfl⟩ := Nat.exists_eq_add_of_le hlen
  rw [Nat.add_assoc, Nat.add_comm 1 k, hloop, ipv6Loop_hextet hg (hexVal_colon _),
    consumeChar_colon, storeAll_concat, show hs₀.length + (k + 1) - (hs₀.length + 1) = k by omega]
  exact if_neg (Int.not_le.mpr hzc)

theorem ipv6Loop_trailing (hne : gs ≠ []) (hcolon : peek rest ≠ chr ':') :
    ipv6Loop hs.length ⟨joined gs ++ (chr ':' :: rest), addr, f, zc⟩ =
      some ⟨rest, storeAll addr f hs, f + hs.length, zc⟩ := by
  obtain ⟨g, h, hs₀, hg, rfl, hloop⟩ := ipv6Loop_last hgs hne
  rw [length_append, length_singleton, hloop, ipv6Loop_colon hg hcolon, storeAll_concat]
  rfl

end

theorem ipv6Loop_none (hrest : hexVal (peek rest) = none) (hzc : (f : ℤ) = zc) :
    ipv6Loop n ⟨rest, addr, f, zc⟩ = some ⟨rest, addr, f, zc⟩ := by
  cases n with
  | zero => rfl
  | succ n =>
    simp only [ipv6Loop, consumeHextet_none hrest]
    exact if_neg (not_not.mpr hzc)

theorem joined_cons (g : List UInt8) (hne : gs ≠ []) : joined (g :: gs) = g ++ (chr ':' :: joined gs) := by
  cases gs with
  | nil => exact absurd rfl hne
  | cons g' gs => exact joined_cons_cons g g' gs

structure Reads (p q : Progress) (hs : List ℕ) : Prop where
  addr : q.addr = storeAll p.addr p.hextetsFound hs
  hextetsFound : q.hextetsFound = p.hextetsFound + hs.length
  zeroComp : q.zeroComp = p.zeroComp

theorem Reads.eq {p q : Progress} (hr : Reads p q hs) :
    q = ⟨q.str, storeAll p.addr p.hextetsFound hs, p.hextetsFound + hs.length, p.zeroComp⟩ := by
  rw [← hr.addr, ← hr.hextetsFound, ← hr.zeroComp]

theorem Reads.cons {p q : Progress} (hr : Reads (p.store h str) q hs) : Reads p q (h :: hs) := by
  obtain ⟨haddr, hfound, hzc⟩ := hr
  refine ⟨haddr, ?_, hzc⟩
  rw [hfound, length_cons, Nat.add_comm hs.length 1, ← Nat.add_assoc]
  rfl

/-- **What the loop has read**: groups, or as many as there is room for and a colon, or groups and a pair of
colons, from where it goes on. -/
theorem exists_of_ipv6Loop {p q : Progress} (hloop : ipv6Loop n p = some q)
    (hzc : p.zeroComp ≤ p.hextetsFound) : ∃ gs hs, List.Forall₂ IsHextet gs hs ∧
      ((p.str = joined gs ++ q.str ∧ hs.length ≤ n ∧ Reads p q hs ∧
          (gs = [] → n = 0 ∨ (p.hextetsFound : ℤ) = p.zeroComp)) ∨
        (gs ≠ [] ∧ p.str = joined gs ++ (chr ':' :: q.str) ∧ hs.length = n ∧ Reads p q hs) ∨
        (gs ≠ [] ∧ hs.length ≤ n ∧ p.zeroComp < 0 ∧ ∃ r, Reads p { r with zeroComp := p.zeroComp } hs ∧
          r.zeroComp = r.hextetsFound ∧ p.str = joined gs ++ (chr ':' :: chr ':' :: r.str) ∧
          ipv6Loop (n - hs.length) r = some q)) := by
  induction n generalizing p with
  | zero =>
    obtain rfl := Option.some.inj hloop
    exact ⟨[], [], .nil, .inl ⟨rfl, le_rfl, ⟨rfl, rfl, rfl⟩, fun _ => .inl rfl⟩⟩
  | succ n ih =>
    rw [ipv6Loop] at hloop
    cases hsome : consumeHextet p.str with
    | none =>
      simp only [hsome] at hloop
      split_ifs at hloop with hne
      obtain rfl := Option.some.inj hloop
      exact ⟨[], [], .nil, .inl ⟨rfl, Nat.zero_le _, ⟨rfl, rfl, rfl⟩, fun _ => .inr (not_not.mp hne)⟩⟩
    | some r =>
      obtain ⟨h, str⟩ := r
      obtain ⟨g, hg, hstr⟩ := exists_hextet hsome
      simp only [hsome] at hloop
      cases hcolon : consumeChar str ':' with
      | none =>
        simp only [hcolon] at hloop
        obtain rfl := Option.some.inj hloop
        refine ⟨[g], [h], .cons hg .nil, .inl ⟨?_, by simp, ⟨rfl, rfl, rfl⟩, nofun⟩⟩
        rw [joined_singleton]
        exact hstr
      | some str' =>
        simp only [hcolon] at hloop
        rw [eq_cons_of_consumeChar hcolon] at hstr
        cases hpair : consumeChar str' ':' with
        | none =>
          simp only [hpair] at hloop
          obtain ⟨gs, hs, hgs, hread⟩ := ih hloop (hzc.trans (by simp [Progress.store]))
          change (str' = joined gs ++ q.str ∧ _ ∧ _ ∧ (_ → n = 0 ∨ ((p.hextetsFound + 1 : ℕ) : ℤ) = p.zeroComp)) ∨
            (_ ∧ str' = _ ∧ _) ∨ (_ ∧ _ ∧ p.zeroComp < 0 ∧ _) at hread
          rcases hread with ⟨hstr', hlen, hreads, hnone⟩ | ⟨hne, hstr', hlen, hreads⟩ |
            ⟨hne, hlen, hneg, r, hreads, hr, hstr', hrest⟩
          · by_cases hnil : gs = []
            · -- the colon is behind the last group that there is room for
              have hn : n = 0 := (hnone hnil).resolve_right (by omega)
              subst hnil
              cases hgs
              refine ⟨[g], [h], .cons hg .nil, .inr (.inl ⟨nofun, ?_, by rw [hn]; rfl, hreads.cons⟩)⟩
              rw [hstr, hstr', joined_singleton]
              rfl
            · refine ⟨g :: gs, h :: hs, .cons hg hgs,
                .inl ⟨?_, Nat.succ_le_succ hlen, hreads.cons, nofun⟩⟩
              rw [hstr, hstr', joined_cons g hnil, append_assoc, cons_append]
          · refine ⟨g :: gs, h :: hs, .cons hg hgs,
              .inr (.inl ⟨nofun, ?_, congrArg Nat.succ hlen, hreads.cons⟩)⟩
            rw [hstr, hstr', joined_cons g hne, append_assoc, cons_append]
          · refine ⟨g :: gs, h :: hs, .cons hg hgs,
              .inr (.inr ⟨nofun, Nat.succ_le_succ hlen, hneg, r, hreads.cons, hr, ?_, ?_⟩)⟩
            · rw [hstr, show str' = _ from hstr', joined_cons g hne, append_assoc, cons_append]
            · rw [length_cons, Nat.succ_sub_succ]
              exact hrest
        | some str'' =>
          simp only [hpair] at hloop
          split_ifs at hloop with hsecond
          rw [eq_cons_of_consumeChar hpair] at hstr
          refine ⟨[g], [h], .cons hg .nil, .inr (.inr ⟨nofun, by simp, Int.not_le.mp hsecond,
            { p.store h str'' with zeroComp := (p.hextetsFound + 1 : ℕ) }, ⟨rfl, rfl, rfl⟩, rfl, ?_, hloop⟩)⟩
          rw [joined_singleton]
          exact hstr

end Loop

/-! ## The whole string -/

section Scan

variable {str w w' addr stack : List UInt8} {gs gs' : List (List UInt8)} {hs hs' : List ℕ} {n f : ℕ}

theorem peek_spaces_ne (hw : ∀ c ∈ w, isSpace c = true) : peek w ≠ chr ':' := by
  cases w with
  | nil => decide
  | cons c w => exact (ne_of_isSpace c (hw c mem_cons_self)).2.2.2.1

theorem ipv6Loop_behind (hgs : List.Forall₂ IsHextet gs hs) (hlen : hs.length ≤ n)
    (hw : ∀ c ∈ w, isSpace c = true) :
    ipv6Loop n ⟨joined gs ++ w, addr, f, f⟩ = some ⟨w, storeAll addr f hs, f + hs.length, f⟩ := by
  by_cases hnil : gs = []
  · subst hnil
    cases hgs
    exact ipv6Loop_none (hexVal_peek_spaces hw) rfl
  · exact ipv6Loop_joined hgs hnil hlen (hexVal_peek_spaces hw) (peek_spaces_ne hw)

theorem ipv6Scan_joined (hw : ∀ c ∈ w, isSpace c = true) (hgs : List.Forall₂ IsHextet gs hs) (hne : gs ≠ [])
    (tail : List UInt8) :
    ipv6Scan (w ++ (joined gs ++ tail)) stack = ipv6Loop hextetCount ⟨joined gs ++ tail, stack, 0, -1⟩ := by
  obtain ⟨-, -, -, hcolon, hspace⟩ := ne_of_hexVal _ (peek_joined hgs hne tail)
  rw [ipv6Scan, leftTrim_append hw, leftTrim_eq_self hspace, ipv6Start, consumeChar_of_ne hcolon]
  rfl

theorem ne_nil_of_length (hgs : List.Forall₂ IsHextet gs hs) (hlen : hs.length = hextetCount) : gs ≠ [] := by
  rintro rfl
  cases hgs
  exact absurd hlen (by decide)

theorem ipv6Scan_full (hw : ∀ c ∈ w, isSpace c = true) (hgs : List.Forall₂ IsHextet gs hs)
    (hlen : hs.length = hextetCount) (hw' : ∀ c ∈ w', isSpace c = true) :
    ipv6Scan (w ++ (joined gs ++ w')) stack = some ⟨w', storeAll stack 0 hs, hextetCount, -1⟩ := by
  have hne := ne_nil_of_length hgs hlen
  rw [ipv6Scan_joined hw hgs hne,
    ipv6Loop_joined hgs hne hlen.le (hexVal_peek_spaces hw') (peek_spaces_ne hw'), hlen, Nat.zero_add]

theorem ipv6Scan_trailing (hw : ∀ c ∈ w, isSpace c = true) (hgs : List.Forall₂ IsHextet gs hs)
    (hlen : hs.length = hextetCount) (hw' : ∀ c ∈ w', isSpace c = true) :
    ipv6Scan (w ++ (joined gs ++ (chr ':' :: w'))) stack =
      some ⟨w', storeAll stack 0 hs, hextetCount, -1⟩ := by
  have hne := ne_nil_of_length hgs hlen
  rw [ipv6Scan_joined hw hgs hne, ← hlen, ipv6Loop_trailing hgs hne (peek_spaces_ne hw'), Nat.zero_add]

theorem ipv6Scan_compressed (hw : ∀ c ∈ w, isSpace c = true) (hgs : List.Forall₂ IsHextet gs hs)
    (hgs' : List.Forall₂ IsHextet gs' hs') (hlen : hs.length + hs'.length < hextetCount)
    (hw' : ∀ c ∈ w', isSpace c = true) :
    ipv6Scan (w ++ (joined gs ++ (chr ':' :: chr ':' :: (joined gs' ++ w')))) stack =
      some ⟨w', storeAll (storeAll stack 0 hs) hs.length hs', hs.length + hs'.length, hs.length⟩ := by
  by_cases hnil : gs = []
  · subst hnil
    cases hgs
    show ipv6Scan (w ++ (chr ':' :: chr ':' :: (joined gs' ++ w'))) stack = _
    rw [ipv6Scan, leftTrim_append hw, leftTrim_eq_self (isSpace_colon _)]
    show ipv6Loop hextetCount ⟨joined gs' ++ w', stack, 0, (0 : ℕ)⟩ = _
    rw [length_nil, Nat.zero_add] at hlen
    exact ipv6Loop_behind hgs' hlen.le hw'
  · rw [ipv6Scan_joined hw hgs hnil, ipv6Loop_compressed hgs hnil (by omega) (by decide), Nat.zero_add,
      ipv6Loop_behind hgs' (by omega) hw']

theorem exists_of_ipv6Loop_behind {p q : Progress} (hloop : ipv6Loop (hextetCount - f) p = some q)
    (hf : f ≤ hextetCount) (hfound : p.hextetsFound = f) (hzc : p.zeroComp = f) :
    (∃ gs hs, List.Forall₂ IsHextet gs hs ∧ p.str = joined gs ++ q.str ∧
        q = ⟨q.str, storeAll p.addr f hs, f + hs.length, f⟩) ∨
      (hextetCount ≤ q.hextetsFound ∧ 0 ≤ q.zeroComp) := by
  obtain ⟨gs, hs, hgs, hread⟩ := exists_of_ipv6Loop hloop (by rw [hfound, hzc])
  rcases hread with ⟨hstr, -, hreads, -⟩ | ⟨-, -, hlen, hreads⟩ | ⟨-, -, hneg, -⟩
  · have heq := hreads.eq
    rw [hfound, hzc] at heq
    exact .inl ⟨gs, hs, hgs, hstr, heq⟩
  · right
    rw [hreads.hextetsFound, hreads.zeroComp, hfound, hzc, hlen]
    omega
  · omega

theorem exists_of_ipv6Scan {q : Progress} (hscan : ipv6Scan str stack = some q) :
    ∃ w gs hs, (∀ c ∈ w, isSpace c = true) ∧ List.Forall₂ IsHextet gs hs ∧
      ((str = w ++ (joined gs ++ q.str) ∧ hs.length ≤ hextetCount ∧
          q = ⟨q.str, storeAll stack 0 hs, hs.length, -1⟩) ∨
        (str = w ++ (joined gs ++ (chr ':' :: q.str)) ∧ hs.length = hextetCount ∧
          q = ⟨q.str, storeAll stack 0 hs, hs.length, -1⟩) ∨
        (∃ gs' hs', List.Forall₂ IsHextet gs' hs' ∧
          str = w ++ (joined gs ++ (chr ':' :: chr ':' :: (joined gs' ++ q.str))) ∧
          q = ⟨q.str, storeAll (storeAll stack 0 hs) hs.length hs', hs.length + hs'.length, hs.length⟩) ∨
        (hextetCount ≤ q.hextetsFound ∧ 0 ≤ q.zeroComp)) := by
  obtain ⟨w, hw, hstr⟩ := exists_leftTrim str
  rw [ipv6Scan, ipv6Start] at hscan
  cases hfirst : consumeChar (leftTrim str) ':' with
  | none =>
    rw [hfirst] at hscan
    obtain ⟨gs, hs, hgs, hread⟩ := exists_of_ipv6Loop (p := ⟨leftTrim str, stack, 0, -1⟩) hscan
      (show (-1 : ℤ) ≤ (0 : ℕ) by decide)
    rcases hread with ⟨hgroups, hlen, hreads, -⟩ | ⟨hne, hgroups, hlen, hreads⟩ |
      ⟨hne, hlen, -, r, hreads, hr, hgroups, hrest⟩
    · have heq := hreads.eq
      rw [Nat.zero_add] at heq
      exact ⟨w, gs, hs, hw, hgs, .inl ⟨hstr.trans (congrArg (w ++ ·) hgroups), hlen, heq⟩⟩
    · have heq := hreads.eq
      rw [Nat.zero_add] at heq
      exact ⟨w, gs, hs, hw, hgs, .inr (.inl ⟨hstr.trans (congrArg (w ++ ·) hgroups), hlen, heq⟩)⟩
    · have hfound : r.hextetsFound = hs.length := hreads.hextetsFound.trans (Nat.zero_add _)
      have haddr : r.addr = storeAll stack 0 hs := hreads.addr
      refine ⟨w, gs, hs, hw, hgs, .inr (.inr ?_)⟩
      rcases exists_of_ipv6Loop_behind hrest hlen hfound (by rw [hr, hfound]) with
        ⟨gs', hs', hgs', hbehind, heq⟩ | hfull
      · rw [haddr] at heq
        rw [hbehind] at hgroups
        exact .inl ⟨gs', hs', hgs', hstr.trans (congrArg (w ++ ·) hgroups), heq⟩
      · exact .inr hfull
  | some rest =>
    cases hsecond : consumeChar rest ':' with
    | none =>
      rw [hfirst] at hscan
      simp only [hsecond] at hscan
      cases hscan
    | some rest' =>
      rw [hfirst] at hscan
      simp only [hsecond] at hscan
      have hcolons : leftTrim str = chr ':' :: chr ':' :: rest' := by
        rw [eq_cons_of_consumeChar hfirst, eq_cons_of_consumeChar hsecond]
      refine ⟨w, [], [], hw, .nil, .inr (.inr ?_)⟩
      rcases exists_of_ipv6Loop_behind (f := 0) (p := ⟨rest', stack, 0, 0⟩) hscan (by decide) rfl rfl with
        ⟨gs', hs', hgs', hbehind, heq⟩ | hfull
      · refine .inl ⟨gs', hs', hgs', hstr.trans ?_, heq⟩
        rw [hcolons, show rest' = _ from hbehind]
        rfl
      · exact .inr hfull

end Scan

section Accepted

variable {w w' out : List UInt8} {gs gs' : List (List UInt8)} {hs hs' : List ℕ} {s : CString}
  {stack : Vector UInt8 16} {bytes : List UInt8}

theorem leftTrim_spaces (hw : ∀ c ∈ w, isSpace c = true) : leftTrim w = [] := by
  have htrim := leftTrim_append hw []
  rwa [append_nil] at htrim

theorem storeAll_stack (hlen : hs.length ≤ hextetCount) : storeAll stack.toList 0 hs =
    hs.flatMap hextetBytes ++ stack.toList.drop (hs.length * 2) := by
  have hstore : storeAll ([] ++ stack.toList) 0 hs =
      [] ++ hs.flatMap hextetBytes ++ stack.toList.drop (hs.length * 2) := by
    refine storeAll_append rfl ?_
    rw [Vector.length_toList]
    change hs.length ≤ 8 at hlen
    omega
  rwa [nil_append, nil_append] at hstore

theorem ipv6Finish_full (hlen : hs.length = hextetCount) (hw : ∀ c ∈ w, isSpace c = true) :
    ipv6Finish ⟨w, storeAll stack.toList 0 hs, hextetCount, -1⟩ out = (.ok (), hs.flatMap hextetBytes) := by
  have hdrop : stack.toList.drop (hs.length * 2) = [] := drop_eq_nil_of_le (by
    rw [Vector.length_toList, hlen]
    decide)
  rw [ipv6Finish]
  simp only [leftTrim_spaces hw, storeAll_stack hlen.le, hdrop, append_nil]
  rfl

theorem ipv6Finish_compressed (hlen : hs.length + hs'.length < hextetCount) (hw : ∀ c ∈ w, isSpace c = true) :
    ipv6Finish ⟨w, storeAll (storeAll stack.toList 0 hs) hs.length hs', hs.length + hs'.length, hs.length⟩ out =
      (.ok (), hs.flatMap hextetBytes ++
        List.replicate ((hextetCount - (hs.length + hs'.length)) * 2) 0 ++ hs'.flatMap hextetBytes) := by
  have hstack : stack.toList.length = 16 := Vector.length_toList
  change hs.length + hs'.length < 8 at hlen
  have hstore : storeAll (storeAll stack.toList 0 hs) hs.length hs' = hs.flatMap hextetBytes ++
      (hs'.flatMap hextetBytes ++ (stack.toList.drop (hs.length * 2)).drop (hs'.length * 2)) := by
    rw [storeAll_stack (show hs.length ≤ 8 by omega), storeAll_append (length_flatMap_hextetBytes hs),
      append_assoc]
    rw [length_drop, hstack]
    omega
  have hzero : applyZeroComp (hs.flatMap hextetBytes ++ (hs'.flatMap hextetBytes ++
      (stack.toList.drop (hs.length * 2)).drop (hs'.length * 2))) (hs.length + hs'.length) hs.length =
      hs.flatMap hextetBytes ++ List.replicate ((hextetCount - (hs.length + hs'.length)) * 2) 0 ++
        hs'.flatMap hextetBytes := by
    refine applyZeroComp_eq (length_flatMap_hextetBytes hs) ?_ ?_
    · rw [Nat.add_sub_cancel_left, length_flatMap_hextetBytes]
    · rw [length_drop, length_drop, hstack]
      show _ = (8 - _) * 2
      omega
  rw [ipv6Finish]
  simp only [leftTrim_spaces hw, hstore, peek_nil, ne_eq, not_true_eq_false, if_false]
  rw [if_pos (show _ < hextetCount from hlen), if_neg (Int.not_lt.mpr (Int.natCast_nonneg _)),
    Int.toNat_natCast, hzero]

/-- **What is accepted**, and its bytes: the addresses, and eight groups with a colon behind them. -/
theorem ipv6Parse_eq_ok_iff : ipv6Parse s stack out = (.ok (), bytes) ↔
    Address s.bytes bytes ∨ Trailing s.bytes bytes := by
  constructor
  · intro h
    rw [ipv6Parse] at h
    cases hscan : ipv6Scan s.bytes stack.toList with
    | none =>
      rw [hscan] at h
      cases h
    | some q =>
      simp only [hscan] at h
      obtain ⟨w, gs, hs, hw, hgs, hread⟩ := exists_of_ipv6Scan hscan
      -- a string that is accepted ends where the scan has stopped
      have hspaces : 0 ∉ q.str → ∀ c ∈ q.str, isSpace c = true := by
        intro hnul
        rw [← peek_leftTrim_iff hnul]
        by_contra hne
        rw [ipv6Finish, if_pos hne] at h
        cases h
      have hnul := s.noNul
      rcases hread with ⟨hstr, hlen, hq⟩ | ⟨hstr, hlen, hq⟩ | ⟨gs', hs', hgs', hstr, hq⟩ | ⟨hfound, hzc⟩
      · left
        have hw' := hspaces (by rw [hstr] at hnul; simp only [mem_append] at hnul; tauto)
        have height : hs.length = hextetCount := by
          by_contra hne
          rw [hq, ipv6Finish, if_neg (by rw [leftTrim_spaces hw']; simp),
            if_pos (lt_of_le_of_ne hlen hne), if_pos (show (-1 : ℤ) < 0 by decide)] at h
          cases h
        rw [hq, height, ipv6Finish_full height hw'] at h
        rw [hstr, ← (Prod.mk.inj h).2]
        exact .full hw hgs height hw'
      · right
        have hw' := hspaces (by
          rw [hstr] at hnul
          simp only [mem_append, mem_cons] at hnul
          tauto)
        rw [hq, hlen, ipv6Finish_full hlen hw'] at h
        rw [hstr, ← (Prod.mk.inj h).2]
        exact .mk hw hgs hlen hw'
      · left
        have hw' := hspaces (by
          rw [hstr] at hnul
          simp only [mem_append, mem_cons] at hnul
          tauto)
        have hless : hs.length + hs'.length < hextetCount := by
          by_contra hle
          rw [hq, ipv6Finish, if_neg (by rw [leftTrim_spaces hw']; simp), if_neg hle,
            if_pos (show (-1 : ℤ) < (hs.length : ℤ) by omega)] at h
          cases h
        rw [hq, ipv6Finish_compressed hless hw'] at h
        rw [hstr, ← (Prod.mk.inj h).2]
        exact .compressed hw hgs hgs' hless hw'
      · rw [ipv6Finish, if_neg (Nat.not_lt.mpr hfound), if_pos (show -1 < q.zeroComp by omega),
          ite_self] at h
        cases h
  · rintro (h | h)
    · generalize hstr : s.bytes = str at h
      rw [ipv6Parse, hstr]
      cases h with
      | full hw hgs hlen hw' =>
        simp only [ipv6Scan_full hw hgs hlen hw']
        exact ipv6Finish_full hlen hw'
      | compressed hw hgs hgs' hlen hw' =>
        simp only [ipv6Scan_compressed hw hgs hgs' hlen hw']
        exact ipv6Finish_compressed hlen hw'
    · generalize hstr : s.bytes = str at h
      rw [ipv6Parse, hstr]
      cases h with
      | mk hw hgs hlen hw' =>
        simp only [ipv6Scan_trailing hw hgs hlen hw']
        exact ipv6Finish_full hlen hw'

theorem ipv6Parse_error {e : Status} (h : (ipv6Parse s stack out).1 = .error e) :
    (ipv6Parse s stack out).2 = out := by
  rw [ipv6Parse] at h ⊢
  cases hscan : ipv6Scan s.bytes stack.toList with
  | none => rfl
  | some q =>
    simp only [hscan, ipv6Finish] at h ⊢
    split_ifs at h ⊢
    · rfl
    · rfl
    · rfl

end Accepted

/-! ## Printed addresses -/

section Printed

def hexDigits (n : ℕ) : List ℕ := if n = 0 then [0] else (Nat.digits 16 n).reverse

def hexChar (d : ℕ) : UInt8 := if d < 10 then chr '0' + d.toUInt8 else chr 'a' + (d - 10).toUInt8

/-- `QDF_IPV6_ADDR_ARRAY` -/
def hextets : List UInt8 → List ℕ
  | a :: b :: rest => (a.toNat <<< 8 + b.toNat) :: hextets rest
  | _ => []

/-- An address as `QDF_IPV6_ADDR_STR` prints it. -/
def printAddr (addr : List UInt8) : List UInt8 :=
  joined ((hextets addr).map fun hextet => (hexDigits hextet).map hexChar)

theorem isDigit_hexChar : ∀ d < 16, IsDigit 16 (hexChar d) d := by
  intro d hd
  refine ⟨?_, hd⟩
  revert d
  decide

theorem hexDigits_lt (n : ℕ) : ∀ d ∈ hexDigits n, d < 16 := by
  intro d hd
  rw [hexDigits] at hd
  split_ifs at hd
  · rw [mem_singleton.mp hd]
    decide
  · exact Nat.digits_lt_base (by decide) (mem_reverse.mp hd)

theorem value_hexDigits (n : ℕ) : value 16 (hexDigits n) = n := by
  rw [hexDigits]
  split_ifs with hzero
  · rw [hzero]
    rfl
  · rw [value, reverse_reverse, Nat.ofDigits_digits]

theorem length_hexDigits {n : ℕ} (hn : n < 16 ^ 4) : 1 ≤ (hexDigits n).length ∧ (hexDigits n).length ≤ 4 := by
  rw [hexDigits]
  split_ifs with hzero
  · decide
  · rw [length_reverse]
    refine ⟨?_, (Nat.digits_length_le_iff (by decide) n).mpr hn⟩
    rw [Nat.one_le_iff_ne_zero, ne_eq, length_eq_zero_iff, Nat.digits_eq_nil_iff_eq_zero]
    exact hzero

theorem isHextet_print {n : ℕ} (hn : n < 16 ^ 4) : IsHextet ((hexDigits n).map hexChar) n := by
  obtain ⟨hpos, hle⟩ := length_hexDigits hn
  refine ⟨hexDigits n, ?_, hpos, hle, value_hexDigits n⟩
  rw [forall₂_map_left_iff, forall₂_same]
  exact fun d hd => isDigit_hexChar d (hexDigits_lt n d hd)

theorem forall₂_print :
    List.Forall₂ IsHextet ((hextets addr).map fun hextet => (hexDigits hextet).map hexChar) (hextets addr) := by
  rw [forall₂_map_left_iff, forall₂_same]
  intro n hn
  refine isHextet_print ?_
  induction addr using hextets.induct with
  | case1 a b rest ih =>
    rw [hextets] at hn
    rcases mem_cons.mp hn with rfl | hrest
    · have ha := a.toNat_lt
      have hb := b.toNat_lt
      rw [Nat.shiftLeft_eq]
      omega
    · exact ih hrest
  | case2 l hl =>
    rw [hextets] at hn
    · cases hn
    · exact hl

theorem flatMap_hextets (heven : addr.length % 2 = 0) : (hextets addr).flatMap hextetBytes = addr := by
  induction addr using hextets.induct with
  | case1 a b rest ih =>
    have ha := a.toNat_lt
    have hb := b.toNat_lt
    have hbytes : hextetBytes (a.toNat <<< 8 + b.toNat) = [a, b] := by
      rw [hextetBytes, Nat.shiftLeft_eq, Nat.shiftRight_eq_div_pow]
      congr 1
      · rw [← UInt8.toNat_inj]
        simp
        omega
      · congr 1
        rw [← UInt8.toNat_inj]
        simp
    rw [hextets, flatMap_cons, hbytes, ih]
    · rfl
    · rw [length_cons, length_cons] at heven
      omega
  | case2 l hl =>
    match l, hl with
    | [], _ => rfl
    | [a], _ => exact absurd heven (by simp)
    | a :: b :: rest, hl => exact absurd rfl (hl a b rest)

theorem length_hextets : (hextets addr).length = addr.length / 2 := by
  induction addr using hextets.induct with
  | case1 a b rest ih =>
    rw [hextets, length_cons, ih, length_cons, length_cons]
    omega
  | case2 l hl =>
    match l, hl with
    | [], _ => rfl
    | [a], _ => simp [hextets]
    | a :: b :: rest, hl => exact absurd rfl (hl a b rest)

theorem address_print (addr : Vector UInt8 16) : Address (printAddr addr.toList) addr.toList := by
  have hlen : addr.toList.length = 16 := Vector.length_toList
  have hspace : ∀ c ∈ ([] : List UInt8), isSpace c = true := by simp
  have h := Address.full hspace (forall₂_print addr.toList) (by rw [length_hextets, hlen]; rfl) hspace
  rwa [nil_append, append_nil, flatMap_hextets _ (by rw [hlen])] at h

end Printed

section Exact

variable {str bytes bytes' : List UInt8} {gs : List (List UInt8)} {hs : List ℕ} {s : CString}

/-- **The parser accepts the addresses and nothing else**, leaves the output alone where it fails, and reads an
address as it has been printed. -/
structure ParsesAddress (s : CString) : Prop where
  accepts : ∀ stack out bytes, ipv6Parse s stack out = (.ok (), bytes) ↔ Address s.bytes bytes
  untouched : ∀ stack out e, (ipv6Parse s stack out).1 = .error e → (ipv6Parse s stack out).2 = out
  printed : ∀ (addr : Vector UInt8 16) stack out, s.bytes = printAddr addr.toList →
    ipv6Parse s stack out = (.ok (), addr.toList)

theorem count_spaces {w : List UInt8} (hw : ∀ c ∈ w, isSpace c = true) : w.count (chr ':') = 0 :=
  count_eq_zero.mpr fun hmem => (ne_of_isSpace _ (hw _ hmem)).2.2.2.1 rfl

theorem count_digits {cs : List UInt8} {ds : List ℕ} (hds : List.Forall₂ (IsDigit 16) cs ds) :
    cs.count (chr ':') = 0 := by
  induction hds with
  | nil => rfl
  | cons hd _ ih =>
    rw [count_cons_of_ne (ne_of_hexVal _ (Option.isSome_of_mem hd.1)).2.2.2.1, ih]

theorem count_joined (hgs : List.Forall₂ IsHextet gs hs) : (joined gs).count (chr ':') = hs.length - 1 := by
  induction hgs with
  | nil => rfl
  | @cons g h gs hs hg hgs ih =>
    obtain ⟨ds, hds, -⟩ := hg
    cases hgs with
    | nil => rw [joined_singleton, count_digits hds]; rfl
    | cons hg' hgs =>
      rw [joined_cons_cons, count_append, count_digits hds, count_cons_self, ih,
        length_cons, length_cons, length_cons]
      omega

theorem Address.not_trailing (h : Address str bytes) : ¬ Trailing str bytes' := by
  intro htrailing
  cases htrailing with
  | @mk w w' gs hs hw hgs hlen hw' =>
    generalize hstr : w ++ (joined gs ++ (chr ':' :: w')) = str at h
    have hscan : ipv6Scan (w ++ (joined gs ++ (chr ':' :: w'))) [] = _ := ipv6Scan_trailing hw hgs hlen hw'
    rw [hstr] at hscan
    cases h with
    | full hv hgs' hlen' hv' =>
      have hcount := congrArg (List.count (chr ':')) hstr
      simp only [count_append, count_cons_self, count_spaces hw, count_spaces hw', count_spaces hv,
        count_spaces hv', count_joined hgs, count_joined hgs', hlen, hlen'] at hcount
      exact absurd hcount (by decide)
    | compressed hv hgs' hgs'' hless hv' =>
      rw [ipv6Scan_compressed hv hgs' hgs'' hless hv'] at hscan
      have hzc : ((_ : ℕ) : ℤ) = -1 := congrArg Progress.zeroComp (Option.some.inj hscan)
      omega

theorem not_parsesAddress_of_trailing (h : Trailing s.bytes bytes) : ¬ ParsesAddress s := by
  intro hparses
  have hread : ipv6Parse s (Vector.replicate 16 0) [] = (.ok (), bytes) := ipv6Parse_eq_ok_iff.mpr (.inr h)
  exact ((hparses.accepts _ _ _).mp hread).not_trailing h

/-- **When the parser accepts exactly the addresses**: a string that is not eight groups with a colon behind
the last one. -/
theorem parsesAddress_iff (s : CString) : ParsesAddress s ↔ ¬ ∃ bytes, Trailing s.bytes bytes := by
  constructor
  · rintro hparses ⟨bytes, h⟩
    exact not_parsesAddress_of_trailing h hparses
  · intro hnone
    refine ⟨fun stack out bytes => ?_, fun stack out e => ipv6Parse_error, fun addr stack out hstr => ?_⟩
    · rw [ipv6Parse_eq_ok_iff]
      exact or_iff_left fun h => hnone ⟨bytes, h⟩
    · rw [ipv6Parse_eq_ok_iff, hstr]
      exact .inl (address_print addr)

/-- `0:0:0:0:0:0:0:0:` -/
def trailingColon : CString := ⟨(List.replicate 8 [chr '0', chr ':']).flatten, by decide⟩

/-- Eight groups and a colon are taken for an address. -/
theorem not_parsesAddress : ¬ ParsesAddress trailingColon := by
  have hspace : ∀ c ∈ ([] : List UInt8), isSpace c = true := by simp
  have hzero : IsHextet [chr '0'] 0 := ⟨[0], .cons ⟨by decide, by decide⟩ .nil, by decide, by decide, rfl⟩
  have hgs : List.Forall₂ IsHextet (List.replicate 8 [chr '0']) (List.replicate 8 0) := by
    simp only [List.replicate]
    exact .cons hzero (.cons hzero (.cons hzero (.cons hzero (.cons hzero (.cons hzero (.cons hzero
      (.cons hzero .nil)))))))
  exact not_parsesAddress_of_trailing (s := trailingColon) (Trailing.mk hspace hgs rfl hspace)

end Exact

end Qdf
