import Mathlib
import Sm8750Modules.Lib.LinkSegments

/-!
# The fragment list of a reception

Fragments of an MPDU arrive in any order and are linked into a list by their numbers. The list is kept
through its head, its tail and the number of its tail; a fragment whose number is on the list is freed.
-/

namespace DpRx.Defrag

open LinkSegments Function List

/-! ### Buffers -/

/-- The fields of the MAC header of a fragment that are read. -/
structure FragHeader where
  iSeq : UInt16
  fc1 : UInt8
deriving DecidableEq, Repr

/-- A network buffer with its link. -/
structure Nbuf extends FragHeader where
  next : Option ℕ
deriving DecidableEq, Repr

/-- `dp_rx_frag_get_mpdu_frag_number`, with `IEEE80211_SEQ_FRAG_MASK`. -/
def FragHeader.fragNumber (f : FragHeader) : ℕ := (f.iSeq &&& 0x000f).toNat

/-- `dp_rx_frag_get_more_frag_bit`, with `IEEE80211_FC1_MORE_FRAG`. -/
def FragHeader.moreFragBit (f : FragHeader) : ℕ := ((f.fc1 &&& 0x04) >>> 2).toNat

def fragNumbers : ℕ := 16

theorem FragHeader.fragNumber_lt (f : FragHeader) : f.fragNumber < fragNumbers := by
  have hle : f.iSeq.toNat &&& 0x000f ≤ 0x000f := Nat.and_le_right
  rw [fragNumber, UInt16.toNat_and, fragNumbers]
  exact Nat.lt_succ_of_le hle

abbrev Nbufs := ℕ → Option Nbuf

def setNext (m : Nbufs) (a : ℕ) (next : Option ℕ) : Option Nbufs :=
  (m a).map fun b => Function.update m a (some { b with next := next })

def link (m : Nbufs) (a : ℕ) : Option (Option ℕ) := (m a).map Nbuf.next

/-- The list of one TID: the head and the tail of the reorder array element, and `curr_frag_num`. -/
structure RxTid where
  nbufs : Nbufs
  head : Option ℕ
  tail : Option ℕ
  currFragNum : ℕ

/-- What the insertion leaves, its status, and `all_frag_present`. -/
structure Inserted where
  tid : RxTid
  success : Bool
  allFragPresent : Bool

/-- The loop over fragments with smaller numbers. -/
def findPlace (m : Nbufs) (curFragno : ℕ) :
    ℕ → Option ℕ → Option ℕ → ℕ → Option (Option ℕ × Option ℕ × ℕ)
  | 0, _, _, _ => none
  | n + 1, prev, cur, headFragno =>
    match cur with
    | none => some (prev, none, headFragno)
    | some c =>
      if headFragno < curFragno then do
        let b ← m c
        match b.next with
        | none => findPlace m curFragno n (some c) none headFragno
        | some d =>
          let b' ← m d
          findPlace m curFragno n (some c) (some d) b'.fragNumber
      else some (prev, some c, headFragno)

/-- The loop behind the head: the numbers count up from 1. -/
def scan (m : Nbufs) : ℕ → Option ℕ → ℕ → Option Bool
  | 0, _, _ => none
  | n + 1, next, count => do
    let a ← next
    let b ← m a
    if b.fragNumber ≠ (count + 1) % 256 then some false
    else
      match b.next with
      | none => some true
      | some d => scan m n (some d) ((count + 1) % 256)

/-- The end of the insertion: the fragments are all there. -/
def checkAllPresent (t : RxTid) : Option Inserted := do
  let head ← t.head
  let first ← t.nbufs head
  let tail ← t.tail
  let last ← t.nbufs tail
  if last.moreFragBit = 0 then do
    let all ← scan t.nbufs fragNumbers first.next 0
    some ⟨t, true, all⟩
  else some ⟨t, true, false⟩

def freeDuplicate (t : RxTid) (frag : ℕ) : Inserted :=
  ⟨{ t with nbufs := Function.update t.nbufs frag none }, false, false⟩

def fraglistInsert (t : RxTid) (frag : ℕ) : Option Inserted := do
  let f ← t.nbufs frag
  match t.head with
  | none =>
    let m ← setNext t.nbufs frag none
    some ⟨⟨m, some frag, some frag, f.fragNumber⟩, true, false⟩
  | some head =>
    if t.currFragNum < f.fragNumber then do
      -- in sequence
      let tail ← t.tail
      let m ← setNext t.nbufs tail (some frag)
      let m ← setNext m frag none
      checkAllPresent ⟨m, some head, some frag, f.fragNumber⟩
    else do
      let first ← t.nbufs head
      if f.fragNumber = first.fragNumber then some (freeDuplicate t frag)
      else if f.fragNumber < first.fragNumber then do
        let m ← setNext t.nbufs frag (some head)
        checkAllPresent { t with nbufs := m, head := some frag }
      else do
        let (prev, cur, headFragno) ←
          findPlace t.nbufs f.fragNumber fragNumbers none (some head) first.fragNumber
        if f.fragNumber = headFragno then some (freeDuplicate t frag)
        else do
          let p ← prev
          let m ← setNext t.nbufs p (some frag)
          let m ← setNext m frag cur
          checkAllPresent { t with nbufs := m }

/-- The list, the fragments that have arrived, and what the last insertion has returned. -/
structure Reception where
  tid : RxTid
  arrived : List FragHeader
  success : Bool
  allFragPresent : Bool

def Reception.empty : Reception := ⟨⟨fun _ => none, none, none, 0⟩, [], true, false⟩

/-- A fragment arrives in a buffer with any link, and is inserted. -/
def receive (s : Reception) (b : Nbuf) : Option Reception := do
  let r ← fraglistInsert { s.tid with nbufs := Function.update s.tid.nbufs s.arrived.length (some b) }
    s.arrived.length
  some ⟨r.tid, s.arrived ++ [b.toFragHeader], r.success, r.allFragPresent⟩

/-- Fragments arrive one after the other. -/
def receiveAll : Reception → List Nbuf → Option Reception
  | s, [] => some s
  | s, b :: bs => (receive s b).bind fun s' => receiveAll s' bs

def Reception.number (s : Reception) (a : ℕ) : ℕ := (s.arrived.getD a ⟨0, 0⟩).fragNumber

/-- **The list is right**: it holds the first fragment of each number, in ascending order; the tail and
`curr_frag_num` name the largest one; everything else is freed. -/
structure ListRight (s : Reception) (l : List ℕ) : Prop where
  seg : Seg (link s.tid.nbufs) s.tid.head l none
  held : ∀ a ∈ l, (s.tid.nbufs a).map Nbuf.toFragHeader = s.arrived[a]?
  freed : ∀ a, a ∉ l → s.tid.nbufs a = none
  first : ∀ a, a ∈ l ↔ a < s.arrived.length ∧ ∀ b < a, s.number b ≠ s.number a
  ascending : l.Pairwise fun a b => s.number a < s.number b
  tail : s.tid.tail = l.getLast?
  curr : ∀ a ∈ l.getLast?, s.tid.currFragNum = s.number a

def AllPresent (s : Reception) (l : List ℕ) : Prop :=
  ∃ n, 1 ≤ n ∧ l.map s.number = List.range (n + 1) ∧
    ∀ a ∈ l.getLast?, (s.arrived.getD a ⟨0, 0⟩).moreFragBit = 0

section Loops

variable {m : Nbufs} {num : ℕ → ℕ} {n b : ℕ} {pre post l : List ℕ} {p q : Option ℕ}

def Numbered (m : Nbufs) (num : ℕ → ℕ) (l : List ℕ) : Prop :=
  ∀ a ∈ l, ∃ x, m a = some x ∧ x.fragNumber = num a

theorem link_of_eq {a : ℕ} {x : Nbuf} (h : m a = some x) : link m a = some x.next := by
  simp [link, h]

theorem Numbered.tail {a : ℕ} (h : Numbered m num (a :: l)) : Numbered m num l :=
  fun x hx => h x (mem_cons_of_mem a hx)

theorem Numbered.uncons {a : ℕ} (h : Numbered m num (a :: l)) (hseg : Seg (link m) p (a :: l) q) :
    p = some a ∧ ∃ x, m a = some x ∧ x.fragNumber = num a ∧ Seg (link m) x.next l q := by
  obtain ⟨hp, r, hr, hl⟩ := seg_cons.mp hseg
  obtain ⟨x, hx, hnum⟩ := h a mem_cons_self
  rw [link_of_eq hx] at hr
  exact ⟨hp, x, hx, hnum, (Option.some.inj hr).symm ▸ hl⟩

theorem findPlace_spec {fuel : ℕ} {prev : Option ℕ} {headFragno : ℕ}
    (hnum : Numbered m num (pre ++ b :: post)) (hseg : Seg (link m) p (pre ++ b :: post) q)
    (hhead : ∀ a ∈ (pre ++ b :: post).head?, headFragno = num a) (hpre : ∀ a ∈ pre, num a < n)
    (hb : n ≤ num b) (hfuel : pre.length < fuel) :
    findPlace m n fuel prev p headFragno = some (pre.getLast?.or prev, some b, num b) := by
  induction pre generalizing fuel prev p headFragno with
  | nil =>
    obtain ⟨fuel, rfl⟩ := Nat.exists_eq_succ_of_ne_zero (Nat.ne_of_gt hfuel)
    obtain ⟨hp, -⟩ := hnum.uncons hseg
    have hfragno : headFragno = num b := hhead b rfl
    simp [findPlace, hp, hfragno, Nat.not_lt.mpr hb]
  | cons a pre ih =>
    obtain ⟨fuel, rfl⟩ := Nat.exists_eq_succ_of_ne_zero (Nat.ne_of_gt (Nat.zero_lt_of_lt hfuel))
    rw [cons_append] at hnum hseg
    obtain ⟨hp, x, hx, -, hrest⟩ := hnum.uncons hseg
    have hfragno : headFragno = num a := hhead a rfl
    have hlt : num a < n := hpre a mem_cons_self
    -- the next fragment is there, since `b` is behind
    obtain ⟨d, rest, hlist⟩ := exists_cons_of_ne_nil (show pre ++ b :: post ≠ [] by simp)
    obtain ⟨y, hy, hynum⟩ := hnum.tail d (by simp [hlist])
    have hnext : x.next = some d := by
      rw [hlist] at hrest
      exact (seg_cons.mp hrest).1
    have hstep := @ih (some d) fuel (some a) y.fragNumber hnum.tail (hnext ▸ hrest)
      (by simp [hlist, hynum]) (fun e he => hpre e (mem_cons_of_mem a he)) (by simpa using hfuel)
    have hlast : (a :: pre).getLast?.or prev = pre.getLast?.or (some a) := by
      cases pre with
      | nil => simp
      | cons e pre => simp [List.getLast?_cons]
    simp [findPlace, hp, hfragno, hlt, hx, hnext, hy, hstep, ← hlast]

theorem scan_spec {fuel count : ℕ} (hnum : Numbered m num l) (hseg : Seg (link m) p l none)
    (hne : l ≠ []) (hfuel : l.length ≤ fuel) (hcount : count + l.length < 256) :
    scan m fuel p count = some (decide (l.map num = List.range' (count + 1) l.length)) := by
  induction l generalizing fuel count p with
  | nil => exact absurd rfl hne
  | cons a l ih =>
    obtain ⟨fuel, rfl⟩ := Nat.exists_eq_succ_of_ne_zero (Nat.ne_of_gt (Nat.zero_lt_of_lt hfuel))
    obtain ⟨hp, x, hx, hxnum, hrest⟩ := hnum.uncons hseg
    have hsmall : (count + 1) % 256 = count + 1 := Nat.mod_eq_of_lt (by simp at hcount; omega)
    by_cases heq : num a = count + 1
    · cases l with
      | nil =>
        have hnext : x.next = none := seg_nil.mp hrest
        simp [scan, hp, hx, hxnum, hsmall, heq, hnext]
      | cons d l =>
        have hnext : x.next = some d := (seg_cons.mp hrest).1
        have hstep := @ih (some d) fuel (count + 1) hnum.tail (hnext ▸ hrest) (by simp)
          (by simpa using hfuel) (by simp at hcount ⊢; omega)
        simp [scan, hp, hx, hxnum, hsmall, heq, hnext, hstep, List.range'_succ]
    · simp [scan, hp, hx, hxnum, hsmall, heq, List.range'_succ]

end Loops

/-! ### One insertion -/

structure TidRight (t : RxTid) (num : ℕ → ℕ) (l : List ℕ) : Prop where
  seg : Seg (link t.nbufs) t.head l none
  numbered : Numbered t.nbufs num l
  ascending : l.Pairwise fun a b => num a < num b
  tail : t.tail = l.getLast?
  curr : ∀ a ∈ l.getLast?, t.currFragNum = num a

def SameHeaders (m m' : Nbufs) : Prop := ∀ a, (m' a).map Nbuf.toFragHeader = (m a).map Nbuf.toFragHeader

/-- `all_frag_present` for the buffers of a list. -/
def Complete (m : Nbufs) (num : ℕ → ℕ) (l : List ℕ) : Prop :=
  (∃ n, 1 ≤ n ∧ l.map num = List.range (n + 1)) ∧ ∀ a ∈ l.getLast?, ∀ x ∈ m a, x.moreFragBit = 0

section Insert

variable {t : RxTid} {m m' : Nbufs} {num : ℕ → ℕ} {l pre post : List ℕ} {a frag : ℕ} {x f : Nbuf}
  {next : Option ℕ}

theorem setNext_spec (h : m a = some x) (next : Option ℕ) : ∃ m', setNext m a next = some m' ∧
    link m' = update (link m) a (some next) ∧ SameHeaders m m' := by
  refine ⟨update m a (some { x with next := next }), by simp [setNext, h], ?_, fun b => ?_⟩
  · funext b
    by_cases hb : b = a
    · simp [link, hb]
    · simp [link, hb]
  · by_cases hb : b = a
    · simp [hb, h]
    · simp [hb]

theorem SameHeaders.trans {m'' : Nbufs} (h : SameHeaders m m') (h' : SameHeaders m' m'') :
    SameHeaders m m'' :=
  fun a => (h' a).trans (h a)

theorem SameHeaders.exists_of_eq (h : SameHeaders m m') (ha : m a = some x) :
    ∃ y, m' a = some y ∧ y.toFragHeader = x.toFragHeader := by
  have hsame := h a
  rw [ha] at hsame
  cases hy : m' a with
  | none => simp [hy] at hsame
  | some y => exact ⟨y, rfl, by simpa [hy] using hsame⟩

theorem Numbered.sameHeaders (h : Numbered m num l) (hsame : SameHeaders m m') : Numbered m' num l := by
  intro a ha
  obtain ⟨x, hx, hnum⟩ := h a ha
  obtain ⟨y, hy, hyx⟩ := hsame.exists_of_eq hx
  exact ⟨y, hy, by rw [hyx, hnum]⟩

theorem TidRight.length_le (h : TidRight t num l) : l.length ≤ fragNumbers := by
  have hnodup : (l.map num).Nodup := by
    rw [List.Nodup, pairwise_map]
    exact h.ascending.imp fun hlt => Nat.ne_of_lt hlt
  have hsub : (l.map num).toFinset ⊆ Finset.range fragNumbers := by
    intro n hn
    obtain ⟨a, ha, rfl⟩ := mem_map.mp (mem_toFinset.mp hn)
    obtain ⟨x, -, hnum⟩ := h.numbered a ha
    rw [Finset.mem_range, ← hnum]
    exact x.fragNumber_lt
  have hcard := Finset.card_le_card hsub
  rw [toFinset_card_of_nodup hnodup, length_map, Finset.card_range] at hcard
  exact hcard

theorem TidRight.le_curr (h : TidRight t num l) (ha : a ∈ l) : num a ≤ t.currFragNum := by
  obtain ⟨c, hc⟩ := List.getLast?_isSome.mpr (ne_nil_of_mem ha) |> Option.isSome_iff_exists.mp
  rw [h.curr c hc]
  obtain ⟨pre, rfl⟩ := List.getLast?_eq_some_iff.mp hc
  cases mem_append.mp ha with
  | inl hpre => exact Nat.le_of_lt ((pairwise_append.mp h.ascending).2.2 a hpre c (by simp))
  | inr hlast => simp at hlast; simp [hlast]

theorem range_iff (hasc : (a :: l).Pairwise fun a b => num a < num b) (hne : l ≠ []) :
    (∃ n, 1 ≤ n ∧ (a :: l).map num = List.range (n + 1)) ↔ l.map num = List.range' 1 l.length := by
  constructor
  · intro ⟨n, _, hn⟩
    have hlen := congrArg List.length hn
    rw [range_eq_range', List.range'_succ, map_cons] at hn
    simp at hlen
    rw [hlen]
    exact (List.cons.inj hn).2
  · intro hl
    refine ⟨l.length, length_pos_iff.mpr hne, ?_⟩
    obtain ⟨d, rest, rfl⟩ := exists_cons_of_ne_nil hne
    have hd : num d = 1 := by
      simp [List.range'_succ] at hl
      exact hl.1
    have ha : num a < num d := (pairwise_cons.mp hasc).1 d mem_cons_self
    rw [range_eq_range', List.range'_succ, map_cons, hl, show num a = 0 by omega]

/-- **The end of an insertion** into a list that was not empty. -/
theorem checkAllPresent_spec (h : TidRight t num l) (hlen : 1 < l.length) :
    ∃ all, checkAllPresent t = some ⟨t, true, all⟩ ∧ (all = true ↔ Complete t.nbufs num l) := by
  obtain ⟨a, l, rfl⟩ := exists_cons_of_ne_nil (ne_nil_of_length_pos (Nat.zero_lt_of_lt hlen))
  have hne : l ≠ [] := ne_nil_of_length_pos (by simpa using hlen)
  obtain ⟨hhead, first, hfirst, -, hrest⟩ := h.numbered.uncons h.seg
  obtain ⟨c, hc⟩ : ∃ c, (a :: l).getLast? = some c := ⟨_, List.getLast?_eq_some_getLast (by simp)⟩
  obtain ⟨last, hlast, -⟩ := h.numbered c (List.mem_of_getLast? hc)
  have htail : t.tail = some c := h.tail.trans hc
  have hlength := h.length_le
  have hscan := @scan_spec _ num l _ fragNumbers 0 h.numbered.tail hrest hne
    (by simp at hlength; omega) (by simp [fragNumbers] at hlength; omega)
  have hiff := range_iff h.ascending hne
  by_cases hmore : last.moreFragBit = 0
  · refine ⟨decide (l.map num = List.range' 1 l.length),
      by simp [checkAllPresent, hhead, hfirst, htail, hlast, hmore, hscan], ?_⟩
    rw [Complete, hiff]
    simp [hc, hlast, hmore]
  · refine ⟨false, by simp [checkAllPresent, hhead, hfirst, htail, hlast, hmore], ?_⟩
    simp [Complete, hc, hlast, hmore]

theorem fraglistInsert_duplicate (h : TidRight t num l) (hfrag : t.nbufs frag = some f)
    (ha : a ∈ l) (hdup : num a = f.fragNumber) : fraglistInsert t frag = some (freeDuplicate t frag) := by
  have hcurr : ¬t.currFragNum < f.fragNumber := by
    have := h.le_curr ha
    omega
  obtain ⟨pre, post, rfl⟩ := append_of_mem ha
  obtain ⟨d, rest, hlist⟩ := exists_cons_of_ne_nil (show pre ++ a :: post ≠ [] by simp)
  have hpre : ∀ b ∈ pre, num b < f.fragNumber := fun b hb =>
    hdup ▸ (pairwise_append.mp h.ascending).2.2 b hb a mem_cons_self
  have hsub := h.seg
  have hnum := h.numbered
  have hlength := h.length_le
  rw [hlist] at hsub hnum
  obtain ⟨hhead, first, hfirst, hfnum, -⟩ := hnum.uncons hsub
  by_cases heq : f.fragNumber = first.fragNumber
  · simp [fraglistInsert, hfrag, hhead, hcurr, hfirst, ← heq]
  · -- the first fragment has a smaller number, and the loop stops at the duplicate
    have hlt : first.fragNumber < f.fragNumber := by
      cases pre with
      | nil =>
        simp at hlist
        rw [hfnum, ← hlist.1] at heq
        exact absurd hdup.symm heq
      | cons b pre =>
        simp at hlist
        rw [hfnum, ← hlist.1]
        exact hpre b mem_cons_self
    have hplace := @findPlace_spec t.nbufs num f.fragNumber a pre post (some d) none fragNumbers none
      first.fragNumber h.numbered (hhead ▸ h.seg) (by simp [hlist, hfnum]) hpre hdup.ge
      (by simp at hlength; omega)
    simp [fraglistInsert, hfrag, hhead, hcurr, hfirst, heq,
      show ¬ f.fragNumber < first.fragNumber by omega, hplace, hdup]

variable (pre post) in
theorem ascending_insert (h : (pre ++ post).Pairwise fun a b => num a < num b)
    (hpre : ∀ a ∈ pre, num a < num frag) (hpost : ∀ b ∈ post, num frag < num b) :
    (pre ++ frag :: post).Pairwise fun a b => num a < num b := by
  obtain ⟨hleft, hright, hcross⟩ := pairwise_append.mp h
  refine pairwise_append.mpr ⟨hleft, pairwise_cons.mpr ⟨hpost, hright⟩, fun a ha b hb => ?_⟩
  cases mem_cons.mp hb with
  | inl hb => exact hb ▸ hpre a ha
  | inr hb => exact hcross a ha b hb

variable (pre post) in
theorem numbered_insert (h : Numbered t.nbufs num (pre ++ post)) (hfrag : t.nbufs frag = some f)
    (hnum : f.fragNumber = num frag) : Numbered t.nbufs num (pre ++ frag :: post) := by
  intro a ha
  by_cases heq : a = frag
  · exact ⟨f, heq ▸ hfrag, heq ▸ hnum⟩
  · exact h a (by simpa [heq] using ha)

structure Hung (t : RxTid) (num : ℕ → ℕ) (l : List ℕ) (r : Inserted) : Prop where
  success : r.success = true
  right : TidRight r.tid num l
  same : SameHeaders t.nbufs r.tid.nbufs
  all : r.allFragPresent = true ↔ Complete r.tid.nbufs num l

theorem exists_hung {t' : RxTid} (h : TidRight t' num l) (hlen : 1 < l.length)
    (hsame : SameHeaders t.nbufs t'.nbufs) : ∃ r, checkAllPresent t' = some r ∧ Hung t num l r := by
  obtain ⟨all, hcheck, hall⟩ := checkAllPresent_spec h hlen
  exact ⟨_, hcheck, rfl, h, hsame, hall⟩

theorem fraglistInsert_first (h : TidRight t num []) (hfrag : t.nbufs frag = some f)
    (hnum : f.fragNumber = num frag) :
    ∃ r, fraglistInsert t frag = some r ∧ Hung t num [frag] r := by
  obtain ⟨m, hm, hlink, hsame⟩ := setNext_spec hfrag none
  have hhead : t.head = none := seg_nil.mp h.seg
  have hlone : Numbered t.nbufs num [frag] := numbered_insert [] [] h.numbered hfrag hnum
  refine ⟨⟨⟨m, some frag, some frag, f.fragNumber⟩, true, false⟩,
    by simp [fraglistInsert, hfrag, hhead, hm], rfl, ?_, hsame, ?_⟩
  · exact ⟨by simp [hlink], hlone.sameHeaders hsame, by simp, by simp, by simp [hnum]⟩
  · refine iff_of_false Bool.false_ne_true fun hall => ?_
    obtain ⟨n, hn, hrange⟩ := hall.1
    have hlen := congrArg List.length hrange
    simp at hlen
    omega

theorem fraglistInsert_tail (h : TidRight t num (pre ++ [a])) (hfrag : t.nbufs frag = some f)
    (hnum : f.fragNumber = num frag) (hnot : frag ∉ pre ++ [a]) (hpre : ∀ b ∈ pre ++ [a], num b < num frag) :
    ∃ r, fraglistInsert t frag = some r ∧ Hung t num (pre ++ [a] ++ [frag]) r := by
  obtain ⟨x, hx, -⟩ := h.numbered a (by simp)
  have htail : t.tail = some a := by
    simp [h.tail]
  have hcurr : t.currFragNum < f.fragNumber := by
    rw [h.curr a (by simp), hnum]
    exact hpre a (by simp)
  obtain ⟨head, hhead⟩ : ∃ head, t.head = some head := by
    obtain ⟨d, rest, hlist⟩ := exists_cons_of_ne_nil (show pre ++ [a] ≠ [] by simp)
    have hseg := h.seg
    rw [hlist] at hseg
    exact ⟨d, (seg_cons.mp hseg).1⟩
  obtain ⟨m, hm, hlink, hsame⟩ := setNext_spec hx (some frag)
  obtain ⟨y, hy, -⟩ := hsame.exists_of_eq hfrag
  obtain ⟨m', hm', hlink', hsame'⟩ := setNext_spec hy none
  have hne : a ≠ frag := by
    intro heq
    exact hnot (by simp [heq])
  have hapre : a ∉ pre := by
    intro hmem
    exact Nat.lt_irrefl _ ((pairwise_append.mp h.ascending).2.2 a hmem a (by simp))
  have hright : TidRight ⟨m', some head, some frag, f.fragNumber⟩ num (pre ++ [a] ++ [frag]) := by
    refine ⟨?_, ?_, ascending_insert (pre ++ [a]) [] (by simpa using h.ascending)
      hpre (by simp), by simp, by simp [hnum]⟩
    · rw [append_assoc, singleton_append]
      refine Seg.insertAfter (r := none) (hhead ▸ h.seg) (by simp) (fun b hb => ?_) (by simp)
        (by simp [hlink', hlink, hne]) (by simp [hlink'])
      · have hbf : b ≠ frag := fun heq => hnot (by simp [← heq, hb])
        have hba : b ≠ a := fun heq => hapre (heq ▸ hb)
        simp [hlink', hlink, hbf, hba]
    · exact (numbered_insert (pre ++ [a]) [] (by simpa using h.numbered) hfrag hnum).sameHeaders
        (hsame.trans hsame')
  obtain ⟨r, hr, hung⟩ := exists_hung hright (by simp) (hsame.trans hsame')
  exact ⟨r, by simp [fraglistInsert, hfrag, hhead, hcurr, htail, hm, hm', hr], hung⟩

theorem fraglistInsert_head (h : TidRight t num (a :: post)) (hfrag : t.nbufs frag = some f)
    (hnum : f.fragNumber = num frag) (hnot : frag ∉ a :: post) (hpost : ∀ b ∈ a :: post, num frag < num b) :
    ∃ r, fraglistInsert t frag = some r ∧ Hung t num (frag :: a :: post) r := by
  have hcurr : ¬t.currFragNum < f.fragNumber := by
    have hle := h.le_curr mem_cons_self
    have hlt := hpost a mem_cons_self
    omega
  obtain ⟨hhead, x, hx, hxnum, -⟩ := h.numbered.uncons h.seg
  have hlt : f.fragNumber < x.fragNumber := by
    rw [hnum, hxnum]
    exact hpost a mem_cons_self
  obtain ⟨m, hm, hlink, hsame⟩ := setNext_spec hfrag (some a)
  have hright : TidRight { t with nbufs := m, head := some frag } num (frag :: a :: post) := by
    refine ⟨seg_cons.mpr ⟨rfl, some a, by simp [hlink], ?_⟩, ?_,
      ascending_insert [] _ h.ascending (by simp) hpost, by simp [h.tail, List.getLast?_cons], ?_⟩
    · refine (hhead ▸ h.seg : Seg (link t.nbufs) (some a) (a :: post) none).congr fun b hb => ?_
      have hbf : b ≠ frag := fun heq => hnot (heq ▸ hb)
      simp [hlink, hbf]
    · exact (numbered_insert [] _ h.numbered hfrag hnum).sameHeaders hsame
    · intro b hb
      exact h.curr b (by simpa [List.getLast?_cons] using hb)
  obtain ⟨r, hr, hung⟩ := exists_hung hright (by simp) hsame
  exact ⟨r, by simp [fraglistInsert, hfrag, hhead, hcurr, hx, Nat.ne_of_lt hlt, hlt, hm, hr], hung⟩

theorem fraglistInsert_between {b : ℕ} (h : TidRight t num (pre ++ a :: b :: post))
    (hfrag : t.nbufs frag = some f) (hnum : f.fragNumber = num frag) (hnot : frag ∉ pre ++ a :: b :: post)
    (hpre : ∀ c ∈ pre ++ [a], num c < num frag) (hpost : ∀ c ∈ b :: post, num frag < num c) :
    ∃ r, fraglistInsert t frag = some r ∧ Hung t num (pre ++ a :: frag :: b :: post) r := by
  have hcurr : ¬t.currFragNum < f.fragNumber := by
    have hle := h.le_curr (show b ∈ pre ++ a :: b :: post by simp)
    have hlt := hpost b mem_cons_self
    omega
  obtain ⟨d, rest, hlist⟩ := exists_cons_of_ne_nil (show pre ++ a :: b :: post ≠ [] by simp)
  have hsub := h.seg
  have hnums := h.numbered
  have hlength := h.length_le
  rw [hlist] at hsub hnums
  obtain ⟨hhead, first, hfirst, hfnum, -⟩ := hnums.uncons hsub
  have hlt : first.fragNumber < f.fragNumber := by
    have hd : d ∈ pre ++ [a] := by
      cases pre with
      | nil => simp at hlist; simp [hlist]
      | cons c pre => simp at hlist; simp [hlist]
    rw [hfnum, hnum]
    exact hpre d hd
  have hplace := @findPlace_spec t.nbufs num f.fragNumber b (pre ++ [a]) post (some d) none fragNumbers none
    first.fragNumber (by simpa using h.numbered) (by simpa [hhead] using h.seg) (by simp [hlist, hfnum])
    (hnum ▸ hpre) (hnum ▸ Nat.le_of_lt (hpost b mem_cons_self)) (by simp at hlength ⊢; omega)
  have hbne : f.fragNumber ≠ num b := by
    rw [hnum]
    exact Nat.ne_of_lt (hpost b mem_cons_self)
  obtain ⟨x, hx, -⟩ := h.numbered a (by simp)
  obtain ⟨m, hm, hlink, hsame⟩ := setNext_spec hx (some frag)
  obtain ⟨y, hy, -⟩ := hsame.exists_of_eq hfrag
  obtain ⟨m', hm', hlink', hsame'⟩ := setNext_spec hy (some b)
  have hne : a ≠ frag := by
    intro heq
    exact hnot (by simp [heq])
  have hparts := pairwise_append.mp h.ascending
  have hright : TidRight { t with nbufs := m' } num (pre ++ a :: frag :: b :: post) := by
    refine ⟨?_, ?_, ?_, by simp [h.tail], fun c hc => h.curr c (by simpa using hc)⟩
    · obtain ⟨r, hleft, hrest⟩ := seg_append.mp
        (show Seg (link t.nbufs) t.head (pre ++ [a] ++ b :: post) none by simpa using h.seg)
      have hr : r = some b := (seg_cons.mp hrest).1
      rw [hr] at hleft hrest
      refine Seg.insertAfter hleft hrest (fun c hc => ?_) (fun c hc => ?_) (by simp [hlink', hlink, hne])
        (by simp [hlink'])
      · have hcf : c ≠ frag := fun heq => hnot (by simp [← heq, hc])
        have hca : c ≠ a := fun heq => Nat.lt_irrefl _ (heq ▸ hparts.2.2 c hc a mem_cons_self)
        simp [hlink', hlink, hcf, hca]
      · have hcf : c ≠ frag := by
          intro heq
          rw [← heq] at hnot
          exact hnot (by simp at hc ⊢; simp [hc])
        have hca : c ≠ a := fun heq =>
          Nat.lt_irrefl _ (heq ▸ (pairwise_cons.mp hparts.2.1).1 c hc)
        simp [hlink', hlink, hcf, hca]
    · have hins := numbered_insert (pre ++ [a]) (b :: post) (by simpa using h.numbered) hfrag hnum
      exact (show Numbered t.nbufs num (pre ++ a :: frag :: b :: post) by simpa using hins).sameHeaders
        (hsame.trans hsame')
    · have hins := ascending_insert (pre ++ [a]) (b :: post) (by simpa using h.ascending) hpre hpost
      simpa using hins
  obtain ⟨r, hr, hung⟩ := exists_hung hright (by simp; omega) (hsame.trans hsame')
  refine ⟨r, ?_, hung⟩
  rw [hhead] at hr
  simp [fraglistInsert, hfrag, hhead, hcurr, hfirst, Nat.ne_of_gt hlt, Nat.not_lt.mpr (Nat.le_of_lt hlt),
    hplace, hbne, hm, hm', hr]

theorem exists_place (h : l.Pairwise fun a b => num a < num b) (n : ℕ) (hn : ∀ a ∈ l, num a ≠ n) :
    ∃ pre post, l = pre ++ post ∧ (∀ a ∈ pre, num a < n) ∧ ∀ b ∈ post, n < num b := by
  induction l with
  | nil => exact ⟨[], [], by simp⟩
  | cons a l ih =>
    obtain ⟨hall, hrest⟩ := pairwise_cons.mp h
    have hne := hn a mem_cons_self
    by_cases hlt : num a < n
    · obtain ⟨pre, post, hl, hpre, hpost⟩ := ih hrest fun b hb => hn b (mem_cons_of_mem a hb)
      exact ⟨a :: pre, post, by simp [hl], by simpa [hlt] using hpre, hpost⟩
    · have hgt : n < num a := by
        omega
      refine ⟨[], a :: l, rfl, by simp, fun b hb => ?_⟩
      cases mem_cons.mp hb with
      | inl hb => exact hb ▸ hgt
      | inr hb => exact hgt.trans (hall b hb)

/-- **A new number** goes to its place, wherever that is. -/
theorem fraglistInsert_new (h : TidRight t num l) (hfrag : t.nbufs frag = some f)
    (hnum : f.fragNumber = num frag) (hnot : frag ∉ l) (hnew : ∀ a ∈ l, num a ≠ num frag) :
    ∃ r pre post, fraglistInsert t frag = some r ∧ l = pre ++ post ∧
      Hung t num (pre ++ frag :: post) r := by
  obtain ⟨pre, post, hl, hpre, hpost⟩ := exists_place h.ascending (num frag) hnew
  rw [hl] at h hnot
  cases hback : pre.eq_nil_or_concat with
  | inl hnil =>
    rw [hnil] at h hl hnot
    cases post with
    | nil =>
      obtain ⟨r, hr, hung⟩ := fraglistInsert_first h hfrag hnum
      exact ⟨r, [], [], hr, hl, hung⟩
    | cons b post =>
      obtain ⟨r, hr, hung⟩ := fraglistInsert_head h hfrag hnum hnot hpost
      exact ⟨r, [], b :: post, hr, hl, hung⟩
  | inr hconcat =>
    obtain ⟨init, a, hinit⟩ := hconcat
    rw [concat_eq_append] at hinit
    rw [hinit] at h hl hnot hpre
    cases post with
    | nil =>
      rw [append_nil] at h hnot
      obtain ⟨r, hr, hung⟩ := fraglistInsert_tail h hfrag hnum hnot hpre
      exact ⟨r, init ++ [a], [], hr, hl, hung⟩
    | cons b post =>
      rw [append_assoc, singleton_append] at h hnot
      obtain ⟨r, hr, hung⟩ := fraglistInsert_between h hfrag hnum hnot hpre hpost
      exact ⟨r, init ++ [a], b :: post, hr, hl, by simpa using hung⟩

end Insert

/-! ### All arrivals -/

section Runs

variable {s s' : Reception} {l : List ℕ} {a : ℕ} {b : Nbuf}

theorem listRight_empty : ListRight .empty [] :=
  ⟨by simp [Reception.empty], by simp, by simp [Reception.empty], by simp [Reception.empty], by simp,
    by simp [Reception.empty], by simp⟩

theorem ListRight.lt_length (h : ListRight s l) (ha : a ∈ l) : a < s.arrived.length :=
  ((h.first a).mp ha).1

theorem ListRight.exists_mem (h : ListRight s l) (ha : a < s.arrived.length) :
    ∃ c ∈ l, s.number c = s.number a := by
  induction a using Nat.strong_induction_on with
  | _ a ih =>
    by_cases hfirst : ∀ c < a, s.number c ≠ s.number a
    · exact ⟨a, (h.first a).mpr ⟨ha, hfirst⟩, rfl⟩
    · push Not at hfirst
      obtain ⟨c, hc, heq⟩ := hfirst
      obtain ⟨d, hd, hdc⟩ := ih c hc (hc.trans ha)
      exact ⟨d, hd, hdc.trans heq⟩

theorem number_of_lt (harrived : s'.arrived = s.arrived ++ [b.toFragHeader]) (ha : a < s.arrived.length) :
    s'.number a = s.number a := by
  rw [Reception.number, Reception.number, harrived, getD_append _ _ _ _ ha]

theorem number_length (harrived : s'.arrived = s.arrived ++ [b.toFragHeader]) :
    s'.number s.arrived.length = b.fragNumber := by
  simp [Reception.number, harrived]

theorem ListRight.tidRight (h : ListRight s l) (harrived : s'.arrived = s.arrived ++ [b.toFragHeader]) :
    TidRight { s.tid with nbufs := update s.tid.nbufs s.arrived.length (some b) } s'.number l := by
  have hne : ∀ c ∈ l, c ≠ s.arrived.length := fun c hc => Nat.ne_of_lt (h.lt_length hc)
  have hnum : ∀ c ∈ l, s'.number c = s.number c := fun c hc => number_of_lt harrived (h.lt_length hc)
  refine ⟨h.seg.congr fun c hc => by simp [link, hne c hc], fun c hc => ?_, ?_, h.tail, fun c hc => ?_⟩
  · have hheld := h.held c hc
    have hlt := h.lt_length hc
    obtain ⟨x, hx, hxc⟩ := Option.map_eq_some_iff.mp (hheld.trans (List.getElem?_eq_getElem hlt))
    refine ⟨x, by simp [hne c hc, hx], ?_⟩
    rw [hnum c hc, Reception.number, getD_eq_getElem _ _ hlt, hxc]
  · refine h.ascending.imp_of_mem fun ha hb hlt => ?_
    rw [hnum _ ha, hnum _ hb]
    exact hlt
  · rw [hnum c (List.mem_of_getLast? hc)]
    exact h.curr c hc

def OnList (s : Reception) (l : List ℕ) (b : Nbuf) : Prop := ∃ a ∈ l, s.number a = b.fragNumber

theorem ListRight.first_snoc (h : ListRight s l) (harrived : s'.arrived = s.arrived ++ [b.toFragHeader]) :
    (a < s'.arrived.length ∧ ∀ c < a, s'.number c ≠ s'.number a) ↔
      a ∈ l ∨ (a = s.arrived.length ∧ ¬OnList s l b) := by
  have hlen : s'.arrived.length = s.arrived.length + 1 := by
    simp [harrived]
  have hold : ∀ {c}, c < s.arrived.length → s'.number c = s.number c := number_of_lt harrived
  constructor
  · intro ⟨ha, hfirst⟩
    by_cases hlt : a < s.arrived.length
    · refine .inl ((h.first a).mpr ⟨hlt, fun c hc => ?_⟩)
      rw [← hold (hc.trans hlt), ← hold hlt]
      exact hfirst c hc
    · have heq : a = s.arrived.length := by
        omega
      refine .inr ⟨heq, fun hdup => ?_⟩
      obtain ⟨c, hc, hnum⟩ := hdup
      refine hfirst c (heq ▸ h.lt_length hc) ?_
      rw [hold (h.lt_length hc), hnum, heq, number_length harrived]
  · intro hor
    cases hor with
    | inl ha =>
      obtain ⟨hlt, hfirst⟩ := (h.first a).mp ha
      refine ⟨by omega, fun c hc => ?_⟩
      rw [hold (hc.trans hlt), hold hlt]
      exact hfirst c hc
    | inr hnew =>
      obtain ⟨rfl, hnew⟩ := hnew
      refine ⟨by omega, fun c hc heq => hnew ?_⟩
      obtain ⟨d, hd, hdc⟩ := h.exists_mem hc
      refine ⟨d, hd, ?_⟩
      rw [hdc, ← hold hc, heq, number_length harrived]

theorem ListRight.length_notMem (h : ListRight s l) : s.arrived.length ∉ l :=
  fun hmem => Nat.lt_irrefl _ (h.lt_length hmem)

theorem ListRight.duplicate (h : ListRight s l) (hdup : OnList s l b) :
    ∃ s', receive s b = some s' ∧ s'.arrived = s.arrived ++ [b.toFragHeader] ∧ ListRight s' l ∧
      s'.tid = s.tid ∧ s'.success = false ∧ s'.allFragPresent = false := by
  obtain ⟨s', hs'⟩ : ∃ s' : Reception, s' = ⟨s.tid, s.arrived ++ [b.toFragHeader], false, false⟩ := ⟨_, rfl⟩
  have harrived : s'.arrived = s.arrived ++ [b.toFragHeader] := by
    rw [hs']
  have htid : s'.tid = s.tid := by
    rw [hs']
  have hright := h.tidRight harrived
  have hsame : update (update s.tid.nbufs s.arrived.length (some b)) s.arrived.length none =
      s.tid.nbufs := by
    rw [update_idem, update_eq_self_iff]
    exact (h.freed _ h.length_notMem).symm
  refine ⟨s', ?_, harrived, ⟨htid ▸ h.seg, fun c hc => ?_, htid ▸ h.freed, fun c => ?_, hright.ascending,
    htid ▸ h.tail, fun c hc => htid ▸ hright.curr c hc⟩, htid, by rw [hs'], by rw [hs']⟩
  · obtain ⟨a, ha, hnum⟩ := hdup
    have hins := @fraglistInsert_duplicate _ _ _ a s.arrived.length b hright (by simp) ha
      ((number_of_lt harrived (h.lt_length ha)).trans hnum)
    simp [receive, hins, freeDuplicate, hsame, hs']
  · rw [htid, harrived, List.getElem?_append_left (h.lt_length hc)]
    exact h.held c hc
  · rw [h.first_snoc harrived]
    simp [hdup]

theorem ListRight.complete_iff (h : ListRight s l) :
    Complete s.tid.nbufs s.number l ↔ AllPresent s l := by
  have hlast : (∀ a ∈ l.getLast?, ∀ x ∈ s.tid.nbufs a, x.moreFragBit = 0) ↔
      ∀ a ∈ l.getLast?, (s.arrived.getD a ⟨0, 0⟩).moreFragBit = 0 := by
    refine forall₂_congr fun a ha => ?_
    have hmem := List.mem_of_getLast? ha
    have hlt := h.lt_length hmem
    obtain ⟨x, hx, hxa⟩ := Option.map_eq_some_iff.mp
      ((h.held a hmem).trans (List.getElem?_eq_getElem hlt))
    rw [getD_eq_getElem _ _ hlt, ← hxa, hx]
    simp
  rw [Complete, AllPresent, hlast]
  constructor
  · intro ⟨⟨n, hn, hrange⟩, hmore⟩
    exact ⟨n, hn, hrange, hmore⟩
  · intro ⟨n, hn, hrange, hmore⟩
    exact ⟨⟨n, hn, hrange⟩, hmore⟩

theorem ListRight.insert (h : ListRight s l) (hnew : ¬OnList s l b) :
    ∃ s' l', receive s b = some s' ∧ s'.arrived = s.arrived ++ [b.toFragHeader] ∧ ListRight s' l' ∧
      s'.success = true ∧ (s'.allFragPresent = true ↔ AllPresent s' l') := by
  obtain ⟨s₀, hs₀⟩ : ∃ s₀ : Reception, s₀ = ⟨s.tid, s.arrived ++ [b.toFragHeader], true, false⟩ := ⟨_, rfl⟩
  have harrived₀ : s₀.arrived = s.arrived ++ [b.toFragHeader] := by
    rw [hs₀]
  have hlength := h.length_notMem
  obtain ⟨r, pre, post, hins, hl, hung⟩ := @fraglistInsert_new _ _ _ s.arrived.length b
    (h.tidRight harrived₀) (by simp) (number_length harrived₀).symm hlength fun a ha heq => hnew
      ⟨a, ha, by rw [← number_of_lt harrived₀ (h.lt_length ha), heq, number_length harrived₀]⟩
  obtain ⟨s', hs'⟩ : ∃ s' : Reception,
      s' = ⟨r.tid, s.arrived ++ [b.toFragHeader], r.success, r.allFragPresent⟩ := ⟨_, rfl⟩
  have harrived : s'.arrived = s.arrived ++ [b.toFragHeader] := by
    rw [hs']
  have hnumber : s₀.number = s'.number := by
    funext a
    rw [Reception.number, Reception.number, harrived, harrived₀]
  have htid : s'.tid = r.tid := by
    rw [hs']
  have hright := hung.right
  rw [hnumber] at hright
  have hmem : ∀ a, a ∈ pre ++ s.arrived.length :: post ↔ a ∈ l ∨ a = s.arrived.length := by
    intro a
    rw [hl, mem_append, mem_cons, mem_append]
    tauto
  have hheaders : ∀ a, (s'.tid.nbufs a).map Nbuf.toFragHeader =
      if a = s.arrived.length then some b.toFragHeader else (s.tid.nbufs a).map Nbuf.toFragHeader := by
    intro a
    rw [htid, hung.same a]
    by_cases ha : a = s.arrived.length
    · simp [ha]
    · simp [ha]
  have hlist : ListRight s' (pre ++ s.arrived.length :: post) := by
    refine ⟨htid ▸ hright.seg, fun a ha => ?_, fun a ha => ?_, fun a => ?_, hright.ascending,
      htid ▸ hright.tail, fun a ha => htid ▸ hright.curr a ha⟩
    · rw [hheaders a, harrived]
      cases (hmem a).mp ha with
      | inl hold =>
        rw [if_neg (Nat.ne_of_lt (h.lt_length hold)), List.getElem?_append_left (h.lt_length hold)]
        exact h.held a hold
      | inr heq => simp [heq]
    · rw [hmem, not_or] at ha
      have hnone := hheaders a
      rw [if_neg ha.2, h.freed a ha.1] at hnone
      simpa using hnone
    · rw [h.first_snoc harrived, hmem]
      simp [hnew]
  refine ⟨s', _, ?_, harrived, hlist, by rw [hs']; exact hung.success, ?_⟩
  · simp [receive, hins, hs']
  · have hall := hung.all
    rw [hnumber] at hall
    have hflag : s'.allFragPresent = r.allFragPresent := by
      rw [hs']
    rw [hflag, hall, ← htid]
    exact hlist.complete_iff

structure InsertRight (s s' : Reception) (l : List ℕ) (b : Nbuf) : Prop where
  duplicate : OnList s l b → s'.tid = s.tid ∧ s'.tid.nbufs s.arrived.length = none ∧ s'.success = false ∧
    s'.allFragPresent = false
  new : ¬OnList s l b → ∃ l', ListRight s' l' ∧ s'.success = true ∧
    (s'.allFragPresent = true ↔ AllPresent s' l')

theorem ListRight.receive (h : ListRight s l) (b : Nbuf) : ∃ s' l', receive s b = some s' ∧
    s'.arrived = s.arrived ++ [b.toFragHeader] ∧ ListRight s' l' ∧ InsertRight s s' l b := by
  by_cases hdup : OnList s l b
  · obtain ⟨s', hs', harrived, hright, htid, hsuccess, hall⟩ := h.duplicate hdup
    exact ⟨s', l, hs', harrived, hright, fun _ => ⟨htid, htid ▸ h.freed _ h.length_notMem, hsuccess, hall⟩,
      fun hnew => absurd hdup hnew⟩
  · obtain ⟨s', l', hs', harrived, hright, hsuccess, hall⟩ := h.insert hdup
    exact ⟨s', l', hs', harrived, hright, fun hold => absurd hold hdup, fun _ => ⟨l', hright, hsuccess, hall⟩⟩

theorem ListRight.receiveAll (h : ListRight s l) (bs : List Nbuf) : ∃ s' l', receiveAll s bs = some s' ∧
    s'.arrived = s.arrived ++ bs.map Nbuf.toFragHeader ∧ ListRight s' l' := by
  induction bs generalizing s l with
  | nil => exact ⟨s, l, by simp [Defrag.receiveAll], by simp, h⟩
  | cons b bs ih =>
    obtain ⟨s₁, l₁, hs₁, harrived₁, hright₁, -⟩ := h.receive b
    obtain ⟨s', l', hs', harrived, hright⟩ := ih hright₁
    exact ⟨s', l', by simp [Defrag.receiveAll, hs₁, hs'], by simp [harrived, harrived₁], hright⟩

/-- **The fragment list**: any fragments leave it right, and so does the next one, which is a duplicate
and is freed, or is put on the list and completes it or not. -/
theorem fraglist_of_receiveAll (bs : List Nbuf) : ∃ s l, receiveAll .empty bs = some s ∧
    s.arrived = bs.map Nbuf.toFragHeader ∧ ListRight s l ∧
    ∀ b, ∃ s' l', receive s b = some s' ∧ ListRight s' l' ∧ InsertRight s s' l b := by
  obtain ⟨s, l, hs, harrived, hright⟩ := listRight_empty.receiveAll bs
  refine ⟨s, l, hs, by simpa [Reception.empty] using harrived, hright, fun b => ?_⟩
  obtain ⟨s', l', hs', -, hright', hins⟩ := hright.receive b
  exact ⟨s', l', hs', hright', hins⟩

def fragment (n : UInt16) (moreFrag : Bool) : Nbuf := ⟨⟨n, if moreFrag then 0x04 else 0⟩, none⟩

/-- Both fragments of an MPDU are on the list, and the second one arrives again: `all_frag_present` is
cleared. -/
theorem not_allFragPresent_iff : ¬∀ (bs : List Nbuf) (s : Reception) (l : List ℕ),
    receiveAll .empty bs = some s → ListRight s l → (s.allFragPresent = true ↔ AllPresent s l) := by
  intro hall
  obtain ⟨s, l, hs, harrived, hright⟩ :=
    listRight_empty.receiveAll [fragment 0 true, fragment 1 false, fragment 1 false]
  have hflag : (receiveAll .empty [fragment 0 true, fragment 1 false, fragment 1 false]).map
      Reception.allFragPresent = some false := by
    decide
  have hnumber : s.number = fun a =>
      ([(fragment 0 true).toFragHeader, (fragment 1 false).toFragHeader,
        (fragment 1 false).toFragHeader].getD a ⟨0, 0⟩).fragNumber := by
    funext a
    rw [Reception.number, harrived]
    simp [Reception.empty]
  have hmem : ∀ a, a ∈ l ↔ a ∈ [0, 1] := by
    intro a
    rw [hright.first a, hnumber, harrived]
    constructor
    · intro ⟨ha, hfirst⟩
      have hlt : a < 3 := ha
      have hne : a ≠ 2 := fun heq => hfirst 1 (by omega) (by rw [heq]; decide)
      simp
      omega
    · intro ha
      cases mem_cons.mp ha with
      | inl hzero => rw [hzero]; decide
      | inr hone => rw [mem_singleton.mp hone]; decide
  have hnodup : l.Nodup := hright.ascending.imp fun hlt heq => by simp [heq] at hlt
  have hperm : l.Perm [0, 1] := (perm_ext_iff_of_nodup hnodup (by decide)).mpr hmem
  have hl : l = [0, 1] := by
    refine hperm.eq_of_pairwise (fun a b _ _ hab hba => absurd hab (Nat.lt_asymm hba)) hright.ascending ?_
    rw [hnumber]
    decide
  have hpresent : AllPresent s l := by
    rw [AllPresent, hl, hnumber, harrived]
    exact ⟨1, by decide⟩
  rw [hs] at hflag
  have htrue := (hall _ s l hs hright).mpr hpresent
  rw [Option.map_some, htrue] at hflag
  cases hflag

end Runs

end DpRx.Defrag
