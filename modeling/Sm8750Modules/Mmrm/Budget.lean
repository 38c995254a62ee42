import Sm8750Modules.Mmrm.Aggregate
import Sm8750Modules.Mmrm.Throttle

/-!
# The software clock manager of MMRM — the budget

A request that is granted should leave the sum below the threshold, and the sum should be what the
clients draw.
-/

namespace Mmrm

open Runs Function

variable {K : Type*} {fw : Framework K} {m m' : Manager K} {env : Surroundings} {s : State K}
  {c reqLevel r blocks : ℕ}

/-- The sum is below the threshold, and is what the clients draw. -/
structure WithinBudget (s : State K) : Prop where
  below : s.peak.aggregVal < s.peak.threshold
  val : s.peak.aggregVal = s.totalLoad

namespace Manager

variable (m : Manager K)

def adjLevel (c reqLevel : ℕ) : ℕ :=
  checkReqLevel m.info (m.info.table c).clkSrcId reqLevel

/-- What all clients draw after a request, if nobody is throttled. -/
def askedLoad (c reqLevel r blocks : ℕ) : ℕ :=
  (m.info.table c).newLoad reqLevel (m.adjLevel c reqLevel) r blocks +
    m.info.otherLoad c (m.adjLevel c reqLevel)

/-- What a request adds at an unchanged level of the rail. -/
def askedMore (c reqLevel r blocks : ℕ) : ℕ :=
  if m.adjLevel c reqLevel ≠ m.info.peak.aggregLevel then 0
  else m.askedLoad c reqLevel r blocks - m.info.totalLoad

/-- Another client is throttled, it draws less by what is taken off the sum, and where the level of the rail
changes that brings the sum below the threshold. -/
def FreesEnough (env : Surroundings) (c reqLevel r blocks : ℕ) : Prop :=
  ∃ t i freed,
    m.throttleLowPriorityClient env (m.askedMore c reqLevel r blocks) = .throttled t i freed ∧ t ≠ c ∧
    (m.info.table t).load (m.adjLevel c reqLevel) =
      ((m.info.table t).throttle (m.freq t lowSvs)).load (m.adjLevel c reqLevel) + freed ∧
    (m.adjLevel c reqLevel ≠ m.info.peak.aggregLevel →
      m.askedLoad c reqLevel r blocks < m.info.peak.threshold + freed)

/-- A request stays below the threshold, or is of a client that may not throttle others, or throttling
fails, or pays for it. -/
def BudgetKept (env : Surroundings) (c reqLevel r blocks : ℕ) : Prop :=
  m.askedLoad c reqLevel r blocks ≠ 0 → m.info.peak.threshold ≤ m.askedLoad c reqLevel r blocks →
    m.high c = true → env.enabled = true →
    m.throttleLowPriorityClient env (m.askedMore c reqLevel r blocks) ≠ .failed →
    m.FreesEnough env c reqLevel r blocks

end Manager

/-- The books are right, and the sum is below the threshold unless it is zero. -/
structure Budgeted (s : State K) : Prop where
  booked : Booked s
  below : s.peak.aggregVal = 0 ∨ s.peak.aggregVal < s.peak.threshold

section Grant

theorem throttleLoop_freed {delta t i freed : ℕ} {l : List (ℕ × ℕ)} {ok : Bool}
    (h : m.throttleLoop env delta l ok = .throttled t i freed) : delta < freed ∧ freed < 2 ^ 32 := by
  induction l generalizing ok with
  | nil =>
    rw [Manager.throttleLoop] at h
    split_ifs at h
  | cons p rest ih =>
    rw [Manager.throttleLoop] at h
    split_ifs at h with hlow hcb hrate halloc
    · exact ih h
    · exact ih h
    · exact ih h
    · have hfreed := (ThrottleOutcome.throttled.inj h).2.2
      rw [not_or, Nat.not_le, Nat.not_le] at hlow
      rw [← hfreed]
      have hlt : u32 ((m.info.table p.1).currentMa (m.info.table p.1).vddLevel
        m.info.peak.aggregLevel) < 2 ^ 32 := Nat.mod_lt _ (by decide)
      exact ⟨hlow.2, (Nat.sub_le _ _).trans_lt hlt⟩

theorem load_le_totalLoad (hb : Booked s) (t : ℕ) : (s.table t).load s.peak.aggregLevel ≤ s.totalLoad := by
  by_cases ht : t < s.totClkClients
  · rw [totalLoad_eq ht]
    exact Nat.le_add_right _ _
  · rw [Entry.load, if_neg]
    · exact Nat.zero_le _
    · exact fun hn => ht (lt_of_findEntry (hb.first t hn.1))

theorem totalLoad_le_askedLoad (hb : Budgeted m.info)
    (hover : m.info.peak.threshold ≤ m.askedLoad c reqLevel r blocks) :
    m.info.totalLoad ≤ m.askedLoad c reqLevel r blocks := by
  have hval := hb.booked.val
  rcases hb.below with hzero | hlt
  · omega
  · omega

/-- **What a granted request comes to**: the sum is what all clients would draw, less what is freed. -/
theorem checkPeakCurrent_cases (hb : Budgeted m.info) (hc : (m.info.table c).client = true)
    (hr : u32 r = 0 → r = 0) (hfits : m.askedLoad c reqLevel r blocks < 2 ^ 31)
    (hsome : m.checkPeakCurrent env c reqLevel r blocks = some m') :
    (m.askedLoad c reqLevel r blocks = 0 ∧ m'.info =
      { m.info with peak := ⟨m.info.peak.threshold, 0, m.adjLevel c reqLevel⟩ }) ∨
    (m.askedLoad c reqLevel r blocks ≠ 0 ∧
      (m.askedLoad c reqLevel r blocks < m.info.peak.threshold ∨
        m.info.peak.threshold ≤ m.askedLoad c reqLevel r blocks ∧ m.high c = true ∧ env.enabled = true ∧
          m.throttleLowPriorityClient env (m.askedMore c reqLevel r blocks) = .nobody) ∧
      m'.info = { m.info with
        peak := ⟨m.info.peak.threshold, m.askedLoad c reqLevel r blocks, m.adjLevel c reqLevel⟩ }) ∨
    (m.askedLoad c reqLevel r blocks ≠ 0 ∧
      m.info.peak.threshold ≤ m.askedLoad c reqLevel r blocks ∧ m.high c = true ∧ env.enabled = true ∧
      ∃ t i freed,
      m.throttleLowPriorityClient env (m.askedMore c reqLevel r blocks) = .throttled t i freed ∧
      m'.info = { m.info.setEntry t ((m.info.table t).throttle (m.freq t lowSvs)) with
        peak := ⟨m.info.peak.threshold, u32 (m.askedLoad c reqLevel r blocks + (2 ^ 32 - freed)),
          m.adjLevel c reqLevel⟩ }) := by
  have hlt := lt_of_findEntry (hb.booked.first c hc)
  have hload := hb.booked.load_lt hlt
  have hold := hb.booked.oldCur_eq hc
  have htotalLoad := totalLoad_eq (s := m.info) hlt
  have hval := hb.booked.val
  have hA : m.askedLoad c reqLevel r blocks =
      (m.info.table c).newLoad reqLevel (m.adjLevel c reqLevel) r blocks +
        m.info.otherLoad c (m.adjLevel c reqLevel) := rfl
  have hnew : u32 ((m.info.table c).newLoad reqLevel (m.adjLevel c reqLevel) r blocks) =
      (m.info.table c).newLoad reqLevel (m.adjLevel c reqLevel) r blocks := by
    apply u32_of_lt
    omega
  -- the sum before throttling
  have htotal : u32 ((if m.adjLevel c reqLevel ≠ m.info.peak.aggregLevel then
        u32 (calculateTotalCurrent m.info (m.adjLevel c reqLevel) c +
          (m.info.table c).newLoad reqLevel (m.adjLevel c reqLevel) r blocks)
        else m.info.peak.aggregVal) +
      (if m.adjLevel c reqLevel ≠ m.info.peak.aggregLevel then 0
        else u32 ((m.info.table c).newLoad reqLevel (m.adjLevel c reqLevel) r blocks +
          (2 ^ 32 - (m.info.table c).load m.info.peak.aggregLevel)))) =
      m.askedLoad c reqLevel r blocks := by
    split_ifs with hne
    · rw [Nat.add_zero, hb.booked.calculateTotalCurrent_eq, ← hnew, u32_add]
      show u32 (u32 _) = _
      rw [u32, u32, Nat.mod_mod, ← u32, Nat.add_comm, ← hA]
      exact u32_of_lt (hfits.trans two_pow_31_lt)
    · rw [not_ne_iff] at hne
      rw [hne] at hA
      rw [hval, htotalLoad, hne]
      show (_ + (_ % 2 ^ 32)) % 2 ^ 32 = _
      rw [Nat.add_mod_mod, hA]
      omega
  -- what the search is asked for
  have hmore : m.info.peak.threshold ≤ m.askedLoad c reqLevel r blocks →
      (if m.adjLevel c reqLevel ≠ m.info.peak.aggregLevel then 0
        else u32 ((m.info.table c).newLoad reqLevel (m.adjLevel c reqLevel) r blocks +
          (2 ^ 32 - (m.info.table c).load m.info.peak.aggregLevel))) =
      m.askedMore c reqLevel r blocks := by
    intro hover
    have hle := totalLoad_le_askedLoad hb hover
    rw [Manager.askedMore]
    split_ifs with hne
    · rfl
    · rw [not_ne_iff] at hne
      rw [hne] at hA ⊢
      rw [htotalLoad] at hle ⊢
      show _ % 2 ^ 32 = _
      omega
  have hfreed : ∀ a b f : ℕ, u32 (a + u32 (b + f)) = u32 (u32 (a + b) + f) := by
    intro a b f
    show (a + (b + f) % 2 ^ 32) % 2 ^ 32 = ((a + b) % 2 ^ 32 + f) % 2 ^ 32
    rw [Nat.add_mod_mod, Nat.mod_add_mod, Nat.add_assoc]
  rw [Manager.checkPeakCurrent] at hsome
  simp only [newCur_eq hr, hold] at hsome
  have hadj : checkReqLevel m.info (m.info.table c).clkSrcId reqLevel = m.adjLevel c reqLevel := rfl
  simp only [hadj, hnew] at hsome
  generalize (if m.adjLevel c reqLevel ≠ m.info.peak.aggregLevel then
    u32 (calculateTotalCurrent m.info (m.adjLevel c reqLevel) c +
      (m.info.table c).newLoad reqLevel (m.adjLevel c reqLevel) r blocks)
    else m.info.peak.aggregVal) = peakCur at htotal hsome
  generalize (if m.adjLevel c reqLevel ≠ m.info.peak.aggregLevel then 0
    else u32 ((m.info.table c).newLoad reqLevel (m.adjLevel c reqLevel) r blocks +
      (2 ^ 32 - (m.info.table c).load m.info.peak.aggregLevel))) = deltaCur at htotal hmore hsome
  simp only [hfreed, htotal, signed_nonpos_iff hfits] at hsome
  split_ifs at hsome with h1 h2 h3 h4 h5
  · exact .inl ⟨h3, by rw [← Option.some.inj hsome]⟩
  · exact .inr (.inl ⟨h3, .inl h4, by rw [← Option.some.inj hsome]; rfl⟩)
  · have hover := Nat.le_of_not_lt h4
    rw [hmore hover] at hsome
    split at hsome
    · rename_i hnobody
      exact .inr (.inl ⟨h3, .inr ⟨hover, h5.1, h5.2, hnobody⟩, by rw [← Option.some.inj hsome]; rfl⟩)
    · rename_i t i freed hthrottled
      exact .inr (.inr ⟨h3, hover, h5.1, h5.2, t, i, freed, hthrottled, by rw [← Option.some.inj hsome]; rfl⟩)
    · cases hsome

theorem totalLoad_replace_two {t : ℕ} {e f : Entry K} {p : Peak} (hb : Booked s)
    (htc : t ≠ c) (hf : f.client = (s.table t).client) :
    ((s.replace c e p).replace t f p).totalLoad + (s.table t).load p.aggregLevel =
      (s.replace c e p).totalLoad + f.load p.aggregLevel := by
  have htable : (s.replace c e p).table t = s.table t := table_setEntry_of_ne htc
  by_cases ht : t < s.totClkClients
  · have hone := totalLoad_eq (s := s.replace c e p) (c := t) ht
    have htwo : ((s.replace c e p).replace t f p).totalLoad = _ := totalLoad_replace ht
    rw [htable] at hone
    rw [htwo, hone]
    show _ = (s.table t).load p.aggregLevel + (s.replace c e p).otherLoad t p.aggregLevel + _
    omega
  · -- outside of the table nobody draws anything
    have hclient : (s.table t).client = false := by
      rw [← Bool.not_eq_true]
      exact fun hn => ht (lt_of_findEntry (hb.first t hn))
    have hzero : ∀ g : Entry K, g.client = false → g.load p.aggregLevel = 0 := fun g hg => by
      rw [Entry.load, if_neg]
      rw [hg]
      simp
    rw [hzero _ hclient, hzero f (hf.trans hclient)]
    refine congrArg (· + 0) (Finset.sum_congr rfl fun j hj => ?_)
    have hjt : j ≠ t := by
      rintro rfl
      exact ht (Finset.mem_range.mp hj)
    show (((s.replace c e p).setEntry t f).table j).load _ = _
    rw [table_setEntry_of_ne hjt]
    rfl

end Grant

section Granted

variable {data : ClientData} {clkVal t freed : ℕ} {e f : Entry K} {p : Peak}

theorem setEntry_replace (htc : t ≠ c) :
    (s.setEntry t f).replace c e p = (s.replace c e p).replace t f p := by
  have htable : update (update s.table t f) c e =
      update (update s.table c e) t f := update_comm htc _ _ _
  show { s with table := update (update s.table t f) c e, peak := p } = _
  rw [htable]
  rfl

theorem setEntry_replace_self : (s.setEntry c f).replace c e p = s.replace c e p := by
  have htable : update (update s.table c f) c e = update s.table c e :=
    update_idem _ _ _
  show { s with table := update (update s.table c f) c e, peak := p } = _
  rw [htable]
  rfl

theorem totalLoad_granted (hc : c < s.totClkClients) (hclient : (s.table c).client = true) :
    (s.replace c ((s.table c).setRate data clkVal reqLevel) p).totalLoad =
      (s.table c).newLoad reqLevel p.aggregLevel ((s.table c).askedRate data clkVal) data.numHwBlocks +
        s.otherLoad c p.aggregLevel := by
  rw [totalLoad_replace hc, setRate_load hclient]

def Manager.afterGrant (m m' : Manager K) (c reqLevel : ℕ) (data : ClientData) (clkVal : ℕ) : State K :=
  (m'.setEntry c ((m.info.table c).setRate data clkVal reqLevel)).info

theorem afterGrant_eq (hinfo : m'.info = { s with peak := p }) : m.afterGrant m' c reqLevel data clkVal =
    s.replace c ((m.info.table c).setRate data clkVal reqLevel) p := by
  show m'.info.setEntry c _ = _
  rw [hinfo]
  rfl

/-- **When throttling pays for a request**: it is another client that draws less by what is taken off. -/
theorem throttled_withinBudget_iff (hb : Budgeted m.info) (hc : (m.info.table c).client = true)
    (hrate : (m.info.table c).askedRate data clkVal = r) (hblocks : data.numHwBlocks = blocks)
    (hfits : m.askedLoad c reqLevel r blocks < 2 ^ 31)
    (hover : m.info.peak.threshold ≤ m.askedLoad c reqLevel r blocks)
    (hmore : m.askedMore c reqLevel r blocks < freed) (hfreed : freed < 2 ^ 32)
    (hp : p = ⟨m.info.peak.threshold, u32 (m.askedLoad c reqLevel r blocks + (2 ^ 32 - freed)),
      m.adjLevel c reqLevel⟩)
    (hf : f.client = (m.info.table t).client) :
    WithinBudget ((m.info.setEntry t f).replace c ((m.info.table c).setRate data clkVal reqLevel) p) ↔
      t ≠ c ∧ (m.info.table t).load (m.adjLevel c reqLevel) = f.load (m.adjLevel c reqLevel) + freed ∧
      (m.adjLevel c reqLevel ≠ m.info.peak.aggregLevel →
        m.askedLoad c reqLevel r blocks < m.info.peak.threshold + freed) := by
  have hlt := lt_of_findEntry (hb.booked.first c hc)
  have htotal : (m.info.replace c ((m.info.table c).setRate data clkVal reqLevel) p).totalLoad =
      m.askedLoad c reqLevel r blocks := by
    rw [totalLoad_granted hlt hc, hrate, hblocks, hp]
    rfl
  have hval : p.aggregVal = (m.askedLoad c reqLevel r blocks + (2 ^ 32 - freed)) % 2 ^ 32 := by rw [hp]; rfl
  by_cases htc : t = c
  · -- what the client frees is drawn again
    rw [htc, setEntry_replace_self]
    refine iff_of_false (fun h => ?_) fun h => h.1 rfl
    have hsum : p.aggregVal = _ := h.val
    rw [htotal] at hsum
    omega
  · rw [setEntry_replace htc]
    have hdrop := totalLoad_replace_two (e := (m.info.table c).setRate data clkVal reqLevel) (p := p)
      hb.booked htc hf
    rw [htotal] at hdrop
    have hlevel : p.aggregLevel = m.adjLevel c reqLevel := by rw [hp]
    rw [hlevel] at hdrop
    constructor
    · intro h
      have hsum : p.aggregVal = _ := h.val
      have hbelow : p.aggregVal < p.threshold := h.below
      have hthreshold : p.threshold = m.info.peak.threshold := by rw [hp]
      have hle : freed ≤ m.askedLoad c reqLevel r blocks := by omega
      exact ⟨htc, by omega, fun _ => by omega⟩
    · intro ⟨_, hpays, hchange⟩
      have hval' : p.aggregVal = m.askedLoad c reqLevel r blocks - freed := by omega
      have hbelow : m.askedLoad c reqLevel r blocks < m.info.peak.threshold + freed := by
        by_cases hne : m.adjLevel c reqLevel ≠ m.info.peak.aggregLevel
        · exact hchange hne
        · -- the level stays: the sum was below the threshold, and what it grows by is freed
          rw [Manager.askedMore, if_neg hne] at hmore
          rw [not_ne_iff] at hne
          have hbooked := hb.booked.val
          have hle := totalLoad_le_askedLoad hb hover
          rcases hb.below with hzero | hunder
          · have hpart := load_le_totalLoad hb.booked t
            rw [hne] at hpays
            omega
          · omega
      refine ⟨?_, ?_⟩
      · show p.aggregVal < p.threshold
        rw [hval', hp]
        show _ < m.info.peak.threshold
        omega
      · show p.aggregVal = _
        omega

theorem withinBudget_iff (hb : Budgeted m.info) (hc : (m.info.table c).client = true)
    (hrate : (m.info.table c).askedRate data clkVal = r) (hblocks : data.numHwBlocks = blocks)
    (hr : u32 r = 0 → r = 0) (hfits : m.askedLoad c reqLevel r blocks < 2 ^ 31)
    (hpos : m.askedLoad c reqLevel r blocks ≠ 0)
    (hsome : m.checkPeakCurrent env c reqLevel r blocks = some m') :
    WithinBudget (m.afterGrant m' c reqLevel data clkVal) ↔ m.BudgetKept env c reqLevel r blocks := by
  have hlt := lt_of_findEntry (hb.booked.first c hc)
  rw [Manager.BudgetKept]
  rcases checkPeakCurrent_cases hb hc hr hfits hsome with
    ⟨hzero, -⟩ | ⟨-, hwhy, hinfo⟩ | ⟨-, hover, hhigh, henabled, t, i, freed, hsearch, hinfo⟩
  · exact absurd hzero hpos
  · rw [afterGrant_eq hinfo]
    rcases hwhy with hunder | ⟨hover, hhigh, henabled, hnobody⟩
    · refine iff_of_true ⟨hunder, ?_⟩ fun _ hover => absurd hover (Nat.not_le.mpr hunder)
      rw [totalLoad_granted hlt hc, hrate, hblocks]
      rfl
    · refine iff_of_false (fun h => absurd h.below (Nat.not_lt.mpr hover)) fun h => ?_
      obtain ⟨t, i, freed, hsearch, -⟩ := h hpos hover hhigh henabled (by rw [hnobody]; nofun)
      rw [hnobody] at hsearch
      cases hsearch
  · obtain ⟨hmore, hfreed⟩ := throttleLoop_freed hsearch
    have hclient : ((m.info.table t).throttle (m.freq t lowSvs)).client = (m.info.table t).client := rfl
    rw [afterGrant_eq hinfo]
    refine (throttled_withinBudget_iff hb hc hrate hblocks hfits hover hmore hfreed rfl hclient).trans ?_
    constructor
    · exact fun h _ _ _ _ _ => ⟨t, i, freed, hsearch, h⟩
    · intro h
      obtain ⟨t₁, i₁, freed₁, hsearch₁, hpays⟩ := h hpos hover hhigh henabled (by rw [hsearch]; nofun)
      rw [hsearch] at hsearch₁
      cases hsearch₁
      exact hpays

theorem Booked.setRate (h : Booked s) (hsome : (s.table c).clk.isSome = true)
    (hval : p.aggregVal = (s.replace c ((s.table c).setRate data clkVal reqLevel) p).totalLoad)
    (hfits : (s.replace c ((s.table c).setRate data clkVal reqLevel) p).totalLoad < 2 ^ 31) :
    Booked (s.replace c ((s.table c).setRate data clkVal reqLevel) p) :=
  h.replace rfl (fun _ => hsome) (fun _ => h.client c hsome) (h.first c) hfits hval

/-- **The books after a granted request** that throttling pays for, where it has to. -/
theorem Budgeted.granted (hb : Budgeted m.info) (hclk : (m.info.table c).clk.isSome = true)
    (hrate : (m.info.table c).askedRate data clkVal = r) (hblocks : data.numHwBlocks = blocks)
    (hr : u32 r = 0 → r = 0) (hfits : m.askedLoad c reqLevel r blocks < 2 ^ 31)
    (hkept : m.BudgetKept env c reqLevel r blocks)
    (hsome : m.checkPeakCurrent env c reqLevel r blocks = some m') :
    Budgeted (m.afterGrant m' c reqLevel data clkVal) := by
  have hc := hb.booked.client c hclk
  have hlt := lt_of_findEntry (hb.booked.first c hc)
  have htotal : ∀ val, (m.info.replace c ((m.info.table c).setRate data clkVal reqLevel)
      ⟨m.info.peak.threshold, val, m.adjLevel c reqLevel⟩).totalLoad = m.askedLoad c reqLevel r blocks := by
    intro val
    rw [totalLoad_granted hlt hc, hrate, hblocks]
    rfl
  have hasked : Booked (m.info.replace c ((m.info.table c).setRate data clkVal reqLevel)
      ⟨m.info.peak.threshold, m.askedLoad c reqLevel r blocks, m.adjLevel c reqLevel⟩) :=
    hb.booked.setRate hclk (htotal _).symm (by rw [htotal]; exact hfits)
  rcases checkPeakCurrent_cases hb hc hr hfits hsome with
    ⟨hzero, hinfo⟩ | ⟨hpos, -, hinfo⟩ | ⟨hpos, hover, hhigh, henabled, t, i, freed, hsearch, hinfo⟩
  · rw [hzero] at hasked
    rw [afterGrant_eq hinfo]
    exact ⟨hasked, .inl rfl⟩
  · have hwithin := (withinBudget_iff hb hc hrate hblocks hr hfits hpos hsome).mpr hkept
    rw [afterGrant_eq hinfo] at hwithin ⊢
    exact ⟨hasked, .inr hwithin.below⟩
  · have hwithin := (withinBudget_iff hb hc hrate hblocks hr hfits hpos hsome).mpr hkept
    obtain ⟨t₁, i₁, freed₁, hsearch₁, htc, hpays, -⟩ := hkept hpos hover hhigh henabled
      (by rw [hsearch]; nofun)
    rw [hsearch] at hsearch₁
    cases hsearch₁
    rw [afterGrant_eq hinfo, setEntry_replace htc] at hwithin ⊢
    -- the throttled client has drawn something
    have hclient : (m.info.table t).client = true ∧ (m.info.table t).clkRate ≠ 0 := by
      by_contra hn
      have hmore := (throttleLoop_freed hsearch).1
      rw [Entry.load, if_neg hn] at hpays
      omega
    have htable : (m.info.replace c ((m.info.table c).setRate data clkVal reqLevel)
        ⟨m.info.peak.threshold, m.askedLoad c reqLevel r blocks, m.adjLevel c reqLevel⟩).table t =
        m.info.table t := table_setEntry_of_ne htc
    refine ⟨hasked.replace (c := t) ?_ (fun _ => ?_) (fun _ => hclient.1) (fun _ => ?_) ?_ hwithin.val,
      .inr hwithin.below⟩
    · rw [htable]
      rfl
    · exact hb.booked.rated t hclient.2
    · rw [htable]
      exact (findEntry_replace (e := (m.info.table c).setRate data clkVal reqLevel) rfl _).trans
        (hb.booked.first t hclient.1)
    · exact (hwithin.val.symm.trans_lt (lt_of_lt_of_le hwithin.below hover)).trans hfits

end Granted

section Calls

variable {freqs : Option K → ℕ → ℕ} {client : Option ℕ} {clientData : Option ClientData} {clkVal : ℕ}

theorem Manager.setval_cases (fw : Framework K) (m : Manager K) (env : Surroundings) (client : Option ℕ)
    (clientData : Option ClientData) (clkVal : ℕ) :
    (m.setval fw env client clientData clkVal).1 = m ∨
    (∃ c reserve, c < m.info.totClkClients ∧ (m.setval fw env client clientData clkVal).1 =
      m.setEntry c { m.info.table c with reserve := reserve }) ∨
    ∃ c data reqLevel m', client = some c ∧ clientData = some data ∧ (m.info.table c).clk.isSome = true ∧
      (m.info.table c).askedLevel fw data clkVal = some reqLevel ∧
      m.checkPeakCurrent env c reqLevel ((m.info.table c).askedRate data clkVal) data.numHwBlocks =
        some m' ∧
      (m.setval fw env client clientData clkVal).1.info = m.afterGrant m' c reqLevel data clkVal := by
  match client, clientData with
  | none, _ => exact .inl rfl
  | some c, none => exact .inl rfl
  | some c, some data =>
    by_cases hc : m.info.totClkClients ≤ c
    · left
      rw [setval]
      exact congrArg Prod.fst (if_pos hc)
    · have hlt := Nat.lt_of_not_le hc
      cases hclk : (m.info.table c).clk with
      | none =>
        left
        simp only [setval, hclk, if_neg hc]
      | some clk =>
        have hsome : (m.info.table c).clk.isSome = true := by rw [hclk]; rfl
        obtain ⟨level, hlevel⟩ : ∃ level, (if clkVal ≠ 0 then
            getReqLevel fw clk ((m.info.table c).askedRate data clkVal) else some 0) = level := ⟨_, rfl⟩
        simp only [setval, hclk, if_neg hc, hlevel]
        split_ifs
        · exact .inl rfl
        · exact .inl rfl
        · exact .inr (.inl ⟨c, data.reserveOnly, hlt, by rw [hclk]⟩)
        · cases level <;> exact .inl rfl
        cases level with
        | none => exact .inl rfl
        | some reqLevel =>
          have hasked : (m.info.table c).askedLevel fw data clkVal = some reqLevel := by
            rw [Entry.askedLevel, hclk]
            exact hlevel
          cases hpeak : m.checkPeakCurrent env c reqLevel ((m.info.table c).askedRate data clkVal)
              data.numHwBlocks with
          | none =>
            left
            simp only [hpeak]
          | some m' =>
            simp only [hpeak]
            exact .inr (.inr ⟨c, data, reqLevel, m', rfl, rfl, hsome, hasked, hpeak, rfl⟩)

/-- A client asks for a rate that is not a multiple of `2 ^ 32`, no sum wraps, and the budget is kept. -/
def Affordable (fw : Framework K) (m : Manager K) (env : Surroundings) (c : ℕ) (data : ClientData)
    (clkVal : ℕ) : Prop :=
  (u32 ((m.info.table c).askedRate data clkVal) = 0 → (m.info.table c).askedRate data clkVal = 0) ∧
    ∀ reqLevel ∈ (m.info.table c).askedLevel fw data clkVal,
      m.askedLoad c reqLevel ((m.info.table c).askedRate data clkVal) data.numHwBlocks < 2 ^ 31 ∧
      m.BudgetKept env c reqLevel ((m.info.table c).askedRate data clkVal) data.numHwBlocks

theorem Budgeted.setval (hb : Budgeted m.info)
    (hcan : ∀ c ∈ client, ∀ data ∈ clientData, Affordable fw m env c data clkVal) :
    Budgeted (m.setval fw env client clientData clkVal).1.info := by
  rcases Manager.setval_cases fw m env client clientData clkVal with
    hm | ⟨c, reserve, hlt, hm⟩ | ⟨c, data, reqLevel, m', rfl, rfl, hclk, hasked, hsome, hm⟩
  · rw [hm]
    exact hb
  · rw [hm]
    refine ⟨hb.booked.replace_same ⟨hlt, rfl, rfl, hb.booked.rated c, hb.booked.client c,
      hb.booked.first c, fun _ => ⟨rfl, rfl, rfl⟩⟩, hb.below⟩
  · obtain ⟨hr, hlevels⟩ := hcan c rfl data rfl
    obtain ⟨hfits, hkept⟩ := hlevels reqLevel hasked
    rw [hm]
    exact hb.granted hclk rfl rfl hr hfits hkept hsome

theorem Budgeted.register (hb : Budgeted s) (desc : ClientDesc K) (multiple allocated crmTbl : Bool) :
    Budgeted (register fw s desc multiple allocated crmTbl) := by
  rcases register_cases hb.booked fw desc multiple allocated crmTbl with heq | ⟨c, e, heq, he⟩
  · rw [heq]
    exact hb
  · rw [heq]
    exact ⟨hb.booked.replace_same he, hb.below⟩

def Undrawn (s : State K) (c : ℕ) : Prop :=
  1 < (s.table c).refCount ∨ (s.table c).clkRate = 0 ∨ (s.table c).load s.peak.aggregLevel = 0

theorem Budgeted.deregister (hb : Budgeted s) (hundrawn : ∀ c ∈ client, Undrawn s c)
    (hholds : s.Holds client) : Budgeted (deregister s client) := by
  match client with
  | none => exact hb
  | some c =>
    rw [Mmrm.deregister]
    simp only
    split_ifs with hc hlast
    · exact hb
    · have hlt := Nat.lt_of_not_le hc
      rcases hundrawn c rfl with hmany | hzero | hload
      · omega
      · exact ⟨hb.booked.replace_same (harmless_cleared hlt hzero), hb.below⟩
      · have hdrops : ∀ e : Entry K, e.client = false → e.load s.peak.aggregLevel = 0 := fun e he => by
          rw [Entry.load, if_neg]
          rw [he]
          simp
        have hsame : ∀ e : Entry K, e.client = false →
            (s.replace c e s.peak).totalLoad = s.totalLoad := fun e he => by
          rw [totalLoad_replace hlt, hdrops e he, totalLoad_eq hlt, hload]
        refine ⟨hb.booked.replace rfl (fun hn => absurd rfl hn) (fun hn => absurd hn (by simp))
          (fun hn => absurd hn (by simp)) ?_ ?_, hb.below⟩
        · exact (hsame _ rfl).trans_lt hb.booked.fits
        · exact hb.booked.val.trans (hsame _ rfl).symm
    · have hlt := Nat.lt_of_not_le hc
      exact ⟨hb.booked.replace_same ⟨hlt, rfl, rfl, hb.booked.rated c, hb.booked.client c,
        hb.booked.first c, fun _ => ⟨rfl, rfl, rfl⟩⟩, hb.below⟩

inductive ThrottleAction (K : Type*) where
  | register (desc : ClientDesc K) (high multiple client crmTbl : Bool)
  | deregister (client : Option ℕ)
  | setval (client : Option ℕ) (clientData : Option ClientData) (clkVal : ℕ) (env : Surroundings)

/-- The calls in any order, throttling included. -/
def throttleMachine (fw : Framework K) (freqs : Option K → ℕ → ℕ) :
    Machine (Manager K) (ThrottleAction K) where
  init m := Initial m.info ∧ m.throttled = []
  guard m
    | .register _ _ _ _ _ => True
    | .deregister client => m.info.Holds client ∧ ∀ c ∈ client, Undrawn m.info c
    | .setval client clientData clkVal env =>
      m.info.Holds client ∧ ∀ c ∈ client, ∀ data ∈ clientData, Affordable fw m env c data clkVal
  next m
    | .register desc high multiple client crmTbl => m.register fw freqs desc high multiple client crmTbl
    | .deregister client => m.deregister client
    | .setval client clientData clkVal env => (m.setval fw env client clientData clkVal).1

theorem budgeted_of_initial (h : Initial s) : Budgeted s := ⟨(inv_of_initial h).booked, .inl h.2.1⟩

theorem budgeted_of_reachable (h : (throttleMachine fw freqs).Reachable m) : Budgeted m.info := by
  refine h.invariant (I := fun m => Budgeted m.info) (fun m hm => budgeted_of_initial hm.1) fun m a hm ha => ?_
  cases a with
  | register desc high multiple client crmTbl => exact hm.register desc multiple client crmTbl
  | deregister client => exact hm.deregister ha.2 ha.1
  | setval client clientData clkVal env => exact hm.setval ha.2

def twoClocks : Manager Unit := ⟨{ oneClock with totClkClients := 2 }, fun _ => false, fun _ _ => 0, [0], []⟩

def calm : Surroundings := ⟨true, fun _ => some true, fun _ => true, true⟩

/-- Both register, and the first one sets its rate. -/
def lowBusy : List (ThrottleAction Unit) :=
  [.register someDesc false false true true, .register { someDesc with clientId := 1 } true false true true,
    .setval (some 0) (some someData) 6 calm]

def lowBusyState : Manager Unit := (throttleMachine someFramework fun _ _ => 1).exec twoClocks lowBusy

theorem allows_lowBusy : (throttleMachine someFramework fun _ _ => 1).Allows twoClocks lowBusy := by
  refine ⟨trivial, trivial, ⟨holds_zero rfl, fun c hc data hdata => ?_⟩, trivial⟩
  cases hc
  cases hdata
  refine ⟨by decide, fun reqLevel hlevel => ?_⟩
  cases (show some 5 = some reqLevel from hlevel)
  exact ⟨by decide, fun _ hover => absurd hover (by decide)⟩

theorem reachable_lowBusy : (throttleMachine someFramework fun _ _ => 1).Reachable lowBusyState :=
  (Machine.Reachable.init (M := throttleMachine someFramework fun _ _ => 1)
    ⟨⟨fun _ => ⟨rfl, rfl, rfl⟩, rfl, rfl⟩, rfl⟩).exec lowBusy allows_lowBusy

end Calls

end Mmrm
