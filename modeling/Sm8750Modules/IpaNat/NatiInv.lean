import Sm8750Modules.IpaNat.Dispatch

/-!
# The invariant of the NAT library

`NatiInv` is what the API calls keep (`NatiRuns`): in each memory there is no table or one that
satisfies the invariant of a single table, no rule in force has its redirect flag set, and in each
memory the two maps are inverse to each other and point to live rules.
-/

namespace Sm8750Modules.IpaNat

open Function

/-! ### The invariant -/

def Undirected (t : IpaTable IpaNatRule) : Prop :=
  ∀ i, (t.slot i).live = true → (t.slot i).redirect = false

/-- What the driver keeps for a memory: no table, or a table of that memory. -/
inductive TableInv (m : IpaNatMemIn) (c : IpaNatIp4TableCache) : Prop where
  | absent (h : c = zeroTableCache)
  | present {base size : ℕ} {homeN homeI : ℕ → ℕ} (chain : ChainInv base size homeN homeI c)
      (nmi : c.table.nmi = m) (undirected : Undirected c.table)

/-- The maps of a memory: inverse to each other, and the new handles are those of live rules. -/
structure MapInv (t : IpaTable IpaNatRule) (o2n n2o : IpaNatMap) : Prop where
  inverse : ∀ orig new, o2n orig = some new ↔ n2o new = some orig
  live : ∀ new orig, n2o new = some orig →
    ∃ i, (t.slot i).live = true ∧ new = makeEntryHdl t i

/-- **The invariant of the library.** -/
structure NatiInv (w : Nati) : Prop where
  table : ∀ m, TableInv m (w.natCache m).ip4Tbl
  maps : ∀ m, MapInv (w.natCache m).ip4Tbl.table (w.obj.orig2newMap m) (w.obj.new2origMap m)
  empty : w.inHybridState = false → ∀ m orig, w.obj.orig2newMap m orig = none
  ddrHdl : tblHdlNmi w.obj.ddrTblHdl = .ddr
  sramHdl : w.obj.sramTblHdl = 0 ∨ tblHdlNmi w.obj.sramTblHdl = .sram

variable {t : IpaTable IpaNatRule} {o2n n2o : IpaNatMap}

theorem MapInv.of_empty
    (ho : ∀ orig, o2n orig = none) (hn : ∀ new, n2o new = none) : MapInv t o2n n2o :=
  ⟨fun orig new => by rw [ho, hn]; simp, fun new orig h => by rw [hn] at h; cases h⟩

theorem MapInv.mono {t' : IpaTable IpaNatRule} (h : MapInv t o2n n2o)
    (hlive : ∀ i, (t.slot i).live = true → (t'.slot i).live = true)
    (hhdl : makeEntryHdl t' = makeEntryHdl t) : MapInv t' o2n n2o := by
  refine ⟨h.inverse, fun new orig hn => ?_⟩
  obtain ⟨i, hi, hnew⟩ := h.live new orig hn
  exact ⟨i, hlive i hi, by rw [hhdl]; exact hnew⟩

theorem MapInv.insert (h : MapInv t o2n n2o)
    {orig n : ℕ} (hn : (t.slot n).live = true) (ho : o2n orig = none)
    (hnew : n2o (makeEntryHdl t n) = none) :
    MapInv t (update o2n orig (some (makeEntryHdl t n)))
      (update n2o (makeEntryHdl t n) (some orig)) := by
  constructor
  · intro orig' new'
    by_cases ho' : orig' = orig
    · subst ho'
      rw [update_self]
      by_cases hn' : new' = makeEntryHdl t n
      · subst hn'
        simp
      · rw [update_of_ne hn', ← h.inverse, ho]
        simp [Ne.symm hn']
    · rw [update_of_ne ho']
      by_cases hn' : new' = makeEntryHdl t n
      · subst hn'
        rw [update_self, h.inverse, hnew]
        simp [Ne.symm ho']
      · rw [update_of_ne hn', h.inverse]
  · intro new' orig' hm
    by_cases hn' : new' = makeEntryHdl t n
    · exact ⟨n, hn, hn'⟩
    · rw [update_of_ne hn'] at hm
      exact h.live new' orig' hm

theorem MapInv.erase (h : MapInv t o2n n2o)
    {orig new : ℕ} (ho : o2n orig = some new) :
    MapInv t (update o2n orig none) (update n2o new none) := by
  have hn : n2o new = some orig := (h.inverse orig new).mp ho
  constructor
  · intro orig' new'
    by_cases ho' : orig' = orig
    · subst ho'
      rw [update_self]
      by_cases hn' : new' = new
      · subst hn'
        simp
      · rw [update_of_ne hn', ← h.inverse, ho]
        simp [Ne.symm hn']
    · rw [update_of_ne ho']
      by_cases hn' : new' = new
      · subst hn'
        rw [update_self, h.inverse, hn]
        simp [Ne.symm ho']
      · rw [update_of_ne hn', h.inverse]
  · intro new' orig' hm
    by_cases hn' : new' = new
    · subst hn'
      rw [update_self] at hm
      cases hm
    · rw [update_of_ne hn'] at hm
      exact h.live new' orig' hm

section Table

variable {m : IpaNatMemIn} {c : IpaNatIp4TableCache}

theorem zeroTableCache_live (i : ℕ) : (zeroTableCache.table.slot i).live = false := rfl

theorem TableInv.add (h : TableInv m c) (g : NatDrvi) (clnt : IpaNatIpv4Rule) (post : Bool) :
    TableInv m (ipaNATIAddIpv4Rule g c clnt post).cache ∧
    makeEntryHdl (ipaNATIAddIpv4Rule g c clnt post).cache.table = makeEntryHdl c.table ∧
    (((ipaNATIAddIpv4Rule g c clnt post).ret = 0 ∧ ∃ n,
      (ipaNATIAddIpv4Rule g c clnt post).ruleHdl = makeEntryHdl c.table n ∧
      (∀ i, (c.table.slot i).live = true → makeEntryHdl c.table i ≠ makeEntryHdl c.table n) ∧
      ∀ i, ((ipaNATIAddIpv4Rule g c clnt post).cache.table.slot i).live = true ↔
        i = n ∨ (c.table.slot i).live = true) ∨
    ((ipaNATIAddIpv4Rule g c clnt post).ret ≠ 0 ∧
      ∀ i, ((ipaNATIAddIpv4Rule g c clnt post).cache.table.slot i).live =
        (c.table.slot i).live)) := by
  cases h with
  | absent h =>
    subst h
    have hsame : (ipaNATIAddIpv4Rule g zeroTableCache clnt post).ret ≠ 0 ∧
        (ipaNATIAddIpv4Rule g zeroTableCache clnt post).cache = zeroTableCache := by
      unfold ipaNATIAddIpv4Rule
      split
      · exact ⟨(by decide : einval ≠ 0), rfl⟩
      · split
        · exact ⟨(by decide : einval ≠ 0), rfl⟩
        · rw [if_pos (by decide)]
          exact ⟨(by decide : einval ≠ 0), rfl⟩
    rw [hsame.2]
    exact ⟨.absent rfl, rfl, Or.inr ⟨hsame.1, fun _ => rfl⟩⟩
  | @present base size homeN homeI chain nmi undirected =>
    rcases addRule_cases chain g clnt post with
      ⟨hret, hproto, -, n, k, ha, hhdl⟩ | ⟨hret, ha⟩
    · refine ⟨.present (ha.chainInv chain hproto) (ha.nmi.trans nmi) fun i hi => ?_,
        makeEntryHdl_congr chain.config.nat ha.config.nat ha.nmi,
        Or.inl ⟨hret, n, hhdl, fun i hi he => ?_, ha.live_iff hproto⟩⟩
      · by_cases hin : i = n
        · subst hin
          exact congrArg IpaNatRule.redirect ha.nat.record_new
        · have hold := ha.nat.record_old i hin
          have hl := ((ha.live_iff hproto i).mp hi).resolve_left hin
          exact (congrArg IpaNatRule.redirect hold).trans (undirected i hl)
      · have hsize := (chain.nat_pos_lt (ChainInv.used_of_live hi)).2
        exact ha.ne_of_live hi (makeEntryHdl_inj chain.config.sizes chain.config.nat hsize
          (ha.slot_pos_lt chain).2 he)
    · have hlive := addRefused_live (s := ⟨g, c, [], fun _ => none⟩) ha
      refine ⟨.present (ha.chainInv chain) (ha.nmi.trans nmi) fun i hi => ?_,
        makeEntryHdl_congr chain.config.nat ha.config.nat ha.nmi, Or.inr ⟨hret, hlive⟩⟩
      rw [hlive] at hi
      rw [ha.used_slot (ChainInv.used_of_live hi)]
      exact undirected i hi

theorem TableInv.del (h : TableInv m c) (hdl : ℕ) (post : Bool) :
    TableInv m (ipaNATIDelIpv4Rule c hdl post).2 ∧
    makeEntryHdl (ipaNATIDelIpv4Rule c hdl post).2.table = makeEntryHdl c.table ∧
    (((ipaNATIDelIpv4Rule c hdl post).1 = 0 ∧ ∃ i, ipaTableGetEntry c.table hdl = .ok i ∧
      ∀ j, ((ipaNATIDelIpv4Rule c hdl post).2.table.slot j).live = true ↔
        (c.table.slot j).live = true ∧ j ≠ i) ∨
    ((ipaNATIDelIpv4Rule c hdl post).1 ≠ 0 ∧
      ∀ j, ((ipaNATIDelIpv4Rule c hdl post).2.table.slot j).live = (c.table.slot j).live)) := by
  cases h with
  | absent h =>
    subst h
    have hsame : ipaNATIDelIpv4Rule zeroTableCache hdl post = (einval, zeroTableCache) := by
      unfold ipaNATIDelIpv4Rule
      exact if_pos (by decide)
    rw [hsame]
    exact ⟨.absent rfl, rfl, Or.inr ⟨(by decide : einval ≠ 0), fun _ => rfl⟩⟩
  | @present base size homeN homeI chain nmi undirected =>
    rcases delRule_cases chain hdl post with
      ⟨hret, hsame | ⟨k, hcopy⟩⟩ | ⟨hret, i, k, q, hget, hi, -, hd⟩
    · rw [hsame]
      exact ⟨.present chain nmi undirected, rfl, Or.inr ⟨hret, fun _ => rfl⟩⟩
    · rw [hcopy]
      have hnmi := copySecond_nmi c k
      refine ⟨.present (copySecond_chainInv chain k) (hnmi.trans nmi) fun j hj => ?_,
        makeEntryHdl_congr chain.config.nat (copySecond_config chain.config k).nat hnmi,
        Or.inr ⟨hret, copySecond_live c k⟩⟩
      rw [copySecond_live] at hj
      exact (congrArg IpaNatRule.redirect (copySecond_slot c k j)).trans (undirected j hj)
    · refine ⟨.present (hd.chainInv chain hi) (hd.nmi.trans nmi) fun j hj => ?_,
        makeEntryHdl_congr chain.config.nat hd.config.nat hd.nmi,
        Or.inl ⟨hret, i, hget, hd.live_iff⟩⟩
      obtain ⟨hl, hji⟩ := (hd.live_iff j).mp hj
      exact (congrArg IpaNatRule.redirect (hd.fields_eq hl hji)).trans (undirected j hl)

theorem TableInv.clear (h : TableInv m c) : TableInv m (ipaNATIClearIpv4Tbl c) := by
  cases h with
  | absent h =>
    subst h
    refine .absent ?_
    simp [ipaNATIClearIpv4Tbl, ipaTableReset, zeroTableCache, zeroIpaTable]
  | @present base size homeN homeI chain nmi undirected =>
    refine .present (clear_chainInv chain) nmi fun i hi => ?_
    rw [clear_nat_slot chain.config] at hi ⊢
    by_cases his : i < size
    · rw [if_pos his]
      rfl
    · rw [if_neg his] at hi ⊢
      exact undirected i hi

theorem TableInv.create {addrOffset n tableIndex : ℕ}
    (h : ipaNatiCreateTable m addrOffset n tableIndex = .ok c) : TableInv m c := by
  obtain ⟨base, size, hcfg, hnat, hindex, h1, h2, h3, h4, -, hnmi⟩ := ipaNatiCreateTable_config h
  refine .present (chainInv_empty hcfg (fun i => by rw [hnat]; rfl) hindex h1 h2 h3 h4) hnmi
    fun i hi => ?_
  rw [hnat] at hi
  exact absurd hi (by decide)

end Table

/-! ### The driver -/

namespace NatiInv

variable {w : Nati}

theorem congr (h : NatiInv w) {w' : Nati} (hcache : w'.natCache = w.natCache)
    (ho : w'.obj.orig2newMap = w.obj.orig2newMap) (hn : w'.obj.new2origMap = w.obj.new2origMap)
    (hs : w'.inHybridState = false → w.inHybridState = false)
    (hd : w'.obj.ddrTblHdl = w.obj.ddrTblHdl) (hr : w'.obj.sramTblHdl = w.obj.sramTblHdl) :
    NatiInv w' := by
  refine ⟨?_, ?_, ?_, ?_, ?_⟩
  · rw [hcache]; exact h.table
  · rw [hcache, ho, hn]; exact h.maps
  · rw [ho]; exact fun hw' => h.empty (hs hw')
  · rw [hd]; exact h.ddrHdl
  · rw [hr]; exact h.sramHdl

theorem sys (h : NatiInv w) : NatiInv w.sys.2.2 := h.congr rfl rfl rfl id rfl rfl

variable {m : IpaNatMemIn}

section

variable (h : NatiInv w)
include h

theorem setTable {c : IpaNatIp4TableCache} (hc : TableInv m c)
    (hm : MapInv c.table (w.obj.orig2newMap m) (w.obj.new2origMap m)) :
    NatiInv (w.setTable m c) := by
  refine ⟨fun m' => ?_, fun m' => ?_, h.empty, h.ddrHdl, h.sramHdl⟩
  all_goals
    by_cases hmm : m' = m
    · subst hmm
      simp only [Nati.setTable, update_self]
      assumption
    · simp only [Nati.setTable, update_of_ne hmm]
      first
        | exact h.table m'
        | exact h.maps m'

theorem clearMaps (m : IpaNatMemIn) : NatiInv (w.clearMaps m) := by
  refine ⟨h.table, fun m' => ?_, fun hw m' orig => ?_, h.ddrHdl, h.sramHdl⟩
  · by_cases hmm : m' = m
    · subst hmm
      simp only [Nati.clearMaps, Nati.setMaps, update_self]
      exact MapInv.of_empty (fun _ => rfl) fun _ => rfl
    · simp only [Nati.clearMaps, Nati.setMaps, update_of_ne hmm]
      exact h.maps m'
  · by_cases hmm : m' = m
    · subst hmm
      simp only [Nati.clearMaps, Nati.setMaps, update_self]
    · simp only [Nati.clearMaps, Nati.setMaps, update_of_ne hmm]
      exact h.empty hw m' orig

theorem setMaps (hw : w.inHybridState = true)
    (hm : MapInv (w.natCache m).ip4Tbl.table o2n n2o) :
    NatiInv (w.setMaps m o2n n2o) := by
  refine ⟨h.table, fun m' => ?_, fun hf => ?_, h.ddrHdl, h.sramHdl⟩
  · by_cases hmm : m' = m
    · subst hmm
      simp only [Nati.setMaps, update_self]
      exact hm
    · simp only [Nati.setMaps, update_of_ne hmm]
      exact h.maps m'
  · exact absurd (hw.symm.trans hf) (by decide)

theorem n2o_none (ho : ∀ orig, w.obj.orig2newMap m orig = none)
    (new : ℕ) : w.obj.new2origMap m new = none := by
  cases hn : w.obj.new2origMap m new with
  | none => rfl
  | some orig =>
    have hm := ((h.maps m).inverse orig new).mpr hn
    rw [ho] at hm
    cases hm

theorem n2o_of_not_live {new : ℕ}
    (hne : ∀ i, ((w.natCache m).ip4Tbl.table.slot i).live = true →
      makeEntryHdl (w.natCache m).ip4Tbl.table i ≠ new) : w.obj.new2origMap m new = none := by
  cases hnew : w.obj.new2origMap m new with
  | none => rfl
  | some orig =>
    obtain ⟨i, hi, he⟩ := (h.maps m).live _ _ hnew
    exact absurd he.symm (hne i hi)

theorem addRule (t : ℕ) (clnt : IpaNatIpv4Rule) : NatiInv (natiAddIpv4Rule w t clnt).2.2 := by
  unfold natiAddIpv4Rule
  split
  · exact h
  · obtain ⟨htab, hhdl, hcase⟩ := (h.table (tblHdlNmi t)).add w.drvi clnt (decide (w.sys.1 = 0))
    have hinv : NatiInv ({ w.sys.2.2 with
        drvi := (ipaNATIAddIpv4Rule w.drvi (w.natCache (tblHdlNmi t)).ip4Tbl clnt
          (decide (w.sys.1 = 0))).drvi } : Nati) := h.congr rfl rfl rfl id rfl rfl
    refine hinv.setTable htab ((h.maps (tblHdlNmi t)).mono (fun i hi => ?_) hhdl)
    rcases hcase with ⟨-, n, -, -, hlive⟩ | ⟨-, hlive⟩
    · exact (hlive i).mpr (Or.inr hi)
    · exact (hlive i).trans hi

theorem added {t : ℕ} {clnt : IpaNatIpv4Rule} {w' : Nati}
    (hw' : w' = (natiAddIpv4Rule w t clnt).2.2) (hret : (natiAddIpv4Rule w t clnt).1 = 0) :
    ∃ n, (natiAddIpv4Rule w t clnt).2.1 =
        some (makeEntryHdl (w'.natCache (tblHdlNmi t)).ip4Tbl.table n) ∧
      ((w'.natCache (tblHdlNmi t)).ip4Tbl.table.slot n).live = true ∧
      w'.obj.new2origMap (tblHdlNmi t)
        (makeEntryHdl (w'.natCache (tblHdlNmi t)).ip4Tbl.table n) = none := by
  subst hw'
  unfold natiAddIpv4Rule at hret ⊢
  split at hret
  · exact absurd hret (by decide : ¬ einval = 0)
  next hvalid =>
  obtain ⟨-, hhdl, hcase⟩ := (h.table (tblHdlNmi t)).add w.drvi clnt (decide (w.sys.1 = 0))
  rcases hcase with ⟨-, n, hn, hfree, hlive⟩ | ⟨hne, -⟩
  · simp only [hvalid, if_false, Nati.setTable, update_self]
    have hnone := h.n2o_of_not_live hfree
    exact ⟨n, congrArg some (hn.trans (congrFun hhdl n).symm), (hlive n).mpr (Or.inl rfl),
      (congrArg (w.obj.new2origMap (tblHdlNmi t)) (congrFun hhdl n)).trans hnone⟩
  · exact absurd hret hne

theorem mapRule (hw : w.inHybridState = true) {n : ℕ}
    (orig : ℕ) (hn : ((w.natCache m).ip4Tbl.table.slot n).live = true)
    (hnew : w.obj.new2origMap m (makeEntryHdl (w.natCache m).ip4Tbl.table n) = none) :
    NatiInv (w.mapRule m orig (makeEntryHdl (w.natCache m).ip4Tbl.table n)).2 := by
  unfold Nati.mapRule ipaNatMapAdd
  cases ho : w.obj.orig2newMap m orig with
  | some new => exact h
  | none =>
    simp only [ne_eq, not_true_eq_false, if_false, hnew]
    exact h.setMaps hw ((h.maps m).insert hn ho hnew)

/-- **Deleting a handle from a table** keeps the invariant, when the maps do not mention the slot
that the handle names. -/
theorem delRule (t hdl : ℕ)
    (hfree : ∀ i, ipaTableGetEntry (w.natCache (tblHdlNmi t)).ip4Tbl.table hdl = .ok i →
      w.obj.new2origMap (tblHdlNmi t)
        (makeEntryHdl (w.natCache (tblHdlNmi t)).ip4Tbl.table i) = none) :
    NatiInv (natiDelIpv4Rule w t hdl).2 := by
  unfold natiDelIpv4Rule
  split
  · exact h
  · obtain ⟨htab, hhdl, hcase⟩ := (h.table (tblHdlNmi t)).del hdl (decide (w.sys.1 = 0))
    refine h.sys.setTable htab ?_
    rcases hcase with ⟨-, i, hget, hlive⟩ | ⟨-, hlive⟩
    · refine ⟨(h.maps _).inverse, fun new orig hn => ?_⟩
      obtain ⟨j, hj, hnew⟩ := (h.maps _).live new orig hn
      have hji : j ≠ i := by
        rintro rfl
        have hnone := hfree j hget
        rw [← hnew] at hnone
        exact absurd (hn.symm.trans hnone) (by simp)
      exact ⟨j, (hlive j).mpr ⟨hj, hji⟩, hnew.trans (congrFun hhdl j).symm⟩
    · exact (h.maps _).mono (fun i hi => (hlive i).trans hi) hhdl

end

theorem lookup_table {t : ℕ} {c : IpaNatIp4TableCache} (hl : w.lookup t = some c) :
    c = (w.natCache (tblHdlNmi t)).ip4Tbl := by
  unfold Nati.lookup at hl
  split at hl <;> cases hl
  rfl

/-- **Clearing a table** keeps the invariant, when its maps are empty. -/
theorem clearTbl (h : NatiInv w) (t : ℕ)
    (ho : ∀ orig, w.obj.orig2newMap (tblHdlNmi t) orig = none) :
    NatiInv (natiClearIpv4Tbl w t).2 := by
  unfold natiClearIpv4Tbl
  cases hl : w.lookup t with
  | none => exact h
  | some c =>
    rw [lookup_table hl]
    exact h.setTable (h.table _).clear (MapInv.of_empty ho (h.n2o_none ho))

theorem postInit (h : NatiInv w) (t : ℕ) : NatiInv (natiPostIpv4InitCmd w t).2 := by
  unfold natiPostIpv4InitCmd
  cases w.lookup t with
  | none => exact h
  | some c => exact h.sys

theorem zeroTable (h : NatiInv w) {cnt : ℕ}
    (ho : ∀ orig, w.obj.orig2newMap m orig = none) :
    NatiInv { w with natCache := update w.natCache m ⟨cnt, zeroTableCache⟩ } := by
  refine ⟨fun m' => ?_, fun m' => ?_, h.empty, h.ddrHdl, h.sramHdl⟩
  all_goals
    by_cases hmm : m' = m
    · subst hmm
      simp only [update_self]
      first
        | exact .absent rfl
        | exact MapInv.of_empty ho (h.n2o_none ho)
    · simp only [update_of_ne hmm]
      first
        | exact h.table m'
        | exact h.maps m'

/-- **Deleting a table** keeps the invariant, when its maps are empty. -/
theorem delTable (h : NatiInv w) (t : ℕ)
    (ho : ∀ orig, w.obj.orig2newMap (tblHdlNmi t) orig = none) :
    NatiInv (natiDelIpv4Table w t).2 := by
  unfold natiDelIpv4Table
  dsimp only
  split
  · exact h
  · exact h.sys.zeroTable ho

/-- **Creating a table** keeps the invariant, when its maps are empty. -/
theorem addTable (h : NatiInv w) (m : IpaNatMemIn) (ip : UInt32) (n : ℕ)
    (ho : ∀ orig, w.obj.orig2newMap m orig = none) :
    NatiInv (natiAddIpv4Tbl w m ip n).2.2 := by
  unfold natiAddIpv4Tbl
  split
  · exact h
  split
  · exact h
  dsimp only
  split
  · exact h.sys
  split
  · exact h.sys
  next c hc =>
  split
  · refine (h.sys.sys.sys).setTable (.absent rfl) (MapInv.of_empty ho (h.n2o_none ho))
  · refine ⟨fun m' => ?_, fun m' => ?_, h.empty, h.ddrHdl, h.sramHdl⟩
    all_goals
      by_cases hmm : m' = m
      · subst hmm
        simp only [update_self]
        first
          | exact TableInv.create hc
          | exact MapInv.of_empty ho (h.n2o_none ho)
      · simp only [update_of_ne hmm]
        first
          | exact h.table m'
          | exact h.maps m'

end NatiInv

theorem natiAddIpv4Tbl_hdl (w : Nati) (m : IpaNatMemIn) (ip : UInt32) (n : ℕ) :
    (natiAddIpv4Tbl w m ip n).2.1 = 0 ∨ (natiAddIpv4Tbl w m ip n).2.1 = makeTblHdl 1 m := by
  unfold natiAddIpv4Tbl
  split
  · exact Or.inl rfl
  split
  · exact Or.inl rfl
  dsimp only
  split
  · exact Or.inl rfl
  split
  · exact Or.inl rfl
  split
  · exact Or.inl rfl
  · exact Or.inr rfl

theorem natiAddIpv4Tbl_obj (w : Nati) (m : IpaNatMemIn) (ip : UInt32) (n : ℕ) :
    (natiAddIpv4Tbl w m ip n).2.2.obj = w.obj := by
  unfold natiAddIpv4Tbl
  split
  · rfl
  split
  · rfl
  dsimp only
  split
  · rfl
  split
  · rfl
  split <;> rfl

end Sm8750Modules.IpaNat
