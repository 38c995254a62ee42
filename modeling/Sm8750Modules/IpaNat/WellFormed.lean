import Sm8750Modules.IpaNat.Client

/-!
# Well-formedness of a NAT table

What holds of the two tables in every state of an orderly run, stated on the records alone:
-/

namespace Sm8750Modules.IpaNat

open SlotChain Runs

structure WellFormed (c : IpaNatIp4TableCache) : Prop where
  nat : (natLinks c.table).WellChained c.table.tableEntries c.table.totTblEnts
  index : (indexLinks c.indexTable).WellChained c.indexTable.tableEntries
    c.indexTable.totTblEnts
  empty_zero : ∀ i, (c.table.slot i).enable = false → c.table.slot i = RecordLayout.zero
  natCnt : Counted c.table.tableEntries c.table.totTblEnts c.table (natLinks c.table)
  indexCnt : Counted c.indexTable.tableEntries c.indexTable.totTblEnts c.indexTable
    (indexLinks c.indexTable)

theorem OrderlyInv.wellFormed {base size : ℕ} {homeN homeI : ℕ → ℕ} {s : NatClient}
    (h : OrderlyInv base size homeN homeI s) : WellFormed s.cache := by
  obtain ⟨rankN, hcN⟩ := h.chain.nat
  obtain ⟨rankI, hcI⟩ := h.chain.index
  have hcfg := h.chain.config
  refine ⟨?_, ?_, h.cross.zero, ?_, ?_⟩
  · rw [hcfg.nat.base_eq, hcfg.nat.tot_eq]
    exact hcN.wellChained
  · rw [hcfg.index.base_eq, hcfg.index.tot_eq]
    exact hcI.wellChained
  · rw [hcfg.nat.base_eq, hcfg.nat.tot_eq]
    exact h.chain.natCnt
  · rw [hcfg.index.base_eq, hcfg.index.tot_eq]
    exact h.chain.indexCnt

/-- **Chain well-formedness** in every state of an orderly run. -/
theorem natClient_wellFormed {s : NatClient} (h : (natClient Orderly).Reachable s) :
    WellFormed s.cache := by
  obtain ⟨base, size, homeN, homeI, hinv⟩ := orderlyInv_reachable h
  exact hinv.wellFormed

theorem natClient_wellFormed_smallDead : WellFormed smallDead.cache :=
  natClient_wellFormed (orderly_of_hashed smallDead_reachable)

/-- **Live NAT slots and used index slots correspond one to one** in every state of an orderly
run, and the index slot of a rule names the rule. -/
theorem natClient_bijOn {s : NatClient} (h : (natClient Orderly).Reachable s) :
    Set.BijOn (fun i => (s.cache.table.slot i).indxTblEntry)
      {i | (s.cache.table.slot i).live = true}
      {k | indexEntryInterface.entryIsValid (s.cache.indexTable.slot k) = true} ∧
    ∀ i, (s.cache.table.slot i).live = true →
      (s.cache.indexTable.slot (s.cache.table.slot i).indxTblEntry).tblEntry = i := by
  obtain ⟨base, size, homeN, homeI, hinv⟩ := orderlyInv_reachable h
  have hrule := hinv.cross.rule
  refine ⟨⟨?_, ?_, ?_⟩, hrule⟩
  · intro i (hi : (s.cache.table.slot i).live = true)
    have hpos := (hinv.chain.nat_pos_lt (ChainInv.used_of_live hi)).1
    exact indexLinks_occupied.mpr (by rw [hrule i hi]; exact hpos.ne')
  · intro i (hi : (s.cache.table.slot i).live = true) j
      (hj : (s.cache.table.slot j).live = true) hij
    have h1 := hrule i hi
    dsimp only at hij
    rw [hij, hrule j hj] at h1
    exact h1.symm
  · intro k hk
    obtain ⟨hl, hk'⟩ := hinv.cross.entry k (indexLinks_occupied.mp hk)
    exact ⟨_, hl, hk'⟩

theorem natClient_bijOn_smallDead :
    Set.BijOn (fun i => (smallDead.cache.table.slot i).indxTblEntry)
      {i | (smallDead.cache.table.slot i).live = true}
      {k | indexEntryInterface.entryIsValid (smallDead.cache.indexTable.slot k) = true} ∧
    ∀ i, (smallDead.cache.table.slot i).live = true →
      (smallDead.cache.indexTable.slot (smallDead.cache.table.slot i).indxTblEntry).tblEntry = i :=
  natClient_bijOn (orderly_of_hashed smallDead_reachable)

end Sm8750Modules.IpaNat
