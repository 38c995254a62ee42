import Mathlib

/-!
# Lists of records with identities

Records that are kept in lists, moved between lists, changed in place and dropped, but never
copied.
-/

namespace KeyedLists

open List

variable {α κ : Type*} {key : α → κ} {R S : α → α → Prop} {l l' l'' m m' : List α}

/-- The records of `after` are records of `before`, changed by `R` at most. -/
structure Evolves (key : α → κ) (R : α → α → Prop) (before after : List α) : Prop where
  keys : (after.map key).Subperm (before.map key)
  from_before : ∀ a ∈ after, ∃ b ∈ before, key b = key a ∧ R b a

namespace Evolves

theorem refl (hR : ∀ a, R a a) (l : List α) : Evolves key R l l where
  keys := .refl _
  from_before a ha := ⟨a, ha, rfl, hR a⟩

theorem trans {T : α → α → Prop} (h : Evolves key R l l') (h' : Evolves key S l' l'')
    (hT : ∀ a b c, R a b → S b c → T a c) : Evolves key T l l'' where
  keys := h'.keys.trans h.keys
  from_before c hc := by
    obtain ⟨b, hb, hkey, hS⟩ := h'.from_before c hc
    obtain ⟨a, ha, hkey', hR⟩ := h.from_before b hb
    exact ⟨a, ha, hkey'.trans hkey, hT a b c hR hS⟩

theorem mono (h : Evolves key R l l') (hRS : ∀ a b, R a b → S a b) : Evolves key S l l' where
  keys := h.keys
  from_before a ha := by
    obtain ⟨b, hb, hkey, hR⟩ := h.from_before a ha
    exact ⟨b, hb, hkey, hRS b a hR⟩

theorem append (h : Evolves key R l l') (h' : Evolves key R m m') :
    Evolves key R (l ++ m) (l' ++ m') where
  keys := by
    rw [map_append, map_append]
    exact h.keys.append h'.keys
  from_before a ha := by
    rcases mem_append.1 ha with ha | ha
    · obtain ⟨b, hb, hba⟩ := h.from_before a ha
      exact ⟨b, mem_append_left _ hb, hba⟩
    · obtain ⟨b, hb, hba⟩ := h'.from_before a ha
      exact ⟨b, mem_append_right _ hb, hba⟩

theorem of_subperm (hR : ∀ a, R a a) (h : l'.Subperm l) : Evolves key R l l' where
  keys := by
    obtain ⟨k, hperm, hsub⟩ := h
    exact ⟨k.map key, hperm.map key, hsub.map key⟩
  from_before a ha := ⟨a, h.subset ha, rfl, hR a⟩

theorem of_perm (hR : ∀ a, R a a) (h : l.Perm l') : Evolves key R l l' :=
  of_subperm hR h.symm.subperm

theorem of_sublist (hR : ∀ a, R a a) (h : l'.Sublist l) : Evolves key R l l' :=
  of_subperm hR h.subperm

theorem of_forall₂ (hkey : ∀ a b, R a b → key a = key b) (h : List.Forall₂ R l l') :
    Evolves key R l l' where
  keys := by
    have heq : l.map key = l'.map key := by
      induction h with
      | nil => rfl
      | cons hab _ ih => rw [map_cons, map_cons, hkey _ _ hab, ih]
    rw [heq]
  from_before a ha := by
    induction h with
    | nil => cases ha
    | @cons b a' _ _ hab _ ih =>
      rcases mem_cons.1 ha with rfl | ha
      · exact ⟨b, mem_cons_self, hkey b a hab, hab⟩
      · obtain ⟨c, hc, hca⟩ := ih ha
        exact ⟨c, mem_cons_of_mem _ hc, hca⟩

theorem nodup_keys (h : Evolves key R l l') (hnodup : (l.map key).Nodup) : (l'.map key).Nodup := by
  obtain ⟨k, hperm, hsub⟩ := h.keys
  exact hperm.nodup_iff.1 (hnodup.sublist hsub)

/-- **Identity.**  While keys are unique, a record after is the one from before with its key. -/
theorem related (h : Evolves key R l l') (hnodup : (l.map key).Nodup) {a b : α} (ha : a ∈ l)
    (hb : b ∈ l') (hkey : key a = key b) : R a b := by
  obtain ⟨c, hc, hkey', hR⟩ := h.from_before b hb
  have hac : a = c := inj_on_of_nodup_map hnodup ha hc (hkey.trans hkey'.symm)
  rw [hac]
  exact hR

end Evolves

end KeyedLists
