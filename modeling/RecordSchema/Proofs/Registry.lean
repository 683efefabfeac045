import RecordSchema.Host
import RecordSchema.Proofs.Fields

/-! Registries as maps from names to descriptors: what `add` does to a look-up, and the order of
the names that every addition keeps. -/

namespace RecordSchema.Registry

/-- The names stand in strictly increasing order. -/
def Ordered (registry : Registry) : Prop := registry.names.Pairwise (· < ·)

theorem ordered_empty : Ordered .empty := List.Pairwise.nil

theorem insertByName_ordered {d : Descriptor} {ds : List Descriptor}
    (hs : (ds.map (·.name)).Pairwise (· < ·)) (hd : d.name ∉ ds.map (·.name)) :
    ((insertByName d ds).map (·.name)).Pairwise (· < ·) := by
  induction ds with
  | nil => exact List.pairwise_singleton _ _
  | cons other rest ih =>
      rw [List.map_cons, List.pairwise_cons] at hs
      rw [List.map_cons, List.mem_cons, not_or] at hd
      simp only [insertByName]
      split
      · rename_i hlt
        rw [List.map_cons, List.map_cons, List.pairwise_cons, List.pairwise_cons]
        refine ⟨fun name hm => ?_, hs⟩
        rcases List.mem_cons.mp hm with rfl | hm
        · exact hlt
        · exact String.lt_trans hlt (hs.1 name hm)
      · rename_i hge
        rw [List.map_cons, List.pairwise_cons]
        refine ⟨fun name hm => ?_, ih hs.2 hd.2⟩
        obtain ⟨found, hf, rfl⟩ := List.mem_map.mp hm
        rcases mem_insertByName.mp hf with rfl | hf
        · exact Decidable.byContradiction fun hle => hd.1 (String.le_antisymm hle hge)
        · exact hs.1 _ (List.mem_map.mpr ⟨found, hf, rfl⟩)

theorem add_of_contains {registry : Registry} {d : Descriptor}
    (h : registry.contains d.name = true) : registry.add d = registry := if_pos h

theorem Ordered.add {registry : Registry} (h : registry.Ordered) (d : Descriptor) :
    (registry.add d).Ordered := by
  unfold Registry.add
  split
  · exact h
  · rename_i hc
    exact insertByName_ordered h (mt contains_iff_mem_names.mpr hc)

/-- A registry holds its descriptors under their own names, one for each. -/
theorem lookup_eq_some_iff {registry : Registry} (h : registry.Ordered) {name : String}
    {d : Descriptor} :
    registry.lookup name = some d ↔ d ∈ registry.descriptors ∧ d.name = name := by
  have hnodup : (registry.descriptors.map (·.name)).Nodup := h.imp String.ne_of_lt
  exact Fields.find?_eq_some_iff hnodup

theorem find?_insertByName {d : Descriptor} {ds : List Descriptor}
    (hd : d.name ∉ ds.map (·.name)) (name : String) :
    (insertByName d ds).find? (·.name == name) =
      (ds.find? (·.name == name)).or ([d].find? (·.name == name)) := by
  induction ds with
  | nil => rfl
  | cons other rest ih =>
      rw [List.map_cons, List.mem_cons, not_or] at hd
      simp only [insertByName]
      split
      · by_cases hn : d.name = name
        · have hnone : (other :: rest).find? (·.name == name) = none := by
            rw [List.find?_eq_none]
            intro found hf he
            have hname : found.name = d.name := (by simpa using he : found.name = name).trans hn.symm
            rcases List.mem_cons.mp hf with rfl | hf
            · exact hd.1 hname.symm
            · exact hd.2 (List.mem_map.mpr ⟨found, hf, hname⟩)
          rw [hnone]
          simp [hn]
        · simp [List.find?_cons, hn]
      · rw [List.find?_cons, List.find?_cons, ih hd.2]
        cases (other.name == name) <;> rfl

theorem Ordered.foldl_add {registry : Registry} (h : registry.Ordered) (ds : List Descriptor) :
    (ds.foldl Registry.add registry).Ordered := by
  induction ds generalizing registry with
  | nil => exact h
  | cons d rest ih => exact ih (h.add d)

/-- An addition is found under its name if nothing was found there before. -/
theorem lookup_add (registry : Registry) (d : Descriptor) (name : String) :
    (registry.add d).lookup name =
      (registry.lookup name).or ([d].find? (·.name == name)) := by
  unfold Registry.add
  split
  · rename_i hc
    by_cases hn : d.name = name
    · rw [contains, hn] at hc
      obtain ⟨found, hf⟩ := Option.isSome_iff_exists.mp hc
      rw [hf, Option.some_or]
    · simp [hn]
  · rename_i hc
    exact find?_insertByName (mt contains_iff_mem_names.mpr hc) name

theorem contains_add {registry : Registry} {d : Descriptor} {name : String} :
    (registry.add d).contains name = true ↔ d.name = name ∨ registry.contains name = true := by
  rw [contains, lookup_add, Option.isSome_or, Bool.or_eq_true, or_comm]
  by_cases hn : d.name = name
  · simp [hn]
  · simp [hn, contains]

theorem lookup_foldl_add (ds : List Descriptor) (registry : Registry) (name : String) :
    (ds.foldl Registry.add registry).lookup name =
      (registry.lookup name).or (ds.find? (·.name == name)) := by
  induction ds generalizing registry with
  | nil => simp
  | cons d rest ih =>
      rw [List.foldl_cons, ih, lookup_add, Option.or_assoc]
      congr 1
      simp only [List.find?_cons, List.find?_nil]
      cases (d.name == name) <;> rfl

end RecordSchema.Registry
