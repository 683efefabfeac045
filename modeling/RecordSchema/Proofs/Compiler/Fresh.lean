import RecordSchema.Proofs.Compiler.Merge

/-! Catalogues of new types. If every entry compiles by itself, under a name that neither the
compiler nor another entry has, all of them are registered and nothing else is. -/

namespace RecordSchema

namespace Registry
variable {registry : Registry} {d : Descriptor} {ds : List Descriptor}

theorem insertByName_perm (d : Descriptor) (ds : List Descriptor) :
    (insertByName d ds).Perm (d :: ds) := by
  induction ds with
  | nil => exact .refl _
  | cons other rest ih =>
      rw [insertByName]
      split
      · exact .refl _
      · exact (ih.cons other).trans (.swap d other rest)

theorem perm_add (h : registry.contains d.name = false) :
    (registry.add d).descriptors.Perm (registry.descriptors ++ [d]) := by
  have hadd : registry.add d = ⟨insertByName d registry.descriptors⟩ :=
    if_neg (Bool.eq_false_iff.mp h)
  rw [hadd]
  exact (insertByName_perm d _).trans (List.perm_append_singleton d _).symm

/-- Descriptors of distinct names, none of them taken. -/
structure Fresh (registry : Registry) (ds : List Descriptor) : Prop where
  free : ∀ d ∈ ds, registry.contains d.name = false
  distinct : (ds.map Descriptor.name).Nodup

theorem Fresh.add (h : registry.Fresh (d :: ds)) : (registry.add d).Fresh ds := by
  obtain ⟨hfree, hdistinct⟩ := h
  rw [List.map_cons, List.nodup_cons] at hdistinct
  refine ⟨fun other ho => ?_, hdistinct.2⟩
  have hne : d.name ≠ other.name := fun he => hdistinct.1 (he ▸ List.mem_map_of_mem ho)
  have hother := hfree other (List.mem_cons_of_mem d ho)
  rw [← Bool.not_eq_true, contains_add, hother]
  simpa using hne

/-- Nothing is lost and nothing else comes in. -/
theorem Fresh.perm_foldl_add (h : registry.Fresh ds) :
    (ds.foldl Registry.add registry).descriptors.Perm (registry.descriptors ++ ds) := by
  induction ds generalizing registry with
  | nil => rw [List.foldl_nil, List.append_nil]
  | cons d ds ih =>
      have hd := perm_add (h.free d List.mem_cons_self)
      have hrest := (ih h.add).trans (hd.append_right ds)
      rwa [List.append_assoc] at hrest

end Registry

/-- A report on new types alone. -/
def Report.allRegistered (names : List String) : Report := ⟨names.toArray, #[], 0, #[]⟩

theorem Report.noteAll_registered (report : Report) (index : Nat) (names : List String) :
    report.noteAll index (names.map fun name => .ok (.registered name)) =
      { report with registered := report.registered ++ names.toArray } := by
  induction names generalizing report index with
  | nil => simp [noteAll]
  | cons name names ih =>
      rw [List.map_cons, noteAll, ih]
      simp [note, addOutcome]

namespace Builder
variable {builder : Builder} {entries : List String} {ds : List Descriptor}

theorem registry_foldl_afterEntry (h : entries.map Description.parse = ds.map (.ok <| some ·)) :
    (entries.foldl afterEntry builder).registry = ds.foldl Registry.add builder.registry := by
  induction ds generalizing builder entries with
  | nil =>
      obtain rfl := List.map_eq_nil_iff.mp h
      rfl
  | cons d ds ih =>
      obtain ⟨source, rest, rfl, hsource, hrest⟩ := List.map_eq_cons_iff.mp h
      rw [List.foldl_cons, ih hrest, registry_afterEntry, hsource]
      rfl

theorem outcomes_fresh (h : entries.map Description.parse = ds.map (.ok <| some ·))
    (hf : builder.registry.Fresh ds) :
    builder.outcomes entries = (ds.map Descriptor.name).map fun name => .ok (.registered name) := by
  induction ds generalizing builder entries with
  | nil =>
      obtain rfl := List.map_eq_nil_iff.mp h
      rfl
  | cons d ds ih =>
      obtain ⟨source, rest, rfl, hsource, hrest⟩ := List.map_eq_cons_iff.mp h
      have hentry : builder.compileEntry source = .ok (.registered d.name, _) :=
        compileEntry_eq_registered.mpr ⟨d, hsource, rfl, hf.free d List.mem_cons_self, rfl⟩
      have hafter : (builder.afterEntry source).registry.Fresh ds := by
        rw [registry_afterEntry, hsource]
        exact hf.add
      rw [outcomes, hentry, ih hrest hafter]
      rfl

theorem loadReport_fresh (h : entries.map Description.parse = ds.map (.ok <| some ·))
    (hf : builder.registry.Fresh ds) :
    builder.loadReport entries = .allRegistered (ds.map Descriptor.name) := by
  rw [loadReport, outcomes_fresh h hf, Report.noteAll_registered]
  simp [Report.empty, Report.allRegistered]

end Builder

theorem Host.perm_seed : (Host.seed .empty).registry.descriptors.Perm Host.descriptors := by
  have hfresh : Builder.empty.registry.Fresh Host.descriptors := ⟨fun _ _ => rfl, by decide⟩
  rw [registry_seed]
  exact hfresh.perm_foldl_add

theorem Host.contains_seed (name : String) :
    (Host.seed .empty).registry.contains name = Host.isHostType name := by
  rw [Bool.eq_iff_iff, Registry.contains_iff_mem_names, Registry.names,
    (perm_seed.map _).mem_iff]
  exact List.contains_iff_mem.symm

/-- The registry of a catalogue of new types has these beside the host's, and no others. -/
theorem compileCatalogue_fresh {entries : List String} {ds : List Descriptor}
    (h : entries.map Description.parse = ds.map (.ok <| some ·))
    (hhost : ∀ d ∈ ds, Host.isHostType d.name = false)
    (hdistinct : (ds.map Descriptor.name).Nodup) :
    ∃ registry, compileCatalogue {} entries =
        .ok (registry, .allRegistered (ds.map Descriptor.name)) ∧
      registry.descriptors.Perm (Host.descriptors ++ ds) ∧ registry.Ordered := by
  have hf : (Host.seed .empty).registry.Fresh ds :=
    ⟨fun d hd => (Host.contains_seed d.name).trans (hhost d hd), hdistinct⟩
  have hrun := Compiler.compileCatalogue_lenient (Host.seed .empty) entries
  rw [Builder.loadReport_fresh h hf] at hrun
  refine ⟨_, congrArg (fun run => run.2.map (run.1.builder.registry, ·)) hrun, ?_, ?_⟩
  · rw [Builder.registry_foldl_afterEntry h]
    exact hf.perm_foldl_add.trans (Host.perm_seed.append_right ds)
  · exact ordered_foldl_afterEntry entries (ordered_new {})

end RecordSchema
