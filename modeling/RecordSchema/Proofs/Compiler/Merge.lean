import RecordSchema.Proofs.Compiler.Load
import RecordSchema.Proofs.Registry.Offers

/-! A lenient catalogue load as a merge: of each name the first description that compiles by itself
is kept, whatever stands around it. -/

namespace RecordSchema

namespace Builder

theorem compileEntries_lenient (builder : Builder) (report : Report) (index : Nat)
    (entries : List String) :
    ∃ filled, builder.compileEntries false report index entries =
      (entries.foldl afterEntry builder, .ok filled) :=
  ⟨_, compileEntries_eq_noteAll builder report index entries⟩

theorem registry_afterEntry (builder : Builder) (source : String) :
    (builder.afterEntry source).registry =
      match Description.parse source with
      | .ok (some d) => builder.registry.add d
      | _ => builder.registry := by
  have step := compileEntry_step builder source
  cases h : builder.compileEntry source with
  | error failure =>
      rw [h] at step
      cases step with
      | failed hp => simp only [afterEntry, h, hp]
  | ok result =>
      rw [h] at step
      cases step with
      | notStruct hp => simp only [afterEntry, h, hp]
      | registered hp => simp only [afterEntry, h, hp]
      | @recognized name hd hk =>
          simp only [afterEntry, h]
          split
          · rename_i d hp
            obtain rfl := Option.some.inj (hd.symm.trans (Description.declares?_of_parse_some hp))
            exact (Registry.add_of_contains hk).symm
          · rfl

end Builder

/-- A descriptor offered to the known types is taken if its name is free. -/
def offer (known : String → Option Descriptor) (d : Descriptor) : String → Option Descriptor :=
  if (known d.name).isSome then known
  else fun name => if name = d.name then some d else known name

/-- What one more description makes of the known types: if it compiles it is offered to them. -/
def mergeEntry (known : String → Option Descriptor) (source : String) :
    String → Option Descriptor :=
  match Description.parse source with
  | .ok (some d) => offer known d
  | _ => known

/-- The types that are known before any entry. -/
def hostTypes (seeded : Bool) (name : String) : Option Descriptor :=
  if seeded then Host.descriptors.find? (·.name == name) else none

theorem lookup_add_eq_offer (registry : Registry) (d : Descriptor) :
    (registry.add d).lookup = offer registry.lookup d := by
  funext name
  rw [Registry.lookup_add, offer]
  by_cases hn : name = d.name
  · cases hk : registry.lookup d.name with
    | none => simp [hn, hk]
    | some found => simp [hn, hk]
  · have hne : (d.name == name) = false := by simp [Ne.symm hn]
    split <;> simp [hn, hne]

theorem lookup_afterEntry (builder : Builder) (source : String) :
    (builder.afterEntry source).registry.lookup = mergeEntry builder.registry.lookup source := by
  rw [Builder.registry_afterEntry, mergeEntry]
  cases Description.parse source with
  | error e => rfl
  | ok parsed =>
      cases parsed with
      | none => rfl
      | some d => exact lookup_add_eq_offer builder.registry d

theorem lookup_foldl_afterEntry (entries : List String) (builder : Builder) :
    (entries.foldl Builder.afterEntry builder).registry.lookup =
      entries.foldl mergeEntry builder.registry.lookup := by
  induction entries generalizing builder with
  | nil => rfl
  | cons source rest ih => rw [List.foldl_cons, List.foldl_cons, ih, lookup_afterEntry]

theorem ordered_foldl_afterEntry (entries : List String) {builder : Builder}
    (h : builder.registry.Ordered) :
    (entries.foldl Builder.afterEntry builder).registry.Ordered := by
  induction entries generalizing builder with
  | nil => exact h
  | cons source rest ih =>
      refine ih ?_
      rw [Builder.registry_afterEntry]
      split
      · exact h.add _
      · exact h

theorem registry_seed (builder : Builder) :
    (Host.seed builder).registry = Host.descriptors.foldl Registry.add builder.registry := by
  unfold Host.seed
  generalize Host.descriptors = ds
  induction ds generalizing builder with
  | nil => rfl
  | cons d rest ih => rw [List.foldl_cons, List.foldl_cons, ih, Builder.registry_seedHost]

theorem lookup_new (options : CompileOptions) :
    (Compiler.new options).builder.registry.lookup = hostTypes options.seedHostTypes := by
  funext name
  unfold Compiler.new hostTypes
  split
  · rw [registry_seed, Registry.lookup_foldl_add]
    rfl
  · rfl

theorem ordered_new (options : CompileOptions) :
    (Compiler.new options).builder.registry.Ordered := by
  unfold Compiler.new
  split
  · rw [registry_seed]
    exact Registry.ordered_empty.foldl_add Host.descriptors
  · exact Registry.ordered_empty

/-- A lenient load gives the merged map, and each entry ends as its own compilation and the names
known before it say. -/
theorem compileCatalogue_merges (seeded : Bool) (entries : List String) :
    (∃ registry report,
      compileCatalogue ⟨seeded, false⟩ entries = .ok (registry, report) ∧ registry.Ordered ∧
        registry.lookup = entries.foldl mergeEntry (hostTypes seeded)) ∧
    ∀ (builder after : Builder) (source : String),
      (builder.compileEntry source = .ok (.notStruct, after) ↔
        Description.parse source = .ok none ∧ after = builder) ∧
      (∀ name, builder.compileEntry source = .ok (.registered name, after) ↔
        ∃ d, Description.parse source = .ok (some d) ∧ d.name = name ∧
          builder.isKnown name = false ∧
          after = { builder with registry := builder.registry.add d }) ∧
      (∀ name, builder.compileEntry source = .ok (.recognized name, after) ↔
        Description.declares? source = some name ∧ builder.isKnown name = true ∧
          after = builder) ∧
      ∀ failure, builder.compileEntry source = .error failure ↔
        Description.parse source = .error failure.error ∧
          failure.typeName = Description.declares? source ∧
          ∀ name, Description.declares? source = some name → builder.isKnown name = false := by
  refine ⟨?_, fun builder after source => ⟨Builder.compileEntry_eq_notStruct,
    fun _ => Builder.compileEntry_eq_registered, fun _ => Builder.compileEntry_eq_recognized,
    fun _ => Builder.compileEntry_eq_error⟩⟩
  obtain ⟨report, hrun⟩ := (Compiler.new ⟨seeded, false⟩).builder.compileEntries_lenient
    .empty 0 entries
  refine ⟨(entries.foldl Builder.afterEntry (Compiler.new ⟨seeded, false⟩).builder).registry,
    report, ?_, ?_, ?_⟩
  · have hstrict : (Compiler.new ⟨seeded, false⟩).strict = false := rfl
    simp only [compileCatalogue, Compiler.compileCatalogue, hstrict, hrun]
    rfl
  · exact ordered_foldl_afterEntry entries (ordered_new _)
  · rw [lookup_foldl_afterEntry, lookup_new]

end RecordSchema
