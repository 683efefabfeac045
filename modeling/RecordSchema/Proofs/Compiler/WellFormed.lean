import RecordSchema.Proofs.Compiler.Merge
import RecordSchema.Proofs.Description.Words
import RecordSchema.Proofs.Text.Bytes

/-! What holds of every registry that a catalogue is compiled to, whatever the catalogue holds and
however its load goes (`compileCatalogue_wellFormed`). -/

namespace RecordSchema
open Description (Writable WritableField)
open Lexer (IsWord isWordChar)

/-! ## Writable descriptors -/

namespace Description

theorem WritableField.words {field : Field} (h : WritableField field) :
    ∀ word ∈ field.name :: field.target?.toList, IsWord word := by
  cases h with
  | scalar hn _ => simpa [Field.target?] using hn
  | target hn ht _ => simpa [Field.target?] using ⟨hn, ht⟩
  | own hn => simpa [Field.target?] using hn

theorem Writable.words {d : Descriptor} (h : Writable d) : ∀ word ∈ d.words, IsWord word := by
  refine List.forall_mem_cons.mpr ⟨h.name, fun word hw => ?_⟩
  obtain ⟨field, hf, hw⟩ := List.mem_flatMap.mp hw
  exact (h.fields field hf).words word hw

theorem WritableField.kind_ne_struct {field : Field} (h : WritableField field) :
    field.kind ≠ .scalar .struct := by
  cases h with
  | scalar _ hs => simpa using hs
  | target _ _ _ => simp
  | own _ => simp

/-- A native word is no type to refer to, unless it is the field's own name. -/
theorem WritableField.name_of_native {field : Field} (h : WritableField field)
    {native : NativeType} (hk : field.kind = .reference native.spelling) :
    field.name = native.spelling := by
  cases h with
  | scalar _ _ => cases hk
  | target _ _ hnone =>
      rw [FieldKind.reference.inj hk, NativeType.ofWord?_spelling] at hnone
      cases hnone
  | own _ => exact FieldKind.reference.inj hk

end Description

theorem Host.writable : ∀ d ∈ Host.descriptors, Writable d := by
  have htype : ∀ field ∈ Host.typeFields, WritableField field := by
    simp only [Host.typeFields, List.forall_mem_cons, List.not_mem_nil, false_implies,
      implies_true, and_true]
    exact ⟨.scalar (by decide) (by decide), .scalar (by decide) (by decide),
      .scalar (by decide) (by decide)⟩
  have hwrapper : ∀ {key type fields : String}, IsWord key → IsWord type → IsWord fields →
      NativeType.ofWord? type = none → NativeType.ofWord? fields = none →
      ∀ field ∈ [⟨key, .reference type⟩, ⟨"FieldValueCollection", .reference fields⟩,
        ⟨"Id", .scalar .int⟩], WritableField field := by
    intro key type fields hkey htype hfields htype' hfields'
    simp only [List.forall_mem_cons, List.not_mem_nil, false_implies, implies_true, and_true]
    exact ⟨.target hkey htype htype', .target (by decide) hfields hfields',
      .scalar (by decide) (by decide)⟩
  simp only [Host.descriptors, List.forall_mem_cons, List.not_mem_nil, false_implies,
    implies_true, and_true]
  exact ⟨⟨by decide, htype, by decide⟩, ⟨by decide, htype, by decide⟩,
    ⟨by decide, List.forall_mem_nil _, by decide⟩, ⟨by decide, List.forall_mem_nil _, by decide⟩,
    ⟨by decide, hwrapper (by decide) (by decide) (by decide) (by decide) (by decide), by decide⟩,
    ⟨by decide, hwrapper (by decide) (by decide) (by decide) (by decide) (by decide), by decide⟩⟩

/-! ## The order of names -/

theorem Text.encode_lt {cs ds : List Char} (hc : ∀ c ∈ cs, c.toNat < 0x80)
    (hd : ∀ d ∈ ds, d.toNat < 0x80) (h : cs < ds) : encode cs < encode ds := by
  induction cs generalizing ds with
  | nil =>
      cases ds with
      | nil => exact absurd h (List.lt_irrefl _)
      | cons d ds =>
          rw [encode_cons, encode_of_ascii (List.forall_mem_cons.mp hd).1]
          exact List.nil_lt_cons _ _
  | cons c cs ih =>
      cases ds with
      | nil => exact absurd h (List.not_lt_nil _)
      | cons d ds =>
          obtain ⟨hc, hcs⟩ := List.forall_mem_cons.mp hc
          obtain ⟨hd, hds⟩ := List.forall_mem_cons.mp hd
          rw [encode_cons, encode_cons, encode_of_ascii hc, encode_of_ascii hd,
            List.singleton_append, List.singleton_append, List.cons_lt_cons_iff]
          rcases List.cons_lt_cons_iff.mp h with hlt | ⟨rfl, hlt⟩
          · left
            rw [UInt8.lt_iff_toNat_lt, toNat_ascii hc, toNat_ascii hd]
            exact hlt
          · exact .inr ⟨rfl, ih hcs hds hlt⟩

/-- The order of words is that of their bytes. -/
theorem Lexer.IsWord.bytes_lt {word other : String} (hw : IsWord word) (ho : IsWord other)
    (h : word < other) : word.toUTF8.toList < other.toUTF8.toList := by
  rw [Text.toList_toUTF8, Text.toList_toUTF8]
  exact Text.encode_lt (fun c hc => Text.toNat_of_isAlphanum (hw.2 c hc))
    (fun c hc => Text.toNat_of_isAlphanum (ho.2 c hc)) (String.lt_iff.mp h)

/-! ## Registries -/

namespace Registry
variable {registry : Registry} {name : String} {d : Descriptor}

/-- The invariant of a registry under construction. -/
structure Regular (registry : Registry) : Prop where
  writable : ∀ d ∈ registry.descriptors, Writable d
  ordered : registry.Ordered

theorem regular_empty : Regular .empty := ⟨List.forall_mem_nil _, ordered_empty⟩

theorem Regular.add (h : registry.Regular) (hd : Writable d) : (registry.add d).Regular := by
  refine ⟨?_, h.ordered.add d⟩
  unfold Registry.add
  split
  · exact h.writable
  · intro other ho
    rcases mem_insertByName.mp ho with rfl | ho
    · exact hd
    · exact h.writable other ho

theorem Regular.foldl_add {ds : List Descriptor} (h : registry.Regular)
    (hds : ∀ d ∈ ds, Writable d) : (ds.foldl Registry.add registry).Regular := by
  induction ds generalizing registry with
  | nil => exact h
  | cons d ds ih =>
      obtain ⟨hd, hmore⟩ := List.forall_mem_cons.mp hds
      exact ih (h.add hd) hmore

end Registry

namespace Builder

/-- What every entry keeps holds at the end of a load, even of one that stops at a failure. -/
theorem compileEntries_induction {P : Builder → Prop}
    (step : ∀ {builder source}, P builder → P (builder.afterEntry source)) {builder : Builder}
    (h : P builder) (strict : Bool) (report : Report) (index : Nat) (entries : List String) :
    P (builder.compileEntries strict report index entries).1 := by
  induction entries generalizing builder report index with
  | nil => exact h
  | cons source rest ih =>
      have hstep : P (builder.afterEntry source) := step h
      unfold afterEntry at hstep
      unfold compileEntries
      cases hs : builder.compileEntry source with
      | ok result =>
          simp only [hs] at hstep ⊢
          exact ih hstep _ _
      | error failure =>
          simp only [hs] at hstep ⊢
          split
          · exact h
          · exact ih h _ _

variable {builder : Builder} {source : String}

theorem regular_afterEntry (h : builder.registry.Regular) :
    (builder.afterEntry source).registry.Regular := by
  rw [registry_afterEntry]
  split
  · rename_i d hp
    exact h.add (Description.writable_of_parse hp)
  · exact h

/-- An entry takes nothing away from what is known. -/
theorem lookup_afterEntry_of_known {name : String} {d : Descriptor}
    (h : builder.registry.lookup name = some d) :
    (builder.afterEntry source).registry.lookup name = some d := by
  rw [registry_afterEntry]
  split
  · rw [Registry.lookup_add, h, Option.some_or]
  · exact h

end Builder

theorem regular_new (options : CompileOptions) :
    (Compiler.new options).builder.registry.Regular := by
  unfold Compiler.new
  split
  · rw [registry_seed]
    exact Registry.regular_empty.foldl_add Host.writable
  · exact Registry.regular_empty

theorem lookup_new_host {options : CompileOptions} (h : options.seedHostTypes = true) :
    ∀ d ∈ Host.descriptors, (Compiler.new options).builder.registry.lookup d.name = some d := by
  have hfind : ∀ d ∈ Host.descriptors, hostTypes true d.name = some d := by decide
  rw [lookup_new, h]
  exact hfind

/-- What the users of a registry may rely on. -/
structure Registry.WellFormed (registry : Registry) : Prop where
  lookup_iff : ∀ name d,
    registry.lookup name = some d ↔ d ∈ registry.descriptors ∧ d.name = name
  words : ∀ d ∈ registry.descriptors, ∀ word ∈ d.words, IsWord word
  distinct : ∀ d ∈ registry.descriptors, (d.fields.map Field.name).Nodup
  noStruct : ∀ d ∈ registry.descriptors, ∀ field ∈ d.fields, field.kind ≠ .scalar .struct
  ownNative : ∀ d ∈ registry.descriptors, ∀ field ∈ d.fields, ∀ native : NativeType,
    field.kind = .reference native.spelling → field.name = native.spelling
  increasing : registry.names.Pairwise fun name other =>
    name.toUTF8.toList < other.toUTF8.toList

theorem Registry.Regular.wellFormed {registry : Registry} (h : registry.Regular) :
    registry.WellFormed where
  lookup_iff _ _ := lookup_eq_some_iff h.ordered
  words d hd := (h.writable d hd).words
  distinct d hd := (h.writable d hd).distinct
  noStruct d hd field hf := ((h.writable d hd).fields field hf).kind_ne_struct
  ownNative d hd field hf _ hk := ((h.writable d hd).fields field hf).name_of_native hk
  increasing := by
    have hword : ∀ name ∈ registry.names, IsWord name := by
      intro name hm
      obtain ⟨d, hd, rfl⟩ := List.mem_map.mp hm
      exact (h.writable d hd).name
    exact List.Pairwise.imp_of_mem (fun hn ho hlt => (hword _ hn).bytes_lt (hword _ ho) hlt)
      h.ordered

theorem registry_of_compileCatalogue {options : CompileOptions} {entries : List String}
    {registry : Registry} {report : Report}
    (h : compileCatalogue options entries = .ok (registry, report)) :
    registry = ((Compiler.new options).builder.compileEntries options.strict .empty 0
      entries).1.registry := by
  generalize hrun : (Compiler.new options).builder.compileEntries options.strict .empty 0 entries =
    run
  have hmap : ((run.1.registry, ·) <$> run.2) = .ok (registry, report) := hrun ▸ h
  obtain ⟨_, _, hpair⟩ := map_eq_ok.mp hmap
  exact (Prod.mk.inj hpair).1.symm

/-- Whatever a catalogue holds, the registry it is compiled to is well formed, and the host's types
are in it as the host defines them if they are seeded. -/
theorem compileCatalogue_wellFormed {options : CompileOptions} {entries : List String}
    {registry : Registry} {report : Report}
    (h : compileCatalogue options entries = .ok (registry, report)) :
    registry.WellFormed ∧ (options.seedHostTypes = true →
      ∀ d ∈ Host.descriptors, registry.lookup d.name = some d) := by
  obtain rfl := registry_of_compileCatalogue h
  have hregular := Builder.compileEntries_induction (P := fun builder => builder.registry.Regular)
    Builder.regular_afterEntry (regular_new options) options.strict .empty 0 entries
  refine ⟨hregular.wellFormed, fun hseed d hd => ?_⟩
  exact Builder.compileEntries_induction
    (P := fun builder => builder.registry.lookup d.name = some d)
    Builder.lookup_afterEntry_of_known (lookup_new_host hseed d hd) options.strict .empty 0 entries

/-- A type of the host's described otherwise, and a type whose name and one of whose field types are
broken in the text, with a field of a native name. -/
def brokenOrderCatalogue : List String :=
  ["struct EntityType \x7bint ID;\x7d", "struct Or_der \x7bstruct int;string\tx count;\x7d"]

def brokenOrderRegistry : Registry :=
  (Host.seed .empty).registry.add
    ⟨"Order", [⟨"int", .reference "int"⟩, ⟨"count", .reference "stringx"⟩]⟩

theorem compileCatalogue_wellFormed_brokenOrder :
    compileCatalogue {} brokenOrderCatalogue =
        .ok (brokenOrderRegistry, ⟨#["Order"], #["EntityType"], 0, #[]⟩) ∧
      brokenOrderRegistry.WellFormed ∧
      ∀ d ∈ Host.descriptors, brokenOrderRegistry.lookup d.name = some d := by
  have h : compileCatalogue {} brokenOrderCatalogue =
      .ok (brokenOrderRegistry, ⟨#["Order"], #["EntityType"], 0, #[]⟩) := by rfl
  obtain ⟨hregistry, hhost⟩ := compileCatalogue_wellFormed h
  exact ⟨h, hregistry, hhost rfl⟩

end RecordSchema
