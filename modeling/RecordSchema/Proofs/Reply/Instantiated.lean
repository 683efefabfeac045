import RecordSchema.Proofs.Record.Made

/-! New records written and read back. Decoding finds at every place the type that construction put
there, so the record comes back as it was (`decode_instantiate`). -/

namespace RecordSchema

namespace Descriptor

variable {descriptor : Descriptor}

/-- The names of the reference fields are keys of a wrapper. -/
def LikeWrapper (descriptor : Descriptor) : Prop :=
  Wrapper.collectionKey ∈ Fields.names descriptor.references ∧
    (Wrapper.entity.typeKey ∈ Fields.names descriptor.references ∨
      Wrapper.asset.typeKey ∈ Fields.names descriptor.references)

instance : DecidablePred LikeWrapper :=
  fun _ => inferInstanceAs (Decidable (_ ∧ _))

/-- Of two fields of one name only the first is asked for its target, hence the condition. -/
theorem hint_of_reference (distinct : (descriptor.fields.map (·.name)).Nodup)
    {field target : String} (h : (field, target) ∈ descriptor.references) :
    hint (some descriptor) field = target := by
  obtain ⟨declared, hd, rfl, hk⟩ := Registry.mem_references.mp h
  have hfield : descriptor.field? declared.name = some declared :=
    (Fields.find?_eq_some_iff distinct).mpr ⟨hd, rfl⟩
  simp only [hint, Option.bind_some, hfield, Field.target?, hk, Option.getD_some]

end Descriptor

namespace Registry

/-- The references of a type are filled when a record of the named type is built. -/
structure Expands (registry : Registry) (name other : String) (descriptor : Descriptor) :
    Prop where
  reached : Relation.ReflTransGen registry.Needs name other
  notEntity : other ≠ Host.dynamicEntity
  notAsset : other ≠ Host.dynamicAsset
  known : registry.lookup other = some descriptor

theorem Expands.of_needs {registry : Registry} {name target other : String}
    {descriptor : Descriptor} (needs : registry.Needs name target)
    (h : registry.Expands target other descriptor) : registry.Expands name other descriptor :=
  ⟨h.reached.head needs, h.notEntity, h.notAsset, h.known⟩

end Registry

namespace Reply

/-- A record stands within fewer arrays and records than the limit. -/
def Shallow (limits : Limits) (place : Place) : Value → Prop
  | .record _ => place.depth < limits.maxDepth
  | .null | .bool _ | .int _ | .double _ | .string _ | .array _ => True

instance (limits : Limits) (place : Place) : DecidablePred (Shallow limits place)
  | .record _ => inferInstanceAs (Decidable (place.depth < limits.maxDepth))
  | .null | .bool _ | .int _ | .double _ | .string _ | .array _ =>
      inferInstanceAs (Decidable True)

variable {registry : Registry} {limits : Limits} {chain : List String} {name : String}
  {depth : Nat} {descriptor : Descriptor} {result : Record}

theorem empty_readable {place : Place} {typeName : String} {shape : Shape}
    (typed : shape = .struct → typeName = place.hint) (shallow : place.depth < limits.maxDepth) :
    Everywhere registry (Readable limits) place (.record (.empty typeName shape)) := by
  refine Everywhere.record_iff.mpr ⟨?_, fun _ he => absurd he List.not_mem_nil⟩
  exact
    { toProper := .empty typeName shape
      typed
      unwrapped := fun _ hc => absurd hc List.not_mem_nil
      shallow
      short := fun _ => Nat.zero_le _ }

/-- A struct that was filled asks for the same types as those that its references named. -/
theorem fill_readable {build : String → Except Error Record}
    (h : Registry.fill build (.struct name) descriptor.references = .ok result)
    (known : registry.lookup name = some descriptor)
    (distinct : (descriptor.fields.map (·.name)).Nodup) (plain : ¬descriptor.LikeWrapper)
    (proper : result.Proper)
    (shallow : Everywhere registry (Shallow limits) ⟨name, depth⟩ (.record result))
    (within : ∀ {field target nested}, (field, target) ∈ descriptor.references →
      field ≠ RecordOf.identityName → build target = .ok nested →
      Everywhere registry (Shallow limits) ⟨target, depth + 1⟩ (.record nested) →
      Everywhere registry (Readable limits) ⟨target, depth + 1⟩ (.record nested)) :
    Everywhere registry (Readable limits) ⟨name, depth⟩ (.record result) := by
  have htype : result.typeName = name := Registry.typeName_fill h
  have hshape : result.shape = .struct := Registry.shape_fill h
  have hstored : ∀ entry ∈ result.fields, ∃ target nested,
      (entry.1, target) ∈ descriptor.references ∧ entry.1 ≠ RecordOf.identityName ∧
        build target = .ok nested ∧ entry.2 = .record nested :=
    fun entry he => (Registry.mem_fill h he).resolve_left List.not_mem_nil
  have hnames : ∀ {field}, field ∈ result.names → field ∈ Fields.names descriptor.references := by
    intro field hf
    obtain ⟨value, hv⟩ := Fields.mem_names.mp hf
    obtain ⟨target, _, hm, _⟩ := hstored _ hv
    exact Fields.mem_names.mpr ⟨target, hm⟩
  refine Everywhere.record_iff.mpr ⟨?_, ?_⟩
  · exact
      { toProper := proper
        typed := fun _ => htype
        unwrapped := fun _ hc =>
          ⟨fun he => plain ⟨hnames hc, .inl (hnames he)⟩,
            fun ha => plain ⟨hnames hc, .inr (hnames ha)⟩⟩
        shallow := shallow.here
        short := fun hs => absurd hshape hs }
  · rintro ⟨field, value⟩ he
    obtain ⟨target, nested, hm, hf, hn, rfl⟩ := hstored _ he
    have hhint : result.hint registry field = target := by
      simp only [Record.hint, hshape, htype, known]
      exact Descriptor.hint_of_reference distinct hm
    have hnested := shallow.within (.field he)
    rw [hhint] at hnested ⊢
    exact within hm hf hn hnested

/-- The induction is on the construction. Depth counts the records around the one that is built, so
it grows with the chain of types under construction. -/
theorem construct_readable
    (distinct : ∀ descriptor ∈ registry.descriptors, (descriptor.fields.map (·.name)).Nodup)
    (h : registry.construct chain name = .ok result)
    (plain : ∀ other descriptor, registry.Expands name other descriptor →
      ¬descriptor.LikeWrapper)
    (shallow : Everywhere registry (Shallow limits) ⟨name, depth⟩ (.record result)) :
    Everywhere registry (Readable limits) ⟨name, depth⟩ (.record result) := by
  refine Registry.construct_induction (P := fun _ name result => ∀ depth,
    (∀ other descriptor, registry.Expands name other descriptor → ¬descriptor.LikeWrapper) →
    Everywhere registry (Shallow limits) ⟨name, depth⟩ (.record result) →
    Everywhere registry (Readable limits) ⟨name, depth⟩ (.record result)) ?_ ?_ h depth plain shallow
  · intro chain name shape fresh depth plain shallow
    exact empty_readable (fun _ => rfl) shallow.here
  · intro chain name descriptor result fresh he ha known hfill ih depth plain shallow
    have proper : result.Proper := by
      rw [← Registry.construct_eq_fill fresh he ha known] at hfill
      exact (Value.WellFormed.record_iff.mp (Registry.construct_wellFormed hfill)).1
    refine fill_readable hfill known (distinct descriptor (List.mem_of_find?_eq_some known))
      (plain name descriptor ⟨.refl, he, ha, known⟩) proper shallow ?_
    intro field target nested hm hf hn hnested
    have needs := (Registry.needs_iff he ha known).mpr ⟨field, hm, hf⟩
    exact ih hn _ (fun other d hd => plain other d (hd.of_needs needs)) hnested

/-- A new record decodes to itself once it is written, its nested records of the types and shapes
that construction gave them. The record itself stands at depth zero. -/
theorem decode_instantiate
    (distinct : ∀ descriptor ∈ registry.descriptors, (descriptor.fields.map (·.name)).Nodup)
    (h : registry.instantiate name = .ok result)
    (plain : ∀ other descriptor, registry.Expands name other descriptor →
      ¬descriptor.LikeWrapper)
    (shallow : Everywhere registry (Shallow limits) ⟨name, 0⟩ (.record result)) :
    decode registry limits name result.toJson = .ok result :=
  decode_eq_ok.mpr (decodeValue_toJson (construct_readable distinct h plain shallow))

/-- A registered type that holds an unregistered one, a wrapper, a reference under the identity's
name and one under a wrapper's key. -/
def shopRegistry : Registry :=
  ⟨[⟨"Customer", [⟨"home", .reference "Address"⟩, ⟨"FieldValueCollection", .reference "Notes"⟩]⟩,
    ⟨"DynamicEntity", [⟨"EntityType", .reference "EntityType"⟩,
      ⟨"FieldValueCollection", .reference "DynamicEntityFields"⟩, ⟨"Id", .scalar .int⟩]⟩,
    ⟨"Order", [⟨"ID", .reference "Order"⟩, ⟨"customer", .reference "Customer"⟩,
      ⟨"owner", .reference "DynamicEntity"⟩, ⟨"total", .scalar .double⟩]⟩]⟩

def shopOrder : Record :=
  ⟨"Order", .struct, none,
    [("customer", .record ⟨"Customer", .struct, none,
      [("home", .record ⟨"Address", .struct, none, []⟩),
       ("FieldValueCollection", .record ⟨"Notes", .struct, none, []⟩)]⟩),
     ("owner", .record ⟨"DynamicEntity", .entity "Base", none, []⟩)]⟩

theorem decode_instantiate_shopOrder :
    (∀ descriptor ∈ shopRegistry.descriptors, (descriptor.fields.map (·.name)).Nodup) ∧
    shopRegistry.instantiate "Order" = .ok shopOrder ∧
    (∀ other descriptor, shopRegistry.Expands "Order" other descriptor →
      ¬descriptor.LikeWrapper) ∧
    Everywhere shopRegistry (Shallow ⟨3, 0⟩) ⟨"Order", 0⟩ (.record shopOrder) ∧
    decode shopRegistry ⟨3, 0⟩ "Order" shopOrder.toJson = .ok shopOrder := by
  have distinct : ∀ descriptor ∈ shopRegistry.descriptors,
      (descriptor.fields.map (·.name)).Nodup := by decide
  have h : shopRegistry.instantiate "Order" = .ok shopOrder := by cbv
  have plain : ∀ other descriptor, shopRegistry.Expands "Order" other descriptor →
      ¬descriptor.LikeWrapper := by
    have hplain : ∀ descriptor ∈ shopRegistry.descriptors,
        descriptor.name = Host.dynamicEntity ∨ ¬descriptor.LikeWrapper := by decide
    intro other descriptor expands
    have hname : descriptor.name = other := by simpa using List.find?_some expands.known
    refine (hplain descriptor (List.mem_of_find?_eq_some expands.known)).resolve_left ?_
    rw [hname]
    exact expands.notEntity
  have shallow : Everywhere shopRegistry (Shallow ⟨3, 0⟩) ⟨"Order", 0⟩ (.record shopOrder) := by
    simp only [shopOrder, Everywhere.record_iff, List.forall_mem_cons, List.not_mem_nil,
      false_implies, implies_true]
    decide
  exact ⟨distinct, h, plain, shallow, decode_instantiate distinct h plain shallow⟩

/-- It does not do to limit the depth of the nested records alone: at a limit of zero no reply is
decoded, whatever it holds. -/
theorem decode_instantiate_depth_zero :
    ¬∀ (registry : Registry) (limits : Limits) (name : String) (r : Record),
      (∀ descriptor ∈ registry.descriptors, (descriptor.fields.map (·.name)).Nodup) →
      registry.instantiate name = .ok r →
      (∀ other descriptor, registry.Expands name other descriptor → ¬descriptor.LikeWrapper) →
      (∀ entry ∈ r.fields,
        Everywhere registry (Shallow limits) ⟨r.hint registry entry.1, 1⟩ entry.2) →
      decode registry limits name r.toJson = .ok r := by
  intro h
  have hdecode := h ⟨[⟨"T", []⟩]⟩ ⟨0, 10000⟩ "T" (.struct "T") (by decide) (by cbv) ?_
    fun _ he => absurd he List.not_mem_nil
  · have hfails : decode ⟨[⟨"T", []⟩]⟩ ⟨0, 10000⟩ "T" (Record.toJson (.struct "T")) =
        .error (.depthExceeded 0) := by rfl
    cases hfails.symm.trans hdecode
  · intro other descriptor expands
    obtain rfl := List.mem_singleton.mp (List.mem_of_find?_eq_some expands.known)
    decide

end Reply

end RecordSchema
