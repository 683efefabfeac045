import RecordSchema.Proofs.Registry.Construct

/-! What a new record holds. A reference field holds the record that construction gives for its
target on its own: the types under construction decide whether a construction fails, never what it
returns (`construct_of_apart`). So a type that is reached in several ways is filled alike everywhere
(`instantiate_filled`). -/

namespace RecordSchema

/-- The record behind a path of stored fields, all of which hold records. -/
def Record.at? : List String → Record → Option Record
  | [], r => some r
  | field :: rest, r => (r.nested? field).bind (Record.at? rest)

namespace Registry

/-- A new record of the one type holds a new record of the other under the field. -/
def References (registry : Registry) (name field target : String) : Prop :=
  name ≠ Host.dynamicEntity ∧ name ≠ Host.dynamicAsset ∧ field ≠ RecordOf.identityName ∧
    ∃ descriptor, registry.lookup name = some descriptor ∧
      ∃ declared ∈ descriptor.fields, declared.name = field ∧ declared.kind = .reference target

/-- References under the names of the path lead from the one type to the other. -/
inductive Leads (registry : Registry) : String → List String → String → Prop
  | here {name : String} : Leads registry name [] name
  | onward {name field target last : String} {path : List String} :
      registry.References name field target → Leads registry target path last →
      Leads registry name (field :: path) last

/-- A stored field is that of the declared reference and holds what `build` gives for its
target. -/
def Holds (build : String → Except Error Record) (declared : Field) (entry : String × Value) :
    Prop :=
  entry.1 = declared.name ∧ ∃ target nested, declared.kind = .reference target ∧
    build target = .ok nested ∧ entry.2 = .record nested

/-- The fields that construction fills: all that are initialized at once but the identity. -/
def filledFields (descriptor : Descriptor) : List Field :=
  descriptor.fields.filter fun declared =>
    declared.isAlwaysInitialized && declared.name != RecordOf.identityName

/-- What is known of a new record of a registered type, whatever its references lead to. -/
structure Filled (registry : Registry) (name : String) (descriptor : Descriptor) (r : Record) :
    Prop where
  shape : r.shape = .struct
  typeName : r.typeName = name
  identity : r.identity = none
  /-- One field for each declared reference, in the order of declaration. -/
  stored : List.Forall₂ (Holds registry.instantiate) (filledFields descriptor) r.fields
  /-- However deep a record stands, it is what construction gives for the type that its path
  leads to. -/
  nested : ∀ path inner, r.at? path = some inner →
    registry.Leads name path inner.typeName ∧ registry.instantiate inner.typeName = .ok inner
  shared : ∀ path path' inner inner', r.at? path = some inner → r.at? path' = some inner' →
    inner.typeName = inner'.typeName → inner = inner'

variable {registry : Registry} {build : String → Except Error Record} {record result : Record}
  {references : List (String × String)} {chain : List String} {name : String}
  {descriptor : Descriptor}

/-! ## The chain -/

/-- A builder that agrees with another one where that succeeds fills a record alike. -/
theorem fill_of_agree {other : String → Except Error Record}
    (h : fill build record references = .ok result)
    (agree : ∀ {field target nested}, (field, target) ∈ references →
      field ≠ RecordOf.identityName → build target = .ok nested → other target = .ok nested) :
    fill other record references = .ok result := by
  induction references generalizing record with
  | nil => exact h
  | cons reference rest ih =>
      obtain ⟨field, target⟩ := reference
      rw [fill_cons] at h ⊢
      split at h
      · rename_i hf
        rw [if_pos hf]
        exact ih h fun hm => agree (List.mem_cons_of_mem _ hm)
      · rename_i hf
        obtain ⟨nested, hn, h⟩ := bind_eq_ok.mp h
        rw [if_neg hf, agree List.mem_cons_self hf hn, ok_bind]
        exact ih h fun hm => agree (List.mem_cons_of_mem _ hm)

/-- Construction gives the same inside any chain of types that it does not come to. A type cannot
come to itself either, since it was built. -/
theorem construct_of_apart {apart : List String} (h : registry.construct chain name = .ok result)
    (away : ∀ other ∈ apart, ¬Relation.ReflTransGen registry.Needs name other) :
    registry.construct apart name = .ok result := by
  have fresh' : name ∉ apart := fun hm => away name hm .refl
  have acyclic := not_cyclic_of_construct h
  induction chain, name using construct.induct registry generalizing apart result with
  | case1 chain name repeated =>
      rw [construct_of_mem repeated] at h
      cases h
  | case2 chain fresh =>
      rw [construct_entity fresh] at h
      rw [construct_entity fresh', h]
  | case3 chain fresh he =>
      rw [construct_asset fresh] at h
      rw [construct_asset fresh', h]
  | case4 chain name fresh he ha unknown =>
      rw [construct_unknown fresh he ha unknown] at h
      rw [construct_unknown fresh' he ha unknown, h]
  | case5 chain name fresh he ha descriptor known ih =>
      rw [construct_eq_fill fresh he ha known] at h
      rw [construct_eq_fill fresh' he ha known]
      refine fill_of_agree h ?_
      intro field target nested hm hf hn
      have needs := (needs_iff he ha known).mpr ⟨field, hm, hf⟩
      have away' : ∀ other ∈ apart ++ [name],
          ¬Relation.ReflTransGen registry.Needs target other := by
        intro other ho reached
        rcases List.mem_append.mp ho with ho | ho
        · exact away other ho (reached.head needs)
        · obtain rfl := List.mem_singleton.mp ho
          exact acyclic ⟨other, .refl, .head' needs reached⟩
      exact ih target hn away' (fun hm => away' target hm .refl) (not_cyclic_of_construct hn)

theorem instantiate_of_construct (h : registry.construct chain name = .ok result) :
    registry.instantiate name = .ok result :=
  construct_of_apart h fun _ hm => absurd hm List.not_mem_nil

/-! ## What is stored -/

/-- A construction that succeeds gives a record without fields or fills the references of a
registered type. -/
theorem construct_eq_ok (h : registry.construct chain name = .ok result) :
    (∃ shape, result = .empty name shape) ∨
    name ≠ Host.dynamicEntity ∧ name ≠ Host.dynamicAsset ∧
      ∃ descriptor, registry.lookup name = some descriptor ∧
        fill (registry.construct (chain ++ [name])) (.struct name) descriptor.references =
          .ok result := by
  refine construct_induction (P := fun chain name result => (∃ shape, result = .empty name shape) ∨
    name ≠ Host.dynamicEntity ∧ name ≠ Host.dynamicAsset ∧
      ∃ descriptor, registry.lookup name = some descriptor ∧
        fill (registry.construct (chain ++ [name])) (.struct name) descriptor.references =
          .ok result) ?_ ?_ h
  · intro chain name shape fresh
    exact .inl ⟨shape, rfl⟩
  · intro chain name descriptor result fresh he ha known h _
    exact .inr ⟨he, ha, descriptor, known, h⟩

theorem typeName_construct (h : registry.construct chain name = .ok result) :
    result.typeName = name := by
  rcases construct_eq_ok h with ⟨shape, rfl⟩ | ⟨_, _, descriptor, _, h⟩
  · rfl
  · exact typeName_fill h

/-- Whatever a new record stores is a new record of a type that it references. -/
theorem stored_of_instantiate (h : registry.instantiate name = .ok result)
    {entry : String × Value} (he : entry ∈ result.fields) :
    ∃ target nested, registry.References name entry.1 target ∧
      registry.instantiate target = .ok nested ∧ entry.2 = .record nested := by
  rcases construct_eq_ok h with ⟨shape, rfl⟩ | ⟨hentity, hasset, descriptor, known, h⟩
  · exact absurd he List.not_mem_nil
  · obtain ⟨target, nested, hm, hf, hn, hv⟩ := (mem_fill h he).resolve_left List.not_mem_nil
    exact ⟨target, nested, ⟨hentity, hasset, hf, descriptor, known, mem_references.mp hm⟩,
      instantiate_of_construct hn, hv⟩

/-- The induction is on the path: whatever stands at a field is a new record in turn. -/
theorem leads_of_at? {path : List String} {inner : Record}
    (h : registry.instantiate name = .ok result) (found : result.at? path = some inner) :
    registry.Leads name path inner.typeName ∧
      registry.instantiate inner.typeName = .ok inner := by
  induction path generalizing name result with
  | nil =>
      obtain rfl : result = inner := Option.some.inj found
      rw [typeName_construct h]
      exact ⟨.here, h⟩
  | cons field rest ih =>
      obtain ⟨nested, hnested, found⟩ := Option.bind_eq_some_iff.mp found
      obtain ⟨value, hvalue, hrecord⟩ := Option.bind_eq_some_iff.mp hnested
      obtain ⟨target, built, references, hbuilt, rfl⟩ :=
        stored_of_instantiate h (Fields.mem_of_lookup hvalue)
      obtain rfl : built = nested := Option.some.inj hrecord
      obtain ⟨leads, hinner⟩ := ih hbuilt found
      exact ⟨.onward references leads, hinner⟩

/-! ## In the order of declaration -/

theorem references_scalar {declared : Field} {native : NativeType} {fields : List Field}
    (h : declared.kind = .scalar native) :
    Descriptor.references ⟨name, declared :: fields⟩ = Descriptor.references ⟨name, fields⟩ := by
  simp [Descriptor.references, Field.target?, h]

theorem references_reference {declared : Field} {target : String} {fields : List Field}
    (h : declared.kind = .reference target) :
    Descriptor.references ⟨name, declared :: fields⟩ =
      (declared.name, target) :: Descriptor.references ⟨name, fields⟩ := by
  simp [Descriptor.references, Field.target?, h]

/-- Filling appends one stored field for each declared one if no name comes twice. -/
theorem fill_holds {fields : List Field}
    (h : fill build record (Descriptor.references ⟨name, fields⟩) = .ok result)
    (distinct : (fields.map (·.name)).Nodup)
    (new : ∀ declared ∈ fields, declared.name ∉ record.names) :
    ∃ entries, result = { record with fields := record.fields ++ entries } ∧
      List.Forall₂ (Holds build) (filledFields ⟨name, fields⟩) entries := by
  induction fields generalizing record with
  | nil =>
      obtain rfl : record = result := Except.ok.inj h
      exact ⟨[], by rw [List.append_nil], .nil⟩
  | cons declared rest ih =>
      obtain ⟨hname, distinct⟩ := List.nodup_cons.mp distinct
      obtain ⟨hnew, new⟩ := List.forall_mem_cons.mp new
      cases hk : declared.kind with
      | scalar native =>
          rw [references_scalar hk] at h
          obtain ⟨entries, hresult, holds⟩ := ih h distinct new
          refine ⟨entries, hresult, ?_⟩
          simpa [filledFields, Field.isAlwaysInitialized, Field.target?, hk] using holds
      | reference target =>
          rw [references_reference hk, fill_cons] at h
          split at h
          · rename_i hf
            obtain ⟨entries, hresult, holds⟩ := ih h distinct new
            refine ⟨entries, hresult, ?_⟩
            simpa [filledFields, hf] using holds
          · rename_i hf
            obtain ⟨nested, hn, h⟩ := bind_eq_ok.mp h
            rw [Fields.assign_of_not_mem hnew] at h
            have new' : ∀ other ∈ rest, other.name ∉ Fields.names
                (record.fields ++ [(declared.name, .record nested)]) := by
              intro other ho hm
              rw [Fields.names_append, List.mem_append] at hm
              rcases hm with hm | hm
              · exact new other ho hm
              · exact hname (List.mem_map.mpr ⟨other, ho, List.mem_singleton.mp hm⟩)
            obtain ⟨entries, rfl, holds⟩ := ih h distinct new'
            have hfilled : filledFields ⟨name, declared :: rest⟩ =
                declared :: filledFields ⟨name, rest⟩ := by
              simp [filledFields, Field.isAlwaysInitialized, Field.target?, hk, hf]
            refine ⟨(declared.name, .record nested) :: entries, by simp, ?_⟩
            rw [hfilled]
            exact .cons ⟨rfl, target, nested, hk, hn, rfl⟩ holds

/-- A new record of a registered type stores its references but the identity, in the order in which
they are declared, each with the record that construction gives for the target on its own. Which
types are under construction around a record makes no difference to what it holds. -/
theorem instantiate_filled (he : name ≠ Host.dynamicEntity) (ha : name ≠ Host.dynamicAsset)
    (known : registry.lookup name = some descriptor)
    (distinct : (descriptor.fields.map (·.name)).Nodup)
    (h : registry.instantiate name = .ok result) :
    registry.Filled name descriptor result ∧
    ∀ chain target nested, registry.construct chain target = .ok nested →
      registry.instantiate target = .ok nested := by
  have hfill := h
  rw [instantiate, construct_eq_fill List.not_mem_nil he ha known] at hfill
  obtain ⟨entries, rfl, holds⟩ := fill_holds hfill distinct fun _ _ => List.not_mem_nil
  refine ⟨⟨rfl, rfl, rfl, ?_, fun path inner => leads_of_at? h, ?_⟩, ?_⟩
  · refine holds.imp ?_
    rintro declared entry ⟨hname, target, nested, hk, hn, hv⟩
    exact ⟨hname, target, nested, hk, instantiate_of_construct hn, hv⟩
  · intro path path' inner inner' hp hp' htype
    have hinner := (leads_of_at? h hp).2
    rw [htype, (leads_of_at? h hp').2] at hinner
    exact (Except.ok.inj hinner).symm
  · intro chain target nested hn
    exact instantiate_of_construct hn

def trip : Descriptor :=
  ⟨"Trip", [⟨"start", .reference "Town"⟩, ⟨"days", .scalar .int⟩, ⟨"ID", .reference "Trip"⟩,
    ⟨"guide", .reference "Guide"⟩, ⟨"group", .reference "DynamicEntity"⟩,
    ⟨"goal", .reference "Town"⟩]⟩

/-- Towns are reached through two fields of a trip and through its guide. -/
def tripRegistry : Registry :=
  ⟨[⟨"Guide", [⟨"home", .reference "Town"⟩]⟩, ⟨"Town", [⟨"land", .reference "Land"⟩]⟩, trip]⟩

def town : Value :=
  .record ⟨"Town", .struct, none, [("land", .record ⟨"Land", .struct, none, []⟩)]⟩

def newTrip : Record :=
  ⟨"Trip", .struct, none,
    [("start", town), ("guide", .record ⟨"Guide", .struct, none, [("home", town)]⟩),
     ("group", .record ⟨"DynamicEntity", .entity "Base", none, []⟩), ("goal", town)]⟩

theorem instantiate_filled_trip :
    "Trip" ≠ Host.dynamicEntity ∧ "Trip" ≠ Host.dynamicAsset ∧
    tripRegistry.lookup "Trip" = some trip ∧ (trip.fields.map (·.name)).Nodup ∧
    tripRegistry.instantiate "Trip" = .ok newTrip ∧
    tripRegistry.Filled "Trip" trip newTrip ∧
    ∀ chain target nested, tripRegistry.construct chain target = .ok nested →
      tripRegistry.instantiate target = .ok nested := by
  have he : "Trip" ≠ Host.dynamicEntity := by decide
  have ha : "Trip" ≠ Host.dynamicAsset := by decide
  have known : tripRegistry.lookup "Trip" = some trip := by decide
  have distinct : (trip.fields.map (·.name)).Nodup := by decide
  have h : tripRegistry.instantiate "Trip" = .ok newTrip := by cbv
  exact ⟨he, ha, known, distinct, h, instantiate_filled he ha known distinct h⟩

end Registry

end RecordSchema
