import RecordSchema.Proofs.Record.Made
import RecordSchema.Proofs.Reply.Held

/-! The types of what a reply is decoded to. Structs are typed by their places: the root as it was
asked for, the others by the field that they stand under. Wrappers are typed by the object they were
decoded from, which stands in the reply where they stand in the record (`decode_typed`). -/

namespace RecordSchema

/-- The name that is given, or another where none is. -/
def GivenOr (given : String → Prop) (other name : String) : Prop :=
  given name ∨ (∀ found, ¬given found) ∧ name = other

/-- The type is registered and declares the field as a reference to the target. -/
def Registry.Declares (registry : Registry) (type field target : String) : Prop :=
  ∃ descriptor, registry.lookup type = some descriptor ∧
    ∃ declared, descriptor.field? field = some declared ∧ declared.kind = .reference target

/-- One value is another, or an item of it through any number of arrays. -/
inductive Value.Listed : Value → Value → Prop
  | self {value : Value} : Listed value value
  | item {inner item : Value} {items : List Value} :
      item ∈ items → Listed inner item → Listed inner (.array items)

namespace Reply

/-! ## Positions -/

/-- One step into JSON, to where the same step leads in the decoded value. Of several values of one
name the last counts. -/
def step? : Json → Step → Option Json
  | .object fields, .field name => Fields.lookup name (held fields).reverse
  | .array items, .item i => items[i]?
  | _, _ => none

def at? (position : List Step) (json : Json) : Option Json := position.foldlM step? json

variable {registry : Registry} {limits : Limits} {hint : String} {depth : Nat} {json : Json}
  {value inner : Value}

theorem at?_cons (step : Step) (rest : List Step) (json : Json) :
    at? (step :: rest) json = (step? json step).bind (at? rest) := rfl

theorem decode_step {step : Step} (h : decodeValue registry limits hint depth json = .ok value)
    (hs : value.step? step = some inner) :
    ∃ part hint' depth', step? json step = some part ∧
      decodeValue registry limits hint' depth' part = .ok inner := by
  cases value with
  | array values =>
      cases step with
      | field name => cases hs
      | item i =>
          obtain ⟨items, rfl, _, hvalues⟩ := decodeValue_eq_array.mp h
          obtain ⟨item, hitem, hvalue⟩ := getElem?_of_mapM hvalues hs
          exact ⟨item, hint, depth + 1, hitem, hvalue⟩
  | record r =>
      cases step with
      | item i => cases hs
      | field name =>
          obtain ⟨fields, rfl, hr⟩ := decodeValue_eq_record.mp h
          obtain ⟨contained, hc, hfields⟩ :=
            (@decodeObject_eq_ok registry limits ⟨hint, depth⟩ fields r).mp hr
          have found := contained.found hc
          have hproper := (found.decoded hfields).proper
          have hi : name ≠ RecordOf.identityName := by
            rintro rfl
            exact hproper.noIdentity (Fields.mem_names.mpr ⟨inner, Fields.mem_of_lookup hs⟩)
          have hseen : Record.get? r name = some inner := (if_neg hi).trans hs
          rcases get?_decodeFields hfields name with ⟨part, value, hpart, hvalue, hv⟩ | ⟨_, hv⟩
          · obtain rfl : inner = value := by
              simpa [hseen, Record.shown, hi] using hv
            rw [Contents.fields_eq_held hc] at hpart
            exact ⟨part, _, _, hpart, hvalue⟩
          · rw [hseen, Record.get?, if_neg hi, RecordOf.field?, found.fresh] at hv
            cases hv
  | _ => cases hs

/-- At every position of a decoded value stands what the JSON at the same position is decoded to. -/
theorem decode_at {position : List Step}
    (h : decodeValue registry limits hint depth json = .ok value)
    (hp : value.at? position = some inner) :
    ∃ part hint' depth', at? position json = some part ∧
      decodeValue registry limits hint' depth' part = .ok inner := by
  induction position generalizing hint depth json value with
  | nil => exact ⟨json, hint, depth, rfl, Option.some.inj hp ▸ h⟩
  | cons step rest ih =>
      rw [Value.at?_cons] at hp
      obtain ⟨middle, hstep, hp⟩ := Option.bind_eq_some_iff.mp hp
      obtain ⟨part, hint', depth', hpart, hmiddle⟩ := decode_step h hstep
      rw [at?_cons, hpart, Option.bind_some]
      exact ih hmiddle hp

/-! ## Wrappers -/

/-- The wrapper's type object has the text under the key. -/
def TypeText (wrapper : Wrapper) (fields : List (String × Json)) (key text : String) : Prop :=
  ∃ type, Fields.lookup wrapper.typeKey fields = some (.object type) ∧
    Fields.lookup key type = some (.string text)

/-- The record has the type and the category that its wrapper's type object gives. -/
def NamedBy (wrapper : Wrapper) (fields : List (String × Json)) (r : Record) : Prop :=
  GivenOr (TypeText wrapper fields Wrapper.nameKey) "" r.typeName ∧
    match wrapper with
    | .entity => ∃ category, r.shape = .entity category ∧
        GivenOr (TypeText wrapper fields Wrapper.categoryKey) "Base" category
    | .asset => r.shape = .asset

theorem givenOr_getD (given : Option String) (other : String) :
    GivenOr (given = some ·) other (given.getD other) := by
  cases given with
  | none => exact .inr ⟨fun _ h => (nomatch h), rfl⟩
  | some name => exact .inl rfl

variable {wrapper : Wrapper} {fields : List (String × Json)} {r : Record}

theorem typeText_iff {key text : String} : TypeText wrapper fields key text ↔
    stringAt key (((Fields.lookup wrapper.typeKey fields).bind Json.object?).getD []) =
      some text := by
  unfold TypeText stringAt
  cases Fields.lookup wrapper.typeKey fields with
  | none => simp [Fields.lookup]
  | some json =>
      cases json with
      | object type =>
          simp only [Option.bind_some, Json.object?, Option.getD_some, Option.bind_eq_some_iff]
          constructor
          · rintro ⟨_, heq, htext⟩
            obtain rfl := Json.object.inj (Option.some.inj heq)
            exact ⟨_, htext, rfl⟩
          · rintro ⟨_ | _ | _ | _ | _ | _, hjson, htext⟩
            all_goals cases htext
            exact ⟨type, rfl, hjson⟩
      | _ => simp [Json.object?, Fields.lookup]

theorem namedBy_wrapperHeader (wrapper : Wrapper) (fields : List (String × Json)) :
    NamedBy wrapper fields (wrapperHeader wrapper fields) := by
  have given : ∀ key other, GivenOr (TypeText wrapper fields key) other
      ((stringAt key (((Fields.lookup wrapper.typeKey fields).bind Json.object?).getD [])).getD
        other) := by
    intro key other
    have hgiven : TypeText wrapper fields key = fun text => _ := funext fun _ => propext typeText_iff
    rw [hgiven]
    exact givenOr_getD _ other
  cases wrapper with
  | entity => exact ⟨given _ _, _, rfl, given _ _⟩
  | asset => exact ⟨given _ _, rfl⟩

theorem opening_wrapper {record : Record}
    (h : opening limits hint depth fields = .ok (some wrapper, record)) :
    ∃ identity, record = (wrapperHeader wrapper fields).setIdentity identity := by
  obtain ⟨_, hw, _, _⟩ := opening_eq_ok h
  unfold opening at h
  split at h
  · cases h
  · rw [hw] at h
    obtain ⟨identity, _, h⟩ := bind_eq_ok.mp h
    exact ⟨identity, (Prod.mk.inj (Except.ok.inj h)).2.symm⟩

/-- Writing the fields of a wrapper leaves the type and the shape that its header has. -/
theorem namedBy_of_decode (h : decodeValue registry limits hint depth json = .ok (.record r))
    (hs : r.shape ≠ .struct) :
    ∃ wrapper fields, json = .object fields ∧ IsWrapper wrapper fields ∧
      NamedBy wrapper fields r := by
  obtain ⟨fields, rfl, hr⟩ := decodeValue_eq_record.mp h
  obtain ⟨contained, hc, hfields⟩ :=
    (@decodeObject_eq_ok registry limits ⟨hint, depth⟩ fields r).mp hr
  have decoded := (contained.found hc).decoded hfields
  rcases contents_cases hc with ⟨_, _, rfl⟩ | ⟨wrapper, record, _, pairs, ho, hw, _, _, rfl⟩
  · exact absurd decoded.shape hs
  · obtain ⟨identity, rfl⟩ := opening_wrapper ho
    refine ⟨wrapper, fields, rfl, wrapper?_eq_some_iff.mp hw, ?_⟩
    have header := namedBy_wrapperHeader wrapper fields
    unfold NamedBy at header ⊢
    rwa [decoded.typeName, decoded.shape]

/-! ## Structs -/

theorem target?_eq_some_iff {declared : Field} {target : String} :
    declared.target? = some target ↔ declared.kind = .reference target := by
  unfold Field.target?
  split <;> simp [*]

/-- What the registry hints at for a field: the declared target, else the field's own name. -/
theorem givenOr_hint (registry : Registry) (type field : String) :
    GivenOr (registry.Declares type field) field
      (Descriptor.hint (registry.lookup type) field) := by
  have hgiven : registry.Declares type field = fun target =>
      ((registry.lookup type).bind (·.field? field)).bind Field.target? = some target := by
    funext target
    refine propext ?_
    simp only [Registry.Declares, Option.bind_eq_some_iff, target?_eq_some_iff]
    constructor
    · rintro ⟨descriptor, hd, declared, hf, hk⟩
      exact ⟨declared, ⟨descriptor, hd, hf⟩, hk⟩
    · rintro ⟨declared, ⟨descriptor, hd, hf⟩, hk⟩
      exact ⟨descriptor, hd, declared, hf, hk⟩
  rw [hgiven]
  exact givenOr_getD _ field

theorem everywhere_listed {P : Place → Value → Prop} {place : Place} {whole : Value}
    (h : Everywhere registry P place whole) (hl : Value.Listed inner whole) :
    ∃ depth, Everywhere registry P ⟨place.hint, depth⟩ inner := by
  induction hl generalizing place with
  | self => exact ⟨place.depth, h⟩
  | item hi _ ih =>
      obtain ⟨depth, hinner⟩ := ih (h.within (.item hi))
      exact ⟨depth, hinner⟩

theorem everywhere_within {P : Place → Value → Prop} {place : Place} {whole : Value}
    (h : Everywhere registry P place whole) (hw : Value.Within inner whole) :
    ∃ place, Everywhere registry P place inner := by
  induction hw generalizing place with
  | self => exact ⟨place, h⟩
  | @part part whole hp _ ih =>
      cases whole with
      | array items => exact ih (h.within (.item hp))
      | record r =>
          obtain ⟨⟨name, value⟩, he, rfl⟩ := List.mem_map.mp hp
          exact ih (h.within (.field he))
      | _ => cases hp

/-- How a decoded record and everything in it are typed. -/
structure Typed (registry : Registry) (typeName : String) (payload : Json) (r : Record) :
    Prop where
  root : r.shape = .struct → r.typeName = typeName
  /-- A struct under a field of another one has the type that the registry declares for the field
  of that one's type; under a field of a wrapper it has the field's name. -/
  nested : ∀ outer field value inner, Value.Within (.record outer) (.record r) →
    (field, value) ∈ outer.fields → Value.Listed (.record inner) value → inner.shape = .struct →
    if outer.shape = .struct then
      GivenOr (registry.Declares outer.typeName field) field inner.typeName
    else inner.typeName = field
  unwrapped : ∀ inner, Value.Within (.record inner) (.record r) → inner.shape = .struct →
    Wrapper.collectionKey ∈ inner.names →
      Wrapper.entity.typeKey ∉ inner.names ∧ Wrapper.asset.typeKey ∉ inner.names
  positioned : ∀ inner, Value.Within (.record inner) (.record r) →
    ∃ position, (Value.record r).at? position = some (.record inner)
  /-- Where a wrapper stands in the record, its own object stands in the reply. -/
  named : ∀ position inner, (Value.record r).at? position = some (.record inner) →
    inner.shape ≠ .struct → ∃ wrapper fields, at? position payload = some (.object fields) ∧
      IsWrapper wrapper fields ∧ NamedBy wrapper fields inner

/-- Whatever a reply holds, everything in its record is typed by its place or by its own object. -/
theorem decode_typed {typeName : String} {payload : Json}
    (h : decode registry limits typeName payload = .ok r) :
    Typed registry typeName payload r := by
  have hvalue := decode_eq_ok.mp h
  have readable : Everywhere registry (Readable limits) ⟨typeName, 0⟩ (.record r) :=
    decodeValue_readable hvalue
  have within : ∀ {inner : Record}, Value.Within (.record inner) (.record r) →
      ∃ place, Everywhere registry (Readable limits) place (.record inner) :=
    everywhere_within readable
  refine ⟨readable.here.typed, ?_, ?_, fun inner => Value.exists_position (decode_wellFormed h), ?_⟩
  · intro outer field value inner hw he hl hs
    obtain ⟨place, houter⟩ := within hw
    obtain ⟨depth, hinner⟩ := everywhere_listed (houter.within (.field he)) hl
    rw [hinner.here.typed hs]
    split
    · rename_i hstruct
      simp only [Record.hint, hstruct]
      exact givenOr_hint registry outer.typeName field
    · rename_i hstruct
      cases hshape : outer.shape with
      | struct => exact absurd hshape hstruct
      | _ => simp only [Record.hint, hshape]
  · intro inner hw hs
    obtain ⟨place, hinner⟩ := within hw
    exact hinner.here.unwrapped hs
  · intro position inner hp hs
    obtain ⟨part, hint, depth, hpart, hinner⟩ := decode_at hvalue hp
    obtain ⟨wrapper, fields, rfl, hw, named⟩ := namedBy_of_decode hinner hs
    exact ⟨wrapper, fields, hpart, hw, named⟩

/-- A customer within two arrays, and one within a struct and a wrapper of which the registry knows
nothing; a wrapper whose header is null. -/
def partyReply : Json :=
  .object [("customer", .array [.array [.object [("customer", .object [])]], .null]),
    ("lines", .array [.object [("customer", .object [("ID", .ofInt64 1)])]]),
    ("file", .object [("AssetType", .object [("Name", .string "File"), ("Type", .string "Main")]),
      ("FieldValueCollection", .object [("AssetFields",
        .object [("InternalName", .string "customer"), ("Value", .object [])])])]),
    ("owner", .object [("FieldValueCollection", .null), ("EntityType", .null)])]

def partyRecord : Record :=
  ⟨"Order", .struct, none,
    [("customer", .array [.array [.record ⟨"Customer", .struct, none,
        [("customer", .record ⟨"customer", .struct, none, []⟩)]⟩], .null]),
     ("lines", .array [.record ⟨"lines", .struct, none,
        [("customer", .record ⟨"customer", .struct, some 1, []⟩)]⟩]),
     ("file", .record ⟨"File", .asset, none,
        [("customer", .record ⟨"customer", .struct, none, []⟩)]⟩),
     ("owner", .record ⟨"", .entity "Base", none, []⟩)]⟩

theorem decode_typed_party :
    decode orderRegistry {} "Order" partyReply = .ok partyRecord ∧
      Typed orderRegistry "Order" partyReply partyRecord := by
  have h : decode orderRegistry {} "Order" partyReply = .ok partyRecord := by rfl
  exact ⟨h, decode_typed h⟩

end Reply

end RecordSchema
