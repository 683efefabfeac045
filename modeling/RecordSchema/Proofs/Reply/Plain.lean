import RecordSchema.Proofs.Reply.RoundTrip

/-! Replies without wrappers. Nothing of them is lost in a record: what is written of it is the reply
again, but that in every object the identity comes first (`decode_plain`). -/

namespace RecordSchema

/-- The entries of one name, before all others. -/
def Fields.promote {α : Type} (name : String) (fields : List (String × α)) :
    List (String × α) :=
  fields.filter (·.1 == name) ++ fields.filter (·.1 != name)

namespace Json

/-- One value directly within another. -/
inductive Part : Json → Json → Prop
  | item {items : List Json} {item : Json} : item ∈ items → Part (.array items) item
  | field {fields : List (String × Json)} {name : String} {value : Json} :
      (name, value) ∈ fields → Part (.object fields) value

/-- `P` holds of a value and of everything within it, each with the number of arrays and objects
around it. -/
inductive Everywhere (P : Nat → Json → Prop) : Nat → Json → Prop
  | intro {depth : Nat} {json : Json} (here : P depth json)
      (within : ∀ part, Part json part → Everywhere P (depth + 1) part) : Everywhere P depth json

theorem Everywhere.here {P : Nat → Json → Prop} {depth : Nat} {json : Json}
    (h : Everywhere P depth json) : P depth json := by
  cases h with
  | intro here _ => exact here

theorem Everywhere.within {P : Nat → Json → Prop} {depth : Nat} {json part : Json}
    (h : Everywhere P depth json) (hp : Part json part) : Everywhere P (depth + 1) part := by
  cases h with
  | intro _ within => exact within part hp

theorem everywhere_array_iff {P : Nat → Json → Prop} {depth : Nat} {items : List Json} :
    Everywhere P depth (array items) ↔
      P depth (array items) ∧ ∀ item ∈ items, Everywhere P (depth + 1) item := by
  constructor
  · intro h
    exact ⟨h.here, fun _ hi => h.within (.item hi)⟩
  · rintro ⟨h, hi⟩
    refine .intro h ?_
    rintro _ ⟨hm⟩
    exact hi _ hm

theorem everywhere_object_iff {P : Nat → Json → Prop} {depth : Nat}
    {fields : List (String × Json)} :
    Everywhere P depth (object fields) ↔
      P depth (object fields) ∧ ∀ field ∈ fields, Everywhere P (depth + 1) field.2 := by
  constructor
  · intro h
    exact ⟨h.here, fun _ hf => h.within (.field hf)⟩
  · rintro ⟨h, hf⟩
    refine .intro h ?_
    rintro _ (_ | hm)
    exact hf _ hm

/-- Nothing is within a value that is neither an array nor an object. -/
theorem everywhere_leaf_iff {P : Nat → Json → Prop} {depth : Nat} {json : Json}
    (ha : ∀ items, json ≠ array items) (ho : ∀ fields, json ≠ object fields) :
    Everywhere P depth json ↔ P depth json := by
  refine ⟨Everywhere.here, fun h => .intro h ?_⟩
  rintro _ (_ | _)
  · exact absurd rfl (ha _)
  · exact absurd rfl (ho _)

mutual
/-- In every object the identity is put first, and all else stays. -/
def identityFirst : Json → Json
  | null => null
  | bool b => bool b
  | number n => number n
  | string s => string s
  | array items => array (identityFirstItems items)
  | object fields => object (Fields.promote RecordOf.identityName (identityFirstFields fields))

def identityFirstItems : List Json → List Json
  | [] => []
  | item :: rest => identityFirst item :: identityFirstItems rest

def identityFirstFields : List (String × Json) → List (String × Json)
  | [] => []
  | (name, value) :: rest => (name, identityFirst value) :: identityFirstFields rest
end

theorem ofInt64_ofInt {n : Int} (fits : -0x8000000000000000 ≤ n ∧ n < 0x10000000000000000)
    (h : n < 0x8000000000000000) : ofInt64 (Int64.ofInt n) = number (.integer n fits) := by
  have hn : (Int64.ofInt n).toInt = n := Int64.toInt_ofInt_of_le fits.1 h
  simp only [ofInt64, hn]

end Json

namespace Reply

/-! ## Plain values -/

/-- What an object needs to be read as a struct and kept as it is. -/
structure PlainObject (limits : Limits) (depth : Nat) (fields : List (String × Json)) : Prop where
  distinct : (Fields.names fields).Nodup
  unwrapped : Wrapper.collectionKey ∈ Fields.names fields →
    Wrapper.entity.typeKey ∉ Fields.names fields ∧ Wrapper.asset.typeKey ∉ Fields.names fields
  identity : ∀ value, (RecordOf.identityName, value) ∈ fields → ∃ n, value = Json.ofInt64 n
  shallow : depth < limits.maxDepth

/-- What a JSON value inside `depth` arrays and objects needs to be kept as it is, its own parts
left aside. -/
def Plain (limits : Limits) (depth : Nat) : Json → Prop
  | .number (.integer n _) => n < 0x8000000000000000
  | .array items => items.length ≤ limits.maxItems
  | .object fields => PlainObject limits depth fields
  | .number (.double _ _) | .null | .bool _ | .string _ => True

instance decidableIsInt64 : DecidablePred fun json : Json => ∃ n, json = Json.ofInt64 n
  | .number (.integer n fits) =>
      decidable_of_iff (n < 0x8000000000000000)
        ⟨fun h => ⟨Int64.ofInt n, (Json.ofInt64_ofInt fits h).symm⟩, by
          rintro ⟨m, h⟩
          obtain rfl : n = m.toInt := by simpa [Json.ofInt64] using h
          exact m.toInt_lt⟩
  | .number (.double _ _) | .null | .bool _ | .string _ | .array _ | .object _ =>
      .isFalse fun ⟨_, h⟩ => by cases h

instance (limits : Limits) (depth : Nat) (fields : List (String × Json)) :
    Decidable (PlainObject limits depth fields) :=
  decidable_of_iff ((Fields.names fields).Nodup ∧
      (Wrapper.collectionKey ∈ Fields.names fields →
        Wrapper.entity.typeKey ∉ Fields.names fields ∧
          Wrapper.asset.typeKey ∉ Fields.names fields) ∧
      (∀ field ∈ fields, field.1 = RecordOf.identityName → ∃ n, field.2 = Json.ofInt64 n) ∧
      depth < limits.maxDepth)
    ⟨fun ⟨hd, hu, hi, hs⟩ => ⟨hd, hu, fun _ hm => hi _ hm rfl, hs⟩,
      fun ⟨hd, hu, hi, hs⟩ => ⟨hd, hu, fun _ hm hn => hi _ (hn ▸ hm), hs⟩⟩

instance (limits : Limits) (depth : Nat) : DecidablePred (Plain limits depth)
  | .number (.integer n _) => inferInstanceAs (Decidable (n < 0x8000000000000000))
  | .array items => inferInstanceAs (Decidable (items.length ≤ limits.maxItems))
  | .object fields => inferInstanceAs (Decidable (PlainObject limits depth fields))
  | .number (.double _ _) | .null | .bool _ | .string _ => inferInstanceAs (Decidable True)

variable {registry : Registry} {limits : Limits}

theorem toJson_numberValue {depth : Nat} {n : JsonNumber} (h : Plain limits depth (.number n)) :
    (numberValue n).toJson = .number n := by
  cases n with
  | integer n fits =>
      have hn : n < 0x8000000000000000 := h
      simp only [numberValue, if_pos hn]
      exact Json.ofInt64_ofInt fits hn
  | double x finite =>
      show Json.ofDouble x = _
      rw [Json.ofDouble, dif_pos finite]

/-- A value that a JSON value is decoded to, from which the JSON value is written again. -/
def Kept (registry : Registry) (limits : Limits) (hint : String) (depth : Nat) (json : Json) : Prop :=
  ∃ value, decodeValue registry limits hint depth json = .ok value ∧
    value.toJson = json.identityFirst

theorem decodeItems_kept {hint : String} {depth : Nat} {items : List Json}
    (h : ∀ item ∈ items, Kept registry limits hint depth item) :
    ∃ values, decodeItems registry limits hint depth items = .ok values ∧
      Value.itemsJson values = Json.identityFirstItems items := by
  induction items with
  | nil => exact ⟨[], rfl, rfl⟩
  | cons item rest ih =>
      obtain ⟨⟨value, hvalue, hjson⟩, hmore⟩ := List.forall_mem_cons.mp h
      obtain ⟨values, hvalues, hrest⟩ := ih hmore
      refine ⟨value :: values, ?_, ?_⟩
      · simp only [decodeItems, hvalue, hvalues, ok_bind]
        rfl
      · rw [Value.itemsJson, Json.identityFirstItems, hjson, hrest]

/-! ## Fields -/

/-- What is written of a record after the fields: the identity goes to its own place, and every
other field behind those that are there. -/
structure Extended (record written : Record) (fields : List (String × Json)) : Prop where
  identity : identityFields written.identity = identityFields record.identity ++
    fields.filter (·.1 == RecordOf.identityName)
  fields : Value.fieldsJson written.fields = Value.fieldsJson record.fields ++
    fields.filter (·.1 != RecordOf.identityName)

theorem Extended.refl (record : Record) : Extended record record [] :=
  ⟨(List.append_nil _).symm, (List.append_nil _).symm⟩

theorem Extended.trans {record middle written : Record} {front back : List (String × Json)}
    (h : Extended record middle front) (h' : Extended middle written back) :
    Extended record written (front ++ back) where
  identity := by rw [h'.identity, h.identity, List.filter_append, List.append_assoc]
  fields := by rw [h'.fields, h.fields, List.filter_append, List.append_assoc]

theorem extended_set {record : Record} {name : String} {value : Value}
    (hnew : record.get? name = none)
    (hidentity : name = RecordOf.identityName → ∃ n, value = .int n) :
    ∃ written, record.set name value = .ok written ∧
      Extended record written [(name, value.toJson)] := by
  unfold Record.get? at hnew
  by_cases hn : name = RecordOf.identityName
  · obtain ⟨n, rfl⟩ := hidentity hn
    rw [if_pos hn] at hnew
    subst hn
    refine ⟨_, Record.set_identity record n, ?_, (List.append_nil _).symm⟩
    rw [Option.map_eq_none_iff.mp hnew]
    rfl
  · rw [if_neg hn] at hnew
    refine ⟨_, Record.set_field hn record value, ?_, ?_⟩
    · rw [List.filter_cons_of_neg (by simpa using hn)]
      exact (List.append_nil _).symm
    · rw [List.filter_cons_of_pos (by simpa using hn),
        Fields.assign_of_not_mem (Fields.lookup_eq_none_iff.mp hnew), Value.fieldsJson_eq_map,
        List.map_append, ← Value.fieldsJson_eq_map]
      rfl

theorem decodeFields_kept {descriptor : Option Descriptor} {depth : Nat} {record : Record}
    {fields : List (String × Json)} (hdistinct : (Fields.names fields).Nodup)
    (hnew : ∀ name ∈ Fields.names fields, record.get? name = none)
    (hidentity : ∀ value, (RecordOf.identityName, value) ∈ fields → ∃ n, value = Json.ofInt64 n)
    (hkept : ∀ field ∈ fields,
      Kept registry limits (Descriptor.hint descriptor field.1) depth field.2) :
    ∃ result, decodeFields registry limits descriptor depth record fields = .ok result ∧
      Extended record result (Json.identityFirstFields fields) := by
  induction fields generalizing record with
  | nil => exact ⟨record, by rw [decodeFields], .refl record⟩
  | cons field rest ih =>
      obtain ⟨name, json⟩ := field
      obtain ⟨⟨value, hvalue, hjson⟩, hmore⟩ := List.forall_mem_cons.mp hkept
      obtain ⟨hname, hrest⟩ := List.nodup_cons.mp hdistinct
      have hint : name = RecordOf.identityName → ∃ n, value = .int n := by
        rintro rfl
        obtain ⟨n, rfl⟩ := hidentity json List.mem_cons_self
        rw [decodeValue_ofInt64] at hvalue
        exact ⟨n, (Except.ok.inj hvalue).symm⟩
      obtain ⟨written, hset, hwritten⟩ := extended_set (hnew name List.mem_cons_self) hint
      have hnew' : ∀ other ∈ Fields.names rest, written.get? other = none := by
        intro other ho
        rw [Record.get?_set_of_ne hset (fun he => hname (he ▸ ho))]
        exact hnew other (List.mem_cons_of_mem _ ho)
      obtain ⟨result, hresult, hextended⟩ :=
        ih hrest hnew' (fun v hv => hidentity v (List.mem_cons_of_mem _ hv)) hmore
      refine ⟨result, ?_, ?_⟩
      · rw [decodeFields, hvalue, ok_bind, hset, ok_bind, hresult]
      · rw [hjson] at hwritten
        exact hwritten.trans hextended

theorem opening_plain {hint : String} {depth : Nat} {fields : List (String × Json)}
    (h : PlainObject limits depth fields) :
    opening limits hint depth fields = .ok (none, .struct hint) := by
  have hw : wrapper? fields = none := wrapper?_eq_none_iff.mpr h.unwrapped
  simp only [opening, if_neg (Nat.not_le.mpr h.shallow), hw]

theorem decodeObject_kept {hint : String} {depth : Nat} {fields : List (String × Json)}
    (h : PlainObject limits depth fields)
    (hkept : ∀ field ∈ fields, ∀ hint, Kept registry limits hint (depth + 1) field.2) :
    ∃ r, decodeObject registry limits hint depth fields = .ok r ∧
      r.toJson = (Json.object fields).identityFirst := by
  have hnew : ∀ name ∈ Fields.names fields, Record.get? (.struct hint) name = none := by
    intro name _
    unfold Record.get?
    split <;> rfl
  obtain ⟨r, hr, hextended⟩ := decodeFields_kept h.distinct hnew h.identity
    fun field hm => hkept field hm (Descriptor.hint (registry.lookup hint) field.1)
  have hshape : r.shape = .struct := shape_decodeFields hr
  refine ⟨r, ?_, ?_⟩
  · rw [decodeObject, opening_plain h, ok_bind]
    exact hr
  · show (Value.record r).toJson = _
    rw [toJson_struct hshape, hextended.identity, hextended.fields]
    rfl

/-- The induction is on the places of the JSON value. A field's type is not the same in every
record, so the value has to be kept under any. -/
theorem decodeValue_kept {depth : Nat} {json : Json}
    (h : Json.Everywhere (Plain limits) depth json) (hint : String) :
    Kept registry limits hint depth json := by
  induction h generalizing hint with
  | @intro depth json here _ ih =>
      cases json with
      | null => exact ⟨.null, rfl, rfl⟩
      | bool b => exact ⟨.bool b, rfl, rfl⟩
      | string s => exact ⟨.string s, rfl, rfl⟩
      | number n => exact ⟨numberValue n, rfl, toJson_numberValue here⟩
      | array items =>
          obtain ⟨values, hvalues, hitems⟩ :=
            decodeItems_kept fun item hi => ih item (.item hi) hint
          have hcount : checkCount limits items.length = .ok () := checkCount_eq_ok.mpr here
          refine ⟨.array values, ?_, ?_⟩
          · simp only [decodeValue, hcount, hvalues, ok_bind]
            rfl
          · rw [Value.toJson, hitems, Json.identityFirst]
      | object fields =>
          obtain ⟨r, hr, hjson⟩ := decodeObject_kept here
            fun field hm hint => ih field.2 (.field hm) hint
          refine ⟨.record r, ?_, hjson⟩
          rw [decodeValue_object, hr]
          rfl

/-- A reply in which no object is a wrapper, and which keeps to the limits, is decoded to a record of
which the same is written, the identities put first. -/
theorem decode_plain {fields : List (String × Json)}
    (h : Json.Everywhere (Plain limits) 0 (.object fields)) (registry : Registry)
    (typeName : String) :
    ∃ r, decode registry limits typeName (.object fields) = .ok r ∧
      r.toJson = (Json.object fields).identityFirst :=
  decodeObject_kept h.here fun _ hm hint => decodeValue_kept (h.within (.field hm)) hint

/-- Identities behind other fields, a list of unlike items, and a wrapper's keys where they make no
wrapper. -/
def plainReply : List (String × Json) :=
  [("lines", .array [.object [("text", .string "x"), ("ID", .ofInt64 (-1)), ("note", .null)],
      .array [.bool true]]),
   ("EntityType", .number (.double ⟨0x3ff8000000000000⟩ (by decide))),
   ("ID", .ofInt64 7),
   ("customer", .object [("FieldValueCollection", .object [("ID", .ofInt64 3)])])]

def plainReplyWritten : List (String × Json) :=
  [("ID", .ofInt64 7),
   ("lines", .array [.object [("ID", .ofInt64 (-1)), ("text", .string "x"), ("note", .null)],
      .array [.bool true]]),
   ("EntityType", .number (.double ⟨0x3ff8000000000000⟩ (by decide))),
   ("customer", .object [("FieldValueCollection", .object [("ID", .ofInt64 3)])])]

theorem decode_plain_order :
    Json.Everywhere (Plain ⟨3, 2⟩) 0 (.object plainReply) ∧
      ∃ r, decode orderRegistry ⟨3, 2⟩ "Order" (.object plainReply) = .ok r ∧
        r.toJson = .object plainReplyWritten := by
  have h : Json.Everywhere (Plain ⟨3, 2⟩) 0 (.object plainReply) := by
    simp only [plainReply, Json.ofInt64, Json.everywhere_object_iff, Json.everywhere_array_iff,
      List.forall_mem_cons, List.not_mem_nil, false_implies, Json.everywhere_leaf_iff, ne_eq,
      reduceCtorEq, not_false_eq_true, implies_true]
    decide
  exact ⟨h, decode_plain h orderRegistry "Order"⟩

end Reply

end RecordSchema
