import RecordSchema.Proofs.Double.Rounding
import RecordSchema.Proofs.Record
import RecordSchema.Proofs.Reply.Contents

/-! What the values that decoding produces have in common, whatever it was given: at every place
they are `Readable` (`decodeValue_readable`). -/

namespace RecordSchema.Reply

/-- What a record needs at its place to be read back: a struct's type is the one that its place
hints at and its names are not those of a wrapper. -/
structure ReadableRecord (limits : Limits) (place : Place) (r : Record) : Prop
    extends r.Proper where
  typed : r.shape = .struct → r.typeName = place.hint
  unwrapped : r.shape = .struct → Wrapper.collectionKey ∈ r.names →
    Wrapper.entity.typeKey ∉ r.names ∧ Wrapper.asset.typeKey ∉ r.names
  shallow : place.depth < limits.maxDepth
  short : r.shape ≠ .struct → r.fields.length ≤ limits.maxItems

/-- What a value needs at its place to be read back, its own parts left aside. -/
def Readable (limits : Limits) (place : Place) : Value → Prop
  | .double x => x.isFinite = true
  | .array items => items.length ≤ limits.maxItems
  | .record r => ReadableRecord limits place r
  | .null | .bool _ | .int _ | .string _ => True

instance (limits : Limits) (place : Place) (r : Record) :
    Decidable (ReadableRecord limits place r) :=
  decidable_of_iff ((r.names.Nodup ∧ RecordOf.identityName ∉ r.names) ∧
      (r.shape = .struct → r.typeName = place.hint) ∧
      (r.shape = .struct → Wrapper.collectionKey ∈ r.names →
        Wrapper.entity.typeKey ∉ r.names ∧ Wrapper.asset.typeKey ∉ r.names) ∧
      place.depth < limits.maxDepth ∧
      (r.shape ≠ .struct → r.fields.length ≤ limits.maxItems))
    ⟨fun ⟨⟨hn, hi⟩, ht, hu, hd, hs⟩ => ⟨⟨hn, hi⟩, ht, hu, hd, hs⟩,
      fun ⟨⟨hn, hi⟩, ht, hu, hd, hs⟩ => ⟨⟨hn, hi⟩, ht, hu, hd, hs⟩⟩

instance (limits : Limits) (place : Place) : DecidablePred (Readable limits place)
  | .double x => inferInstanceAs (Decidable (x.isFinite = true))
  | .array items => inferInstanceAs (Decidable (items.length ≤ limits.maxItems))
  | .record r => inferInstanceAs (Decidable (ReadableRecord limits place r))
  | .null | .bool _ | .int _ | .string _ => inferInstanceAs (Decidable True)

variable {registry : Registry} {limits : Limits}

theorem decodeItems_eq_mapM (hint : String) (depth : Nat) (items : List Json) :
    decodeItems registry limits hint depth items =
      items.mapM (decodeValue registry limits hint depth) := by
  induction items with
  | nil => rfl
  | cons item rest ih => rw [decodeItems, List.mapM_cons, ih]

theorem numberValue_cases (n : JsonNumber) :
    (∃ i, numberValue n = .int i) ∨ ∃ x, numberValue n = .double x := by
  cases n with
  | integer n fits =>
      rw [numberValue]
      split
      · exact .inl ⟨_, rfl⟩
      · exact .inr ⟨_, rfl⟩
  | double x finite => exact .inr ⟨x, rfl⟩

/-- Only an array is decoded to an array. -/
theorem decodeValue_eq_array {hint : String} {depth : Nat} {json : Json} {values : List Value} :
    decodeValue registry limits hint depth json = .ok (.array values) ↔
      ∃ items, json = .array items ∧ items.length ≤ limits.maxItems ∧
        items.mapM (decodeValue registry limits hint (depth + 1)) = .ok values := by
  cases json with
  | array items =>
      simp only [decodeValue, bind_eq_ok, decodeItems_eq_mapM]
      constructor
      · rintro ⟨_, hcount, found, hfound, h⟩
        obtain rfl := Value.array.inj (Except.ok.inj h)
        exact ⟨items, rfl, checkCount_eq_ok.mp hcount, hfound⟩
      · rintro ⟨_, heq, hcount, hvalues⟩
        obtain rfl := Json.array.inj heq
        exact ⟨(), checkCount_eq_ok.mpr hcount, values, hvalues, rfl⟩
  | object fields => simp [decodeValue_object, map_eq_ok]
  | number n => rcases numberValue_cases n with ⟨_, hn⟩ | ⟨_, hn⟩ <;> simp [decodeValue, hn]
  | _ => simp [decodeValue]

/-- Only an object is decoded to a record. -/
theorem decodeValue_eq_record {hint : String} {depth : Nat} {json : Json} {r : Record} :
    decodeValue registry limits hint depth json = .ok (.record r) ↔
      ∃ fields, json = .object fields ∧
        decodeObject registry limits hint depth fields = .ok r := by
  cases json with
  | object fields => simp [decodeValue_object, map_eq_ok]
  | array items => simp [decodeValue, bind_eq_ok, map_eq_ok]
  | number n => rcases numberValue_cases n with ⟨_, hn⟩ | ⟨_, hn⟩ <;> simp [decodeValue, hn]
  | _ => simp [decodeValue]

/-- A property that no decoded write breaks is kept while the fields of an object are written. -/
theorem decodeFields_induction {P : Record → Prop} {descriptor : Option Descriptor} {depth : Nat}
    {record result : Record} {fields : List (String × Json)}
    (h : decodeFields registry limits descriptor depth record fields = .ok result)
    (start : P record)
    (step : ∀ {r written name json value}, (name, json) ∈ fields →
      decodeValue registry limits (Descriptor.hint descriptor name) depth json = .ok value →
      r.set name value = .ok written → P r → P written) : P result := by
  induction fields generalizing record with
  | nil =>
      rw [decodeFields] at h
      exact Except.ok.inj h ▸ start
  | cons entry rest ih =>
      obtain ⟨name, json⟩ := entry
      simp only [decodeFields, bind_eq_ok] at h
      obtain ⟨value, hvalue, written, hset, h⟩ := h
      refine ih h (step List.mem_cons_self hvalue hset start) ?_
      intro r written name json value hm
      exact step (List.mem_cons_of_mem _ hm)

theorem typeName_decodeFields {descriptor : Option Descriptor} {depth : Nat}
    {record result : Record} {fields : List (String × Json)}
    (h : decodeFields registry limits descriptor depth record fields = .ok result) :
    result.typeName = record.typeName :=
  decodeFields_induction (P := fun r => r.typeName = record.typeName) h rfl
    fun _ _ hset hr => (Record.typeName_set hset).trans hr

theorem shape_decodeFields {descriptor : Option Descriptor} {depth : Nat}
    {record result : Record} {fields : List (String × Json)}
    (h : decodeFields registry limits descriptor depth record fields = .ok result) :
    result.shape = record.shape :=
  decodeFields_induction (P := fun r => r.shape = record.shape) h rfl
    fun _ _ hset hr => (Record.shape_set hset).trans hr

theorem proper_decodeFields {descriptor : Option Descriptor} {depth : Nat}
    {record result : Record} {fields : List (String × Json)}
    (h : decodeFields registry limits descriptor depth record fields = .ok result)
    (hr : record.Proper) : result.Proper :=
  decodeFields_induction h hr fun _ _ hset hr => hr.set hset

/-- Whatever a decoded record stores was there before or was decoded from a field of that name. -/
theorem mem_decodeFields {descriptor : Option Descriptor} {depth : Nat} {record result : Record}
    {fields : List (String × Json)}
    (h : decodeFields registry limits descriptor depth record fields = .ok result)
    {entry : String × Value} (he : entry ∈ result.fields) :
    entry ∈ record.fields ∨ ∃ json, (entry.1, json) ∈ fields ∧
      decodeValue registry limits (Descriptor.hint descriptor entry.1) depth json =
        .ok entry.2 := by
  refine decodeFields_induction (P := fun r => ∀ entry ∈ r.fields, entry ∈ record.fields ∨
    ∃ json, (entry.1, json) ∈ fields ∧
      decodeValue registry limits (Descriptor.hint descriptor entry.1) depth json =
        .ok entry.2) h ?_ ?_ entry he
  · intro entry he
    exact .inl he
  · intro r written name json value hm hvalue hset hr entry he
    rcases Record.mem_fields_set hset he with rfl | he
    · exact .inr ⟨json, hm, hvalue⟩
    · exact hr entry he

/-- Fields can be written if each of them can be decoded and its name takes the value. -/
theorem exists_decodeFields {descriptor : Option Descriptor} {depth : Nat} {record : Record}
    {fields : List (String × Json)} :
    (∃ result, decodeFields registry limits descriptor depth record fields = .ok result) ↔
      ∀ field ∈ fields, ∃ value,
        decodeValue registry limits (Descriptor.hint descriptor field.1) depth field.2 =
          .ok value ∧ Record.Takes field.1 value := by
  induction fields generalizing record with
  | nil => simp [decodeFields]
  | cons field rest ih =>
      obtain ⟨name, json⟩ := field
      simp only [decodeFields, bind_eq_ok, List.forall_mem_cons]
      constructor
      · rintro ⟨result, value, hvalue, written, hset, h⟩
        exact ⟨⟨value, hvalue, Record.exists_set.mp ⟨written, hset⟩⟩, ih.mp ⟨result, h⟩⟩
      · rintro ⟨⟨value, hvalue, takes⟩, hrest⟩
        obtain ⟨written, hset⟩ := (@Record.exists_set record name value).mpr takes
        obtain ⟨result, h⟩ := (@ih written).mpr hrest
        exact ⟨result, value, hvalue, written, hset, h⟩

/-- Of several fields of one name the last one is seen in the record. -/
theorem get?_decodeFields {descriptor : Option Descriptor} {depth : Nat} {record result : Record}
    {fields : List (String × Json)}
    (h : decodeFields registry limits descriptor depth record fields = .ok result)
    (name : String) :
    (∃ json value, Fields.lookup name fields.reverse = some json ∧
      decodeValue registry limits (Descriptor.hint descriptor name) depth json = .ok value ∧
      result.get? name = Record.shown name value) ∨
    (Fields.lookup name fields.reverse = none ∧ result.get? name = record.get? name) := by
  induction fields generalizing record with
  | nil =>
      rw [decodeFields] at h
      exact .inr ⟨rfl, Except.ok.inj h ▸ rfl⟩
  | cons field rest ih =>
      obtain ⟨other, json⟩ := field
      simp only [decodeFields, bind_eq_ok] at h
      obtain ⟨value, hvalue, written, hset, h⟩ := h
      rw [List.reverse_cons, Fields.lookup_append]
      rcases ih h with ⟨json, value, hj, hseen⟩ | ⟨hnone, hseen⟩
      · exact .inl ⟨json, value, by rw [hj, Option.some_or], hseen⟩
      · rw [Record.get?_set hset] at hseen
        rw [hnone, Option.none_or, Fields.lookup]
        split at hseen
        · rename_i heq
          subst heq
          exact .inl ⟨json, value, if_pos rfl, hvalue, hseen⟩
        · rename_i hne
          exact .inr ⟨if_neg (Ne.symm hne), hseen⟩

/-- The names of a record depend only on the names that were written to it, in their order. -/
theorem names_decodeFields {descriptor descriptor' : Option Descriptor} {depth depth' : Nat}
    {record record' result result' : Record} {fields fields' : List (String × Json)}
    (h : decodeFields registry limits descriptor depth record fields = .ok result)
    (h' : decodeFields registry limits descriptor' depth' record' fields' = .ok result')
    (hrecord : record.names = record'.names)
    (hfields : Fields.names fields = Fields.names fields') :
    result.names = result'.names := by
  induction fields generalizing record record' fields' with
  | nil =>
      obtain rfl : fields' = [] := List.map_eq_nil_iff.mp hfields.symm
      rw [decodeFields] at h h'
      rw [← Except.ok.inj h, ← Except.ok.inj h', hrecord]
  | cons field rest ih =>
      obtain ⟨name, json⟩ := field
      obtain ⟨⟨name', json'⟩, rest', rfl, hname, hrest⟩ := List.map_eq_cons_iff.mp hfields.symm
      obtain rfl : name' = name := hname
      simp only [decodeFields, bind_eq_ok] at h h'
      obtain ⟨value, hvalue, written, hset, h⟩ := h
      obtain ⟨value', hvalue', written', hset', h'⟩ := h'
      refine ih h h' ?_ hrest.symm
      rw [Record.names_set hset, Record.names_set hset', hrecord]

/-- What is known of a record that an object was decoded to, beside the object's contents. -/
structure Decoded (registry : Registry) (limits : Limits) (place : Place) (held : Contents)
    (r : Record) : Prop where
  proper : r.Proper
  typeName : r.typeName = held.record.typeName
  shape : r.shape = held.record.shape
  stored : ∀ entry ∈ r.fields, ∃ json, (entry.1, json) ∈ held.fields ∧
    decodeValue registry limits (r.hint registry entry.1) (place.depth + 1) json = .ok entry.2

theorem Contents.Found.decoded {place : Place} {fields : List (String × Json)} {held : Contents}
    {r : Record} (found : held.Found registry limits place fields)
    (h : decodeFields registry limits held.descriptor (place.depth + 1) held.record held.fields =
      .ok r) : Decoded registry limits place held r := by
  have hfresh : held.record.names = [] := by
    rw [RecordOf.names, found.fresh]
    rfl
  have htype := typeName_decodeFields h
  have hshape := shape_decodeFields h
  refine ⟨proper_decodeFields h ?_, htype, hshape, ?_⟩
  · exact ⟨hfresh ▸ List.nodup_nil, hfresh ▸ List.not_mem_nil⟩
  · intro entry he
    rcases mem_decodeFields h he with he | hstored
    · rw [found.fresh] at he
      exact absurd he List.not_mem_nil
    · have hhint : held.record.hint registry entry.1 = r.hint registry entry.1 := by
        simp only [Record.hint, hshape, htype]
      rwa [found.hinted, hhint] at hstored

theorem Decoded.mem_names {place : Place} {held : Contents} {r : Record}
    (h : Decoded registry limits place held r) {name : String} (hn : name ∈ r.names) :
    name ∈ Fields.names held.fields := by
  obtain ⟨value, hv⟩ := Fields.mem_names.mp hn
  obtain ⟨json, hj, _⟩ := h.stored _ hv
  exact Fields.mem_names.mpr ⟨json, hj⟩

theorem Decoded.readable {place : Place} {fields : List (String × Json)} {held : Contents}
    {r : Record} (h : Decoded registry limits place held r)
    (found : held.Found registry limits place fields) : ReadableRecord limits place r where
  toProper := h.proper
  typed hs := h.typeName.trans (found.struct (h.shape ▸ hs)).1
  unwrapped hs hc := by
    obtain ⟨_, hw, hf⟩ := found.struct (h.shape ▸ hs)
    have hnames : ∀ {name : String}, name ∈ r.names → name ∈ Fields.names fields :=
      fun hn => hf ▸ h.mem_names hn
    obtain ⟨he, ha⟩ := wrapper?_eq_none_iff.mp hw (hnames hc)
    exact ⟨mt hnames he, mt hnames ha⟩
  shallow := found.shallow
  short hs := by
    refine Nat.le_trans (h.proper.length_le fun _ hn => h.mem_names hn) ?_
    rw [Fields.length_names]
    exact found.short (h.shape ▸ hs)

theorem numberValue_readable (place : Place) (n : JsonNumber) :
    Everywhere registry (Readable limits) place (numberValue n) := by
  cases n with
  | double x finite =>
      simp only [numberValue]
      exact (Everywhere.leaf_iff (by simp) (by simp)).mpr finite
  | integer n fits =>
      have hfinite : (Double.ofInt n).isFinite = true := Double.isFinite_ofInt (by omega)
      simp only [numberValue]
      split
      · exact (Everywhere.leaf_iff (by simp) (by simp)).mpr trivial
      · exact (Everywhere.leaf_iff (by simp) (by simp)).mpr hfinite

theorem decodeObject_readable {place : Place} {fields : List (String × Json)} {r : Record}
    (ih : ∀ (inner : Place) {json : Json} {value : Value},
      sizeOf json < sizeOf (Json.object fields) →
      decodeValue registry limits inner.hint inner.depth json = .ok value →
      Everywhere registry (Readable limits) inner value)
    (h : decodeObject registry limits place.hint place.depth fields = .ok r) :
    Everywhere registry (Readable limits) place (.record r) := by
  obtain ⟨held, hheld, h⟩ := decodeObject_eq_ok.mp h
  have found := held.found hheld
  have decoded := found.decoded h
  rw [Everywhere.record_iff]
  refine ⟨decoded.readable found, ?_⟩
  intro entry he
  obtain ⟨json, hj, hvalue⟩ := decoded.stored entry he
  exact ih ⟨r.hint registry entry.1, place.depth + 1⟩ (found.smaller _ hj) hvalue

/-- The induction is on the size of the JSON value: the entries of a wrapper lie several objects
deep, so its direct parts would not do. -/
theorem decodeValue_readable {place : Place} {json : Json} {value : Value}
    (h : decodeValue registry limits place.hint place.depth json = .ok value) :
    Everywhere registry (Readable limits) place value := by
  induction hsize : sizeOf json using Nat.strongRecOn generalizing place json value with
  | ind size ih =>
      cases json with
      | null =>
          rw [decodeValue] at h
          exact Except.ok.inj h ▸ (Everywhere.leaf_iff (by simp) (by simp)).mpr trivial
      | bool b =>
          rw [decodeValue] at h
          exact Except.ok.inj h ▸ (Everywhere.leaf_iff (by simp) (by simp)).mpr trivial
      | string s =>
          rw [decodeValue] at h
          exact Except.ok.inj h ▸ (Everywhere.leaf_iff (by simp) (by simp)).mpr trivial
      | number n =>
          rw [decodeValue] at h
          exact Except.ok.inj h ▸ numberValue_readable place n
      | array items =>
          simp only [decodeValue, bind_eq_ok, decodeItems_eq_mapM] at h
          obtain ⟨_, hcount, values, hvalues, h⟩ := h
          have hlength : values.length ≤ limits.maxItems := by
            rw [length_of_mapM hvalues]
            exact checkCount_eq_ok.mp hcount
          rw [← Except.ok.inj h, Everywhere.array_iff]
          refine ⟨hlength, fun item hi => ?_⟩
          obtain ⟨json, hj, hitem⟩ := exists_of_mem_mapM hvalues hi
          have hlt := List.sizeOf_lt_of_mem hj
          refine ih _ ?_ hitem rfl
          rw [← hsize, Json.array.sizeOf_spec]
          omega
      | object fields =>
          rw [decodeValue_object, map_eq_ok] at h
          obtain ⟨r, hr, rfl⟩ := h
          refine decodeObject_readable ?_ hr
          intro inner json value hlt hvalue
          exact ih _ (hsize ▸ hlt) hvalue rfl

/-- Decoding a reply is decoding a record where nothing is around it. -/
theorem decode_eq_ok {typeName : String} {payload : Json} {r : Record} :
    decode registry limits typeName payload = .ok r ↔
      decodeValue registry limits typeName 0 payload = .ok (.record r) := by
  rw [decodeValue_eq_record]
  cases payload <;> simp [decode]

end RecordSchema.Reply
