import RecordSchema.Proofs.Reply.Readable

/-! Records written as JSON and read back. A record that is `Readable` at every place comes back as
it was. Whatever was decoded is readable, so that decoding it once more after writing changes
nothing. -/

namespace RecordSchema.Reply

variable {registry : Registry} {limits : Limits}

/-! ## Reading what was written -/

theorem numberValue_ofInt64 (n : Int64) :
    numberValue (.integer n.toInt ⟨n.le_toInt, Int.lt_trans n.toInt_lt (by decide)⟩) =
      .int n := by
  have hn : n.toInt < 0x8000000000000000 := n.toInt_lt
  simp only [numberValue, if_pos hn, Int64.ofInt_toInt]

theorem wrapperIdentity_ofInt64 {fields : List (String × Json)} {n : Int64}
    (h : Fields.lookup Wrapper.identityKey fields = some (.ofInt64 n)) :
    wrapperIdentity fields = .ok (some n) := by
  have hn : n.toInt < 0x8000000000000000 := n.toInt_lt
  simp only [wrapperIdentity, h, Json.ofInt64, if_pos hn, Int64.ofInt_toInt]

theorem decodeValue_ofInt64 (hint : String) (depth : Nat) (n : Int64) :
    decodeValue registry limits hint depth (.ofInt64 n) = .ok (.int n) := by
  simp only [Json.ofInt64, decodeValue, numberValue_ofInt64]

theorem decodeValue_ofDouble (hint : String) (depth : Nat) {x : Double} (h : x.isFinite = true) :
    decodeValue registry limits hint depth (.ofDouble x) = .ok (.double x) := by
  simp only [Json.ofDouble, dif_pos h, decodeValue, numberValue]

theorem length_itemsJson (items : List Value) :
    (Value.itemsJson items).length = items.length := by
  rw [Value.itemsJson_eq_map, List.length_map]

theorem names_fieldsJson (fields : List (String × Value)) :
    Fields.names (Value.fieldsJson fields) = Fields.names fields := by
  rw [Value.fieldsJson_eq_map, Fields.names, List.map_map]
  rfl

theorem decodeItems_itemsJson {hint : String} {depth : Nat} {items : List Value}
    (h : ∀ item ∈ items, decodeValue registry limits hint depth item.toJson = .ok item) :
    decodeItems registry limits hint depth (Value.itemsJson items) = .ok items := by
  induction items with
  | nil => rfl
  | cons item rest ih =>
      have hitem := h item List.mem_cons_self
      have hrest := ih fun v hv => h v (List.mem_cons_of_mem _ hv)
      simp only [Value.itemsJson, decodeItems, hitem, hrest, ok_bind]
      rfl

/-- Fields whose names are new to a record are added to it in their order. -/
theorem decodeFields_fieldsJson {descriptor : Option Descriptor} {depth : Nat} {record : Record}
    {fields : List (String × Value)}
    (h : ∀ entry ∈ fields, decodeValue registry limits (Descriptor.hint descriptor entry.1) depth
      entry.2.toJson = .ok entry.2)
    (hnodup : (record.names ++ Fields.names fields).Nodup)
    (hidentity : RecordOf.identityName ∉ Fields.names fields) :
    decodeFields registry limits descriptor depth record (Value.fieldsJson fields) =
      .ok { record with fields := record.fields ++ fields } := by
  induction fields generalizing record with
  | nil => simp [Value.fieldsJson, decodeFields]
  | cons entry rest ih =>
      obtain ⟨name, value⟩ := entry
      have hvalue := h (name, value) List.mem_cons_self
      have hrest := fun e he => h e (List.mem_cons_of_mem _ he)
      rw [Fields.names_cons, List.mem_cons, not_or] at hidentity
      have hnew : name ∉ record.names := by
        intro hm
        exact (List.nodup_append.mp hnodup).2.2 name hm name List.mem_cons_self rfl
      have hset : record.set name value =
          .ok { record with fields := record.fields ++ [(name, value)] } := by
        rw [Record.set_field (Ne.symm hidentity.1), Fields.assign_of_not_mem hnew]
      have hnodup' : (RecordOf.names { record with fields := record.fields ++ [(name, value)] } ++
          Fields.names rest).Nodup := by
        simpa [RecordOf.names] using hnodup
      simp only [Value.fieldsJson, decodeFields, hvalue, hset, ok_bind]
      rw [ih hrest hnodup' hidentity.2]
      simp

theorem mapM_entryPair_entriesJson (wrapper : Wrapper) (fields : List (String × Value)) :
    (Value.entriesJson fields).mapM (entryPair wrapper) = .ok (Value.fieldsJson fields) := by
  induction fields with
  | nil => rfl
  | cons entry rest ih =>
      obtain ⟨name, value⟩ := entry
      have hpair : entryPair wrapper (.object [(Wrapper.entryNameKey, .string name),
          (Wrapper.entryValueKey, value.toJson)]) = .ok (name, value.toJson) := rfl
      simp only [Value.entriesJson, List.mapM_cons, hpair, ih, ok_bind]
      rfl

theorem length_entriesJson (fields : List (String × Value)) :
    (Value.entriesJson fields).length = fields.length := by
  rw [Value.entriesJson_eq_map, List.length_map]

/-- The identity that a struct writes before its fields. -/
def identityFields (identity : Option Int64) : List (String × Json) :=
  (identity.map fun n => (RecordOf.identityName, Json.ofInt64 n)).toList

theorem mem_names_identityFields {identity : Option Int64} {name : String}
    (h : name ∈ Fields.names (identityFields identity)) : name = RecordOf.identityName := by
  cases identity with
  | none => exact absurd h List.not_mem_nil
  | some n => exact List.mem_singleton.mp h

theorem decodeFields_identityFields (descriptor : Option Descriptor) (depth : Nat)
    (typeName : String) (shape : Shape) (identity : Option Int64) (rest : List (String × Json)) :
    decodeFields registry limits descriptor depth (.empty typeName shape)
      (identityFields identity ++ rest) =
    decodeFields registry limits descriptor depth ⟨typeName, shape, identity, []⟩ rest := by
  cases identity with
  | none => rfl
  | some n =>
      show decodeFields registry limits descriptor depth _ ((_, Json.ofInt64 n) :: rest) = _
      rw [decodeFields, decodeValue_ofInt64, ok_bind, Record.set_identity, ok_bind]
      rfl

theorem contents_struct {place : Place} {r : Record} (hs : r.shape = .struct)
    (hr : ReadableRecord limits place r) :
    contents registry limits place (identityFields r.identity ++ Value.fieldsJson r.fields) =
      .ok ⟨registry.lookup place.hint, .struct place.hint,
        identityFields r.identity ++ Value.fieldsJson r.fields⟩ := by
  have hnames : ∀ {name : String}, name ≠ RecordOf.identityName →
      name ∈ Fields.names (identityFields r.identity ++ Value.fieldsJson r.fields) →
        name ∈ r.names := by
    intro name hn hm
    rw [Fields.names_append, List.mem_append, names_fieldsJson] at hm
    exact hm.resolve_left (mt mem_names_identityFields hn)
  have hw : wrapper? (identityFields r.identity ++ Value.fieldsJson r.fields) = none := by
    rw [wrapper?_eq_none_iff]
    intro hc
    obtain ⟨he, ha⟩ := hr.unwrapped hs (hnames (by decide) hc)
    exact ⟨mt (hnames (by decide)) he, mt (hnames (by decide)) ha⟩
  simp only [contents, opening, if_neg (Nat.not_le.mpr hr.shallow), hw, ok_bind]
  rfl

theorem decodeObject_struct {place : Place} {r : Record} (hs : r.shape = .struct)
    (hr : ReadableRecord limits place r)
    (h : ∀ entry ∈ r.fields, decodeValue registry limits (r.hint registry entry.1)
      (place.depth + 1) entry.2.toJson = .ok entry.2) :
    decodeObject registry limits place.hint place.depth
      (identityFields r.identity ++ Value.fieldsJson r.fields) = .ok r := by
  rw [decodeObject_eq_ok]
  refine ⟨_, contents_struct hs hr, ?_⟩
  have hhint : ∀ name, Descriptor.hint (registry.lookup place.hint) name =
      r.hint registry name := by
    intro name
    simp only [Record.hint, hs, hr.typed hs]
  obtain ⟨typeName, shape, identity, fields⟩ := r
  obtain rfl : shape = .struct := hs
  obtain rfl : typeName = place.hint := hr.typed rfl
  show decodeFields registry limits _ _ (.empty place.hint .struct) _ = _
  rw [decodeFields_identityFields, decodeFields_fieldsJson]
  · rfl
  · intro entry he
    rw [hhint]
    exact h entry he
  · exact hr.nodup
  · exact hr.noIdentity

/-- The fields of the object that a wrapper is written as. -/
def wrapperFields (wrapper : Wrapper) (typeName : String) (category : Option String)
    (identity : Option Int64) (fields : List (String × Value)) : List (String × Json) :=
  [(wrapper.typeKey, Wrapper.typeJson typeName category),
    (Wrapper.collectionKey, .object [(wrapper.entriesKey, .array (Value.entriesJson fields))]),
    (Wrapper.identityKey, (identity.map .ofInt64).getD .null)]

theorem contents_wrapper {place : Place} {wrapper : Wrapper} {typeName : String} {shape : Shape}
    {category : Option String} (identity : Option Int64) {fields : List (String × Value)}
    (hheader : wrapperHeader wrapper (wrapperFields wrapper typeName category identity fields) =
      .empty typeName shape)
    (hd : place.depth < limits.maxDepth) (hc : fields.length ≤ limits.maxItems) :
    contents registry limits place (wrapperFields wrapper typeName category identity fields) =
      .ok ⟨none, ⟨typeName, shape, identity, []⟩, Value.fieldsJson fields⟩ := by
  have hw : wrapper? (wrapperFields wrapper typeName category identity fields) = some wrapper := by
    cases wrapper <;> rfl
  have hidentity : wrapperIdentity (wrapperFields wrapper typeName category identity fields) =
      .ok identity := by
    cases identity with
    | none => cases wrapper <;> rfl
    | some n => exact wrapperIdentity_ofInt64 (by cases wrapper <;> rfl)
  have hentries : entryList limits wrapper
      (wrapperFields wrapper typeName category identity fields) =
        .ok (Value.entriesJson fields) := by
    have he : entries? wrapper (wrapperFields wrapper typeName category identity fields) =
        some (.array (Value.entriesJson fields)) := by
      cases wrapper <;> rfl
    have hcount : checkCount limits (Value.entriesJson fields).length = .ok () := by
      rw [checkCount_eq_ok, length_entriesJson]
      exact hc
    simp only [entryList, he, hcount, ok_bind]
    rfl
  simp only [contents, opening, if_neg (Nat.not_le.mpr hd), hw, hidentity, hheader, ok_bind]
  show (entryList limits wrapper _ >>= _) = _
  rw [hentries, ok_bind, mapM_entryPair_entriesJson]
  rfl

theorem decodeObject_wrapper {place : Place} {wrapper : Wrapper} {r : Record}
    {category : Option String} (hs : r.shape ≠ .struct)
    (hheader : wrapperHeader wrapper
      (wrapperFields wrapper r.typeName category r.identity r.fields) = .empty r.typeName r.shape)
    (hr : ReadableRecord limits place r)
    (h : ∀ entry ∈ r.fields, decodeValue registry limits (r.hint registry entry.1)
      (place.depth + 1) entry.2.toJson = .ok entry.2) :
    decodeObject registry limits place.hint place.depth
      (wrapperFields wrapper r.typeName category r.identity r.fields) = .ok r := by
  rw [decodeObject_eq_ok]
  refine ⟨_, contents_wrapper r.identity hheader hr.shallow (hr.short hs), ?_⟩
  dsimp only
  rw [decodeFields_fieldsJson]
  · rfl
  · intro entry he
    have hhint : Descriptor.hint none entry.1 = r.hint registry entry.1 := by
      cases hshape : r.shape with
      | struct => exact absurd hshape hs
      | _ => simp [Record.hint, hshape, Descriptor.hint]
    rw [hhint]
    exact h entry he
  · exact hr.nodup
  · exact hr.noIdentity

theorem toJson_struct {r : Record} (hs : r.shape = .struct) :
    (Value.record r).toJson =
      .object (identityFields r.identity ++ Value.fieldsJson r.fields) := by
  obtain ⟨typeName, shape, identity, fields⟩ := r
  obtain rfl : shape = .struct := hs
  rfl

/-- A record that is no struct is written as a wrapper whose header gives its type and shape. -/
theorem toJson_wrapper {r : Record} (hs : r.shape ≠ .struct) :
    ∃ wrapper category,
      (Value.record r).toJson =
        .object (wrapperFields wrapper r.typeName category r.identity r.fields) ∧
      wrapperHeader wrapper (wrapperFields wrapper r.typeName category r.identity r.fields) =
        .empty r.typeName r.shape := by
  obtain ⟨typeName, shape, identity, fields⟩ := r
  cases shape with
  | struct => exact absurd rfl hs
  | entity category => exact ⟨.entity, some category, rfl, rfl⟩
  | asset => exact ⟨.asset, none, rfl, rfl⟩

theorem decodeValue_recordJson {place : Place} {r : Record} (hr : ReadableRecord limits place r)
    (h : ∀ entry ∈ r.fields, decodeValue registry limits (r.hint registry entry.1)
      (place.depth + 1) entry.2.toJson = .ok entry.2) :
    decodeValue registry limits place.hint place.depth (Value.record r).toJson =
      .ok (.record r) := by
  by_cases hs : r.shape = .struct
  · rw [toJson_struct hs, decodeValue_object, decodeObject_struct hs hr h]
    rfl
  · obtain ⟨wrapper, category, hjson, hheader⟩ := toJson_wrapper hs
    rw [hjson, decodeValue_object, decodeObject_wrapper hs hheader hr h]
    rfl

/-- The induction is on the places of the value: each part comes back, so the whole does. -/
theorem decodeValue_toJson {place : Place} {value : Value}
    (h : Everywhere registry (Readable limits) place value) :
    decodeValue registry limits place.hint place.depth value.toJson = .ok value := by
  induction h with
  | @intro place value here _ ih =>
      cases value with
      | null => rfl
      | bool b => rfl
      | string s => rfl
      | int n => exact decodeValue_ofInt64 place.hint place.depth n
      | double x => exact decodeValue_ofDouble place.hint place.depth here
      | array items =>
          have hcount : checkCount limits (Value.itemsJson items).length = .ok () := by
            rw [checkCount_eq_ok, length_itemsJson]
            exact here
          have hitems := decodeItems_itemsJson fun item hi => ih _ item (.item hi)
          simp only [Value.toJson, decodeValue, hcount, hitems, ok_bind]
          rfl
      | record r =>
          exact decodeValue_recordJson here fun entry he => ih _ entry.2 (.field he)

/-! ## Records and replies -/

theorem decode_toJson {typeName : String} {r : Record}
    (h : Everywhere registry (Readable limits) ⟨typeName, 0⟩ (.record r)) :
    decode registry limits typeName r.toJson = .ok r :=
  decode_eq_ok.mpr (decodeValue_toJson h)

def orderRegistry : Registry := ⟨[⟨"Order", [⟨"customer", .reference "Customer"⟩]⟩]⟩

/-- All three shapes: the customer is typed by the registry, the lines by their field. -/
def order : Record :=
  ⟨"Order", .struct, some 7,
    [("customer", .record ⟨"Customer", .struct, none, [("score", .double ⟨0x3ff8000000000000⟩)]⟩),
     ("lines", .array [.record ⟨"lines", .struct, some (-1), [("EntityType", .null)]⟩,
      .array [.record ⟨"Contact", .entity "Base", some 3,
        [("note", .record ⟨"note", .struct, none, [("text", .string "x")]⟩),
         ("file", .record ⟨"File", .asset, none, [("size", .int 12)]⟩)]⟩]])]⟩

theorem decode_toJson_order :
    Everywhere orderRegistry (Readable ⟨6, 2⟩) ⟨"Order", 0⟩ (.record order) ∧
      decode orderRegistry ⟨6, 2⟩ "Order" order.toJson = .ok order := by
  have h : Everywhere orderRegistry (Readable ⟨6, 2⟩) ⟨"Order", 0⟩ (.record order) := by
    simp only [order, Everywhere.record_iff, Everywhere.array_iff, List.forall_mem_cons,
      List.not_mem_nil, false_implies, Everywhere.leaf_iff, ne_eq, reduceCtorEq, not_false_eq_true,
      implies_true]
    decide
  exact ⟨h, decode_toJson h⟩

/-- Whatever a reply was decoded from, its record decodes to itself once it is written. -/
theorem decode_toJson_of_decode {typeName : String} {payload : Json} {r : Record}
    (h : decode registry limits typeName payload = .ok r) :
    decode registry limits typeName r.toJson = .ok r := by
  have hr : Everywhere registry (Readable limits) ⟨typeName, 0⟩ (.record r) :=
    decodeValue_readable (decode_eq_ok.mp h)
  exact decode_eq_ok.mpr (decodeValue_toJson hr)

/-- An identity of null, a wrapper that lacks its names and repeats an entry, and one entry that
stands for a list. -/
def orderReply : Json :=
  .object [("ID", .null),
    ("customer", .object [("EntityType", .object []),
      ("FieldValueCollection", .object [("EntityFields", .array
        [.object [("InternalName", .string "note"), ("Value", .bool true)],
         .object [("InternalName", .string "note")],
         .object [("InternalName", .string "ID"), ("Value", .ofInt64 9)]])])]),
    ("file", .object [("AssetType", .null), ("Id", .null),
      ("FieldValueCollection", .object [("AssetFields",
        .object [("InternalName", .string "size"), ("Value", .ofInt64 12)])])])]

def orderReplyRecord : Record :=
  ⟨"Order", .struct, none,
    [("customer", .record ⟨"", .entity "Base", some 9, [("note", .null)]⟩),
     ("file", .record ⟨"", .asset, none, [("size", .int 12)]⟩)]⟩

theorem decode_toJson_of_decode_orderReply :
    decode orderRegistry {} "Order" orderReply = .ok orderReplyRecord ∧
      decode orderRegistry {} "Order" orderReplyRecord.toJson = .ok orderReplyRecord := by
  have h : decode orderRegistry {} "Order" orderReply = .ok orderReplyRecord := by rfl
  exact ⟨h, decode_toJson_of_decode h⟩

end RecordSchema.Reply
