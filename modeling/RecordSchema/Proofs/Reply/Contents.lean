import RecordSchema.Proofs.Outcome
import RecordSchema.Proofs.Fields
import RecordSchema.Proofs.Record.Place
import RecordSchema.Reply

/-! What an object of a reply holds, the same for structs and wrappers: a record to start from and
the named values to write to it. Decoding an object succeeds exactly when its contents can be
found and written (`decodeObject_eq_ok`). -/

namespace RecordSchema.Reply

/-- What a wrapper keeps under its entries' key. -/
def entries? (wrapper : Wrapper) (fields : List (String × Json)) : Option Json :=
  ((Fields.lookup Wrapper.collectionKey fields).bind Json.object?).bind
    (Fields.lookup wrapper.entriesKey)

/-- The list of entries of a wrapper. One entry may stand for a list of one. -/
def entryList (limits : Limits) (wrapper : Wrapper) (fields : List (String × Json)) :
    Except Error (List Json) :=
  match entries? wrapper fields with
  | none | some .null => .ok []
  | some (.array entries) => do
      checkCount limits entries.length
      return entries
  | some (.object entry) => do
      checkCount limits 1
      return [.object entry]
  | some other => .error (.replyShape (entriesPath wrapper) other.kind)

/-- The name and the value of an entry. A missing value is null. -/
def entryPair (wrapper : Wrapper) : Json → Except Error (String × Json)
  | .object entry => do
      let name ← entryName wrapper entry
      return (name, (Fields.lookup Wrapper.entryValueKey entry).getD .null)
  | other => .error (.replyShape (entriesPath wrapper) other.kind)

/-- The record to start from, the descriptor that types its fields, and the values to write. -/
structure Contents where
  descriptor : Option Descriptor
  record : Record
  fields : List (String × Json)

/-- No descriptor types the fields of a wrapper. -/
def contents (registry : Registry) (limits : Limits) (place : Place)
    (fields : List (String × Json)) : Except Error Contents := do
  match ← opening limits place.hint place.depth fields with
  | (none, record) => return ⟨registry.lookup place.hint, record, fields⟩
  | (some wrapper, record) =>
      let pairs ← (← entryList limits wrapper fields).mapM (entryPair wrapper)
      return ⟨none, record, pairs⟩

variable {registry : Registry} {limits : Limits}

theorem checkCount_eq_ok {count : Nat} {u : Unit} :
    checkCount limits count = .ok u ↔ count ≤ limits.maxItems := by
  unfold checkCount
  split
  · rename_i h
    exact ⟨fun h' => (nomatch h'), fun h' => absurd h' (Nat.not_le.mpr h)⟩
  · rename_i h
    exact ⟨fun _ => Nat.not_lt.mp h, fun _ => rfl⟩

theorem decodeEntryValue_eq_lookup (name : String) (depth : Nat) (entry : List (String × Json)) :
    decodeEntryValue registry limits name depth entry =
      decodeValue registry limits name depth
        ((Fields.lookup Wrapper.entryValueKey entry).getD .null) := by
  induction entry with
  | nil => simp [decodeEntryValue, decodeValue, Fields.lookup]
  | cons first rest ih =>
      obtain ⟨key, json⟩ := first
      by_cases hk : key = Wrapper.entryValueKey
      · simp [decodeEntryValue, Fields.lookup, hk]
      · simpa [decodeEntryValue, Fields.lookup, hk] using ih

theorem decodeEntry_eq (wrapper : Wrapper) (depth : Nat) (record : Record) (entry : Json) :
    decodeEntry registry limits wrapper depth record entry = (do
      let (name, json) ← entryPair wrapper entry
      record.set name (← decodeValue registry limits name depth json)) := by
  cases entry with
  | object entry =>
      simp only [decodeEntry, entryPair, decodeEntryValue_eq_lookup]
      cases entryName wrapper entry <;> rfl
  | _ => rfl

/-- Writing entries in order is writing their names and values in order. -/
theorem decodeEntryList_eq_ok {wrapper : Wrapper} {depth : Nat} {record result : Record}
    {entries : List Json} :
    decodeEntryList registry limits wrapper depth record entries = .ok result ↔
      ∃ pairs, entries.mapM (entryPair wrapper) = .ok pairs ∧
        decodeFields registry limits none depth record pairs = .ok result := by
  induction entries generalizing record with
  | nil =>
      simp only [decodeEntryList, List.mapM_nil]
      constructor
      · intro h
        exact ⟨[], rfl, by simpa [decodeFields] using h⟩
      · rintro ⟨pairs, hp, h⟩
        obtain rfl : [] = pairs := Except.ok.inj hp
        simpa [decodeFields] using h
  | cons entry rest ih =>
      simp only [decodeEntryList, decodeEntry_eq, List.mapM_cons, bind_eq_ok]
      constructor
      · rintro ⟨written, ⟨⟨name, json⟩, hpair, value, hvalue, hset⟩, hrest⟩
        obtain ⟨pairs, hpairs, hfields⟩ := ih.mp hrest
        refine ⟨(name, json) :: pairs, ⟨_, hpair, _, hpairs, rfl⟩, ?_⟩
        simp only [decodeFields, bind_eq_ok]
        exact ⟨value, hvalue, written, hset, hfields⟩
      · rintro ⟨_, ⟨⟨name, json⟩, hpair, pairs, hpairs, hcons⟩, hfields⟩
        obtain rfl := Except.ok.inj hcons
        simp only [decodeFields, bind_eq_ok] at hfields
        obtain ⟨value, hvalue, written, hset, hfields⟩ := hfields
        exact ⟨written, ⟨(name, json), hpair, value, hvalue, hset⟩, ih.mpr ⟨pairs, hpairs, hfields⟩⟩

theorem decodeEntries_eq_lookup (wrapper : Wrapper) (depth : Nat) (record : Record)
    (collection : List (String × Json)) :
    decodeEntries registry limits wrapper depth record collection =
      match Fields.lookup wrapper.entriesKey collection with
      | none | some .null => .ok record
      | some (.array entries) => do
          checkCount limits entries.length
          decodeEntryList registry limits wrapper depth record entries
      | some (.object entry) => do
          checkCount limits 1
          decodeEntry registry limits wrapper depth record (.object entry)
      | some other => .error (.replyShape (entriesPath wrapper) other.kind) := by
  induction collection with
  | nil => rfl
  | cons first rest ih =>
      obtain ⟨key, json⟩ := first
      by_cases hk : key = wrapper.entriesKey
      · cases json <;> simp [decodeEntries, Fields.lookup, hk]
      · rw [Fields.lookup, if_neg hk, ← ih]
        cases json <;> simp [decodeEntries, hk]

theorem decodeCollection_eq_lookup (wrapper : Wrapper) (depth : Nat) (record : Record)
    (fields : List (String × Json)) :
    decodeCollection registry limits wrapper depth record fields =
      match (Fields.lookup Wrapper.collectionKey fields).bind Json.object? with
      | none => .ok record
      | some collection => decodeEntries registry limits wrapper depth record collection := by
  induction fields with
  | nil => rfl
  | cons first rest ih =>
      obtain ⟨key, json⟩ := first
      by_cases hk : key = Wrapper.collectionKey
      · cases json <;> simp [decodeCollection, Fields.lookup, Json.object?, hk]
      · rw [Fields.lookup, if_neg hk, ← ih]
        cases json <;> simp [decodeCollection, hk]

theorem decodeEntryList_singleton (wrapper : Wrapper) (depth : Nat) (record : Record)
    (entry : Json) :
    decodeEntryList registry limits wrapper depth record [entry] =
      decodeEntry registry limits wrapper depth record entry := by
  simp only [decodeEntryList]
  cases decodeEntry registry limits wrapper depth record entry <;> rfl

/-- The fields of a wrapper are the entries of its list. -/
theorem decodeCollection_eq (wrapper : Wrapper) (depth : Nat) (record : Record)
    (fields : List (String × Json)) :
    decodeCollection registry limits wrapper depth record fields =
      (entryList limits wrapper fields >>=
        decodeEntryList registry limits wrapper depth record) := by
  rw [decodeCollection_eq_lookup]
  unfold entryList entries?
  cases (Fields.lookup Wrapper.collectionKey fields).bind Json.object? with
  | none => rfl
  | some collection =>
      simp only [decodeEntries_eq_lookup, Option.bind_some]
      cases Fields.lookup wrapper.entriesKey collection with
      | none => rfl
      | some json =>
          cases json with
          | array entries =>
              dsimp only
              cases checkCount limits entries.length <;> rfl
          | object entry =>
              simp only [← decodeEntryList_singleton]
              cases checkCount limits 1 <;> rfl
          | _ => rfl

theorem decodeObject_eq_ok {place : Place} {fields : List (String × Json)} {result : Record} :
    decodeObject registry limits place.hint place.depth fields = .ok result ↔
      ∃ held, contents registry limits place fields = .ok held ∧
        decodeFields registry limits held.descriptor (place.depth + 1) held.record held.fields =
          .ok result := by
  unfold decodeObject contents
  cases opening limits place.hint place.depth fields with
  | error e => simp
  | ok opened =>
      obtain ⟨_ | wrapper, record⟩ := opened
      · simp only [ok_bind]
        constructor
        · intro h
          exact ⟨_, rfl, h⟩
        · rintro ⟨held, hh, h⟩
          obtain rfl := Except.ok.inj hh
          exact h
      · simp only [ok_bind, decodeCollection_eq, bind_eq_ok, decodeEntryList_eq_ok]
        constructor
        · rintro ⟨entries, he, pairs, hp, h⟩
          exact ⟨⟨none, record, pairs⟩, ⟨entries, he, pairs, hp, rfl⟩, h⟩
        · rintro ⟨held, ⟨entries, he, pairs, hp, hh⟩, h⟩
          obtain rfl := Except.ok.inj hh
          exact ⟨entries, he, pairs, hp, h⟩

theorem opening_eq_ok {hint : String} {depth : Nat} {fields : List (String × Json)}
    {kind : Option Wrapper} {record : Record}
    (h : opening limits hint depth fields = .ok (kind, record)) :
    depth < limits.maxDepth ∧ wrapper? fields = kind ∧ record.fields = [] ∧
      match kind with
      | none => record = .struct hint
      | some _ => record.shape ≠ .struct := by
  unfold opening at h
  split at h
  · cases h
  · rename_i hd
    refine ⟨Nat.not_le.mp hd, ?_⟩
    cases hw : wrapper? fields with
    | none =>
        simp only [hw, Except.ok.injEq, Prod.mk.injEq] at h
        obtain ⟨rfl, rfl⟩ := h
        exact ⟨rfl, rfl, rfl⟩
    | some wrapper =>
        simp only [hw, bind_eq_ok] at h
        obtain ⟨identity, _, h⟩ := h
        obtain ⟨rfl, rfl⟩ := Prod.mk.inj (Except.ok.inj h)
        refine ⟨rfl, ?_⟩
        cases wrapper with
        | entity => exact ⟨rfl, Shape.noConfusion⟩
        | asset => exact ⟨rfl, Shape.noConfusion⟩

theorem wrapper?_eq_none_iff {fields : List (String × Json)} :
    wrapper? fields = none ↔ (Wrapper.collectionKey ∈ Fields.names fields →
      Wrapper.entity.typeKey ∉ Fields.names fields ∧
        Wrapper.asset.typeKey ∉ Fields.names fields) := by
  by_cases hc : Wrapper.collectionKey ∈ Fields.names fields <;>
    by_cases he : Wrapper.entity.typeKey ∈ Fields.names fields <;>
    by_cases ha : Wrapper.asset.typeKey ∈ Fields.names fields <;>
    simp [wrapper?, Fields.isSome_lookup, hc, he, ha]

theorem sizeOf_lookup_lt {name : String} {fields : List (String × Json)} {json : Json}
    (h : Fields.lookup name fields = some json) : sizeOf json < sizeOf fields := by
  have hm := List.sizeOf_lt_of_mem (Fields.mem_of_lookup h)
  rw [Prod.mk.sizeOf_spec] at hm
  omega

theorem sizeOf_of_mem {name : String} {json : Json} {fields : List (String × Json)}
    (h : (name, json) ∈ fields) : sizeOf json < sizeOf (Json.object fields) := by
  have hm := List.sizeOf_lt_of_mem h
  rw [Prod.mk.sizeOf_spec] at hm
  rw [Json.object.sizeOf_spec]
  omega

theorem sizeOf_entryPair {wrapper : Wrapper} {entry json : Json} {name : String}
    (h : entryPair wrapper entry = .ok (name, json)) : sizeOf json ≤ sizeOf entry := by
  cases entry with
  | object entry =>
      simp only [entryPair, bind_eq_ok] at h
      obtain ⟨_, _, h⟩ := h
      rw [← (Prod.mk.inj (Except.ok.inj h)).2, Json.object.sizeOf_spec]
      cases hv : Fields.lookup Wrapper.entryValueKey entry with
      | none =>
          rw [Option.getD_none, Json.null.sizeOf_spec]
          omega
      | some value =>
          have := sizeOf_lookup_lt hv
          rw [Option.getD_some]
          omega
  | _ => cases h

theorem sizeOf_entries? {wrapper : Wrapper} {fields : List (String × Json)} {json : Json}
    (h : entries? wrapper fields = some json) : sizeOf json < sizeOf fields := by
  obtain ⟨collection, hc, hj⟩ := Option.bind_eq_some_iff.mp h
  obtain ⟨held, hh, ho⟩ := Option.bind_eq_some_iff.mp hc
  have hcollection := sizeOf_lookup_lt hh
  have hjson := sizeOf_lookup_lt hj
  cases held with
  | object held =>
      obtain rfl : held = collection := Option.some.inj ho
      rw [Json.object.sizeOf_spec] at hcollection
      omega
  | _ => cases ho

theorem entryList_eq_ok {wrapper : Wrapper} {fields : List (String × Json)} {entries : List Json}
    (h : entryList limits wrapper fields = .ok entries) :
    entries.length ≤ limits.maxItems ∧ ∀ entry ∈ entries, sizeOf entry < sizeOf fields := by
  have hnil : ([] : List Json).length ≤ limits.maxItems ∧
      ∀ entry ∈ ([] : List Json), sizeOf entry < sizeOf fields :=
    ⟨Nat.zero_le _, fun _ he => absurd he List.not_mem_nil⟩
  unfold entryList at h
  cases he : entries? wrapper fields with
  | none =>
      simp only [he, Except.ok.injEq] at h
      exact h ▸ hnil
  | some json =>
      have hjson := sizeOf_entries? he
      cases json with
      | null =>
          simp only [he, Except.ok.injEq] at h
          exact h ▸ hnil
      | array items =>
          simp only [he, bind_eq_ok] at h
          obtain ⟨_, hn, h⟩ := h
          rw [← Except.ok.inj h]
          refine ⟨checkCount_eq_ok.mp hn, fun entry hm => ?_⟩
          have := List.sizeOf_lt_of_mem hm
          rw [Json.array.sizeOf_spec] at hjson
          omega
      | object entry =>
          simp only [he, bind_eq_ok] at h
          obtain ⟨_, hn, h⟩ := h
          rw [← Except.ok.inj h]
          refine ⟨checkCount_eq_ok.mp hn, fun entry hm => ?_⟩
          rw [List.mem_singleton.mp hm]
          exact hjson
      | _ => simp [he] at h

/-- A struct holds its own fields, a wrapper the pairs of its entries. -/
theorem contents_cases {place : Place} {fields : List (String × Json)} {held : Contents}
    (h : contents registry limits place fields = .ok held) :
    (opening limits place.hint place.depth fields = .ok (none, .struct place.hint) ∧
      wrapper? fields = none ∧
      held = ⟨registry.lookup place.hint, .struct place.hint, fields⟩) ∨
    ∃ wrapper record entries pairs,
      opening limits place.hint place.depth fields = .ok (some wrapper, record) ∧
      wrapper? fields = some wrapper ∧ entryList limits wrapper fields = .ok entries ∧
      entries.mapM (entryPair wrapper) = .ok pairs ∧ held = ⟨none, record, pairs⟩ := by
  simp only [contents, bind_eq_ok] at h
  obtain ⟨⟨kind, record⟩, ho, h⟩ := h
  obtain ⟨_, hw, _, hr⟩ := opening_eq_ok ho
  cases kind with
  | none =>
      obtain rfl : record = .struct place.hint := hr
      exact .inl ⟨ho, hw, (Except.ok.inj h).symm⟩
  | some wrapper =>
      simp only [bind_eq_ok] at h
      obtain ⟨entries, he, pairs, hp, h⟩ := h
      exact .inr ⟨wrapper, record, entries, pairs, ho, hw, he, hp, (Except.ok.inj h).symm⟩

/-- What is known of the contents of an object once they are found. -/
structure Contents.Found (registry : Registry) (limits : Limits) (place : Place)
    (fields : List (String × Json)) (held : Contents) : Prop where
  shallow : place.depth < limits.maxDepth
  fresh : held.record.fields = []
  hinted : ∀ name, Descriptor.hint held.descriptor name = held.record.hint registry name
  struct : held.record.shape = .struct →
    held.record.typeName = place.hint ∧ wrapper? fields = none ∧ held.fields = fields
  short : held.record.shape ≠ .struct → held.fields.length ≤ limits.maxItems
  smaller : ∀ entry ∈ held.fields, sizeOf entry.2 < sizeOf (Json.object fields)

theorem Contents.found {place : Place} {fields : List (String × Json)} {held : Contents}
    (h : contents registry limits place fields = .ok held) :
    held.Found registry limits place fields := by
  rcases contents_cases h with
    ⟨ho, hw, rfl⟩ | ⟨wrapper, record, entries, pairs, ho, hw, he, hp, rfl⟩
  · exact {
      shallow := (opening_eq_ok ho).1
      fresh := rfl
      hinted := fun _ => rfl
      struct := fun _ => ⟨rfl, hw, rfl⟩
      short := fun hs => absurd rfl hs
      smaller := fun _ he => sizeOf_of_mem he }
  · obtain ⟨hd, _, hf, hr⟩ := opening_eq_ok ho
    obtain ⟨hcount, hsize⟩ := entryList_eq_ok he
    exact {
      shallow := hd
      fresh := hf
      hinted := fun name => by
        cases hs : record.shape with
        | struct => exact absurd hs hr
        | _ => simp [Record.hint, hs, Descriptor.hint]
      struct := fun hs => absurd hs hr
      short := fun _ => by rw [length_of_mapM hp]; exact hcount
      smaller := by
        rintro ⟨name, json⟩ hm
        obtain ⟨entry, hentry, hpair⟩ := exists_of_mem_mapM hp hm
        have := sizeOf_entryPair hpair
        have := hsize entry hentry
        rw [Json.object.sizeOf_spec]
        show sizeOf json < 1 + sizeOf fields
        omega }

end RecordSchema.Reply
