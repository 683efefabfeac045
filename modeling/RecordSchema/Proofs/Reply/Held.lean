import RecordSchema.Proofs.Reply.Contents

/-! What an object of a reply says, whatever the limits are: the wrapper that it is, the entries that
it lists and the named values that it holds. Where the contents of an object can be found under some
limits, every other limits find the same or refuse the length of the list. -/

namespace RecordSchema.Reply

/-- The object has the keys of the wrapper. With both type keys it is an entity. -/
def IsWrapper (wrapper : Wrapper) (fields : List (String × Json)) : Prop :=
  Wrapper.collectionKey ∈ Fields.names fields ∧ wrapper.typeKey ∈ Fields.names fields ∧
    (wrapper = .asset → Wrapper.entity.typeKey ∉ Fields.names fields)

/-- The entries of a wrapper. One entry may stand for a list of one. -/
def listed (wrapper : Wrapper) (fields : List (String × Json)) : List Json :=
  match entries? wrapper fields with
  | some (.array entries) => entries
  | some (.object entry) => [.object entry]
  | _ => []

/-- The name and the value of an entry that has a name. A missing value is null. -/
def named? : Json → Option (String × Json)
  | .object entry =>
      (stringAt Wrapper.entryNameKey entry).map
        (·, (Fields.lookup Wrapper.entryValueKey entry).getD .null)
  | _ => none

/-- The named values of an object: those of its entries if it is a wrapper, else its fields. -/
def held (fields : List (String × Json)) : List (String × Json) :=
  match wrapper? fields with
  | none => fields
  | some wrapper => (listed wrapper fields).filterMap named?

variable {registry : Registry} {limits limits' : Limits} {wrapper : Wrapper}
  {fields : List (String × Json)}

theorem wrapper?_eq_some_iff : wrapper? fields = some wrapper ↔ IsWrapper wrapper fields := by
  by_cases hc : Wrapper.collectionKey ∈ Fields.names fields <;>
    by_cases he : Wrapper.entity.typeKey ∈ Fields.names fields <;>
    by_cases ha : Wrapper.asset.typeKey ∈ Fields.names fields <;>
    cases wrapper <;>
    simp [wrapper?, IsWrapper, Fields.isSome_lookup, hc, he, ha]

theorem wrapper?_eq_none : wrapper? fields = none ↔ ∀ wrapper, ¬IsWrapper wrapper fields := by
  simp only [← wrapper?_eq_some_iff, Option.eq_none_iff_forall_ne_some]

theorem held_plain (h : wrapper? fields = none) : held fields = fields := by
  rw [held, h]

theorem held_wrapper (h : wrapper? fields = some wrapper) :
    held fields = (listed wrapper fields).filterMap named? := by
  rw [held, h]

theorem entryPair_eq_ok {entry json : Json} {name : String} :
    entryPair wrapper entry = .ok (name, json) ↔
      ∃ fields, entry = .object fields ∧ entryName wrapper fields = .ok name ∧
        json = (Fields.lookup Wrapper.entryValueKey fields).getD .null := by
  cases entry with
  | object fields =>
      simp only [entryPair, bind_eq_ok]
      constructor
      · rintro ⟨found, hname, h⟩
        obtain ⟨rfl, rfl⟩ := Prod.mk.inj (Except.ok.inj h)
        exact ⟨fields, rfl, hname, rfl⟩
      · rintro ⟨_, heq, hname, rfl⟩
        obtain rfl := Json.object.inj heq
        exact ⟨name, hname, rfl⟩
  | _ => simp [entryPair]

theorem entryName_eq_ok {name : String} :
    entryName wrapper fields = .ok name ↔ stringAt Wrapper.entryNameKey fields = some name := by
  unfold entryName stringAt
  cases Fields.lookup Wrapper.entryNameKey fields with
  | none => simp
  | some json => cases json <;> simp [Json.string?]

theorem named?_of_entryPair {entry : Json} {pair : String × Json}
    (h : entryPair wrapper entry = .ok pair) : named? entry = some pair := by
  obtain ⟨fields, rfl, hname, hvalue⟩ := entryPair_eq_ok.mp h
  rw [named?, entryName_eq_ok.mp hname, ← hvalue]
  rfl

/-- Limits make no difference to a list of entries but for its length. -/
theorem entryList_of_ok {entries : List Json} (h : entryList limits wrapper fields = .ok entries)
    (limits' : Limits) :
    entryList limits' wrapper fields =
      (checkCount limits' (listed wrapper fields).length >>= fun _ =>
        .ok (listed wrapper fields)) := by
  unfold entryList at h ⊢
  unfold listed
  cases he : entries? wrapper fields with
  | none => rfl
  | some json =>
      cases json with
      | null => rfl
      | array items => rfl
      | object entry => rfl
      | _ =>
          rw [he] at h
          cases h

theorem entryList_eq_listed {entries : List Json}
    (h : entryList limits wrapper fields = .ok entries) : entries = listed wrapper fields := by
  have hself := h
  rw [entryList_of_ok h limits, bind_eq_ok] at hself
  obtain ⟨_, _, hself⟩ := hself
  exact (Except.ok.inj hself).symm

theorem Contents.fields_eq_held {place : Place} {contained : Contents}
    (h : contents registry limits place fields = .ok contained) :
    contained.fields = held fields := by
  rcases contents_cases h with ⟨_, hw, rfl⟩ | ⟨wrapper, record, entries, pairs, _, hw, he, hp, rfl⟩
  · exact (held_plain hw).symm
  · rw [held_wrapper hw, ← entryList_eq_listed he, filterMap_of_mapM named?_of_entryPair hp]

/-- Writing entries that all have a name is writing their names and values, also where it fails. -/
theorem decodeEntryList_eq_decodeFields {depth : Nat} {record : Record} {entries : List Json}
    {pairs : List (String × Json)} (h : entries.mapM (entryPair wrapper) = .ok pairs) :
    decodeEntryList registry limits wrapper depth record entries =
      decodeFields registry limits none depth record pairs := by
  induction entries generalizing record pairs with
  | nil =>
      obtain rfl : [] = pairs := Except.ok.inj h
      rw [decodeEntryList, decodeFields]
  | cons entry rest ih =>
      simp only [List.mapM_cons, bind_eq_ok] at h
      obtain ⟨⟨name, json⟩, hpair, pairs, hpairs, h⟩ := h
      rw [← Except.ok.inj h, decodeEntryList, decodeEntry_eq, hpair, ok_bind, decodeFields]
      simp only [ih hpairs, Descriptor.hint, bind_assoc]
      rfl

theorem opening_of_ok {hint : String} {depth : Nat} {opened : Option Wrapper × Record}
    (h : opening limits hint depth fields = .ok opened) (limits' : Limits) :
    opening limits' hint depth fields =
      if limits'.maxDepth ≤ depth then .error (.depthExceeded limits'.maxDepth)
      else .ok opened := by
  unfold opening at h ⊢
  split at h
  · cases h
  · rw [h]

/-- Limits make no difference to the contents of an object but for its depth and the length of its
list. -/
theorem contents_of_ok {place : Place} {contained : Contents}
    (h : contents registry limits place fields = .ok contained) (limits' : Limits) :
    contents registry limits' place fields =
      if limits'.maxDepth ≤ place.depth then .error (.depthExceeded limits'.maxDepth)
      else match wrapper? fields with
        | none => .ok contained
        | some wrapper =>
            checkCount limits' (listed wrapper fields).length >>= fun _ => .ok contained := by
  rcases contents_cases h with
    ⟨ho, hw, rfl⟩ | ⟨wrapper, record, entries, pairs, ho, hw, he, hp, rfl⟩
  · rw [contents, opening_of_ok ho limits', hw]
    split <;> rfl
  · rw [contents, opening_of_ok ho limits', hw]
    rw [entryList_eq_listed he] at hp
    split
    · rfl
    · simp only [ok_bind, entryList_of_ok he limits', bind_assoc, hp]
      rfl

/-- Where the contents of an object can be found under some limits, decoding it under others is
finding them and then writing them. -/
theorem decodeObject_eq_bind {place : Place} {contained : Contents}
    (h : contents registry limits place fields = .ok contained) (limits' : Limits) :
    decodeObject registry limits' place.hint place.depth fields =
      (contents registry limits' place fields >>= fun contained =>
        decodeFields registry limits' contained.descriptor (place.depth + 1) contained.record
          contained.fields) := by
  unfold decodeObject contents
  rcases contents_cases h with
    ⟨ho, hw, rfl⟩ | ⟨wrapper, record, entries, pairs, ho, hw, he, hp, rfl⟩
  · rw [opening_of_ok ho limits']
    split <;> rfl
  · rw [opening_of_ok ho limits']
    rw [entryList_eq_listed he] at hp
    split
    · rfl
    · simp only [ok_bind, decodeCollection_eq, entryList_of_ok he limits', bind_assoc, hp,
        decodeEntryList_eq_decodeFields hp]
      rfl

end RecordSchema.Reply
