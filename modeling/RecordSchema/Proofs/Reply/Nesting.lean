import RecordSchema.Proofs.Json.RoundTrip
import RecordSchema.Proofs.Record.Made
import RecordSchema.Proofs.Reply.Limits

/-! The two limits on how deep a reply may be nested: that of the JSON reader, for a text, and that
of the decoder, for arrays and objects. A wrapper takes four levels of JSON for one of the decoder's,
so that a tower of wrappers meets the reader's limit first. This holds of every reader and writer
that agree on the values in question (`Json.RoundTrips`). -/

namespace RecordSchema.Reply

variable {registry : Registry}

/-- Wrappers, each in a field of the one before; the last has a field as well. -/
inductive Tower : Nat → Value → Prop
  | base (value : Value) : Tower 0 value
  | wrap {n : Nat} {r : Record} {entry : String × Value} (hs : r.shape ≠ .struct)
      (he : entry ∈ r.fields) (h : Tower n entry.2) : Tower (n + 1) (.record r)

/-- Arrays and records stand in less than this many others. -/
def Below (limit : Nat) (place : Place) : Value → Prop
  | .array _ | .record _ => place.depth < limit
  | .null | .bool _ | .int _ | .double _ | .string _ => True

/-! ## The levels of JSON -/

theorem nesting_ofDouble (x : Double) : (Json.ofDouble x).nesting = 0 := by
  rw [Json.ofDouble]
  split <;> rfl

theorem nesting_array (items : List Value) {n : Nat} :
    (Value.array items).toJson.nesting ≤ n + 1 ↔ ∀ item ∈ items, item.toJson.nesting ≤ n := by
  rw [Value.toJson, Json.nesting, Nat.add_le_add_iff_right, Json.itemsNesting_le_iff,
    Value.itemsJson_eq_map, List.forall_mem_map]

theorem nesting_struct {r : Record} (hs : r.shape = .struct) {n : Nat} :
    (Value.record r).toJson.nesting ≤ n + 1 ↔ ∀ entry ∈ r.fields, entry.2.toJson.nesting ≤ n := by
  have hidentity : ∀ field ∈ identityFields r.identity, field.2.nesting ≤ n := by
    cases r.identity with
    | none => exact fun _ hf => absurd hf List.not_mem_nil
    | some m => exact List.forall_mem_singleton.mpr (Nat.zero_le n)
  rw [toJson_struct hs, Json.nesting, Nat.add_le_add_iff_right, Json.fieldsNesting_le_iff,
    Value.fieldsJson_eq_map, List.forall_mem_append, List.forall_mem_map]
  exact and_iff_right hidentity

/-- The object of the wrapper, that of its collection, and the list. -/
theorem nesting_wrapperFields (wrapper : Wrapper) (typeName : String) (category : Option String)
    (identity : Option Int64) (fields : List (String × Value)) :
    (Json.object (wrapperFields wrapper typeName category identity fields)).nesting =
      Json.itemsNesting (Value.entriesJson fields) + 3 := by
  have htype : (Wrapper.typeJson typeName category).nesting = 1 := by
    cases category <;> rfl
  have hidentity : ((identity.map Json.ofInt64).getD .null).nesting = 0 := by
    cases identity <;> rfl
  simp only [wrapperFields, Json.nesting, Json.fieldsNesting, htype, hidentity]
  omega

theorem nesting_entry (name : String) (value : Json) :
    (Json.object [(Wrapper.entryNameKey, .string name), (Wrapper.entryValueKey, value)]).nesting =
      value.nesting + 1 := by
  simp only [Json.nesting, Json.fieldsNesting]
  omega

/-- Each entry of a wrapper is an object of its own, the fourth level. -/
theorem nesting_wrapper {r : Record} (hs : r.shape ≠ .struct) {n : Nat} :
    n + 4 ≤ (Value.record r).toJson.nesting ↔ ∃ entry ∈ r.fields, n ≤ entry.2.toJson.nesting := by
  obtain ⟨wrapper, category, hjson, _⟩ := toJson_wrapper hs
  calc n + 4 ≤ (Value.record r).toJson.nesting
      ↔ n < Json.itemsNesting (Value.entriesJson r.fields) := by
        rw [hjson, nesting_wrapperFields]
        omega
    _ ↔ ∃ entry ∈ r.fields, n ≤ entry.2.toJson.nesting := by
        rw [Json.lt_itemsNesting_iff, Value.entriesJson_eq_map]
        simp only [List.mem_map, exists_exists_and_eq_and, nesting_entry, Nat.lt_succ_iff]

/-! ## The two limits -/

theorem tower_wrapper {n : Nat} {r : Record} (hs : r.shape ≠ .struct) :
    Tower (n + 1) (.record r) ↔ ∃ entry ∈ r.fields, Tower n entry.2 := by
  constructor
  · intro h
    cases h with
    | wrap _ he h => exact ⟨_, he, h⟩
  · rintro ⟨entry, he, h⟩
    exact .wrap hs he h

/-- With `room` levels left to the decoder a value has four levels of JSON for each at most, and
has all of them as a tower only. -/
def Levels (room : Nat) (value : Value) : Prop :=
  value.toJson.nesting ≤ 4 * room ∧ (4 * room ≤ value.toJson.nesting ↔ Tower room value)

theorem levels_leaf {value : Value} (hr : ∀ r, value ≠ .record r) (h : value.toJson.nesting = 0)
    (room : Nat) : Levels room value := by
  refine ⟨by omega, fun hroom => ?_, fun htower => ?_⟩
  · obtain rfl : room = 0 := by omega
    exact .base value
  · cases htower with
    | base => exact Nat.zero_le _
    | wrap => exact absurd rfl (hr _)

/-- A level of JSON for one of the decoder's. -/
theorem levels_single {value : Value} {room : Nat} (h : value.toJson.nesting ≤ 4 * room + 1)
    (ht : ¬Tower (room + 1) value) : Levels (room + 1) value :=
  ⟨by omega, fun hroom => by omega, fun htower => absurd htower ht⟩

theorem levels_array {room : Nat} {items : List Value} (h : ∀ item ∈ items, Levels room item) :
    Levels (room + 1) (.array items) :=
  levels_single ((nesting_array items).mpr fun item hi => (h item hi).1) nofun

theorem levels_struct {room : Nat} {r : Record} (hs : r.shape = .struct)
    (h : ∀ entry ∈ r.fields, Levels room entry.2) : Levels (room + 1) (.record r) := by
  refine levels_single ((nesting_struct hs).mpr fun entry he => (h entry he).1) ?_
  intro htower
  cases htower with
  | wrap hwrapper _ _ => exact hwrapper hs

/-- Four levels of JSON for one of the decoder's, if the wrapper has a field. -/
theorem levels_wrapper {room : Nat} {r : Record} (hs : r.shape ≠ .struct)
    (h : ∀ entry ∈ r.fields, Levels room entry.2) : Levels (room + 1) (.record r) := by
  constructor
  · apply Nat.not_lt.mp
    intro hlt
    obtain ⟨entry, he, hdeep⟩ := (nesting_wrapper hs).mp (show 4 * room + 1 + 4 ≤ _ by omega)
    have hbound := (h entry he).1
    omega
  · rw [tower_wrapper hs, show 4 * (room + 1) = 4 * room + 4 by omega, nesting_wrapper hs]
    constructor
    · rintro ⟨entry, he, hdeep⟩
      exact ⟨entry, he, (h entry he).2.mp hdeep⟩
    · rintro ⟨entry, he, htower⟩
      exact ⟨entry, he, (h entry he).2.mpr htower⟩

/-- The induction is on the places of the value: what stands in an array or a record has one level
less. -/
theorem levels_of_below {limit : Nat} {place : Place} {value : Value}
    (h : Everywhere registry (Below limit) place value) : Levels (limit - place.depth) value := by
  induction h with
  | @intro place value here _ ih =>
      cases value with
      | array items =>
          have hroom : limit - place.depth = limit - (place.depth + 1) + 1 := by
            have hdepth : place.depth < limit := here
            omega
          rw [hroom]
          exact levels_array fun item hi => ih _ item (.item hi)
      | record r =>
          have hroom : limit - place.depth = limit - (place.depth + 1) + 1 := by
            have hdepth : place.depth < limit := here
            omega
          rw [hroom]
          have hfields := fun entry (he : entry ∈ r.fields) => ih _ entry.2 (.field he)
          by_cases hs : r.shape = .struct
          · exact levels_struct hs hfields
          · exact levels_wrapper hs hfields
      | double x =>
          apply levels_leaf
          · exact nofun
          · exact nesting_ofDouble x
      | _ =>
          apply levels_leaf
          · exact nofun
          · rfl

/-- A text is decoded as its tree is, unless it is nested too deep for the reader. -/
theorem decodeTextBy_write {read : Json.TextReader Json} {write : Json → String}
    {limits : Limits} {typeName : String} {payload : Json}
    (h : Json.RoundTrips read write payload) :
    decodeTextBy registry limits read typeName (write payload).toUTF8.toList =
      if payload.nesting ≤ Json.maxNesting then decode registry limits typeName payload
      else .error (.json .malformed) := by
  by_cases hroom : payload.nesting ≤ Json.maxNesting
  · rw [decodeTextBy, h.within hroom, if_pos hroom]
  · rw [decodeTextBy, h.beyond (Nat.lt_of_not_le hroom), if_neg hroom]

/-- The reader has one level less than the four for each level of the decoder's default limit. -/
theorem nesting_le_maxNesting_iff {typeName : String} {r : Record}
    (h : Everywhere registry (Below (Limits.maxDepth {})) ⟨typeName, 0⟩ (.record r)) :
    r.toJson.nesting ≤ Json.maxNesting ↔ ¬Tower (Limits.maxDepth {}) (.record r) := by
  have hlevels : 4 * 32 ≤ r.toJson.nesting ↔ Tower (Limits.maxDepth {}) (.record r) :=
    (levels_of_below h).2
  rw [← hlevels, Json.maxNesting]
  omega

/-- A record that stays below the decoder's default limit is read from its text, unless it is a
tower of wrappers up to that limit: the last one's field lies 128 levels of JSON deep, and the reader
refuses the text. All that the reader accepts is decoded as its tree is, and refused for its depth if
a deeper limit would let it pass. -/
theorem decodeTextBy_below (read : Json.TextReader Json) (write : Json → String)
    (registry : Registry) (typeName : String) :
    (∀ r : Record, Json.RoundTrips read write r.toJson →
      decode registry {} typeName r.toJson = .ok r →
      Everywhere registry (Below (Limits.maxDepth {})) ⟨typeName, 0⟩ (.record r) →
      (¬Tower (Limits.maxDepth {}) (.record r) →
        decodeTextBy registry {} read typeName (write r.toJson).toUTF8.toList = .ok r) ∧
      (Tower (Limits.maxDepth {}) (.record r) →
        decodeTextBy registry {} read typeName (write r.toJson).toUTF8.toList =
          .error (.json .malformed))) ∧
    ∀ payload : Json, Json.RoundTrips read write payload → payload.nesting ≤ Json.maxNesting →
      decodeTextBy registry {} read typeName (write payload).toUTF8.toList =
        decode registry {} typeName payload ∧
      ∀ depth r, decode registry { maxDepth := depth } typeName payload = .ok r →
        ¬Fits {} payload →
        decodeTextBy registry {} read typeName (write payload).toUTF8.toList =
          .error (.depthExceeded (Limits.maxDepth {})) := by
  refine ⟨fun r htext hr hbelow => ?_, fun payload htext hroom => ?_⟩
  · have hdecoded : decodeTextBy registry {} read typeName (write r.toJson).toUTF8.toList =
        if r.toJson.nesting ≤ Json.maxNesting then .ok r else .error (.json .malformed) := by
      rw [decodeTextBy_write htext, hr]
    have hroom := nesting_le_maxNesting_iff hbelow
    exact ⟨fun h => hdecoded.trans (if_pos (hroom.mpr h)),
      fun h => hdecoded.trans (if_neg fun hle => hroom.mp hle h)⟩
  · have hdecoded : decodeTextBy registry {} read typeName (write payload).toUTF8.toList =
        decode registry {} typeName payload := by
      rw [decodeTextBy_write htext, if_pos hroom]
    refine ⟨hdecoded, fun depth r hr hfits => ?_⟩
    rw [hdecoded]
    exact decode_deepened hr (Nat.le_refl _) hfits

/-- A reader and a writer that agree on every record that is decoded at all. -/
theorem roundTrips_of_decode {limits : Limits} {typeName : String} {payload : Json} {r : Record}
    (h : decode registry limits typeName payload = .ok r) :
    Json.RoundTrips Json.parse Json.compact r.toJson :=
  Json.roundTrips_compact (decode_wellFormed h).distinct

/-! ## Towers -/

/-- An asset with one field. -/
def part (value : Value) : Record := ⟨"Part", .asset, none, [("part", value)]⟩

/-- Assets in one another around a value. -/
def stacked (inner : Value) : Nat → Value
  | 0 => inner
  | n + 1 => .record (part (stacked inner n))

theorem tower_stacked (inner : Value) (n k : Nat) :
    Tower (k + n) (stacked inner n) ↔ Tower k inner := by
  induction n with
  | zero => exact Iff.rfl
  | succ n ih =>
      have hs : (part (stacked inner n)).shape ≠ .struct := nofun
      rw [← ih, stacked, ← Nat.add_assoc, tower_wrapper hs]
      simp [part]

theorem everywhere_stacked {P : Place → Value → Prop} {inner : Value} {n : Nat} {place : Place}
    (hpart : ∀ outer value, outer.depth < place.depth + n → P outer (.record (part value)))
    (hinner : ∀ hint, Everywhere registry P ⟨hint, place.depth + n⟩ inner) :
    Everywhere registry P place (stacked inner n) := by
  induction n generalizing place with
  | zero => exact hinner place.hint
  | succ n ih =>
      refine Everywhere.record_iff.mpr ⟨hpart place _ (by omega), fun entry he => ?_⟩
      obtain rfl := List.mem_singleton.mp he
      refine ih (fun outer value hd => hpart outer value ?_) fun hint => ?_
      · dsimp only at hd
        omega
      · rw [Nat.add_assoc, Nat.add_comm 1 n]
        exact hinner hint

theorem readable_part {place : Place} (value : Value) (h : place.depth < 32) :
    Readable {} place (.record (part value)) := by
  have hname : RecordOf.identityName ≠ "part" := by decide
  exact ⟨⟨List.nodup_singleton _, fun hm => hname (List.mem_singleton.mp hm)⟩, nofun, nofun, h,
    fun _ => Nat.le_of_ble_eq_true rfl⟩

/-- Thirty-two assets in one another, the last with a field of its own. -/
def fullTower : Record := part (stacked .null 31)

theorem decode_fullTower : decode ⟨[]⟩ {} "Part" fullTower.toJson = .ok fullTower := by
  have h : Everywhere ⟨[]⟩ (Readable {}) ⟨"Part", 0⟩ (stacked .null 32) :=
    everywhere_stacked (fun _ value hd => readable_part value hd)
      fun _ => (Everywhere.leaf_iff (by simp) (by simp)).mpr trivial
  exact decode_toJson h

theorem below_fullTower :
    Everywhere ⟨[]⟩ (Below (Limits.maxDepth {})) ⟨"Part", 0⟩ (.record fullTower) := by
  have h : Everywhere ⟨[]⟩ (Below 32) ⟨"Part", 0⟩ (stacked .null 32) :=
    everywhere_stacked (fun _ _ hd => hd)
      fun _ => (Everywhere.leaf_iff (by simp) (by simp)).mpr trivial
  exact h

/-- The text of a record within the decoder's limit is refused by the reader. -/
theorem decodeTextBy_fullTower :
    decode ⟨[]⟩ {} "Part" fullTower.toJson = .ok fullTower ∧
      Everywhere ⟨[]⟩ (Below (Limits.maxDepth {})) ⟨"Part", 0⟩ (.record fullTower) ∧
      Json.RoundTrips Json.parse Json.compact fullTower.toJson ∧
      ∀ (read : Json.TextReader Json) (write : Json → String),
        Json.RoundTrips read write fullTower.toJson →
        decodeTextBy ⟨[]⟩ {} read "Part" (write fullTower.toJson).toUTF8.toList =
          .error (.json .malformed) := by
  have htower : Tower (Limits.maxDepth {}) (.record fullTower) :=
    (tower_stacked .null 32 0).mpr (.base .null)
  have hdeep : ¬fullTower.toJson.nesting ≤ Json.maxNesting := fun hroom =>
    (nesting_le_maxNesting_iff below_fullTower).mp hroom htower
  refine ⟨decode_fullTower, below_fullTower, roundTrips_of_decode decode_fullTower, ?_⟩
  intro read write htext
  rw [decodeTextBy_write htext, if_neg hdeep]

/-- The same assets, the last without a field. -/
def openTower : Record := part (stacked (.record (.asset "Part")) 30)

theorem decode_openTower : decode ⟨[]⟩ {} "Part" openTower.toJson = .ok openTower := by
  have hreadable : Everywhere ⟨[]⟩ (Readable {}) ⟨"Part", 0⟩
      (stacked (.record (.asset "Part")) 31) :=
    everywhere_stacked (fun _ value hd => readable_part value (Nat.lt_succ_of_lt hd))
      fun _ => Everywhere.record_iff.mpr
        ⟨⟨⟨List.nodup_nil, List.not_mem_nil⟩, nofun, nofun, Nat.lt_succ_self 31,
          fun _ => Nat.zero_le _⟩, fun _ he => absurd he List.not_mem_nil⟩
  exact decode_toJson hreadable

/-- Objects in one another. -/
def nestedFields : Nat → List (String × Json)
  | 0 => []
  | n + 1 => [("part", .object (nestedFields n))]

theorem distinct_nested (n : Nat) : (Json.object (nestedFields n)).Distinct := by
  induction n with
  | zero => exact ⟨List.nodup_nil, trivial⟩
  | succ n ih => exact ⟨List.nodup_singleton _, ih, trivial⟩

theorem nesting_nested (n : Nat) : (Json.object (nestedFields n)).nesting = n + 1 := by
  induction n with
  | zero => rfl
  | succ n ih =>
      rw [nestedFields, Json.nesting, Json.fieldsNesting, Json.fieldsNesting, ih]
      rfl

theorem visited_nested (start n : Nat) :
    Visited start (.object (nestedFields n)) (start + n) (.object []) := by
  induction n generalizing start with
  | zero => exact .root
  | succ n ih =>
      have hplain : ∀ wrapper, ¬IsWrapper wrapper (nestedFields (n + 1)) :=
        wrapper?_eq_none.mp rfl
      have hdepth : start + (n + 1) = start + 1 + n := by omega
      rw [hdepth]
      exact (ih (start + 1)).head (.field hplain List.mem_cons_self)

/-- A record that is read from its text, and a text that is refused for the depth of its objects. -/
theorem decodeTextBy_below_openTower :
    Json.RoundTrips Json.parse Json.compact openTower.toJson ∧
      decode ⟨[]⟩ {} "Part" openTower.toJson = .ok openTower ∧
      Everywhere ⟨[]⟩ (Below (Limits.maxDepth {})) ⟨"Part", 0⟩ (.record openTower) ∧
      ¬Tower (Limits.maxDepth {}) (.record openTower) ∧
      decodeTextBy ⟨[]⟩ {} Json.parse "Part" (Json.compact openTower.toJson).toUTF8.toList =
        .ok openTower ∧
      decodeTextBy ⟨[]⟩ {} Json.parse "Part"
        (Json.compact (.object (nestedFields 32))).toUTF8.toList = .error (.depthExceeded 32) := by
  have hbelow : Everywhere ⟨[]⟩ (Below 32) ⟨"Part", 0⟩ (stacked (.record (.asset "Part")) 31) :=
    everywhere_stacked (fun _ _ hd => Nat.lt_succ_of_lt hd)
      fun _ => Everywhere.record_iff.mpr
        ⟨Nat.lt_succ_self 31, fun _ he => absurd he List.not_mem_nil⟩
  have hopen : ¬Tower (1 + 31) (stacked (.record (.asset "Part")) 31) := by
    have hs : (RecordOf.asset "Part" : Record).shape ≠ .struct := nofun
    rw [tower_stacked, tower_wrapper hs]
    rintro ⟨_, he, _⟩
    exact absurd he List.not_mem_nil
  have hopened := roundTrips_of_decode decode_openTower
  have hnested : Json.RoundTrips Json.parse Json.compact (.object (nestedFields 32)) :=
    Json.roundTrips_compact (distinct_nested 32)
  obtain ⟨hrecords, htexts⟩ := decodeTextBy_below Json.parse Json.compact ⟨[]⟩ "Part"
  refine ⟨hopened, decode_openTower, hbelow, hopen,
    (hrecords openTower hopened decode_openTower hbelow).1 hopen, ?_⟩
  have hroom : (Json.object (nestedFields 32)).nesting ≤ Json.maxNesting := by
    rw [nesting_nested]
    decide
  have hdeeper : ∃ r, decode ⟨[]⟩ { maxDepth := 33 } "Part" (.object (nestedFields 32)) = .ok r :=
    ⟨_, rfl⟩
  obtain ⟨r, hr⟩ := hdeeper
  refine (htexts _ hnested hroom).2 33 r hr fun hfits => ?_
  exact Nat.lt_irrefl 32 (hfits.shallow 32 [] (visited_nested 0 32))

end RecordSchema.Reply
