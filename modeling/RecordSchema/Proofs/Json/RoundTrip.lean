import RecordSchema.Proofs.Fields
import RecordSchema.Proofs.Json
import RecordSchema.Proofs.Json.Numbers

/-! JSON values as text. The text of a value whose keys are distinct is read back if the value is
nested no deeper than there is room, and is refused otherwise (`parse_compact`). -/

namespace RecordSchema.Json
open Text (encode encode_append encode_cons)

/-! ## The text of a value -/

mutual
/-- The text of a value in bytes. -/
def bytes : Json → List UInt8
  | array (item :: rest) => '['.toUInt8 :: (bytes item ++ moreItems rest)
  | object ((key, value) :: rest) =>
      '\x7b'.toUInt8 :: (quotedBytes key ++ ':'.toUInt8 :: (bytes value ++ moreFields rest))
  | value => encode (scalarText value).toList

/-- What stands behind an item: the others and the end of the array. -/
def moreItems : List Json → List UInt8
  | [] => [']'.toUInt8]
  | item :: rest => ','.toUInt8 :: (bytes item ++ moreItems rest)

/-- What stands behind a field: the others and the end of the object. -/
def moreFields : List (String × Json) → List UInt8
  | [] => ['\x7d'.toUInt8]
  | (key, value) :: rest =>
      ','.toUInt8 :: (quotedBytes key ++ ':'.toUInt8 :: (bytes value ++ moreFields rest))
end

theorem bytes_of_isScalar {value : Json} (h : IsScalar value) :
    value.bytes = encode (scalarText value).toList := by
  cases value with
  | array items => exact h.elim
  | object fields => exact h.elim
  | _ => rfl

/-- The text of a value is written after what has been written before. -/
def IsWritten (value : Json) : Prop :=
  ∀ out, encode (write out value).toList = encode out.toList ++ value.bytes

theorem encode_writeItems {items : List Json} (h : ∀ item ∈ items, IsWritten item) (out : String) :
    encode (writeItems out false items ++ "]").toList = encode out.toList ++ moreItems items := by
  induction items generalizing out with
  | nil =>
      rw [writeItems, String.toList_append, encode_append]
      rfl
  | cons item items ih =>
      obtain ⟨hitem, hitems⟩ := List.forall_mem_cons.mp h
      rw [writeItems, if_neg Bool.false_ne_true, ih hitems, hitem, String.toList_append,
        encode_append, moreItems, List.append_assoc, List.append_assoc]
      rfl

theorem encode_writeFields {fields : List (String × Json)}
    (h : ∀ field ∈ fields, IsWritten field.2) (out : String) :
    encode (writeFields out false fields ++ "\x7d").toList =
      encode out.toList ++ moreFields fields := by
  induction fields generalizing out with
  | nil =>
      rw [writeFields, String.toList_append, encode_append]
      rfl
  | cons field fields ih =>
      obtain ⟨hvalue, hfields⟩ := List.forall_mem_cons.mp h
      rw [writeFields, if_neg Bool.false_ne_true, ih hfields, hvalue]
      simp only [String.toList_append, encode_append, encode_stringText, moreFields,
        List.append_assoc]
      rfl

theorem isWritten (value : Json) : IsWritten value := by
  induction value using inductionOn with
  | scalar value h =>
      intro out
      rw [bytes_of_isScalar h, ← encode_append, ← String.toList_append]
      cases value with
      | array items => exact h.elim
      | object fields => exact h.elim
      | _ => rfl
  | array items ih =>
      intro out
      cases items with
      | nil =>
          rw [write, writeItems, String.toList_append, String.toList_append, encode_append,
            encode_append, List.append_assoc]
          rfl
      | cons item items =>
          obtain ⟨hitem, hitems⟩ := List.forall_mem_cons.mp ih
          rw [write, writeItems, if_pos rfl, encode_writeItems hitems, hitem, String.toList_append,
            encode_append, bytes, List.append_assoc, List.append_assoc]
          rfl
  | object fields ih =>
      intro out
      cases fields with
      | nil =>
          rw [write, writeFields, String.toList_append, String.toList_append, encode_append,
            encode_append, List.append_assoc]
          rfl
      | cons field fields =>
          obtain ⟨hvalue, hfields⟩ := List.forall_mem_cons.mp ih
          rw [write, writeFields, if_pos rfl, encode_writeFields hfields, hvalue]
          simp only [String.toList_append, encode_append, encode_stringText, bytes,
            List.append_assoc]
          rfl

theorem toList_compact (value : Json) : (compact value).toUTF8.toList = value.bytes := by
  rw [Text.toList_toUTF8, compact, isWritten]
  rfl

/-! ## Reading -/

/-- The value is read from its own text if there is room for its arrays and objects. -/
def ReadsBack (value : Json) : Prop :=
  ∀ {fuel room : Nat} {rest : List UInt8}, 2 * value.bytes.length < fuel → Ends rest →
    readValue fuel room (value.bytes ++ rest) =
      if value.nesting ≤ room then .ok (value, rest) else .error .malformed

/-- A value starts with this byte, which tells it from blanks and from the end of an array. -/
def Starts (b : UInt8) : Prop := isBlank b = false ∧ b ≠ ']'.toUInt8

theorem starts_of_isDigit {b : UInt8} (h : isDigit b = true) : Starts b := by
  have hblank : ∀ blank, isDigit blank = false → (b == blank) = false :=
    fun _ hb => beq_eq_false_iff_ne.mpr (ne_of_isDigit h hb)
  refine ⟨?_, ne_of_isDigit h rfl⟩
  rw [isBlank, hblank _ rfl, hblank _ rfl, hblank _ rfl, hblank _ rfl]
  rfl

/-- A scalar is known by its first byte and read to its end. -/
theorem readScalar_bytes {value : Json} (h : IsScalar value) :
    ∃ b more, value.bytes = b :: more ∧ Starts b ∧ b ≠ '['.toUInt8 ∧ b ≠ '\x7b'.toUInt8 ∧
      ∀ rest, Ends rest → readScalar b (more ++ rest) = .ok (value, rest) := by
  rw [bytes_of_isScalar h]
  cases value with
  | array items => exact h.elim
  | object fields => exact h.elim
  | null => exact ⟨_, _, rfl, ⟨rfl, by decide⟩, by decide, by decide, fun _ _ => rfl⟩
  | bool b =>
      cases b with
      | true => exact ⟨_, _, rfl, ⟨rfl, by decide⟩, by decide, by decide, fun _ _ => rfl⟩
      | false => exact ⟨_, _, rfl, ⟨rfl, by decide⟩, by decide, by decide, fun _ _ => rfl⟩
  | string s =>
      refine ⟨'"'.toUInt8, encode (s.toList.flatMap escapedChar) ++ ['"'.toUInt8],
        encode_stringText s, ⟨rfl, by decide⟩, by decide, by decide, fun rest _ => ?_⟩
      rw [List.append_assoc, List.singleton_append]
      show (readString .empty _ >>= _) = _
      rw [readString_text]
      rfl
  | number n =>
      obtain ⟨b, more, hbytes, hb, hread⟩ := readScalar_numberText n
      rcases hb with rfl | hb
      · exact ⟨_, more, hbytes, ⟨rfl, by decide⟩, by decide, by decide, hread⟩
      · exact ⟨b, more, hbytes, starts_of_isDigit hb, ne_of_isDigit hb rfl, ne_of_isDigit hb rfl,
          hread⟩

theorem starts_of_isScalar {value : Json} (h : IsScalar value) :
    ∃ b more, value.bytes = b :: more ∧ Starts b := by
  obtain ⟨b, more, hbytes, hb, _⟩ := readScalar_bytes h
  exact ⟨b, more, hbytes, hb⟩

theorem starts_bytes (value : Json) : ∃ b more, value.bytes = b :: more ∧ Starts b := by
  cases value with
  | array items => cases items <;> exact ⟨_, _, rfl, rfl, by decide⟩
  | object fields => cases fields <;> exact ⟨_, _, rfl, rfl, by decide⟩
  | _ => exact starts_of_isScalar trivial

theorem skipBlanks_cons {b : UInt8} (h : isBlank b = false) (rest : List UInt8) :
    skipBlanks (b :: rest) = b :: rest := by
  rw [skipBlanks, List.dropWhile_cons, h]
  rfl

theorem skipBlanks_bytes (value : Json) (rest : List UInt8) :
    skipBlanks (value.bytes ++ rest) = value.bytes ++ rest := by
  obtain ⟨b, more, hbytes, hb⟩ := starts_bytes value
  rw [hbytes, List.cons_append, skipBlanks_cons hb.1]

theorem skipBlanks_moreItems (items : List Json) (rest : List UInt8) :
    skipBlanks (moreItems items ++ rest) = moreItems items ++ rest := by
  cases items <;> exact skipBlanks_cons rfl _

theorem skipBlanks_moreFields (fields : List (String × Json)) (rest : List UInt8) :
    skipBlanks (moreFields fields ++ rest) = moreFields fields ++ rest := by
  cases fields <;> exact skipBlanks_cons rfl _

theorem ends_moreItems (items : List Json) (rest : List UInt8) : Ends (moreItems items ++ rest) := by
  intro b hb
  cases items with
  | nil => exact .inr (.inl (Option.some.inj hb).symm)
  | cons item items => exact .inl (Option.some.inj hb).symm

theorem ends_moreFields (fields : List (String × Json)) (rest : List UInt8) :
    Ends (moreFields fields ++ rest) := by
  intro b hb
  cases fields with
  | nil => exact .inr (.inr (Option.some.inj hb).symm)
  | cons field fields => exact .inl (Option.some.inj hb).symm

theorem readsBack_scalar {value : Json} (h : IsScalar value) : ReadsBack value := by
  intro fuel room rest hfuel hrest
  obtain ⟨b, more, hbytes, hb, harray, hobject, hread⟩ := readScalar_bytes h
  rw [hbytes, List.length_cons] at hfuel
  obtain ⟨fuel, rfl⟩ : ∃ n, fuel = n + 1 := ⟨fuel - 1, by omega⟩
  rw [nesting_of_isScalar h, if_pos (Nat.zero_le room), hbytes, List.cons_append, readValue.eq_def]
  simp only [skipBlanks_cons hb.1, if_neg harray, if_neg hobject, hread rest hrest]

/-! ### Arrays -/

section Arrays
variable {fuel room : Nat} {rest : List UInt8} {seen : Array Json} {value : Json}

theorem readNextItem_bytes (h : ReadsBack value) (hfuel : 2 * value.bytes.length < fuel)
    (hrest : Ends rest) :
    readNextItem (fuel + 1) room seen (value.bytes ++ rest) =
      if value.nesting ≤ room then readItems fuel room (seen.push value) (skipBlanks rest)
      else .error .malformed := by
  rw [readNextItem, h hfuel hrest]
  by_cases hroom : value.nesting ≤ room
  · rw [if_pos hroom, if_pos hroom]
  · rw [if_neg hroom, if_neg hroom]

theorem readItems_end (fuel room : Nat) (seen : Array Json) (rest : List UInt8) :
    readItems (fuel + 1) room seen (']'.toUInt8 :: rest) = .ok (.array seen.toList, rest) := by
  rw [readItems.eq_def]
  rfl

theorem readItems_first (fuel room : Nat) (value : Json) (rest : List UInt8) :
    readItems (fuel + 1) room #[] (value.bytes ++ rest) =
      readNextItem fuel room #[] (value.bytes ++ rest) := by
  obtain ⟨b, more, hbytes, hb⟩ := starts_bytes value
  rw [hbytes, List.cons_append, readItems.eq_def]
  simp only [if_neg hb.2]
  rfl

theorem readItems_next (hseen : seen.isEmpty = false) (value : Json) (rest : List UInt8) :
    readItems (fuel + 1) room seen (','.toUInt8 :: (value.bytes ++ rest)) =
      readNextItem fuel room seen (value.bytes ++ rest) := by
  have hcomma : ','.toUInt8 ≠ ']'.toUInt8 := by decide
  obtain ⟨b, more, hbytes, hb⟩ := starts_bytes value
  rw [hbytes, List.cons_append, readItems.eq_def]
  simp only [if_neg hcomma, hseen, skipBlanks_cons hb.1, if_neg hb.2]
  rfl

/-- The items from one on are read to the end of the array, up to one that is nested too deep. -/
theorem readNextItem_items {item : Json} {items : List Json}
    (h : ∀ value ∈ item :: items, ReadsBack value)
    (hfuel : 2 * (item.bytes.length + (moreItems items).length) ≤ fuel) :
    readNextItem (fuel + 1) room seen (item.bytes ++ (moreItems items ++ rest)) =
      if itemsNesting (item :: items) ≤ room then .ok (.array (seen.toList ++ item :: items), rest)
      else .error .malformed := by
  induction items generalizing item seen fuel with
  | nil =>
      obtain ⟨hitem, -⟩ := List.forall_mem_cons.mp h
      rw [moreItems, List.length_singleton] at hfuel
      obtain ⟨fuel, rfl⟩ : ∃ n, fuel = n + 1 := ⟨fuel - 1, by omega⟩
      rw [readNextItem_bytes hitem (by omega) (ends_moreItems [] rest), skipBlanks_moreItems,
        itemsNesting, itemsNesting, Nat.max_zero, ← Array.toList_push]
      exact if_congr Iff.rfl (readItems_end fuel room _ rest) rfl
  | cons next items ih =>
      obtain ⟨hitem, hitems⟩ := List.forall_mem_cons.mp h
      rw [moreItems, List.length_cons, List.length_append] at hfuel
      obtain ⟨fuel, rfl⟩ : ∃ n, fuel = n + 2 := ⟨fuel - 2, by omega⟩
      have hpush : (seen.push item).isEmpty = false := by simp
      rw [readNextItem_bytes hitem (by omega) (ends_moreItems _ rest), skipBlanks_moreItems, moreItems,
        List.cons_append, List.append_assoc, readItems_next hpush, ih hitems (by omega),
        Array.toList_push, List.append_assoc, List.singleton_append]
      by_cases hroom : item.nesting ≤ room
      · rw [if_pos hroom]
        exact if_congr (itemsNesting_cons.trans (and_iff_right hroom)).symm rfl rfl
      · rw [if_neg hroom, if_neg fun hmax => hroom (itemsNesting_cons.mp hmax).1]

theorem readValue_array (fuel room : Nat) (rest : List UInt8) :
    readValue (fuel + 1) room ('['.toUInt8 :: rest) =
      if room = 0 then .error .malformed
      else readItems fuel (room - 1) #[] (skipBlanks rest) := by
  rw [readValue.eq_def]
  rfl

theorem readsBack_array {items : List Json} (h : ∀ item ∈ items, ReadsBack item) :
    ReadsBack (.array items) := by
  intro fuel room rest hfuel _
  cases items with
  | nil =>
      have hlength : 2 * 2 < fuel := hfuel
      obtain ⟨fuel, rfl⟩ : ∃ n, fuel = n + 2 := ⟨fuel - 2, by omega⟩
      show readValue (fuel + 2) room ('['.toUInt8 :: ']'.toUInt8 :: rest) = _
      rw [readValue_array]
      cases room with
      | zero => rfl
      | succ room => exact readItems_end fuel room #[] rest
  | cons item items =>
      rw [bytes, List.length_cons, List.length_append] at hfuel
      obtain ⟨fuel, rfl⟩ : ∃ n, fuel = n + 3 := ⟨fuel - 3, by omega⟩
      rw [bytes, List.cons_append, List.append_assoc, readValue_array, skipBlanks_bytes]
      cases room with
      | zero => rfl
      | succ room =>
          rw [if_neg (Nat.succ_ne_zero room), readItems_first, Nat.add_sub_cancel,
            readNextItem_items h (by omega), nesting]
          simp only [Nat.add_le_add_iff_right]
          rfl

end Arrays

/-! ### Objects -/

section Objects
variable {fuel room : Nat} {rest : List UInt8} {seen : Array (String × Json)}
  {field : String × Json}

/-- A field up to the end of its value. -/
def fieldBytes (field : String × Json) : List UInt8 :=
  quotedBytes field.1 ++ ':'.toUInt8 :: field.2.bytes

theorem moreFields_cons (field : String × Json) (fields : List (String × Json)) :
    moreFields (field :: fields) = ','.toUInt8 :: (fieldBytes field ++ moreFields fields) := by
  rw [moreFields, fieldBytes, List.append_assoc, List.cons_append]

theorem bytes_object_cons (field : String × Json) (fields : List (String × Json)) :
    bytes (.object (field :: fields)) =
      '\x7b'.toUInt8 :: (fieldBytes field ++ moreFields fields) := by
  rw [bytes, fieldBytes, List.append_assoc, List.cons_append]

theorem length_lt_fieldBytes (field : String × Json) :
    field.2.bytes.length < (fieldBytes field).length := by
  rw [fieldBytes, List.length_append, List.length_cons]
  omega

theorem readKey_quotedBytes (key : String) (rest : List UInt8) :
    readKey (quotedBytes key ++ ':'.toUInt8 :: rest) = .ok (key, rest) := by
  rw [quotedBytes, List.append_assoc, List.singleton_append, List.cons_append]
  show (readString .empty _ >>= _) = _
  rw [readString_text]
  rfl

theorem readNextField_fieldBytes (h : ReadsBack field.2)
    (hfuel : 2 * field.2.bytes.length < fuel) (hrest : Ends rest) :
    readNextField (fuel + 1) room seen (fieldBytes field ++ rest) =
      if field.2.nesting ≤ room then readFields fuel room (seen.push field) (skipBlanks rest)
      else .error .malformed := by
  rw [fieldBytes, List.append_assoc, List.cons_append, readNextField, readKey_quotedBytes]
  dsimp only
  rw [h hfuel hrest]
  by_cases hroom : field.2.nesting ≤ room
  · rw [if_pos hroom, if_pos hroom]
  · rw [if_neg hroom, if_neg hroom]

theorem readFields_end (fuel room : Nat) (seen : Array (String × Json)) (rest : List UInt8) :
    readFields (fuel + 1) room seen ('\x7d'.toUInt8 :: rest) =
      .ok (.object (Fields.ofEntries seen), rest) := by
  rw [readFields.eq_def]
  rfl

theorem readFields_first (fuel room : Nat) (field : String × Json) (rest : List UInt8) :
    readFields (fuel + 1) room #[] (fieldBytes field ++ rest) =
      readNextField fuel room #[] (fieldBytes field ++ rest) := by
  rw [fieldBytes, quotedBytes, List.cons_append, List.cons_append, List.cons_append,
    readFields.eq_def]
  rfl

theorem readFields_next (hseen : seen.isEmpty = false) (field : String × Json)
    (rest : List UInt8) :
    readFields (fuel + 1) room seen (','.toUInt8 :: (fieldBytes field ++ rest)) =
      readNextField fuel room seen (fieldBytes field ++ rest) := by
  have hcomma : ','.toUInt8 ≠ '\x7d'.toUInt8 := by decide
  rw [fieldBytes, quotedBytes, List.cons_append, List.cons_append, List.cons_append,
    readFields.eq_def]
  simp only [if_neg hcomma, hseen, skipBlanks_quote]
  rfl

/-- The fields from one on are read to the end of the object, up to one that is nested too deep. -/
theorem readNextField_fields {fields : List (String × Json)}
    (h : ∀ entry ∈ field :: fields, ReadsBack entry.2)
    (hfuel : 2 * ((fieldBytes field).length + (moreFields fields).length) ≤ fuel) :
    readNextField (fuel + 1) room seen (fieldBytes field ++ (moreFields fields ++ rest)) =
      if fieldsNesting (field :: fields) ≤ room then
        .ok (.object (Fields.ofEntries (seen.toList ++ field :: fields).toArray), rest)
      else .error .malformed := by
  have hlength := length_lt_fieldBytes field
  induction fields generalizing field seen fuel with
  | nil =>
      obtain ⟨hfield, -⟩ := List.forall_mem_cons.mp h
      rw [moreFields, List.length_singleton] at hfuel
      obtain ⟨fuel, rfl⟩ : ∃ n, fuel = n + 1 := ⟨fuel - 1, by omega⟩
      have hlast : (fieldsNesting [field] ≤ room) ↔ field.2.nesting ≤ room :=
        fieldsNesting_cons.trans (and_iff_left (Nat.zero_le room))
      rw [readNextField_fieldBytes hfield (by omega) (ends_moreFields [] rest),
        skipBlanks_moreFields, ← Array.toList_push, Array.toArray_toList]
      exact if_congr hlast.symm (readFields_end fuel room _ rest) rfl
  | cons next fields ih =>
      obtain ⟨hfield, hfields⟩ := List.forall_mem_cons.mp h
      rw [moreFields_cons, List.length_cons, List.length_append] at hfuel
      obtain ⟨fuel, rfl⟩ : ∃ n, fuel = n + 2 := ⟨fuel - 2, by omega⟩
      have hpush : (seen.push field).isEmpty = false := by simp
      rw [readNextField_fieldBytes hfield (by omega) (ends_moreFields _ rest),
        skipBlanks_moreFields, moreFields_cons, List.cons_append, List.append_assoc,
        readFields_next hpush, ih hfields (by omega) (length_lt_fieldBytes next),
        Array.toList_push, List.append_assoc, List.singleton_append]
      by_cases hroom : field.2.nesting ≤ room
      · rw [if_pos hroom]
        exact if_congr (fieldsNesting_cons.trans (and_iff_right hroom)).symm rfl rfl
      · rw [if_neg hroom, if_neg fun hmax => hroom (fieldsNesting_cons.mp hmax).1]

theorem readValue_object (fuel room : Nat) (rest : List UInt8) :
    readValue (fuel + 1) room ('\x7b'.toUInt8 :: rest) =
      if room = 0 then .error .malformed
      else readFields fuel (room - 1) #[] (skipBlanks rest) := by
  rw [readValue.eq_def]
  rfl

theorem skipBlanks_fieldBytes (field : String × Json) (rest : List UInt8) :
    skipBlanks (fieldBytes field ++ rest) = fieldBytes field ++ rest := by
  rw [fieldBytes, quotedBytes, List.cons_append, List.cons_append, List.cons_append, skipBlanks_quote]

/-- Keys that are distinct stay as they are. -/
theorem readsBack_object {fields : List (String × Json)} (hnodup : (Fields.names fields).Nodup)
    (h : ∀ entry ∈ fields, ReadsBack entry.2) : ReadsBack (.object fields) := by
  intro fuel room rest hfuel _
  cases fields with
  | nil =>
      have hlength : 2 * 2 < fuel := hfuel
      obtain ⟨fuel, rfl⟩ : ∃ n, fuel = n + 2 := ⟨fuel - 2, by omega⟩
      show readValue (fuel + 2) room ('\x7b'.toUInt8 :: '\x7d'.toUInt8 :: rest) = _
      rw [readValue_object]
      cases room with
      | zero => rfl
      | succ room => exact readFields_end fuel room #[] rest
  | cons field fields =>
      rw [bytes_object_cons, List.length_cons, List.length_append] at hfuel
      obtain ⟨fuel, rfl⟩ : ∃ n, fuel = n + 3 := ⟨fuel - 3, by omega⟩
      rw [bytes_object_cons, List.cons_append, List.append_assoc, readValue_object,
        skipBlanks_fieldBytes]
      cases room with
      | zero => rfl
      | succ room =>
          have hentries : Fields.ofEntries (#[].toList ++ field :: fields).toArray =
              field :: fields := Fields.ofEntries_of_nodup hnodup
          rw [if_neg (Nat.succ_ne_zero room), readFields_first, Nat.add_sub_cancel,
            readNextField_fields h (by omega), hentries, nesting]
          simp only [Nat.add_le_add_iff_right]

end Objects

/-! ### Whole texts -/

theorem readsBack {value : Json} (h : value.Distinct) : ReadsBack value := by
  induction value using inductionOn with
  | scalar value hscalar => exact readsBack_scalar hscalar
  | array items ih =>
      exact readsBack_array fun item hi => ih item hi (distinctItems_iff.mp h item hi)
  | object fields ih =>
      exact readsBack_object h.1 fun field hf => ih field hf (distinctFields_iff.mp h.2 field hf)

/-- The text of a value whose keys are distinct holds the value, unless it is nested too deep for
the reader. -/
theorem parse_compact {value : Json} (h : value.Distinct) :
    parse (compact value).toUTF8.toList =
      if value.nesting ≤ maxNesting then .ok value else .error .malformed := by
  have hfuel : 2 * value.bytes.length < stepsFor value.bytes := by
    rw [stepsFor]
    omega
  have hread : readValue (stepsFor value.bytes) maxNesting (value.bytes ++ []) =
      if value.nesting ≤ maxNesting then .ok (value, []) else .error .malformed :=
    readsBack h hfuel nofun
  rw [List.append_nil] at hread
  rw [toList_compact, parse, parseWithin, hread]
  by_cases hroom : value.nesting ≤ maxNesting
  · rw [if_pos hroom, if_pos hroom]
    rfl
  · rw [if_neg hroom, if_neg hroom]
    rfl

theorem roundTrips_compact {value : Json} (h : value.Distinct) :
    RoundTrips parse compact value where
  within hroom := (parse_compact h).trans (if_pos hroom)
  beyond hdeep := (parse_compact h).trans (if_neg (Nat.not_le_of_lt hdeep))

end RecordSchema.Json
