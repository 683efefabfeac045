import RecordSchema.Catalogue.Source
import RecordSchema.Json.Reader
import RecordSchema.Proofs.Outcome
import RecordSchema.Proofs.Text.Bytes

/-! Which bytes are read as JSON. A text is, if its first character that is not white space is an
opening bracket; and whatever holds an array of strings is. -/

namespace RecordSchema.Catalogue
open Text (encode encode_cons isWhiteSpace)

theorem firstMark?_eq (bytes : ByteArray) (i : Nat) :
    firstMark? bytes i = (bytes.toList.drop i).find? (!isAsciiBlank ·) := by
  rw [Text.toList_bytes]
  fun_induction firstMark? bytes i with
  | case1 i h hblank ih =>
      rw [Text.drop_bytes h, List.find?_cons, hblank, ih]
      rfl
  | case2 i h hblank =>
      rw [Bool.not_eq_true] at hblank
      rw [Text.drop_bytes h, List.find?_cons, hblank]
      rfl
  | case3 i h =>
      have hi : bytes.data.toList.length ≤ i := by simpa using h
      rw [List.drop_eq_nil_of_le hi]
      rfl

/-! ## Texts -/

theorem isAsciiBlank_high {b : UInt8} (h : 0x80 ≤ b.toNat) : isAsciiBlank b = false := by
  rw [← Bool.not_eq_true]
  intro hb
  simp only [isAsciiBlank, Bool.or_eq_true, beq_iff_eq] at hb
  rcases hb with (((rfl | rfl) | rfl) | rfl) | rfl <;> revert h <;> decide

theorem isWhiteSpace_of_isAsciiBlank {c : Char} (hc : c.toNat < 0x80)
    (h : isAsciiBlank (UInt8.ofNat c.toNat) = true) : isWhiteSpace c = true := by
  have hsame : ∀ d : Char, d.toNat < 0x80 → isWhiteSpace d = true →
      UInt8.ofNat c.toNat = UInt8.ofNat d.toNat → isWhiteSpace c = true :=
    fun d hd hspace he => Text.ascii_inj hc hd he ▸ hspace
  simp only [isAsciiBlank, Bool.or_eq_true, beq_iff_eq] at h
  rcases h with (((h | h) | h) | h) | h
  · exact hsame ' ' (by decide) (by decide) h
  · exact hsame '\t' (by decide) (by decide) h
  · exact hsame '\n' (by decide) (by decide) h
  · exact hsame '\x0c' (by decide) (by decide) h
  · exact hsame '\r' (by decide) (by decide) h

/-- A bracket that opens the bytes of a text opens the text. -/
theorem find?_encode {cs : List Char}
    (h : (encode cs).find? (!isAsciiBlank ·) = some '['.toUInt8) :
    cs.find? (!isWhiteSpace ·) = some '[' := by
  induction cs with
  | nil => cases h
  | cons c cs ih =>
      rw [encode_cons] at h
      rcases Text.encode_cases c with ⟨hascii, hbytes⟩ | ⟨-, hbytes⟩
      · rw [hbytes, List.singleton_append, List.find?_cons] at h
        cases hblank : isAsciiBlank (UInt8.ofNat c.toNat) with
        | true =>
            rw [hblank] at h
            rw [List.find?_cons, isWhiteSpace_of_isAsciiBlank hascii hblank]
            exact ih h
        | false =>
            rw [hblank] at h
            obtain rfl : c = '[' := Text.ascii_inj hascii (by decide) (Option.some.inj h)
            rfl
      · obtain ⟨b, more, hmore⟩ := List.exists_cons_of_ne_nil (Text.encode_ne_nil c)
        have hb : 0x80 ≤ b.toNat := hbytes b (hmore ▸ List.mem_cons_self)
        rw [hmore, List.cons_append, List.find?_cons, isAsciiBlank_high hb] at h
        obtain rfl : b = '['.toUInt8 := Option.some.inj h
        exact absurd hb (by decide)

theorem ofBytesBy_text {read : Json.TextReader (List String)} {text : String}
    (h : text.toList.find? (!isWhiteSpace ·) ≠ some '[') :
    ofBytesBy read text.toUTF8 = .ok (parse text) := by
  have hmark : firstMark? text.toUTF8 0 ≠ some '['.toUInt8 := by
    rw [firstMark?_eq, List.drop_zero, Text.toList_toUTF8]
    exact mt find?_encode h
  rw [ofBytesBy, if_neg hmark, Text.fromUTF8?_toUTF8]

/-! ## Arrays of strings -/

theorem ofBytesBy_bracket {read : Json.TextReader (List String)} {bytes : ByteArray}
    {entries : List String} (hmark : firstMark? bytes 0 = some '['.toUInt8)
    (h : read bytes.toList = .ok entries) : ofBytesBy read bytes = .ok (.ofEntries entries) := by
  rw [ofBytesBy, if_pos hmark, ofJsonBy, h]

theorem refuse_ne_ok {α : Type} (b : UInt8) (rest : List UInt8) (result : α) :
    Json.refuse b rest ≠ .ok result := by
  intro h
  unfold Json.refuse at h
  split at h
  · cases h
  · obtain ⟨_, _, hr⟩ := bind_eq_ok.mp h
    cases hr

theorem isAsciiBlank_of_isBlank {b : UInt8} (h : Json.isBlank b = true) : isAsciiBlank b = true := by
  simp only [Json.isBlank, isAsciiBlank, Bool.or_eq_true] at h ⊢
  rcases h with ((h | h) | h) | h <;> simp [h]

theorem find?_of_skipBlanks {bytes rest : List UInt8}
    (h : Json.skipBlanks bytes = '['.toUInt8 :: rest) :
    bytes.find? (!isAsciiBlank ·) = some '['.toUInt8 := by
  induction bytes with
  | nil => cases h
  | cons b bytes ih =>
      rw [Json.skipBlanks, List.dropWhile_cons] at h
      split at h
      · rename_i hb
        rw [List.find?_cons, isAsciiBlank_of_isBlank hb]
        exact ih h
      · obtain ⟨rfl, -⟩ := List.cons.inj h
        rfl

theorem firstMark?_of_parseStrings {bytes : ByteArray} {entries : List String}
    (h : Json.parseStrings bytes.toList = .ok entries) :
    firstMark? bytes 0 = some '['.toUInt8 := by
  rw [firstMark?_eq, List.drop_zero]
  unfold Json.parseStrings at h
  split at h
  · cases h
  · rename_i hskip
    split at h
    · rename_i hb
      exact find?_of_skipBlanks (hb ▸ hskip)
    · exact absurd h (refuse_ne_ok _ _ _)

theorem ofBytesBy_parseStrings {bytes : ByteArray} {entries : List String}
    (h : Json.parseStrings bytes.toList = .ok entries) :
    ofBytesBy Json.parseStrings bytes = .ok (.ofEntries entries) :=
  ofBytesBy_bracket (firstMark?_of_parseStrings h) h

end RecordSchema.Catalogue
