import RecordSchema.Json.Printer
import RecordSchema.Json.Reader
import RecordSchema.Proofs.Outcome
import RecordSchema.Proofs.Text.Bytes

/-! Strings as JSON. What is written of a string, or of an array of strings, is read back. -/

namespace RecordSchema.Json
open Text (encode encode_append encode_cons)

/-! ## The reader, step by step -/

variable {b letter c : UInt8} {seen : ByteArray} {rest : List UInt8}

theorem readString_quote {text : String} (h : String.fromUTF8? seen = some text) :
    readString seen ('"'.toUInt8 :: rest) = .ok (text, rest) := by
  rw [readString.eq_def]
  simp only [h]
  rfl

/-- A byte that stands for itself in a string. -/
def IsPlain (b : UInt8) : Prop := b ≠ '"'.toUInt8 ∧ ¬b < 0x20 ∧ b ≠ '\\'.toUInt8

theorem readString_plain (h : IsPlain b) :
    readString seen (b :: rest) = readString (seen.push b) rest := by
  obtain ⟨hquote, hcontrol, hslash⟩ := h
  rw [readString.eq_def]
  simp only [if_neg hquote, if_neg hcontrol, if_pos hslash]

theorem readString_escape (hu : letter ≠ 'u'.toUInt8) (he : escapeLetter letter = some c) :
    readString seen ('\\'.toUInt8 :: letter :: rest) = readString (seen.push c) rest := by
  have hquote : '\\'.toUInt8 ≠ '"'.toUInt8 := by decide
  have hcontrol : ¬ '\\'.toUInt8 < 0x20 := by decide
  rw [readString.eq_def]
  simp only [if_neg hquote, if_neg hcontrol, if_neg (not_not_intro rfl), if_pos hu, he]

theorem readString_unit {h₁ h₂ h₃ h₄ : UInt8} {unit : Nat} (h : hexUnit h₁ h₂ h₃ h₄ = some unit)
    (hlow : isLowSurrogate unit = false) (hhigh : isHighSurrogate unit = false) :
    readString seen ('\\'.toUInt8 :: 'u'.toUInt8 :: h₁ :: h₂ :: h₃ :: h₄ :: rest) =
      readString (pushChar seen (Char.ofNat unit)) rest := by
  have hquote : '\\'.toUInt8 ≠ '"'.toUInt8 := by decide
  have hcontrol : ¬ '\\'.toUInt8 < 0x20 := by decide
  rw [readString.eq_def]
  simp [if_neg hquote, if_neg hcontrol, h, hlow, hhigh]

theorem readString_plains {bytes : List UInt8} (h : ∀ b ∈ bytes, IsPlain b) (seen : ByteArray) :
    readString seen (bytes ++ rest) = readString (bytes.foldl ByteArray.push seen) rest := by
  induction bytes generalizing seen with
  | nil => rfl
  | cons b more ih =>
      obtain ⟨hb, hmore⟩ := List.forall_mem_cons.mp h
      rw [List.cons_append, readString_plain hb, ih hmore, List.foldl_cons]

/-! ## One character -/

theorem isPlain_encode {c : Char} (hquote : c ≠ '"') (hslash : c ≠ '\\') (hc : 0x20 ≤ c.toNat) :
    ∀ b ∈ String.utf8EncodeChar c, IsPlain b := by
  rcases Text.encode_cases c with ⟨hascii, hbytes⟩ | ⟨_, hhigh⟩
  · have hne : ∀ d : Char, c ≠ d → d.toNat < 0x80 → UInt8.ofNat c.toNat ≠ UInt8.ofNat d.toNat :=
      fun d hd hlt => mt (Text.ascii_inj hascii hlt) hd
    intro b hb
    rw [hbytes, List.mem_singleton] at hb
    subst hb
    refine ⟨hne '"' hquote (by decide), ?_, hne '\\' hslash (by decide)⟩
    rw [UInt8.lt_iff_toNat_lt, Text.toNat_ascii hascii]
    exact Nat.not_lt_of_le hc
  · intro b hb
    have hb := hhigh b hb
    refine ⟨?_, ?_, ?_⟩
    · rintro rfl
      revert hb
      decide
    · rw [UInt8.lt_iff_toNat_lt]
      exact Nat.not_lt_of_le (Nat.le_trans (by decide) hb)
    · rintro rfl
      revert hb
      decide

/-- A backslash with a letter or with a code, which stands for an ASCII byte. -/
def isEscape (b : UInt8) : List UInt8 → Bool
  | [slash, letter] =>
      slash == '\\'.toUInt8 && letter != 'u'.toUInt8 && escapeLetter letter == some b
  | [slash, u, h₁, h₂, h₃, h₄] =>
      slash == '\\'.toUInt8 && u == 'u'.toUInt8 && hexUnit h₁ h₂ h₃ h₄ == some b.toNat &&
        b.toNat < 0x80
  | _ => false

theorem pushChar_ascii {n : Nat} (h : n < 0x80) :
    pushChar seen (Char.ofNat n) = seen.push (UInt8.ofNat n) := by
  have hvalid : n.isValidChar := .inl (Nat.lt_trans h (by decide))
  have hcode : (Char.ofNat n).toNat = n := by
    rw [Char.ofNat, dif_pos hvalid]
    rfl
  rw [pushChar, Text.encode_of_ascii (hcode.symm ▸ h), hcode]
  rfl

theorem readString_isEscape {bytes : List UInt8} (h : isEscape b bytes = true) :
    readString seen (bytes ++ rest) = readString (seen.push b) rest := by
  unfold isEscape at h
  split at h
  · simp only [Bool.and_eq_true, beq_iff_eq, bne_iff_ne] at h
    obtain ⟨⟨rfl, hu⟩, he⟩ := h
    exact readString_escape hu he
  · rename_i h₁ h₂ h₃ h₄
    simp only [Bool.and_eq_true, beq_iff_eq, decide_eq_true_eq] at h
    obtain ⟨⟨⟨rfl, rfl⟩, hunit⟩, hascii⟩ := h
    have hlow : isLowSurrogate b.toNat = false := by
      simp only [isLowSurrogate, Bool.and_eq_false_iff, decide_eq_false_iff_not]
      omega
    have hhigh : isHighSurrogate b.toNat = false := by
      simp only [isHighSurrogate, Bool.and_eq_false_iff, decide_eq_false_iff_not]
      omega
    have hpush : pushChar seen (Char.ofNat b.toNat) = seen.push b := by
      rw [pushChar_ascii hascii, UInt8.ofNat_toNat]
    exact hpush ▸ readString_unit hunit hlow hhigh
  · cases h

theorem isEscape_quote : isEscape '"'.toUInt8 (encode (escapedChar '"')) = true := by decide

theorem isEscape_slash : isEscape '\\'.toUInt8 (encode (escapedChar '\\')) = true := by decide

theorem isEscape_control : ∀ n : Fin 0x20,
    isEscape (UInt8.ofNat n) (encode (escapedChar (Char.ofNat n))) = true := by decide

theorem escapedChar_plain {c : Char} (hquote : c ≠ '"') (hslash : c ≠ '\\') (hc : 0x20 ≤ c.toNat) :
    escapedChar c = [c] := by
  unfold escapedChar
  split
  case h_1 => exact absurd rfl hquote
  case h_2 => exact absurd rfl hslash
  case h_8 => rw [if_neg (by omega), if_neg (by omega)]
  all_goals exact absurd hc (by decide)

/-- What stands for a character is read as the bytes of the character. -/
theorem readString_char (c : Char) (seen : ByteArray) (rest : List UInt8) :
    readString seen (encode (escapedChar c) ++ rest) = readString (pushChar seen c) rest := by
  by_cases hquote : c = '"'
  · rw [hquote, readString_isEscape isEscape_quote]
    rfl
  by_cases hslash : c = '\\'
  · rw [hslash, readString_isEscape isEscape_slash]
    rfl
  rcases Nat.lt_or_ge c.toNat 0x20 with hc | hc
  · have hescape := isEscape_control ⟨c.toNat, hc⟩
    have hpush : pushChar seen (Char.ofNat c.toNat) = seen.push (UInt8.ofNat c.toNat) :=
      pushChar_ascii (Nat.lt_trans hc (by decide))
    rw [Char.ofNat_toNat] at hescape hpush
    rw [readString_isEscape hescape, hpush]
  · rw [escapedChar_plain hquote hslash hc, encode_cons, List.append_assoc,
      readString_plains (isPlain_encode hquote hslash hc)]
    rfl

/-! ## Whole strings -/

theorem readString_chars (cs : List Char) (seen : ByteArray) (rest : List UInt8) :
    readString seen (encode (cs.flatMap escapedChar) ++ rest) =
      readString ((encode cs).foldl ByteArray.push seen) rest := by
  induction cs generalizing seen with
  | nil => rfl
  | cons c cs ih =>
      rw [List.flatMap_cons, encode_append, List.append_assoc, readString_char, ih, encode_cons,
        List.foldl_append]
      rfl

theorem foldl_push_encode (text : String) :
    (encode text.toList).foldl ByteArray.push .empty = text.toUTF8 := by
  refine Text.toList_inj ?_
  rw [Text.toList_foldl_push, Text.toList_empty, List.nil_append, Text.toList_toUTF8]

theorem readString_text (text : String) (rest : List UInt8) :
    readString .empty (encode (text.toList.flatMap escapedChar) ++ '"'.toUInt8 :: rest) =
      .ok (text, rest) := by
  rw [readString_chars, foldl_push_encode]
  exact readString_quote (Text.fromUTF8?_toUTF8 text)

/-! ## Arrays of strings -/

/-- The bytes of a string between its quotes. -/
def quotedBytes (text : String) : List UInt8 :=
  '"'.toUInt8 :: encode (text.toList.flatMap escapedChar) ++ ['"'.toUInt8]

theorem encode_stringText (text : String) :
    encode (stringText text).toList = quotedBytes text := by
  rw [stringText, String.toList_ofList, encode_append]
  rfl

/-- What stands behind a string of an array: the others, and the end. -/
def restBytes : List String → List UInt8
  | [] => [']'.toUInt8]
  | text :: rest => ','.toUInt8 :: quotedBytes text ++ restBytes rest

def itemsBytes : List String → List UInt8
  | [] => [']'.toUInt8]
  | text :: rest => quotedBytes text ++ restBytes rest

theorem write_string (out text : String) : write out (.string text) = out ++ stringText text := rfl

theorem encode_writeRest (texts : List String) (out : String) :
    encode (writeItems out false (texts.map .string) ++ "]").toList =
      encode out.toList ++ restBytes texts := by
  induction texts generalizing out with
  | nil =>
      rw [List.map_nil, writeItems, String.toList_append, encode_append]
      rfl
  | cons text texts ih =>
      rw [List.map_cons, writeItems, if_neg Bool.false_ne_true, ih, write_string]
      simp only [String.toList_append, encode_append, encode_stringText, restBytes, List.append_assoc]
      rfl

theorem encode_compact (texts : List String) :
    encode (compact (.array (texts.map .string))).toList = '['.toUInt8 :: itemsBytes texts := by
  rw [compact, write]
  cases texts with
  | nil => rfl
  | cons text texts =>
      rw [List.map_cons, writeItems, if_pos rfl, encode_writeRest, write_string]
      simp only [String.toList_append, encode_append, encode_stringText, List.append_assoc]
      rfl

theorem skipBlanks_quote (rest : List UInt8) :
    skipBlanks ('"'.toUInt8 :: rest) = '"'.toUInt8 :: rest := rfl

theorem skipBlanks_restBytes (texts : List String) : skipBlanks (restBytes texts) = restBytes texts := by
  cases texts <;> rfl

theorem skipBlanks_itemsBytes (texts : List String) :
    skipBlanks (itemsBytes texts) = itemsBytes texts := by
  cases texts <;> rfl

theorem length_lt_restBytes (texts : List String) : texts.length < (restBytes texts).length := by
  induction texts with
  | nil => exact Nat.one_pos
  | cons text rest ih =>
      simp only [restBytes, quotedBytes, List.length_cons, List.length_append]
      omega

theorem readStrings_first (fuel : Nat) (text : String) (rest : List UInt8) :
    readStrings (fuel + 1) #[] (quotedBytes text ++ rest) =
      readStrings fuel #[text] (skipBlanks rest) := by
  have hend : '"'.toUInt8 ≠ ']'.toUInt8 := by decide
  rw [quotedBytes, List.append_assoc, List.cons_append, readStrings.eq_def]
  simp only [if_neg hend]
  simp [readString_text, ok_bind]

theorem readStrings_next (fuel : Nat) {strings : Array String} (hs : strings.isEmpty = false)
    (text : String) (rest : List UInt8) :
    readStrings (fuel + 1) strings (','.toUInt8 :: quotedBytes text ++ rest) =
      readStrings fuel (strings.push text) (skipBlanks rest) := by
  have hend : ','.toUInt8 ≠ ']'.toUInt8 := by decide
  rw [quotedBytes, List.cons_append, List.append_assoc, List.cons_append, readStrings.eq_def]
  simp only [if_neg hend, hs]
  simp [skipBlanks_quote, readString_text, ok_bind]

theorem readStrings_rest {fuel : Nat} {texts : List String} (h : texts.length < fuel)
    {strings : Array String} (hs : strings.isEmpty = false) :
    readStrings fuel strings (restBytes texts) = .ok (strings.toList ++ texts, []) := by
  induction texts generalizing fuel strings with
  | nil =>
      obtain ⟨fuel, rfl⟩ := Nat.exists_eq_add_of_lt h
      rw [List.append_nil]
      rfl
  | cons text rest ih =>
      obtain ⟨fuel, rfl⟩ : ∃ n, fuel = n + 1 := ⟨fuel - 1, by omega⟩
      have hpush : (strings.push text).isEmpty = false := by simp
      rw [restBytes, readStrings_next fuel hs, skipBlanks_restBytes,
        ih (Nat.lt_of_succ_lt_succ h) hpush, Array.toList_push, List.append_assoc]
      rfl

theorem readStrings_items {fuel : Nat} {texts : List String} (h : texts.length < fuel) :
    readStrings fuel #[] (itemsBytes texts) = .ok (texts, []) := by
  obtain ⟨fuel, rfl⟩ : ∃ n, fuel = n + 1 := ⟨fuel - 1, by omega⟩
  cases texts with
  | nil => rfl
  | cons text rest =>
      have hone : (#[text] : Array String).isEmpty = false := rfl
      rw [itemsBytes, readStrings_first, skipBlanks_restBytes,
        readStrings_rest (Nat.lt_of_succ_lt_succ h) hone]
      rfl

theorem length_lt_itemsBytes (texts : List String) : texts.length < (itemsBytes texts).length := by
  cases texts with
  | nil => exact Nat.one_pos
  | cons text rest =>
      have hrest := length_lt_restBytes rest
      simp only [itemsBytes, quotedBytes, List.length_cons, List.length_append]
      omega

/-- An array of strings is read back from its text. -/
theorem parseStrings_compact (texts : List String) :
    parseStrings (compact (.array (texts.map .string))).toUTF8.toList = .ok texts := by
  have hlen := length_lt_itemsBytes texts
  have hread : readStrings (('['.toUInt8 :: itemsBytes texts).length + 1) #[] (itemsBytes texts) =
      .ok (texts, []) := readStrings_items (by rw [List.length_cons]; omega)
  rw [Text.toList_toUTF8, encode_compact]
  show (readStrings _ #[] (skipBlanks (itemsBytes texts)) >>= atEnd) = .ok texts
  rw [skipBlanks_itemsBytes, hread]
  rfl

end RecordSchema.Json
