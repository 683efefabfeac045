import RecordSchema.Text

/-! Texts as UTF-8. A byte below 0x80 stands for itself, and no other character has one in its
encoding. Runs of characters or bytes of one class are parted from what follows. -/

namespace RecordSchema.Text

theorem drop_bytes {bytes : ByteArray} {i : Nat} (h : i < bytes.size) :
    bytes.data.toList.drop i = bytes[i] :: bytes.data.toList.drop (i + 1) := by
  have hi : i < bytes.data.toList.length := by simpa using h
  rw [List.drop_eq_getElem_cons hi]
  rfl

theorem toList_loop (bytes : ByteArray) (i : Nat) (seen : List UInt8) :
    ByteArray.toList.loop bytes i seen = seen.reverse ++ bytes.data.toList.drop i := by
  fun_induction ByteArray.toList.loop bytes i seen with
  | case1 i seen h ih =>
      have hget : bytes.get! i = bytes[i] := getElem!_pos bytes.data i h
      rw [ih, drop_bytes h, List.reverse_cons, List.append_assoc, hget, List.singleton_append]
  | case2 i seen h =>
      have hi : bytes.data.toList.length ≤ i := by simpa using h
      rw [List.drop_eq_nil_of_le hi, List.append_nil]

theorem toList_bytes (bytes : ByteArray) : bytes.toList = bytes.data.toList := by
  rw [ByteArray.toList, toList_loop]
  rfl

theorem toList_push (seen : ByteArray) (b : UInt8) : (seen.push b).toList = seen.toList ++ [b] := by
  simp [toList_bytes]

theorem toList_foldl_push (bytes : List UInt8) (seen : ByteArray) :
    (bytes.foldl ByteArray.push seen).toList = seen.toList ++ bytes := by
  induction bytes generalizing seen with
  | nil => exact (List.append_nil _).symm
  | cons b bytes ih => rw [List.foldl_cons, ih, toList_push, ← List.append_cons]

theorem toList_empty : ByteArray.empty.toList = [] := by
  rw [toList_bytes]
  rfl

theorem length_bytes (bytes : ByteArray) : bytes.toList.length = bytes.size := by
  rw [toList_bytes]
  exact Array.length_toList

/-- Bytes are known by their list. -/
theorem toList_inj {bytes other : ByteArray} (h : bytes.toList = other.toList) : bytes = other := by
  rw [toList_bytes, toList_bytes] at h
  exact ByteArray.ext (Array.toList_inj.mp h)

/-- The bytes of a text, character by character. -/
def encode (cs : List Char) : List UInt8 := cs.flatMap String.utf8EncodeChar

theorem encode_append (front back : List Char) : encode (front ++ back) = encode front ++ encode back :=
  List.flatMap_append

theorem encode_cons (c : Char) (rest : List Char) :
    encode (c :: rest) = String.utf8EncodeChar c ++ encode rest := rfl

theorem utf8Encode_eq (cs : List Char) : cs.utf8Encode = (encode cs).toByteArray := rfl

theorem toList_toUTF8 (text : String) : text.toUTF8.toList = encode text.toList := by
  rw [String.toUTF8_eq_toByteArray, ← String.utf8Encode_toList, toList_bytes, utf8Encode_eq,
    List.toList_data_toByteArray]

theorem fromUTF8?_toUTF8 (text : String) : String.fromUTF8? text.toUTF8 = some text := by
  have hvalid : text.toUTF8.IsValidUTF8 := text.isValidUTF8
  rw [String.fromUTF8?, dif_pos hvalid]
  rfl

theorem encode_ne_nil (c : Char) : String.utf8EncodeChar c ≠ [] := by
  intro h
  have hlen := String.length_utf8EncodeChar c
  rw [h] at hlen
  exact absurd hlen.symm (Nat.ne_of_gt c.utf8Size_pos)

theorem encode_of_ascii {c : Char} (h : c.toNat < 0x80) :
    String.utf8EncodeChar c = [UInt8.ofNat c.toNat] := by
  have hle : c.val.toNat ≤ 0x7f := Nat.le_of_lt_succ h
  rw [String.utf8EncodeChar]
  exact if_pos hle

theorem toNat_ascii {n : Nat} (h : n < 0x80) : (UInt8.ofNat n).toNat = n := by
  rw [UInt8.toNat_ofNat']
  omega

/-- An ASCII character is known by its byte. -/
theorem ascii_inj {c d : Char} (hc : c.toNat < 0x80) (hd : d.toNat < 0x80)
    (h : UInt8.ofNat c.toNat = UInt8.ofNat d.toNat) : c = d := by
  have hcode := congrArg UInt8.toNat h
  rw [toNat_ascii hc, toNat_ascii hd] at hcode
  exact Char.toNat_inj.mp hcode

theorem toNat_of_isAlphanum {c : Char} (h : c.isAlphanum = true) : c.toNat < 0x80 := by
  have below : ∀ {high : UInt32}, c.val ≤ high → high.toNat < 0x80 → c.toNat < 0x80 :=
    fun hle hhigh => Nat.lt_of_le_of_lt (UInt32.le_iff_toNat_le.mp hle) hhigh
  rcases Bool.or_eq_true_iff.mp h with hletter | hdigit
  · rcases Bool.or_eq_true_iff.mp hletter with hupper | hlower
    · exact below (of_decide_eq_true hupper).2 (by decide)
    · exact below (of_decide_eq_true (Bool.and_eq_true_iff.mp hlower).2) (by decide)
  · exact below (of_decide_eq_true (Bool.and_eq_true_iff.mp hdigit).2) (by decide)

theorem high_ofNat (n m k : Nat) (hm : 0 < m) (hk : 0x80 ≤ k) (hs : m + k ≤ 0x100) :
    0x80 ≤ (UInt8.ofNat (n % m + k)).toNat := by
  have hmod : n % m < m := Nat.mod_lt n hm
  rw [UInt8.toNat_ofNat']
  omega

theorem high_of_mem_encode {c : Char} {b : UInt8} (h : 0x80 ≤ c.toNat)
    (hb : b ∈ String.utf8EncodeChar c) : 0x80 ≤ b.toNat := by
  have hgt : ¬c.val.toNat ≤ 0x7f := Nat.not_le_of_lt h
  rw [String.utf8EncodeChar] at hb
  simp only [if_neg hgt] at hb
  split at hb
  · simp only [List.mem_cons, List.not_mem_nil, or_false] at hb
    rcases hb with rfl | rfl <;> exact high_ofNat _ _ _ (by decide) (by decide) (by decide)
  · split at hb
    · simp only [List.mem_cons, List.not_mem_nil, or_false] at hb
      rcases hb with rfl | rfl | rfl <;> exact high_ofNat _ _ _ (by decide) (by decide) (by decide)
    · simp only [List.mem_cons, List.not_mem_nil, or_false] at hb
      rcases hb with rfl | rfl | rfl | rfl <;>
        exact high_ofNat _ _ _ (by decide) (by decide) (by decide)

/-- The bytes of a character are its code, or none of them is ASCII. -/
theorem encode_cases (c : Char) :
    (c.toNat < 0x80 ∧ String.utf8EncodeChar c = [UInt8.ofNat c.toNat]) ∨
      (0x80 ≤ c.toNat ∧ ∀ b ∈ String.utf8EncodeChar c, 0x80 ≤ b.toNat) := by
  rcases Nat.lt_or_ge c.toNat 0x80 with h | h
  · exact .inl ⟨h, encode_of_ascii h⟩
  · exact .inr ⟨h, fun _ hb => high_of_mem_encode h hb⟩

/-! ## Runs -/

section Runs
variable {α : Type} {p : α → Bool}

theorem of_mem_takeWhile {xs : List α} : ∀ x ∈ xs.takeWhile p, p x = true :=
  List.all_eq_true.mp List.all_takeWhile

theorem head?_dropWhile_of {xs : List α} {x : α} (h : (xs.dropWhile p).head? = some x) :
    p x = false := by
  have hhead := List.head?_dropWhile_not p xs
  rw [h] at hhead
  exact hhead

/-- A run ends where something else follows. -/
theorem takeWhile_append_of {front back : List α} (hf : ∀ x ∈ front, p x = true)
    (hb : ∀ x, back.head? = some x → p x = false) :
    (front ++ back).takeWhile p = front ∧ (front ++ back).dropWhile p = back := by
  rw [List.takeWhile_append_of_pos hf, List.dropWhile_append_of_pos hf]
  cases back with
  | nil => simp
  | cons x back => simp [hb x rfl]

end Runs

end RecordSchema.Text
