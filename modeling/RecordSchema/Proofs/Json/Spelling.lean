import Mathlib.Data.List.TakeDrop
import RecordSchema.Proofs.Json.Strings

/-! The spelling of numbers in JSON: digits, perhaps a point with digits behind it, perhaps an
exponent. What is spelled so is read to its end and no further (`readNumber_chars`). -/

namespace RecordSchema.Json
open Text (encode encode_append encode_cons)

variable {b : UInt8} {rest : List UInt8} {cs : List Char}

/-! ## Digits -/

theorem toNat_of_isDigit {c : Char} (h : c.isDigit = true) : 48 ≤ c.toNat ∧ c.toNat ≤ 57 := by
  obtain ⟨hlower, hupper⟩ := Bool.and_eq_true_iff.mp h
  exact ⟨UInt32.le_iff_toNat_le.mp (of_decide_eq_true hlower),
    UInt32.le_iff_toNat_le.mp (of_decide_eq_true hupper)⟩

theorem isDigit_ofNat {c : Char} (h : c.isDigit = true) : isDigit (UInt8.ofNat c.toNat) = true := by
  obtain ⟨hlower, hupper⟩ := toNat_of_isDigit h
  have hcode : (UInt8.ofNat c.toNat).toNat = c.toNat := Text.toNat_ascii (by omega)
  have hzero : '0'.toUInt8 ≤ UInt8.ofNat c.toNat := by
    rw [UInt8.le_iff_toNat_le, hcode]
    exact hlower
  have hnine : UInt8.ofNat c.toNat ≤ '9'.toUInt8 := by
    rw [UInt8.le_iff_toNat_le, hcode]
    exact hupper
  rw [isDigit, decide_eq_true hzero, decide_eq_true hnine, Bool.and_self]

theorem digitValue_ofNat {c : Char} (h : c.isDigit = true) :
    digitValue (UInt8.ofNat c.toNat) = c.toNat - '0'.toNat := by
  obtain ⟨_, hupper⟩ := toNat_of_isDigit h
  have hcode : (UInt8.ofNat c.toNat).toNat = c.toNat := Text.toNat_ascii (by omega)
  rw [digitValue, hcode]

theorem ne_of_isDigit {other : UInt8} (h : isDigit b = true) (hother : isDigit other = false) :
    b ≠ other := by
  rintro rfl
  rw [h] at hother
  cases hother

theorem encode_digits (h : ∀ c ∈ cs, c.isDigit = true) :
    encode cs = cs.map fun c => UInt8.ofNat c.toNat := by
  induction cs with
  | nil => rfl
  | cons c cs ih =>
      obtain ⟨hc, hcs⟩ := List.forall_mem_cons.mp h
      obtain ⟨_, hupper⟩ := toNat_of_isDigit hc
      rw [encode_cons, Text.encode_of_ascii (by omega), ih hcs]
      rfl

theorem isDigit_of_mem_encode (h : ∀ c ∈ cs, c.isDigit = true) :
    ∀ b ∈ encode cs, isDigit b = true := by
  rw [encode_digits h, List.forall_mem_map]
  exact fun c hc => isDigit_ofNat (h c hc)

theorem digitsValue_encode (h : ∀ c ∈ cs, c.isDigit = true) :
    digitsValue (encode cs) = Nat.ofDigitChars 10 cs 0 := by
  rw [encode_digits h, digitsValue, List.foldl_map, Nat.ofDigitChars]
  generalize (0 : Nat) = value
  induction cs generalizing value with
  | nil => rfl
  | cons c cs ih =>
      obtain ⟨hc, hcs⟩ := List.forall_mem_cons.mp h
      rw [List.foldl_cons, List.foldl_cons, digitValue_ofNat hc, ih hcs]

/-- At least one digit. -/
def IsDigits (cs : List Char) : Prop := cs ≠ [] ∧ ∀ c ∈ cs, c.isDigit = true

theorem isDigits_toDigits (n : Nat) : IsDigits (Nat.toDigits 10 n) :=
  ⟨Nat.toDigits_ne_nil, fun _ => Nat.isDigit_of_mem_toDigits (by decide) (by decide)⟩

theorem isDigits_zero : IsDigits ['0'] :=
  ⟨List.cons_ne_nil _ _, List.forall_mem_singleton.mpr rfl⟩

theorem IsDigits.exists_encode (h : IsDigits cs) :
    ∃ b more, encode cs = b :: more ∧ isDigit b = true := by
  have hdigits := isDigit_of_mem_encode h.2
  cases hencode : encode cs with
  | nil =>
      rw [encode_digits h.2] at hencode
      exact absurd (List.map_eq_nil_iff.mp hencode) h.1
  | cons b more => exact ⟨b, more, rfl, hdigits b (hencode ▸ List.mem_cons_self)⟩

theorem span_isDigit {digits : List UInt8} (h : ∀ b ∈ digits, isDigit b = true)
    (hrest : ∀ b, rest.head? = some b → isDigit b = false) :
    (digits ++ rest).span isDigit = (digits, rest) := by
  obtain ⟨htake, hdrop⟩ := Text.takeWhile_append_of h hrest
  rw [List.span_eq_takeWhile_dropWhile, htake, hdrop]

theorem readDigits_encode (h : IsDigits cs)
    (hrest : ∀ b, rest.head? = some b → isDigit b = false) :
    readDigits (encode cs ++ rest) = .ok (encode cs, rest) := by
  obtain ⟨b, more, hencode, hb⟩ := h.exists_encode
  have hspan := span_isDigit (isDigit_of_mem_encode h.2) hrest
  rw [hencode] at hspan ⊢
  rw [List.cons_append, readDigits, if_pos hb, ← List.cons_append, hspan]

theorem readWhole_encode (h : IsDigits cs) (hzero : cs.head? = some '0' → cs = ['0'])
    (hrest : ∀ b, rest.head? = some b → isDigit b = false) :
    readWhole (encode cs ++ rest) = .ok (encode cs, rest) := by
  have halone : ¬((encode cs).length ≠ 1 ∧ (encode cs).head? = some '0'.toUInt8) := by
    rintro ⟨hlength, hhead⟩
    rw [encode_digits h.2, List.head?_map, Option.map_eq_some_iff] at hhead
    obtain ⟨c, hc, hcode⟩ := hhead
    obtain ⟨_, hupper⟩ := toNat_of_isDigit (h.2 c (List.mem_of_head? hc))
    obtain rfl : c = '0' := Text.ascii_inj (by omega) (by decide) hcode
    rw [hzero hc] at hlength
    exact hlength rfl
  rw [readWhole, readDigits_encode h hrest, ok_bind]
  exact if_neg halone

/-! ## Spelled numbers -/

/-- A value ends where its array or object goes on or ends, or where the text does. -/
def Ends (rest : List UInt8) : Prop :=
  ∀ b, rest.head? = some b → b = ','.toUInt8 ∨ b = ']'.toUInt8 ∨ b = '\x7d'.toUInt8

/-- Neither a digit nor a point follows. -/
def EndsDigits (rest : List UInt8) : Prop :=
  ∀ b, rest.head? = some b → isDigit b = false ∧ b ≠ '.'.toUInt8

theorem Ends.endsDigits (h : Ends rest) : EndsDigits rest := by
  intro b hb
  rcases h b hb with rfl | rfl | rfl <;> decide

/-- A number without its sign, as JSON spells it. -/
structure NumberText where
  whole : List Char
  fraction : Option (List Char)
  exponent : Option Int
  whole_isDigits : IsDigits whole
  whole_zero : whole.head? = some '0' → whole = ['0']
  fraction_isDigits : ∀ digits, fraction = some digits → IsDigits digits

namespace NumberText

def fractionChars : Option (List Char) → List Char
  | none => []
  | some digits => '.' :: digits

def exponentChars : Option Int → List Char
  | none => []
  | some n => 'e' :: (if n < 0 then '-' else '+') :: Nat.toDigits 10 n.natAbs

def chars (t : NumberText) : List Char :=
  t.whole ++ (fractionChars t.fraction ++ exponentChars t.exponent)

/-- The number is `digits * 10 ^ power`. -/
def digits (t : NumberText) : Nat := Nat.ofDigitChars 10 (t.whole ++ t.fraction.getD []) 0

def power (t : NumberText) : Int := t.exponent.getD 0 - (t.fraction.getD []).length

/-- What the spelling stands for: an integer if it fits and is spelled by its digits alone. -/
def number (isNegative : Bool) (t : NumberText) : Except JsonFault JsonNumber :=
  if t.fraction = none ∧ t.exponent = none then wholeNumber isNegative t.digits
  else doubleNumber isNegative t.digits t.power

theorem readExponent_signed (isNegative : Bool) (h : IsDigits cs) (hrest : Ends rest) :
    readExponent ('e'.toUInt8 :: (if isNegative then '-' else '+').toUInt8 :: (encode cs ++ rest)) =
      .ok (some (if isNegative then -(Nat.ofDigitChars 10 cs 0 : Int)
        else (Nat.ofDigitChars 10 cs 0 : Int)), rest) := by
  have hread := readDigits_encode h fun b hb => (hrest.endsDigits b hb).1
  rw [readExponent, if_pos (.inl rfl), ← digitsValue_encode h.2]
  cases isNegative with
  | true =>
      show (readDigits (encode cs ++ rest) >>= _) = _
      rw [hread]
      rfl
  | false =>
      show (readDigits (encode cs ++ rest) >>= _) = _
      rw [hread]
      rfl

theorem readExponent_chars (exponent : Option Int) (hrest : Ends rest) :
    readExponent (encode (exponentChars exponent) ++ rest) = .ok (exponent, rest) := by
  cases exponent with
  | none =>
      show readExponent rest = .ok (none, rest)
      cases rest with
      | nil => rfl
      | cons b rest =>
          have hb : ¬(b = 'e'.toUInt8 ∨ b = 'E'.toUInt8) := by
            rcases hrest b rfl with rfl | rfl | rfl <;> decide
          exact if_neg hb
  | some n =>
      have hread := readExponent_signed (decide (n < 0)) (isDigits_toDigits n.natAbs) hrest
      rw [Nat.ofDigitChars_ten_toDigits] at hread
      by_cases hn : n < 0
      · have habs : -(n.natAbs : Int) = n := by omega
        simp only [hn, decide_true, if_true, habs] at hread
        rw [exponentChars, if_pos hn]
        exact hread
      · have habs : (n.natAbs : Int) = n := by omega
        simp only [hn, decide_false, Bool.false_eq_true, if_false, habs] at hread
        rw [exponentChars, if_neg hn]
        exact hread

theorem endsDigits_exponent (exponent : Option Int) (hrest : Ends rest) :
    EndsDigits (encode (exponentChars exponent) ++ rest) := by
  cases exponent with
  | none => exact hrest.endsDigits
  | some n =>
      intro b hb
      obtain rfl : 'e'.toUInt8 = b := Option.some.inj hb
      decide

theorem readFraction_chars {fraction : Option (List Char)}
    (h : ∀ digits, fraction = some digits → IsDigits digits) (hrest : EndsDigits rest) :
    readFraction (encode (fractionChars fraction) ++ rest) = .ok (fraction.map encode, rest) := by
  cases fraction with
  | none =>
      show readFraction rest = .ok (none, rest)
      cases rest with
      | nil => rfl
      | cons b rest => exact if_neg (hrest b rfl).2
  | some digits =>
      show (readDigits (encode digits ++ rest) >>= _) = _
      rw [readDigits_encode (h digits rfl) fun b hb => (hrest b hb).1]
      rfl

theorem isDigit_head_fraction (fraction : Option (List Char)) (hrest : EndsDigits rest) :
    ∀ b, (encode (fractionChars fraction) ++ rest).head? = some b → isDigit b = false := by
  cases fraction with
  | none => exact fun b hb => (hrest b hb).1
  | some digits =>
      intro b hb
      obtain rfl : '.'.toUInt8 = b := Option.some.inj hb
      decide

theorem isDigit_digits (t : NumberText) : ∀ c ∈ t.whole ++ t.fraction.getD [], c.isDigit = true := by
  refine List.forall_mem_append.mpr ⟨t.whole_isDigits.2, ?_⟩
  cases h : t.fraction with
  | none => exact fun c hc => absurd hc List.not_mem_nil
  | some digits => exact (t.fraction_isDigits digits h).2

theorem length_encode (h : ∀ c ∈ cs, c.isDigit = true) : (encode cs).length = cs.length := by
  rw [encode_digits h, List.length_map]

/-- A spelled number is read to its end and no further. -/
theorem readNumber_chars (isNegative : Bool) (t : NumberText) (hrest : Ends rest) :
    readNumber isNegative (encode t.chars ++ rest) =
      (·, rest) <$> t.number isNegative := by
  have hexponent := readExponent_chars t.exponent hrest
  have hends := endsDigits_exponent t.exponent hrest
  have hfraction := readFraction_chars t.fraction_isDigits hends
  have hwhole := readWhole_encode t.whole_isDigits t.whole_zero
    (isDigit_head_fraction t.fraction hends)
  have hdigits := digitsValue_encode t.isDigit_digits
  rw [readNumber, chars, encode_append, encode_append, List.append_assoc, List.append_assoc, hwhole,
    ok_bind]
  dsimp only
  rw [hfraction, ok_bind]
  dsimp only
  rw [hexponent, ok_bind]
  rw [number, digits, power, ← hdigits, encode_append]
  cases hf : t.fraction with
  | none =>
      have hnil : encode [] = [] := rfl
      cases t.exponent with
      | none => simp [hnil]
      | some n => simp [hnil]
  | some digits =>
      have hlength := length_encode (t.fraction_isDigits digits hf).2
      simp [hlength]

end NumberText

end RecordSchema.Json
