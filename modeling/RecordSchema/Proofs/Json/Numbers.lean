import RecordSchema.Proofs.Double.Shortest
import RecordSchema.Proofs.Json.Spelling

/-! Numbers as JSON. Each is written in the spelling of numbers, a double by its shortest decimal,
and is read back as it was (`readScalar_numberText`). -/

namespace RecordSchema.Json
open Text (encode encode_append)

variable {b : UInt8}

/-! ## Decimals -/

theorem toList_digitText (n : Nat) : (Decimal.digitText n).toList = Nat.toDigits 10 n :=
  String.toList_ofList

theorem toList_zeros (n : Nat) : (Decimal.zeros n).toList = List.replicate n '0' :=
  String.toList_ofList

theorem isDigit_zeros (n : Nat) : ∀ c ∈ List.replicate n '0', c.isDigit = true := by
  intro c hc
  rw [List.eq_of_mem_replicate hc]
  rfl

theorem digitChar_ne_zero : ∀ n : Fin 10, n ≠ 0 → n.val.digitChar ≠ '0' := by decide

/-- Zero alone is written with a zero in front. -/
theorem head?_toDigits {n : Nat} (hn : n ≠ 0) : (Nat.toDigits 10 n).head? ≠ some '0' := by
  induction n using Nat.strongRecOn with
  | ind n ih =>
      by_cases hsmall : n < 10
      · rw [Nat.toDigits_of_lt_base hsmall, List.head?_cons]
        intro h
        exact digitChar_ne_zero ⟨n, hsmall⟩ (fun h => hn (congrArg Fin.val h)) (Option.some.inj h)
      · rw [Nat.toDigits_of_base_le (by decide) (Nat.le_of_not_lt hsmall),
          List.head?_append_of_ne_nil _ Nat.toDigits_ne_nil]
        exact ih (n / 10) (by omega) (by omega)

theorem take_toDigits {n k : Nat} (hk : 0 < k) (h : ((Nat.toDigits 10 n).take k).head? = some '0') :
    (Nat.toDigits 10 n).take k = ['0'] := by
  rw [List.head?_take, if_neg (Nat.ne_of_gt hk)] at h
  by_cases hn : n = 0
  · obtain ⟨k, rfl⟩ := Nat.exists_eq_add_of_lt hk
    rw [hn]
    simp
  · exact absurd h (head?_toDigits hn)

theorem length_toDigits (d : Decimal) : (Nat.toDigits 10 d.digits).length = d.point - d.exponent := by
  have hlength : (Decimal.digitText d.digits).length = (Nat.toDigits 10 d.digits).length := by
    rw [← toList_digitText, String.length_toList]
  rw [Decimal.point, hlength]
  omega

/-- Nothing before the point. -/
def belowOne (d : Decimal) : NumberText where
  whole := ['0']
  fraction := some (List.replicate (-d.point).toNat '0' ++ Nat.toDigits 10 d.digits)
  exponent := none
  whole_isDigits := isDigits_zero
  whole_zero := fun _ => rfl
  fraction_isDigits := by
    rintro _ ⟨⟩
    exact ⟨List.append_ne_nil_of_right_ne_nil _ Nat.toDigits_ne_nil,
      List.forall_mem_append.mpr ⟨isDigit_zeros _, (isDigits_toDigits d.digits).2⟩⟩

theorem value_belowOne {d : Decimal} (h : d.point ≤ 0) :
    (belowOne d).digits = d.digits ∧ (belowOne d).power = d.exponent := by
  have hlength := length_toDigits d
  constructor
  · simp [belowOne, NumberText.digits, Nat.ofDigitChars_cons, Nat.ofDigitChars_append,
      Nat.ofDigitChars_replicate_zero, Nat.ofDigitChars_ten_toDigits]
  · simp [belowOne, NumberText.power]
    omega

/-- A zero behind the point. -/
def wholeTenths (d : Decimal) (hd : d.digits = 0 → d.exponent = 0) : NumberText where
  whole := Nat.toDigits 10 d.digits ++ List.replicate d.exponent.toNat '0'
  fraction := some ['0']
  exponent := none
  whole_isDigits := ⟨List.append_ne_nil_of_left_ne_nil Nat.toDigits_ne_nil _,
    List.forall_mem_append.mpr ⟨(isDigits_toDigits d.digits).2, isDigit_zeros _⟩⟩
  whole_zero := by
    intro h
    rw [List.head?_append_of_ne_nil _ Nat.toDigits_ne_nil] at h
    by_cases hzero : d.digits = 0
    · rw [hd hzero, hzero]
      simp
    · exact absurd h (head?_toDigits hzero)
  fraction_isDigits := by
    rintro _ ⟨⟩
    exact isDigits_zero

theorem value_wholeTenths {d : Decimal} (hd : d.digits = 0 → d.exponent = 0) :
    (wholeTenths d hd).digits = d.digits * 10 ^ d.exponent.toNat * 10 ∧
      (wholeTenths d hd).power = -1 := by
  constructor
  · simp [wholeTenths, NumberText.digits, Nat.ofDigitChars_append, Nat.ofDigitChars_cons,
      Nat.ofDigitChars_replicate_zero, Nat.ofDigitChars_ten_toDigits, Nat.mul_comm]
  · rfl

/-- The point among the digits. -/
def parted (d : Decimal) (hpoint : 0 < d.point) (hexponent : d.exponent < 0) : NumberText where
  whole := (Nat.toDigits 10 d.digits).take d.point.toNat
  fraction := some ((Nat.toDigits 10 d.digits).drop d.point.toNat)
  exponent := none
  whole_isDigits := by
    refine ⟨?_, fun c hc => (isDigits_toDigits d.digits).2 c (List.mem_of_mem_take hc)⟩
    have hlength := length_toDigits d
    rw [ne_eq, List.take_eq_nil_iff, not_or]
    exact ⟨by omega, Nat.toDigits_ne_nil⟩
  whole_zero := take_toDigits (by omega)
  fraction_isDigits := by
    have hlength := length_toDigits d
    rintro _ ⟨⟩
    refine ⟨?_, fun c hc => (isDigits_toDigits d.digits).2 c (List.mem_of_mem_drop hc)⟩
    rw [ne_eq, List.drop_eq_nil_iff]
    omega

theorem value_parted {d : Decimal} (hpoint : 0 < d.point) (hexponent : d.exponent < 0) :
    (parted d hpoint hexponent).digits = d.digits ∧
      (parted d hpoint hexponent).power = d.exponent := by
  have hlength := length_toDigits d
  constructor
  · simp [parted, NumberText.digits, Nat.ofDigitChars_ten_toDigits]
  · simp [parted, NumberText.power]
    omega

/-- One digit before the point, and a power of ten. -/
def scaled (d : Decimal) : NumberText where
  whole := (Nat.toDigits 10 d.digits).take 1
  fraction :=
    if (Nat.toDigits 10 d.digits).drop 1 = [] then none
    else some ((Nat.toDigits 10 d.digits).drop 1)
  exponent := some (d.point - 1)
  whole_isDigits := by
    refine ⟨?_, fun c hc => (isDigits_toDigits d.digits).2 c (List.mem_of_mem_take hc)⟩
    rw [ne_eq, List.take_eq_nil_iff, not_or]
    exact ⟨Nat.one_ne_zero, Nat.toDigits_ne_nil⟩
  whole_zero := take_toDigits Nat.one_pos
  fraction_isDigits := by
    intro digits h
    obtain ⟨hne, hdigits⟩ := Option.ite_none_left_eq_some.mp h
    obtain rfl := Option.some.inj hdigits
    exact ⟨hne, fun c hc => (isDigits_toDigits d.digits).2 c (List.mem_of_mem_drop hc)⟩

theorem getD_scaled (d : Decimal) :
    (scaled d).fraction.getD [] = (Nat.toDigits 10 d.digits).drop 1 := by
  rw [scaled]
  split
  · rename_i h
    exact h.symm
  · rfl

theorem value_scaled (d : Decimal) :
    (scaled d).digits = d.digits ∧ (scaled d).power = d.exponent := by
  have hlength := length_toDigits d
  have hpos := List.length_pos_iff.mpr (isDigits_toDigits d.digits).1
  constructor
  · rw [NumberText.digits, getD_scaled, scaled, List.take_append_drop, Nat.ofDigitChars_ten_toDigits]
  · rw [NumberText.power, getD_scaled, List.length_drop]
    simp only [scaled, Option.getD_some]
    omega

/-! ## Doubles -/

theorem chars_scaled (d : Decimal) : d.scientific.toList = (scaled d).chars := by
  have hfraction : (if ((Decimal.digitText d.digits).drop 1).copy.isEmpty then ""
      else "." ++ ((Decimal.digitText d.digits).drop 1).copy).toList =
        NumberText.fractionChars (scaled d).fraction := by
    have hempty : ((Decimal.digitText d.digits).drop 1).copy.isEmpty = true ↔
        (Nat.toDigits 10 d.digits).drop 1 = [] := by
      rw [String.isEmpty_iff, ← String.toList_inj, String.toList_copy_drop, toList_digitText]
      rfl
    by_cases h : (Nat.toDigits 10 d.digits).drop 1 = []
    · simp only [scaled, if_pos h, if_pos (hempty.mpr h)]
      rfl
    · simp only [scaled, if_neg h, if_neg (mt hempty.mp h), String.toList_append,
        String.toList_copy_drop, toList_digitText]
      rfl
  have hsign : (if d.point - 1 < 0 then "-" else "+").toList =
      [if d.point - 1 < 0 then '-' else '+'] := by
    split <;> rfl
  simp only [Decimal.scientific, String.toList_append, hfraction, hsign, toList_digitText,
    String.toList_copy_take]
  simp [scaled, NumberText.chars, NumberText.exponentChars]

/-- The text of a decimal that is written out, with a digit after the point at least. -/
def positionalText (d : Decimal) : String :=
  d.positional.1 ++ "." ++ if d.positional.2.isEmpty then "0" else d.positional.2

theorem toList_positionalText {d : Decimal} {whole fraction : String}
    (h : d.positional = (whole, fraction)) :
    (positionalText d).toList =
      whole.toList ++ '.' :: if fraction.toList = [] then ['0'] else fraction.toList := by
  have hempty : fraction.toList = [] ↔ fraction.isEmpty = true := by
    rw [String.isEmpty_iff, String.toList_eq_nil_iff]
  rw [positionalText, h, String.toList_append, String.toList_append, List.append_assoc]
  by_cases hfraction : fraction.isEmpty = true
  · rw [if_pos hfraction, if_pos (hempty.mpr hfraction)]
    rfl
  · rw [if_neg hfraction, if_neg (mt hempty.mp hfraction)]
    rfl

theorem chars_belowOne {d : Decimal} (h : d.point ≤ 0) :
    (positionalText d).toList = (belowOne d).chars := by
  have hpositional : d.positional =
      ("0", Decimal.zeros (-d.point).toNat ++ Decimal.digitText d.digits) := if_pos h
  rw [toList_positionalText hpositional, String.toList_append, toList_zeros, toList_digitText,
    if_neg (List.append_ne_nil_of_right_ne_nil _ Nat.toDigits_ne_nil)]
  simp [belowOne, NumberText.chars, NumberText.fractionChars, NumberText.exponentChars]

theorem chars_wholeTenths {d : Decimal} (hd : d.digits = 0 → d.exponent = 0) (hpoint : 0 < d.point)
    (hexponent : 0 ≤ d.exponent) : (positionalText d).toList = (wholeTenths d hd).chars := by
  have hpositional : d.positional =
      (Decimal.digitText d.digits ++ Decimal.zeros d.exponent.toNat, "") := by
    simp only [Decimal.positional, if_neg (Int.not_le.mpr hpoint), if_pos hexponent]
  rw [toList_positionalText hpositional, String.toList_append, toList_zeros, toList_digitText]
  simp [wholeTenths, NumberText.chars, NumberText.fractionChars, NumberText.exponentChars]

theorem chars_parted {d : Decimal} (hpoint : 0 < d.point) (hexponent : d.exponent < 0) :
    (positionalText d).toList = (parted d hpoint hexponent).chars := by
  have hpositional : d.positional =
      (((Decimal.digitText d.digits).take d.point.toNat).copy,
        ((Decimal.digitText d.digits).drop d.point.toNat).copy) := by
    simp only [Decimal.positional, if_neg (Int.not_le.mpr hpoint), if_neg (Int.not_le.mpr hexponent)]
  have hrest := ((parted d hpoint hexponent).fraction_isDigits _ rfl).1
  rw [toList_positionalText hpositional, String.toList_copy_take, String.toList_copy_drop,
    toList_digitText, if_neg hrest]
  simp [parted, NumberText.chars, NumberText.fractionChars, NumberText.exponentChars]

/-- A text that spells a decimal with a point or an exponent, and so as a double. -/
def SpellsDouble (text : String) (d : Decimal) : Prop :=
  ∃ t : NumberText, text.toList = t.chars ∧ ¬(t.fraction = none ∧ t.exponent = none) ∧
    Double.ofDecimal t.digits t.power = Double.ofDecimal d.digits d.exponent

theorem spellsDouble_scientific (d : Decimal) : SpellsDouble d.scientific d := by
  obtain ⟨hdigits, hpower⟩ := value_scaled d
  refine ⟨scaled d, chars_scaled d, fun h => absurd h.2 (Option.some_ne_none _), ?_⟩
  rw [hdigits, hpower]

theorem spellsDouble_positional {d : Decimal} (hd : d.digits = 0 → d.exponent = 0)
    (hpoint : d.point ≤ 16) : SpellsDouble (positionalText d) d := by
  rcases Int.lt_or_le 0 d.point with hpositive | hnegative
  · rcases Int.lt_or_le d.exponent 0 with hexponent | hexponent
    · obtain ⟨hdigits, hpower⟩ := value_parted hpositive hexponent
      refine ⟨parted d hpositive hexponent, chars_parted hpositive hexponent,
        fun h => absurd h.1 (Option.some_ne_none _), ?_⟩
      rw [hdigits, hpower]
    · obtain ⟨hdigits, hpower⟩ := value_wholeTenths hd
      have hlength := length_toDigits d
      have hsmall : d.exponent.toNat ≤ 400 := by omega
      have hpower_eq : (d.exponent.toNat : Int) = d.exponent := Int.toNat_of_nonneg hexponent
      refine ⟨wholeTenths d hd, chars_wholeTenths hd hpositive hexponent,
        fun h => absurd h.1 (Option.some_ne_none _), ?_⟩
      rw [hdigits, hpower, Double.ofDecimal_tenths hsmall, hpower_eq]
  · obtain ⟨hdigits, hpower⟩ := value_belowOne hnegative
    refine ⟨belowOne d, chars_belowOne hnegative, fun h => absurd h.1 (Option.some_ne_none _), ?_⟩
    rw [hdigits, hpower]

/-- The sign of a number, before its spelling. -/
def signChars (isNegative : Bool) : List Char := if isNegative then ['-'] else []

theorem exists_doubleText (x : Double) (hx : x.isFinite = true) :
    ∃ t : NumberText, (doubleText x).toList = signChars x.isNegative ++ t.chars ∧
      t.number x.isNegative = .ok (.double x hx) := by
  have hfinite : x.magnitude < Double.infinity := of_decide_eq_true hx
  have hzero : (Double.shortest .toEven x.magnitude).digits = 0 →
      (Double.shortest .toEven x.magnitude).exponent = 0 := by
    intro h
    rw [Double.shortest_of_digits_eq_zero hfinite h]
  have hsign : (if x.isNegative then "-" else "").toList = signChars x.isNegative := by
    cases x.isNegative <;> rfl
  have hspelled : ∃ text, doubleText x = (if x.isNegative then "-" else "") ++ text ∧
      SpellsDouble text (Double.shortest .toEven x.magnitude) := by
    by_cases h : -5 < (Double.shortest .toEven x.magnitude).point ∧
        (Double.shortest .toEven x.magnitude).point ≤ 16
    · refine ⟨_, ?_, spellsDouble_positional hzero h.2⟩
      simp only [doubleText, if_pos h, positionalText, String.append_assoc]
    · exact ⟨_, if_neg h, spellsDouble_scientific _⟩
  obtain ⟨text, htext, t, hchars, hdouble, hvalue⟩ := hspelled
  refine ⟨t, by rw [htext, String.toList_append, hsign, hchars], ?_⟩
  rw [Double.ofDecimal_shortest .toEven hfinite] at hvalue
  rw [NumberText.number, if_neg hdouble]
  simp only [doubleNumber, hvalue, Double.ofMagnitude_magnitude, dif_pos hx]

/-! ## All numbers -/

/-- The digits of a whole number alone. -/
def wholeText (n : Nat) : NumberText where
  whole := Nat.toDigits 10 n
  fraction := none
  exponent := none
  whole_isDigits := isDigits_toDigits n
  whole_zero := by
    intro h
    by_cases hn : n = 0
    · rw [hn]
      simp
    · exact absurd h (head?_toDigits hn)
  fraction_isDigits := fun _ h => absurd h.symm (Option.some_ne_none _)

theorem exists_integerText (n : Int) (fits : -0x8000000000000000 ≤ n ∧ n < 0x10000000000000000) :
    ∃ t : NumberText, (toString n).toList = signChars (decide (n < 0)) ++ t.chars ∧
      t.number (decide (n < 0)) = .ok (.integer n fits) := by
  have hdigits : (wholeText n.natAbs).digits = n.natAbs := by
    rw [NumberText.digits, wholeText, Option.getD_none, List.append_nil,
      Nat.ofDigitChars_ten_toDigits]
  refine ⟨wholeText n.natAbs, ?_, ?_⟩
  · show n.repr.toList = _
    have hchars : (wholeText n.natAbs).chars = Nat.toDigits 10 n.natAbs := List.append_nil _
    have hrepr : n.natAbs.repr.toList = Nat.toDigits 10 n.natAbs := by
      rw [Nat.repr_eq_ofList_toDigits, String.toList_ofList]
    rw [Int.repr_eq_if, hchars]
    by_cases hn : n < 0
    · have habs : (-n).toNat = n.natAbs := by omega
      rw [if_neg (Int.not_le.mpr hn), habs, String.toList_append, hrepr, decide_eq_true hn]
      rfl
    · have habs : n.toNat = n.natAbs := by omega
      rw [if_pos (Int.not_lt.mp hn), habs, hrepr, decide_eq_false hn]
      rfl
  · rw [NumberText.number, if_pos ⟨rfl, rfl⟩, hdigits]
    have hvalue : (if decide (n < 0) = true then -(n.natAbs : Int) else n.natAbs) = n := by
      simp only [decide_eq_true_iff]
      omega
    have hsign : ¬(decide (n < 0) = true ∧ n.natAbs = 0) := by
      rw [decide_eq_true_iff]
      omega
    simp only [wholeNumber, hvalue, dif_pos fits, if_neg hsign]

theorem exists_numberText (n : JsonNumber) :
    ∃ (isNegative : Bool) (t : NumberText),
      (numberText n).toList = signChars isNegative ++ t.chars ∧ t.number isNegative = .ok n := by
  cases n with
  | integer n fits => exact ⟨_, exists_integerText n fits⟩
  | double x finite => exact ⟨_, exists_doubleText x finite⟩

theorem readScalar_minus (rest : List UInt8) :
    readScalar '-'.toUInt8 rest =
      (fun (n, rest) => (.number n, rest)) <$> readNumber true rest := by
  have hread : readScalar '-'.toUInt8 rest =
      readNumber true rest >>= fun (n, rest) => pure (.number n, rest) := rfl
  rw [hread]
  cases readNumber true rest <;> rfl

theorem readScalar_digit (h : isDigit b = true) (rest : List UInt8) :
    readScalar b rest =
      (fun (n, rest) => (.number n, rest)) <$> readNumber false (b :: rest) := by
  rw [readScalar, if_neg (ne_of_isDigit h rfl), if_neg (ne_of_isDigit h rfl),
    if_neg (ne_of_isDigit h rfl), if_neg (ne_of_isDigit h rfl), if_neg (ne_of_isDigit h rfl), if_pos h]
  cases readNumber false (b :: rest) <;> rfl

/-- The text of a number is read back, whatever may stand behind a value. -/
theorem readScalar_numberText (n : JsonNumber) :
    ∃ b more, encode (numberText n).toList = b :: more ∧
      (b = '-'.toUInt8 ∨ isDigit b = true) ∧
      ∀ rest, Ends rest → readScalar b (more ++ rest) = .ok (.number n, rest) := by
  obtain ⟨isNegative, t, hchars, hnumber⟩ := exists_numberText n
  have hread : ∀ rest, Ends rest → readNumber isNegative (encode t.chars ++ rest) = .ok (n, rest) := by
    intro rest hrest
    rw [t.readNumber_chars isNegative hrest, hnumber]
    rfl
  cases isNegative with
  | true =>
      refine ⟨'-'.toUInt8, encode t.chars, hchars ▸ rfl, .inl rfl, fun rest hrest => ?_⟩
      rw [readScalar_minus, hread rest hrest]
      rfl
  | false =>
      obtain ⟨b, more, hencode, hb⟩ := t.whole_isDigits.exists_encode
      have hbytes : encode t.chars = b :: (more ++ encode (NumberText.fractionChars t.fraction ++
          NumberText.exponentChars t.exponent)) := by
        rw [NumberText.chars, encode_append, hencode, List.cons_append]
      refine ⟨b, _, (congrArg encode hchars).trans hbytes, .inr hb, fun rest hrest => ?_⟩
      rw [readScalar_digit hb, ← List.cons_append, ← hbytes, hread rest hrest]
      rfl

end RecordSchema.Json
