import RecordSchema.Proofs.Outcome
import RecordSchema.Proofs.Path.Grammar
import RecordSchema.Proofs.Text.Bytes

/-! Paths read from their bytes. A cursor moves over the UTF-8 encoding, and names and digits are
cut out between two of its positions. No cut leaves the text or falls within a character, and what
is read is what the grammar says (`parse_by_grammar`). -/

namespace RecordSchema.Path
open Text (encode encode_append encode_cons)

namespace Cursor

/-- Why the reader stops: the text is no path, or a cut is impossible. -/
inductive Stop where
  | invalid | outside
  deriving DecidableEq, Repr

/-- A character begins at the position, or the text ends there. -/
def isBoundary (bytes : List UInt8) (i : Nat) : Bool :=
  i == 0 || i == bytes.length || bytes[i]?.any fun b => b < 0x80 || 0xc0 ≤ b

/-- The text between two positions. -/
def cut (bytes : List UInt8) (start stop : Nat) : Except Stop String :=
  if start ≤ stop ∧ isBoundary bytes start = true ∧ isBoundary bytes stop = true then
    match String.fromUTF8? ((bytes.drop start).take (stop - start)).toByteArray with
    | some text => .ok text
    | none => .error .outside
  else .error .outside

/-- The first position from `i` on whose byte is not in an ASCII class. -/
def skip (isIn : Char → Bool) (bytes : List UInt8) (i : Nat) : Nat :=
  i + ((bytes.drop i).takeWhile fun b => isIn (Char.ofUInt8 b)).length

theorem le_skip (isIn : Char → Bool) (bytes : List UInt8) (i : Nat) : i ≤ skip isIn bytes i :=
  Nat.le_add_right i _

theorem skip_le {isIn : Char → Bool} {bytes : List UInt8} {i : Nat} (h : skip isIn bytes i ≠ i) :
    skip isIn bytes i ≤ bytes.length := by
  unfold skip at h ⊢
  have hlength : ((bytes.drop i).takeWhile fun b => isIn (Char.ofUInt8 b)).length ≤
      (bytes.drop i).length := (List.takeWhile_sublist _).length_le
  rw [List.length_drop] at hlength
  omega

mutual
/-- The segments from a position to the end of the text. -/
def readSegments (bytes : List UInt8) (i : Nat) : Except Stop (List PathStep) :=
  let stop := skip isNameChar bytes i
  if _h : stop = i then .error .invalid
  else do
    let name ← cut bytes i stop
    return .field name :: (← readRest bytes stop)
termination_by bytes.length - i
decreasing_by
  have hstart : i ≤ stop := le_skip ..
  have hend : stop ≤ bytes.length := skip_le _h
  omega

/-- What follows a name or a bracket, up to the end of the text. -/
def readRest (bytes : List UInt8) (i : Nat) : Except Stop (List PathStep) :=
  if bytes.length ≤ i then return []
  else if bytes[i]? = some '['.toUInt8 then
    let stop := skip Char.isDigit bytes (i + 1)
    if stop = i + 1 ∨ bytes[stop]? ≠ some ']'.toUInt8 then .error .invalid
    else do
      let digits ← cut bytes (i + 1) stop
      match index? digits.toList with
      | none => .error .invalid
      | some n => return .index n :: (← readRest bytes (stop + 1))
  else if bytes[i]? ≠ some '.'.toUInt8 ∨ bytes.length ≤ i + 1 then .error .invalid
  else readSegments bytes (i + 1)
termination_by bytes.length - i
decreasing_by
  · have hstart : i + 1 ≤ stop := le_skip ..
    omega
  · omega
end

/-- Nothing is read if a cut is impossible. -/
def parse (text : String) : Option (Except Error Path) :=
  match readSegments text.toUTF8.toList 0 with
  | .ok steps => some (.ok ⟨steps, text⟩)
  | .error .invalid => some (.error (.invalidFieldPath text))
  | .error .outside => none

/-! ## Positions between characters -/

variable {isIn : Char → Bool} {front cs : List Char}

theorem drop_encode (front cs : List Char) :
    (encode (front ++ cs)).drop (encode front).length = encode cs := by
  rw [encode_append, List.drop_left]

theorem take_encode (front cs : List Char) :
    (encode (front ++ cs)).take (encode front).length = encode front := by
  rw [encode_append, List.take_left]

theorem getElem?_encode (front cs : List Char) :
    (encode (front ++ cs))[(encode front).length]? = (encode cs).head? := by
  rw [← drop_encode front cs, List.head?_drop]

theorem ofUInt8_ofNat {c : Char} (h : c.toNat < 0x80) : Char.ofUInt8 (UInt8.ofNat c.toNat) = c := by
  rw [← Char.toNat_inj]
  exact Text.toNat_ascii h

/-- An ASCII character is next if its byte is. -/
theorem head?_encode_eq_some_iff {d : Char} (hd : d.toNat < 0x80) :
    (encode cs).head? = some d.toUInt8 ↔ cs.head? = some d := by
  have hbyte : d.toUInt8 = UInt8.ofNat d.toNat := rfl
  rw [hbyte]
  cases cs with
  | nil => simp [encode]
  | cons c cs =>
      rw [encode_cons, List.head?_append, List.head?_cons]
      rcases Text.encode_cases c with ⟨hc, hbytes⟩ | ⟨hc, hhigh⟩
      · rw [hbytes]
        simp only [List.head?_cons, Option.some_or, Option.some.injEq]
        exact ⟨Text.ascii_inj hc hd, fun h => by rw [h]⟩
      · obtain ⟨b, bytes, hbytes⟩ := List.exists_cons_of_ne_nil (Text.encode_ne_nil c)
        have hb : 0x80 ≤ b.toNat := hhigh b (by rw [hbytes]; exact List.mem_cons_self)
        rw [hbytes]
        simp only [List.head?_cons, Option.some_or, Option.some.injEq]
        constructor
        · rintro rfl
          rw [Text.toNat_ascii hd] at hb
          omega
        · rintro rfl
          omega

/-- The bytes of a class that only ASCII characters are in are those of its characters. -/
theorem takeWhile_encode (h : ∀ c, isIn c = true → c.toNat < 0x80) (cs : List Char) :
    ((encode cs).takeWhile fun b => isIn (Char.ofUInt8 b)) = encode (cs.takeWhile isIn) := by
  induction cs with
  | nil => rfl
  | cons c cs ih =>
      rw [encode_cons, List.takeWhile_cons]
      rcases Text.encode_cases c with ⟨hc, hbytes⟩ | ⟨hc, hhigh⟩
      · rw [hbytes, List.singleton_append, List.takeWhile_cons, ofUInt8_ofNat hc]
        cases hin : isIn c with
        | false => rfl
        | true =>
            simp only [if_true, ih, encode_cons, hbytes]
            rfl
      · obtain ⟨b, bytes, hbytes⟩ := List.exists_cons_of_ne_nil (Text.encode_ne_nil c)
        have hb : 0x80 ≤ b.toNat := hhigh b (by rw [hbytes]; exact List.mem_cons_self)
        have hbyte : isIn (Char.ofUInt8 b) = false := by
          rw [← Bool.not_eq_true]
          intro hin
          exact absurd (h _ hin) (Nat.not_lt_of_le hb)
        have hchar : isIn c = false := by
          rw [← Bool.not_eq_true]
          intro hin
          exact absurd (h _ hin) (Nat.not_lt_of_le hc)
        rw [hbytes, List.cons_append, List.takeWhile_cons, hbyte, hchar]
        rfl

theorem skip_encode (h : ∀ c, isIn c = true → c.toNat < 0x80) (front cs : List Char) :
    skip isIn (encode (front ++ cs)) (encode front).length =
      (encode (front ++ cs.takeWhile isIn)).length := by
  rw [skip, drop_encode, takeWhile_encode h, encode_append, List.length_append]

theorem isFirst_ofNat (n : Nat) {m k : Nat} (hm : 0 < m) (hk : 0xc0 ≤ k) (hs : m + k ≤ 0x100) :
    0xc0 ≤ UInt8.ofNat (n % m + k) := by
  have hmod : n % m < m := Nat.mod_lt n hm
  rw [UInt8.le_iff_toNat_le, UInt8.toNat_ofNat']
  show 0xc0 ≤ _
  omega

/-- The first byte of a character is no byte of the middle of one. -/
theorem isFirst_encode (c : Char) :
    (String.utf8EncodeChar c).head?.any (fun b => b < 0x80 || 0xc0 ≤ b) = true := by
  rcases Text.encode_cases c with ⟨hc, hbytes⟩ | ⟨hc, -⟩
  · have hb : UInt8.ofNat c.toNat < 0x80 := by
      rw [UInt8.lt_iff_toNat_lt, Text.toNat_ascii hc]
      exact hc
    rw [hbytes, List.head?_cons, Option.any_some, decide_eq_true hb, Bool.true_or]
  · have hgt : ¬c.val.toNat ≤ 0x7f := Nat.not_le_of_lt hc
    simp only [String.utf8EncodeChar, if_neg hgt]
    have hlead : ∀ {n m k : Nat} {bytes : List UInt8}, 0 < m → 0xc0 ≤ k → m + k ≤ 0x100 →
        (UInt8.ofNat (n % m + k) :: bytes).head?.any (fun b => b < 0x80 || 0xc0 ≤ b) = true := by
      intro n m k bytes hm hk hs
      rw [List.head?_cons, Option.any_some, decide_eq_true (isFirst_ofNat n hm hk hs), Bool.or_true]
    split
    · exact hlead (by decide) (by decide) (by decide)
    · split <;> exact hlead (by decide) (by decide) (by decide)

theorem isBoundary_encode (front cs : List Char) :
    isBoundary (encode (front ++ cs)) (encode front).length = true := by
  cases cs with
  | nil => simp [isBoundary]
  | cons c cs =>
      have hnext : (encode (c :: cs)).head? = (String.utf8EncodeChar c).head? := by
        obtain ⟨b, bytes, hbytes⟩ := List.exists_cons_of_ne_nil (Text.encode_ne_nil c)
        rw [encode_cons, hbytes]
        rfl
      rw [isBoundary, getElem?_encode, hnext, isFirst_encode, Bool.or_true]

/-- Between two positions that stand between characters a cut is possible. -/
theorem cut_encode (front middle back : List Char) :
    cut (encode (front ++ (middle ++ back))) (encode front).length
      (encode (front ++ middle)).length = .ok (String.ofList middle) := by
  have hle : (encode front).length ≤ (encode (front ++ middle)).length := by
    rw [encode_append, List.length_append]
    exact Nat.le_add_right _ _
  have hstart := isBoundary_encode front (middle ++ back)
  have hstop := isBoundary_encode (front ++ middle) back
  rw [List.append_assoc] at hstop
  have hmiddle : ((encode (front ++ (middle ++ back))).drop (encode front).length).take
      ((encode (front ++ middle)).length - (encode front).length) = encode middle := by
    rw [drop_encode, encode_append front, List.length_append, Nat.add_sub_cancel_left, take_encode]
  have htext : (encode middle).toByteArray = (String.ofList middle).toUTF8 := by
    rw [String.toUTF8_eq_toByteArray, ← String.utf8Encode_toList, String.toList_ofList]
    rfl
  rw [cut, if_pos ⟨hle, hstart, hstop⟩, hmiddle, htext, Text.fromUTF8?_toUTF8]

theorem length_encode_append_eq_iff {front middle : List Char} :
    (encode (front ++ middle)).length = (encode front).length ↔ middle = [] := by
  rw [encode_append, List.length_append, Nat.add_eq_left, List.length_eq_zero_iff]
  cases middle with
  | nil => simp [encode]
  | cons c middle => simp [encode_cons]

theorem ascii_of_isDigit {c : Char} (h : c.isDigit = true) : c.toNat < 0x80 :=
  Text.toNat_of_isAlphanum (Bool.or_eq_true_iff.mpr (.inr h))

theorem ascii_of_isNameChar {c : Char} (h : isNameChar c = true) : c.toNat < 0x80 := by
  rcases Bool.or_eq_true_iff.mp h with h | h
  · exact Text.toNat_of_isAlphanum h
  · rw [beq_iff_eq.mp h]
    decide

/-! ## The reader on bytes and the reader on characters -/

/-- What a reader comes to that makes possible cuts only. -/
def outcome : Option (List PathStep) → Except Stop (List PathStep)
  | some steps => .ok steps
  | none => .error .invalid

theorem outcome_map (steps : Option (List PathStep)) (step : PathStep) :
    (do return step :: (← outcome steps)) = outcome (steps.map (step :: ·)) := by
  cases steps <;> rfl

/-- Rests shorter than this are read as their characters are, wherever they begin. -/
def ReadsBelow (n : Nat) : Prop :=
  ∀ front rest : List Char, rest.length < n →
    readRest (encode (front ++ rest)) (encode front).length = outcome (readSteps .closed rest)

theorem readSegments_encode {front cs : List Char} (h : ReadsBelow cs.length) :
    readSegments (encode (front ++ cs)) (encode front).length =
      outcome (readSteps (.name []) cs) := by
  have hcs : cs.takeWhile isNameChar ++ cs.dropWhile isNameChar = cs :=
    List.takeWhile_append_dropWhile
  have hskip := @skip_encode isNameChar (fun _ => ascii_of_isNameChar) front cs
  have hcut := cut_encode front (cs.takeWhile isNameChar) (cs.dropWhile isNameChar)
  rw [hcs] at hcut
  rw [readSteps_name, readSegments]
  simp only [hskip, length_encode_append_eq_iff, hcut]
  split
  · rfl
  · rename_i hname
    have hshorter : (cs.dropWhile isNameChar).length < cs.length := by
      have hlength := congrArg List.length hcs
      rw [List.length_append] at hlength
      have hpos := List.length_pos_iff.mpr hname
      omega
    have hrest := h (front ++ cs.takeWhile isNameChar) (cs.dropWhile isNameChar) hshorter
    rw [List.append_assoc, hcs] at hrest
    rw [hrest]
    exact outcome_map _ _

theorem readRest_open {front cs : List Char} (h : ReadsBelow cs.length) :
    readRest (encode (front ++ '[' :: cs)) (encode front).length =
      outcome (readSteps (.index []) cs) := by
  have hcs : cs.takeWhile Char.isDigit ++ cs.dropWhile Char.isDigit = cs :=
    List.takeWhile_append_dropWhile
  have hopen : front ++ '[' :: cs = front ++ ['['] ++ cs := by simp
  have hstart : (encode front).length + 1 = (encode (front ++ ['['])).length := by
    rw [encode_append, List.length_append]
    rfl
  have hskip := @skip_encode Char.isDigit (fun _ => ascii_of_isDigit) (front ++ ['[']) cs
  have hcut := cut_encode (front ++ ['[']) (cs.takeWhile Char.isDigit) (cs.dropWhile Char.isDigit)
  have hnext := getElem?_encode (front ++ ['['] ++ cs.takeWhile Char.isDigit)
    (cs.dropWhile Char.isDigit)
  rw [List.append_assoc (front ++ ['[']), hcs] at hnext
  rw [hcs] at hcut
  have hclose : (encode (cs.dropWhile Char.isDigit)).head? = some ']'.toUInt8 ↔
      (cs.dropWhile Char.isDigit).head? = some ']' := head?_encode_eq_some_iff (by decide)
  have hbracket : (encode (front ++ '[' :: cs))[(encode front).length]? = some '['.toUInt8 := by
    rw [getElem?_encode]
    rfl
  have hmore : ¬(encode (front ++ '[' :: cs)).length ≤ (encode front).length :=
    Nat.not_le_of_lt (List.getElem?_eq_some_iff.mp hbracket).1
  rw [readRest, if_neg hmore, if_pos hbracket, hstart, hopen, readSteps_index]
  simp only [hskip, length_encode_append_eq_iff, hcut, hnext, ne_eq, hclose]
  by_cases hstop : (cs.dropWhile Char.isDigit).head? = some ']'
  · obtain ⟨rest, hrest⟩ := List.head?_eq_some_iff.mp hstop
    simp only [hrest, List.head?_cons, not_true_eq_false, or_false]
    by_cases hdigits : cs.takeWhile Char.isDigit = []
    · rw [if_pos hdigits, hdigits]
      rfl
    · rw [if_neg hdigits, ok_bind, String.toList_ofList]
      cases index? (cs.takeWhile Char.isDigit) with
      | none => rfl
      | some n =>
          have hshorter : rest.length < cs.length := by
            have hlength := congrArg List.length hcs
            rw [hrest, List.length_append, List.length_cons] at hlength
            omega
          have hread := h (front ++ ['['] ++ cs.takeWhile Char.isDigit ++ [']']) rest hshorter
          have hbytes : front ++ ['['] ++ cs.takeWhile Char.isDigit ++ [']'] ++ rest =
              front ++ ['['] ++ cs := by
            rw [List.append_assoc _ [']'], List.singleton_append, ← hrest, List.append_assoc, hcs]
          have hbehind : (encode (front ++ ['['] ++ cs.takeWhile Char.isDigit)).length + 1 =
              (encode (front ++ ['['] ++ cs.takeWhile Char.isDigit ++ [']'])).length := by
            rw [encode_append _ [']'], List.length_append]
            rfl
          rw [hbytes] at hread
          simp only [hbehind, hread]
          exact outcome_map _ _
  · rw [if_pos (.inr hstop)]
    split
    · rename_i rest hrest
      rw [hrest] at hstop
      exact absurd rfl hstop
    · rfl

/-- A dot must have something behind it. -/
theorem readRest_dot {front cs : List Char} (h : ReadsBelow cs.length) :
    readRest (encode (front ++ '.' :: cs)) (encode front).length =
      outcome (readSteps (.name []) cs) := by
  have hdot : front ++ '.' :: cs = front ++ ['.'] ++ cs := by simp
  have hstart : (encode front).length + 1 = (encode (front ++ ['.'])).length := by
    rw [encode_append, List.length_append]
    rfl
  have hnext : (encode (front ++ '.' :: cs))[(encode front).length]? = some '.'.toUInt8 := by
    rw [getElem?_encode]
    rfl
  have hmore : ¬(encode (front ++ '.' :: cs)).length ≤ (encode front).length :=
    Nat.not_le_of_lt (List.getElem?_eq_some_iff.mp hnext).1
  have hopen : ¬(encode (front ++ '.' :: cs))[(encode front).length]? = some '['.toUInt8 := by
    rw [hnext]
    decide
  have hlast : (encode (front ++ '.' :: cs)).length ≤ (encode front).length + 1 ↔ cs = [] := by
    rw [hstart, hdot, ← length_encode_append_eq_iff, encode_append _ cs, List.length_append]
    omega
  rw [readRest, if_neg hmore, if_neg hopen]
  simp only [hnext, hlast, ne_eq, not_true_eq_false, false_or]
  split
  · rename_i hcs
    rw [hcs]
    rfl
  · rw [hstart, hdot]
    exact readSegments_encode h

/-- The induction is on the length of what is left, since a name is cut out in one go. -/
theorem readRest_encode (front cs : List Char) :
    readRest (encode (front ++ cs)) (encode front).length = outcome (readSteps .closed cs) := by
  induction hn : cs.length using Nat.strongRecOn generalizing front cs with
  | ind n ih =>
      cases cs with
      | nil =>
          rw [readRest, if_pos (by simp)]
          rfl
      | cons c cs =>
          rw [List.length_cons] at hn
          have hshorter : ReadsBelow cs.length :=
            fun front rest hlt => ih rest.length (by omega) front rest rfl
          have hnext : ∀ d : Char, d.toNat < 0x80 →
              ((encode (front ++ c :: cs))[(encode front).length]? = some d.toUInt8 ↔ c = d) := by
            intro d hd
            rw [getElem?_encode, head?_encode_eq_some_iff hd, List.head?_cons, Option.some.injEq]
          have hmore : ¬(encode (front ++ c :: cs)).length ≤ (encode front).length := by
            rw [encode_append, List.length_append, encode_cons, List.length_append]
            have hpos := List.length_pos_iff.mpr (Text.encode_ne_nil c)
            omega
          rw [readSteps.eq_def]
          simp only
          split
          · rename_i hdot
            subst hdot
            exact readRest_dot hshorter
          · rename_i hdot
            split
            · rename_i hopen
              subst hopen
              exact readRest_open hshorter
            · rename_i hopen
              rw [readRest, if_neg hmore, if_neg (mt (hnext '[' (by decide)).mp hopen),
                if_pos (.inl (mt (hnext '.' (by decide)).mp hdot))]
              rfl

theorem readSegments_text (text : String) :
    readSegments text.toUTF8.toList 0 = outcome (readSteps (.name []) text.toList) := by
  rw [Text.toList_toUTF8]
  exact @readSegments_encode [] text.toList fun front rest _ => readRest_encode front rest

theorem parse_eq (text : String) : parse text = some (Path.parse text) := by
  rw [parse, readSegments_text, Path.parse]
  cases readSteps (.name []) text.toList <;> rfl

end Cursor

/-- What the grammar spells is read as its steps, all else is refused, and no cut is impossible.
Printed steps are read back. -/
theorem parse_by_grammar :
    (∀ text,
      (∀ path, parse text = .ok path ↔
        ∃ segments, IsSpelled segments text ∧ path = ⟨segments.flatMap Segment.steps, text⟩) ∧
      (∀ error, parse text = .error error ↔
        (¬∃ segments, IsSpelled segments text) ∧ error = .invalidFieldPath text) ∧
      Cursor.parse text = some (parse text)) ∧
    ∀ name rest, (∀ other, .field other ∈ .field name :: rest → IsName other) →
      parse (print (.field name :: rest)) =
        .ok ⟨.field name :: rest, print (.field name :: rest)⟩ :=
  ⟨fun text => ⟨fun _ => parse_eq_ok_iff, fun _ => parse_eq_error_iff, Cursor.parse_eq text⟩,
    fun _ _ => parse_print_field⟩

/-- The greatest index, and an index directly behind another. -/
theorem parse_by_grammar_nested :
    (∀ other, .field other ∈ [PathStep.field "Rows_2", .index 0xffffffffffffffff, .index 0,
      .field "x"] → IsName other) ∧
    parse "Rows_2[18446744073709551615][0].x" =
      .ok ⟨[.field "Rows_2", .index 0xffffffffffffffff, .index 0, .field "x"],
        "Rows_2[18446744073709551615][0].x"⟩ := by
  have hnames : ∀ other, .field other ∈ [PathStep.field "Rows_2", .index 0xffffffffffffffff,
      .index 0, .field "x"] → IsName other := by
    intro other ho
    simp only [List.mem_cons, PathStep.field.injEq, reduceCtorEq, List.not_mem_nil, false_or,
      or_false] at ho
    rcases ho with rfl | rfl <;> decide
  exact ⟨hnames, parse_by_grammar.2 _ _ hnames⟩

end RecordSchema.Path
