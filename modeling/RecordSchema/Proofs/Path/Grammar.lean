import Mathlib.Algebra.Group.Nat.Defs
import RecordSchema.Path
import RecordSchema.Proofs.Text.Bytes

/-! The grammar of paths, and the reader's agreement with it. A path is one segment or more, joined
by dots; each is a name with any number of indexes behind it. What is printed of a list of steps is
read as these steps. -/

namespace RecordSchema.Path
open Text (head?_dropWhile_of of_mem_takeWhile takeWhile_append_of)

/-! ## The grammar -/

/-- An index between brackets. Zeros may stand before it. -/
structure Selector where
  digits : List Char
  nonempty : digits ≠ []
  decimal : ∀ c ∈ digits, c.isDigit = true
  fits : Nat.ofDigitChars 10 digits 0 < 2 ^ 64

namespace Selector

def value (selector : Selector) : UInt64 := .ofNat (Nat.ofDigitChars 10 selector.digits 0)

def chars (selector : Selector) : List Char := '[' :: selector.digits ++ [']']

end Selector

structure Segment where
  name : List Char
  selectors : List Selector
  nonempty : name ≠ []
  named : ∀ c ∈ name, isNameChar c = true

namespace Segment

def chars (segment : Segment) : List Char :=
  segment.name ++ segment.selectors.flatMap Selector.chars

def text (segment : Segment) : String := String.ofList segment.chars

def steps (segment : Segment) : List PathStep :=
  .field (String.ofList segment.name) :: segment.selectors.map fun selector => .index selector.value

end Segment

def IsSpelled (segments : List Segment) (text : String) : Prop :=
  segments ≠ [] ∧ text = ".".intercalate (segments.map Segment.text)

/-- More indexes, and more segments with a dot before each. -/
def restChars (selectors : List Selector) (segments : List Segment) : List Char :=
  selectors.flatMap Selector.chars ++ segments.flatMap fun segment => '.' :: segment.chars

def restSteps (selectors : List Selector) (segments : List Segment) : List PathStep :=
  selectors.map (fun selector => .index selector.value) ++ segments.flatMap Segment.steps

theorem toList_intercalate (segment : Segment) (segments : List Segment) :
    (".".intercalate ((segment :: segments).map Segment.text)).toList =
      segment.name ++ restChars segment.selectors segments := by
  induction segments generalizing segment with
  | nil => simp [Segment.text, Segment.chars, restChars]
  | cons next segments ih =>
      rw [List.map_cons, List.map_cons, String.intercalate_cons_cons, ← List.map_cons,
        String.toList_append, String.toList_append, ih]
      simp [Segment.text, Segment.chars, restChars]

/-! ## The reader, segment by segment -/

theorem readSteps_name_run {name : List Char} (h : ∀ c ∈ name, isNameChar c = true)
    (seen rest : List Char) :
    readSteps (.name seen) (name ++ rest) = readSteps (.name (name.reverse ++ seen)) rest := by
  induction name generalizing seen with
  | nil => rfl
  | cons c name ih =>
      obtain ⟨hc, hname⟩ := List.forall_mem_cons.mp h
      rw [List.cons_append, readSteps.eq_def]
      simp only [hc, if_true, ih hname, List.reverse_cons, List.append_assoc]
      rfl

theorem readSteps_index_run {digits : List Char} (h : ∀ c ∈ digits, c.isDigit = true)
    (seen rest : List Char) :
    readSteps (.index seen) (digits ++ rest) = readSteps (.index (digits.reverse ++ seen)) rest := by
  induction digits generalizing seen with
  | nil => rfl
  | cons c digits ih =>
      obtain ⟨hc, hdigits⟩ := List.forall_mem_cons.mp h
      rw [List.cons_append, readSteps.eq_def]
      simp only [hc, if_true, ih hdigits, List.reverse_cons, List.append_assoc]
      rfl

/-- Behind a whole name the same may follow as behind a bracket. -/
theorem readSteps_name_ended {seen rest : List Char} (hs : seen ≠ [])
    (hr : ∀ c, rest.head? = some c → isNameChar c = false) :
    readSteps (.name seen) rest =
      (readSteps .closed rest).map (.field (String.ofList seen.reverse) :: ·) := by
  obtain ⟨c, seen, rfl⟩ := List.exists_cons_of_ne_nil hs
  cases rest with
  | nil => rfl
  | cons d rest =>
      have hd : isNameChar d = false := hr d rfl
      rw [readSteps.eq_def, readSteps.eq_def .closed]
      simp only [hd, Bool.false_eq_true, if_false, List.isEmpty_cons]
      split
      · rfl
      · split <;> rfl

theorem readSteps_name (cs : List Char) :
    readSteps (.name []) cs =
      if cs.takeWhile isNameChar = [] then none
      else (readSteps .closed (cs.dropWhile isNameChar)).map
        (.field (String.ofList (cs.takeWhile isNameChar)) :: ·) := by
  have hrun := @readSteps_name_run (cs.takeWhile isNameChar) of_mem_takeWhile []
    (cs.dropWhile isNameChar)
  rw [List.takeWhile_append_dropWhile, List.append_nil] at hrun
  split
  · rename_i hname
    cases cs with
    | nil => rfl
    | cons c rest =>
        have hc : isNameChar c = false := by simpa [List.takeWhile_cons] using hname
        rw [readSteps.eq_def]
        simp [hc]
  · rename_i hname
    rw [hrun, readSteps_name_ended (by simpa using hname) fun c hc => head?_dropWhile_of hc,
      List.reverse_reverse]

theorem readSteps_index (cs : List Char) :
    readSteps (.index []) cs =
      match cs.dropWhile Char.isDigit with
      | ']' :: rest => (index? (cs.takeWhile Char.isDigit)).bind fun i =>
          (readSteps .closed rest).map (.index i :: ·)
      | _ => none := by
  have hrun := @readSteps_index_run (cs.takeWhile Char.isDigit) of_mem_takeWhile []
    (cs.dropWhile Char.isDigit)
  rw [List.takeWhile_append_dropWhile, List.append_nil] at hrun
  rw [hrun]
  cases hrest : cs.dropWhile Char.isDigit with
  | nil => rfl
  | cons c rest =>
      have hc : c.isDigit = false := head?_dropWhile_of (by rw [hrest]; rfl)
      rw [readSteps.eq_def]
      simp only [hc, Bool.false_eq_true, if_false, List.reverse_reverse]
      by_cases hb : c = ']'
      · subst hb
        simp only [if_true]
        cases index? (cs.takeWhile Char.isDigit) with
        | none => rfl
        | some i =>
            cases readSteps .closed rest <;> rfl
      · simp only [hb, if_false]
        split
        · rename_i h
          exact absurd (List.cons.inj h).1 hb
        · rfl

/-! ## The reader and the grammar -/

theorem digitsValue_eq (digits : List Char) : digitsValue digits = Nat.ofDigitChars 10 digits 0 := rfl

theorem index?_eq_some_iff {digits : List Char} {i : UInt64} :
    index? digits = some i ↔ digits ≠ [] ∧ Nat.ofDigitChars 10 digits 0 < 2 ^ 64 ∧
      i = .ofNat (Nat.ofDigitChars 10 digits 0) := by
  rw [index?, digitsValue_eq]
  cases digits with
  | nil => simp
  | cons c digits =>
      generalize Nat.ofDigitChars 10 (c :: digits) 0 = value
      have hfits : value < 2 ^ 64 ↔ ¬0x10000000000000000 ≤ value := Nat.not_le.symm
      rw [hfits]
      by_cases hv : 0x10000000000000000 ≤ value
      · simp [hv]
      · simp [hv, eq_comm]

theorem Selector.index?_digits (selector : Selector) :
    index? selector.digits = some selector.value :=
  index?_eq_some_iff.mpr ⟨selector.nonempty, selector.fits, rfl⟩

theorem readSteps_selector (selector : Selector) (rest : List Char) :
    readSteps .closed (selector.chars ++ rest) =
      (readSteps .closed rest).map (.index selector.value :: ·) := by
  have hbracket : ∀ c, (']' :: rest).head? = some c → c.isDigit = false := by
    rintro c ⟨⟩
    decide
  obtain ⟨htake, hdrop⟩ := takeWhile_append_of selector.decimal hbracket
  have hopen : readSteps .closed (selector.chars ++ rest) =
      readSteps (.index []) (selector.digits ++ ']' :: rest) := by
    rw [Selector.chars, List.cons_append, List.cons_append, List.append_assoc,
      readSteps.eq_def .closed]
    rfl
  rw [hopen, readSteps_index, hdrop, htake]
  simp [selector.index?_digits]

/-- What follows a name or a bracket does not go on with a name. -/
theorem head?_restChars {selectors : List Selector} {segments : List Segment} {c : Char}
    (h : (restChars selectors segments).head? = some c) : isNameChar c = false := by
  cases selectors with
  | cons selector selectors =>
      obtain rfl : '[' = c := by simpa [restChars, Selector.chars] using h
      decide
  | nil =>
      cases segments with
      | nil => simp [restChars] at h
      | cons segment segments =>
          obtain rfl : '.' = c := by simpa [restChars] using h
          decide

theorem readSteps_segment (segment : Segment) (segments : List Segment) :
    readSteps (.name []) (segment.name ++ restChars segment.selectors segments) =
      (readSteps .closed (restChars segment.selectors segments)).map
        (.field (String.ofList segment.name) :: ·) := by
  have hended : ∀ c, (restChars segment.selectors segments).head? = some c → isNameChar c = false :=
    fun _ hc => head?_restChars hc
  obtain ⟨htake, hdrop⟩ := takeWhile_append_of segment.named hended
  rw [readSteps_name, htake, hdrop, if_neg segment.nonempty]

theorem readSteps_selectors (selectors : List Selector) (rest : List Char) :
    readSteps .closed (selectors.flatMap Selector.chars ++ rest) =
      (readSteps .closed rest).map
        (selectors.map (fun selector => .index selector.value) ++ ·) := by
  induction selectors with
  | nil => simp
  | cons selector selectors ih =>
      rw [List.flatMap_cons, List.append_assoc, readSteps_selector, ih, Option.map_map]
      rfl

theorem readSteps_segments (segments : List Segment) :
    readSteps .closed (segments.flatMap fun segment => '.' :: segment.chars) =
      some (segments.flatMap Segment.steps) := by
  induction segments with
  | nil => rfl
  | cons segment segments ih =>
      have hopen : readSteps .closed
          ((segment :: segments).flatMap fun segment => '.' :: segment.chars) =
          readSteps (.name []) (segment.name ++ restChars segment.selectors segments) := by
        rw [List.flatMap_cons, List.cons_append, readSteps.eq_def .closed, Segment.chars, restChars,
          List.append_assoc]
        rfl
      rw [hopen, readSteps_segment, restChars, readSteps_selectors, ih]
      simp [Segment.steps]

theorem readSteps_restChars (selectors : List Selector) (segments : List Segment) :
    readSteps .closed (restChars selectors segments) = some (restSteps selectors segments) := by
  rw [restChars, readSteps_selectors, readSteps_segments]
  rfl

theorem exists_name_of_readSteps {cs : List Char} {steps : List PathStep}
    (h : readSteps (.name []) cs = some steps) :
    ∃ name rest following, cs = name ++ rest ∧ name ≠ [] ∧ (∀ c ∈ name, isNameChar c = true) ∧
      readSteps .closed rest = some following ∧
      steps = .field (String.ofList name) :: following := by
  rw [readSteps_name] at h
  split at h
  · cases h
  · rename_i hname
    obtain ⟨following, hrest, rfl⟩ := Option.map_eq_some_iff.mp h
    exact ⟨_, _, following, List.takeWhile_append_dropWhile.symm, hname, of_mem_takeWhile, hrest, rfl⟩

theorem exists_selector_of_readSteps {cs : List Char} {steps : List PathStep}
    (h : readSteps (.index []) cs = some steps) :
    ∃ (selector : Selector) (rest : List Char) (following : List PathStep),
      cs = selector.digits ++ ']' :: rest ∧ readSteps .closed rest = some following ∧
      steps = .index selector.value :: following := by
  rw [readSteps_index] at h
  split at h
  · rename_i rest hrest
    obtain ⟨i, hi, h⟩ := Option.bind_eq_some_iff.mp h
    obtain ⟨following, hfollowing, rfl⟩ := Option.map_eq_some_iff.mp h
    obtain ⟨hne, hfits, rfl⟩ := index?_eq_some_iff.mp hi
    refine ⟨⟨_, hne, of_mem_takeWhile, hfits⟩, rest, following, ?_, hfollowing, rfl⟩
    rw [← hrest]
    exact List.takeWhile_append_dropWhile.symm
  · cases h

/-- Only what is spelled by the grammar is read. The induction is on the length of the text, as a
name or an index is read in one go. -/
theorem exists_rest_of_readSteps {cs : List Char} {steps : List PathStep}
    (h : readSteps .closed cs = some steps) :
    ∃ selectors segments, cs = restChars selectors segments ∧
      steps = restSteps selectors segments := by
  induction hn : cs.length using Nat.strongRecOn generalizing cs steps with
  | ind n ih =>
      cases cs with
      | nil => exact ⟨[], [], rfl, by simpa [readSteps, restSteps] using h.symm⟩
      | cons c cs =>
          rw [List.length_cons] at hn
          rw [readSteps.eq_def] at h
          simp only at h
          split at h
          · rename_i hdot
            obtain ⟨name, rest, following, rfl, hne, hnamed, hrest, rfl⟩ :=
              exists_name_of_readSteps h
            rw [List.length_append] at hn
            obtain ⟨selectors, segments, rfl, rfl⟩ := ih rest.length (by omega) hrest rfl
            refine ⟨[], ⟨name, selectors, hne, hnamed⟩ :: segments, ?_, ?_⟩
            · simp [hdot, restChars, Segment.chars]
            · simp [restSteps, Segment.steps]
          · split at h
            · rename_i hopen
              obtain ⟨selector, rest, following, rfl, hrest, rfl⟩ := exists_selector_of_readSteps h
              rw [List.length_append, List.length_cons] at hn
              obtain ⟨selectors, segments, rfl, rfl⟩ := ih rest.length (by omega) hrest rfl
              refine ⟨selector :: selectors, segments, ?_, ?_⟩
              · simp [hopen, restChars, Selector.chars]
              · simp [restSteps]
            · cases h

theorem readSteps_eq_some_iff {text : String} {steps : List PathStep} :
    readSteps (.name []) text.toList = some steps ↔
      ∃ segments, IsSpelled segments text ∧ steps = segments.flatMap Segment.steps := by
  constructor
  · intro h
    obtain ⟨name, rest, following, htext, hne, hnamed, hrest, rfl⟩ := exists_name_of_readSteps h
    obtain ⟨selectors, segments, rfl, rfl⟩ := exists_rest_of_readSteps hrest
    refine ⟨⟨name, selectors, hne, hnamed⟩ :: segments, ⟨List.cons_ne_nil _ _, ?_⟩, ?_⟩
    · rw [← String.toList_inj, toList_intercalate, htext]
    · simp [restSteps, Segment.steps]
  · rintro ⟨segments, ⟨hne, rfl⟩, rfl⟩
    obtain ⟨segment, segments, rfl⟩ := List.exists_cons_of_ne_nil hne
    rw [toList_intercalate, readSteps_segment, readSteps_restChars]
    simp [restSteps, Segment.steps]

theorem parse_eq_ok_iff {text : String} {path : Path} :
    parse text = .ok path ↔
      ∃ segments, IsSpelled segments text ∧ path = ⟨segments.flatMap Segment.steps, text⟩ := by
  unfold parse
  cases h : readSteps (.name []) text.toList with
  | none =>
      constructor
      · intro hp
        cases hp
      · rintro ⟨segments, hs, rfl⟩
        rw [readSteps_eq_some_iff.mpr ⟨segments, hs, rfl⟩] at h
        cases h
  | some steps =>
      constructor
      · intro hp
        obtain ⟨segments, hs, rfl⟩ := readSteps_eq_some_iff.mp h
        exact ⟨segments, hs, (Except.ok.inj hp).symm⟩
      · rintro ⟨segments, hs, rfl⟩
        rw [readSteps_eq_some_iff.mpr ⟨segments, hs, rfl⟩] at h
        rw [Option.some.inj h]

theorem parse_eq_error_iff {text : String} {error : Error} :
    parse text = .error error ↔
      (¬∃ segments, IsSpelled segments text) ∧ error = .invalidFieldPath text := by
  cases h : parse text with
  | ok path =>
      obtain ⟨segments, hs, -⟩ := parse_eq_ok_iff.mp h
      simp only [reduceCtorEq, false_iff, not_and]
      exact fun hnone => absurd ⟨segments, hs⟩ hnone
  | error found =>
      have hfound : found = .invalidFieldPath text := by
        unfold parse at h
        split at h
        · cases h
        · exact (Except.error.inj h).symm
      have hnone : ¬∃ segments, IsSpelled segments text := by
        rintro ⟨segments, hs⟩
        rw [parse_eq_ok_iff.mpr ⟨segments, hs, rfl⟩] at h
        cases h
      simp [hfound, hnone, eq_comm]

/-! ## Printing -/

def stepText : PathStep → String
  | .field name => "." ++ name
  | .index i => "[" ++ toString i.toNat ++ "]"

/-- The steps of a path one after the other; no dot stands before the first name. -/
def print : List PathStep → String
  | .field name :: rest => name ++ String.join (rest.map stepText)
  | steps => String.join (steps.map stepText)

def IsName (name : String) : Prop := name ≠ "" ∧ ∀ c ∈ name.toList, isNameChar c = true

instance : DecidablePred IsName := fun name =>
  decidable_of_iff (name ≠ "" ∧ name.toList.all isNameChar = true)
    (and_congr Iff.rfl List.all_eq_true)

/-- The decimal digits of an index, without zeros before it. -/
def Selector.ofIndex (i : UInt64) : Selector where
  digits := Nat.toDigits 10 i.toNat
  nonempty := Nat.toDigits_ne_nil
  decimal := fun _ hc => Nat.isDigit_of_mem_toDigits (by decide) (by decide) hc
  fits := by
    rw [Nat.ofDigitChars_toDigits (by decide) (by decide)]
    exact i.toNat_lt

theorem Selector.value_ofIndex (i : UInt64) : (Selector.ofIndex i).value = i := by
  rw [value, ofIndex, Nat.ofDigitChars_toDigits (by decide) (by decide), UInt64.ofNat_toNat]

theorem Selector.text_ofIndex (i : UInt64) :
    (stepText (.index i)).toList = (Selector.ofIndex i).chars := by
  rw [stepText, Nat.toString_eq_repr, Nat.repr_eq_ofList_toDigits]
  simp [Selector.ofIndex, Selector.chars]

theorem exists_printed {steps : List PathStep} (h : ∀ name, .field name ∈ steps → IsName name) :
    ∃ selectors segments, (String.join (steps.map stepText)).toList = restChars selectors segments ∧
      steps = restSteps selectors segments := by
  induction steps with
  | nil => exact ⟨[], [], rfl, rfl⟩
  | cons step steps ih =>
      obtain ⟨selectors, segments, htext, hsteps⟩ :=
        ih fun name hn => h name (List.mem_cons_of_mem _ hn)
      rw [List.map_cons, String.join_cons, String.toList_append, htext]
      cases step with
      | field name =>
          obtain ⟨hne, hnamed⟩ := h name List.mem_cons_self
          have hchars : name.toList ≠ [] := by simpa using hne
          refine ⟨[], ⟨name.toList, selectors, hchars, hnamed⟩ :: segments, ?_, ?_⟩
          · simp [stepText, restChars, Segment.chars]
          · simp [hsteps, restSteps, Segment.steps]
      | index i =>
          refine ⟨.ofIndex i :: selectors, segments, ?_, ?_⟩
          · simp [Selector.text_ofIndex, restChars]
          · simp [hsteps, restSteps, Selector.value_ofIndex]

/-- Printed steps are spelled by the grammar. -/
theorem parse_print_field {name : String} {rest : List PathStep}
    (h : ∀ other, .field other ∈ .field name :: rest → IsName other) :
    parse (print (.field name :: rest)) = .ok ⟨.field name :: rest, print (.field name :: rest)⟩ := by
  obtain ⟨hne, hnamed⟩ := h name List.mem_cons_self
  have hchars : name.toList ≠ [] := by simpa using hne
  obtain ⟨selectors, segments, htext, hsteps⟩ :=
    exists_printed fun other ho => h other (List.mem_cons_of_mem _ ho)
  rw [parse_eq_ok_iff]
  refine ⟨⟨name.toList, selectors, hchars, hnamed⟩ :: segments, ⟨List.cons_ne_nil _ _, ?_⟩, ?_⟩
  · rw [← String.toList_inj, toList_intercalate, print, String.toList_append, htext]
  · simp [hsteps, restSteps, Segment.steps]

end RecordSchema.Path
