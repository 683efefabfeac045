import RecordSchema.Proofs.Token.Alternation
import RecordSchema.Proofs.Description.Refusal

/-! Failures that no text has. Types and names take turns among the tokens of a text, so nothing else
stands where a name is asked for, and only an opening brace where a type is (`parse_shape`). -/

namespace RecordSchema.Description

open Lexer

/-- Behind tokens that end in no type word, items end in none either. -/
theorem Items.ends {items : List Token} {declared : List Field} (h : Items items declared)
    {before : Token} (hb : before.kind.isType = false) :
    ∃ last ∈ (before :: items).getLast?, last.kind.isType = false := by
  induction h generalizing before with
  | nil => exact ⟨before, rfl, hb⟩
  | @semicolon mark items declared hm _ ih =>
      rw [List.getLast?_cons_cons]
      apply ih
      rw [hm]
      rfl
  | @field word name kind items declared _ hn _ _ ih =>
      rw [List.getLast?_cons_cons, List.getLast?_cons_cons]
      apply ih
      rw [hn]
      rfl

theorem Opened.ends {front : List Token} {owner : String} {declared : List Field}
    (h : Opened front owner declared) : ∃ last ∈ front.getLast?, last.kind.isType = false := by
  cases h with
  | body _ _ hb hitems _ =>
      rw [List.getLast?_cons_cons, List.getLast?_cons_cons]
      apply hitems.ends
      rw [hb]
      rfl

theorem isType_iff {kind : TokenKind} :
    kind.isType = true ↔ kind = .nativeType ∨ kind = .userType := by
  cases kind <;> decide

theorem isType_of_isStructKeyword {token : Token} (h : token.isStructKeyword = true) :
    token.kind.isType = true := isType_iff.mpr (.inl (isStructKeyword_iff.mp h).1)

section Alternating
variable {owner : Option String} {expected : Expected} {got : String} {position : Nat}

theorem Headless.expects {tokens : List Token}
    (h : Headless tokens (.unexpectedToken owner expected got position))
    (hc : tokens.IsChain Follows) : expected = .openBrace := by
  cases h with
  | misnamed hk ho =>
      have hfollows := (List.isChain_cons_cons.mp hc).1
      exact absurd (hfollows.mp (isType_of_isStructKeyword hk)) ho
  | misopened => rfl

theorem Stuck.expects {struct : String} {seen : List Field} {start : Nat} {tokens : List Token}
    (h : Stuck struct seen start tokens (.unexpectedToken owner expected got position))
    (hc : tokens.IsChain Follows) (hf : ∀ first ∈ tokens.head?, first.kind ≠ .fieldName)
    (hr : ∀ token ∈ tokens, token.Regular) :
    expected = .endOfDescription ∨ expected = .fieldType ∧ got = "\x7b" := by
  cases h with
  | misnamed hk ho =>
      have hfollows := (List.isChain_cons_cons.mp hc).1
      exact absurd (hfollows.mp (isType_iff.mpr hk)) ho
  | @untyped other rest hk =>
      rcases hk with hk | hk
      · exact absurd hk (hf other rfl)
      · have hother := hr other List.mem_cons_self
        rw [Token.Regular, hk] at hother
        exact .inr ⟨rfl, hother⟩
  | trailing => exact .inl rfl

theorem Refused.expects {tokens : List Token}
    (h : Refused tokens (.unexpectedToken owner expected got position))
    (hc : tokens.IsChain Follows) (hr : ∀ token ∈ tokens, token.Regular) :
    expected = .openBrace ∨ expected = .endOfDescription ∨
      expected = .fieldType ∧ got = "\x7b" := by
  cases h with
  | header hh => exact .inl (hh.expects hc)
  | body ho hs =>
      obtain ⟨-, hrest, hbetween⟩ := List.isChain_append.mp hc
      obtain ⟨last, hlast, htype⟩ := ho.ends
      refine .inr (hs.expects hrest ?_ (List.forall_mem_append.mp hr).2)
      intro first hfirst hname
      have hlasttype := (hbetween last hlast first hfirst).mpr hname
      rw [htype] at hlasttype
      cases hlasttype

end Alternating

/-- In the tokens of any text each lexeme is of the sort that its kind promises, and types and names
take turns. So a description that is read from a text never fails for a token that should have been
its name or a field's, and for one that should have been a type only at an opening brace. -/
theorem parse_shape (text : String) :
    ∃ tokens, tokenize text = .ok tokens ∧ (∀ token ∈ tokens, token.Regular) ∧
      Token.Alternates (Token.significant tokens) ∧
      (∀ owner got position,
        parse text ≠ .error (.unexpectedToken owner .structName got position)) ∧
      (∀ owner got position,
        parse text ≠ .error (.unexpectedToken owner .fieldName got position)) ∧
      ∀ owner got position,
        parse text = .error (.unexpectedToken owner .fieldType got position) → got = "\x7b" := by
  obtain ⟨tokens, ht⟩ := exists_tokenize text
  obtain ⟨stage, hstream, -⟩ := tokenize_stream ht
  have halternating := hstream.alternating
  have hregular : ∀ token ∈ tokens, token.Regular :=
    fun token hm => (tokenize_lexed ht token hm).regular
  have hexpected : ∀ owner expected got position,
      parse text = .error (.unexpectedToken owner expected got position) →
      expected = .openBrace ∨ expected = .endOfDescription ∨
        expected = .fieldType ∧ got = "\x7b" := by
    intro owner expected got position h
    rw [parse, ht] at h
    exact (ofTokens_eq_error_iff.mp h).expects halternating.chain
      fun token hm => hregular token (List.mem_filter.mp hm).1
  refine ⟨tokens, ht, hregular, halternating.alternates, ?_, ?_, ?_⟩
  · intro owner got position h
    simpa using hexpected _ _ _ _ h
  · intro owner got position h
    simpa using hexpected _ _ _ _ h
  · intro owner got position h
    simpa using hexpected _ _ _ _ h

example : parse "struct A \x7b \x7b \x7d" =
    .error (.unexpectedToken (some "A") .fieldType "\x7b" 3) := by rfl

end RecordSchema.Description
