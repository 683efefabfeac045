import RecordSchema.Proofs.Description.Grammar

/-! How descriptions are refused. Every failure of the parser is told by the tokens: those that it
has read, and the ones that it cannot go on with (`ofTokens_eq_error_iff`). -/

namespace RecordSchema.Description

/-- The tokens behind the fields `seen` do not go on as a body does. The first of them stands at
`position`. -/
inductive Stuck (owner : String) (seen : List Field) (position : Nat) : List Token → Error → Prop
  | unclosed : Stuck owner seen position [] (.missingToken (some owner) .closeBrace position)
  | unnamed {type : Token} : type.kind = .nativeType ∨ type.kind = .userType →
      Stuck owner seen position [type] (.missingToken (some owner) .fieldName (position + 1))
  | misnamed {type other : Token} {rest : List Token} :
      type.kind = .nativeType ∨ type.kind = .userType → other.kind ≠ .fieldName →
      Stuck owner seen position (type :: other :: rest)
        (.unexpectedToken (some owner) .fieldName other.lexeme (position + 1))
  | repeated {type name : Token} {rest : List Token} :
      type.kind = .nativeType ∨ type.kind = .userType → name.kind = .fieldName →
      name.lexeme ∈ seen.map Field.name →
      Stuck owner seen position (type :: name :: rest) (.duplicateField owner name.lexeme)
  | untyped {other : Token} {rest : List Token} :
      other.kind = .fieldName ∨ other.kind = .openBrace →
      Stuck owner seen position (other :: rest)
        (.unexpectedToken (some owner) .fieldType other.lexeme position)
  | trailing {close other : Token} {marks rest : List Token} :
      close.kind = .closeBrace → (∀ mark ∈ marks, mark.kind = .semicolon) →
      other.kind ≠ .semicolon →
      Stuck owner seen position (close :: (marks ++ other :: rest))
        (.unexpectedToken (some owner) .endOfDescription other.lexeme
          (position + 1 + marks.length))

/-- The tokens do not open a body, though they do not set out to describe something else. -/
inductive Headless : List Token → Error → Prop
  | empty : Headless [] .emptyDescription
  | unnamed {keyword : Token} : keyword.isStructKeyword = true →
      Headless [keyword] (.missingToken none .structName 1)
  | misnamed {keyword other : Token} {rest : List Token} :
      keyword.isStructKeyword = true → other.kind ≠ .fieldName →
      Headless (keyword :: other :: rest) (.unexpectedToken none .structName other.lexeme 1)
  | unopened {keyword name : Token} :
      keyword.isStructKeyword = true → name.kind = .fieldName →
      Headless [keyword, name] (.missingToken (some name.lexeme) .openBrace 2)
  | misopened {keyword name other : Token} {rest : List Token} :
      keyword.isStructKeyword = true → name.kind = .fieldName → other.kind ≠ .openBrace →
      Headless (keyword :: name :: other :: rest)
        (.unexpectedToken (some name.lexeme) .openBrace other.lexeme 2)

/-- The tokens are a header and items behind it, with names of their own. -/
inductive Opened : List Token → String → List Field → Prop
  | body {keyword name brace : Token} {items : List Token} {declared : List Field} :
      keyword.isStructKeyword = true → name.kind = .fieldName → brace.kind = .openBrace →
      Items items declared → (declared.map Field.name).Nodup →
      Opened (keyword :: name :: brace :: items) name.lexeme declared

inductive Refused : List Token → Error → Prop
  | header {tokens : List Token} {e : Error} : Headless tokens e → Refused tokens e
  | body {front rest : List Token} {owner : String} {declared : List Field} {e : Error} :
      Opened front owner declared → Stuck owner declared front.length rest e →
      Refused (front ++ rest) e

theorem length_append_close (front : List Token) (close : Token) (marks : List Token) :
    (front ++ close :: marks).length = front.length + 1 + marks.length := by
  rw [List.length_append, List.length_cons, Nat.add_assoc, Nat.add_comm 1]

/-- Once the body is closed, any token but a semicolon is refused where it stands. -/
theorem Opened.refused_trailing {front marks : List Token} {owner : String} {declared : List Field}
    {close other : Token} (h : Opened front owner declared) (hc : close.kind = .closeBrace)
    (hm : ∀ mark ∈ marks, mark.kind = .semicolon) (ho : other.kind ≠ .semicolon)
    (rest : List Token) :
    Refused ((front ++ close :: marks) ++ other :: rest)
      (.unexpectedToken (some owner) .endOfDescription other.lexeme
        (front ++ close :: marks).length) := by
  rw [length_append_close, List.append_assoc, List.cons_append]
  exact .body h (.trailing hc hm ho)

theorem Describes.opened {tokens : List Token} {d : Descriptor} (h : Describes tokens d) :
    ∃ front close marks, tokens = front ++ close :: marks ∧ Opened front d.name d.fields ∧
      close.kind = .closeBrace ∧ ∀ mark ∈ marks, mark.kind = .semicolon := by
  cases h with
  | struct hk hs hn hb hbody hdistinct =>
      obtain ⟨items, close, marks, rfl, hitems, hclose, hmarks⟩ := hbody
      have ho := Opened.body (isStructKeyword_iff.mpr ⟨hk, hs⟩) hn hb hitems hdistinct
      exact ⟨_, close, marks, rfl, ho, hclose, hmarks⟩

/-! ## The body -/

/-- Items with names of their own, and behind them tokens that do not go on. -/
def Fails (owner : String) (seen : List Field) (position : Nat) (tokens : List Token)
    (e : Error) : Prop :=
  ∃ items declared rest, tokens = items ++ rest ∧ Items items declared ∧
    ((seen ++ declared).map Field.name).Nodup ∧
    Stuck owner (seen ++ declared) (position + items.length) rest e

theorem trailer_eq_error_iff {owner : String} {position : Nat} {tokens : List Token} {e : Error} :
    trailer owner position tokens = .error e ↔
      ∃ marks other rest, tokens = marks ++ other :: rest ∧
        (∀ mark ∈ marks, mark.kind = .semicolon) ∧ other.kind ≠ .semicolon ∧
        e = .unexpectedToken (some owner) .endOfDescription other.lexeme
          (position + marks.length) := by
  constructor
  · intro h
    induction tokens generalizing position with
    | nil => cases h
    | cons token rest ih =>
        rw [trailer] at h
        by_cases hk : token.kind = .semicolon
        · rw [if_pos hk] at h
          obtain ⟨marks, other, behind, rfl, hm, ho, rfl⟩ := ih h
          refine ⟨token :: marks, other, behind, rfl, List.forall_mem_cons.mpr ⟨hk, hm⟩, ho, ?_⟩
          rw [List.length_cons, Nat.add_assoc, Nat.add_comm 1]
        · rw [if_neg hk] at h
          exact ⟨[], token, rest, rfl, List.forall_mem_nil _, hk, (Except.error.inj h).symm⟩
  · rintro ⟨marks, other, rest, rfl, hm, ho, rfl⟩
    induction marks generalizing position with
    | nil => exact if_neg ho
    | cons mark marks ih =>
        obtain ⟨hfirst, hmore⟩ := List.forall_mem_cons.mp hm
        rw [List.cons_append, trailer, if_pos hfirst, ih hmore, List.length_cons, Nat.add_assoc,
          Nat.add_comm 1]

theorem fields_of_stuck {owner : String} {seen : List Field} {position : Nat}
    {tokens : List Token} {e : Error} (h : Stuck owner seen position tokens e) :
    fields owner seen position tokens = .error e := by
  cases h with
  | unclosed => rw [fields]
  | unnamed hk => rcases hk with hk | hk <;> rw [fields, hk]
  | misnamed hk ho =>
      rcases hk with hk | hk <;>
      · rw [fields, hk]
        simp only [if_neg ho]
  | repeated hk hn hs =>
      have hany := any_name_iff.mpr hs
      rcases hk with hk | hk <;>
      · rw [fields, hk]
        simp only [if_pos hn, if_pos hany]
  | untyped hk =>
      rw [fields.eq_def]
      rcases hk with hk | hk <;> simp only [hk]
  | @trailing close other marks rest hc hm ho =>
      have ht : trailer owner (position + 1) (marks ++ other :: rest) = .error _ :=
        trailer_eq_error_iff.mpr ⟨marks, other, rest, rfl, hm, ho, rfl⟩
      rw [fields_close hc, ht, error_bind]

theorem fields_of_fails {owner : String} {seen : List Field} {position : Nat}
    {tokens : List Token} {e : Error} (h : Fails owner seen position tokens e) :
    fields owner seen position tokens = .error e := by
  obtain ⟨items, declared, rest, rfl, hitems, hn, hstuck⟩ := h
  rw [fields_items hitems hn, fields_of_stuck hstuck]

theorem Stuck.fails {owner : String} {seen : List Field} {position : Nat} {tokens : List Token}
    {e : Error} (h : Stuck owner seen position tokens e) (hs : (seen.map Field.name).Nodup) :
    Fails owner seen position tokens e := by
  refine ⟨[], [], tokens, rfl, .nil, ?_, ?_⟩
  · rwa [List.append_nil]
  · rwa [List.append_nil]

section Behind
variable {owner : String} {seen : List Field} {position : Nat} {rest : List Token} {e : Error}

theorem Fails.semicolon {mark : Token} (hm : mark.kind = .semicolon)
    (h : Fails owner seen (position + 1) rest e) : Fails owner seen position (mark :: rest) e := by
  obtain ⟨items, declared, behind, rfl, hitems, hn, hstuck⟩ := h
  refine ⟨mark :: items, declared, behind, rfl, .semicolon hm hitems, hn, ?_⟩
  rwa [List.length_cons, Nat.add_comm items.length, ← Nat.add_assoc]

theorem Fails.field {word name : Token} (hw : word.kind = .nativeType ∨ word.kind = .userType)
    (hn : name.kind = .fieldName)
    (h : Fails owner (seen ++ [⟨name.lexeme, fieldKind word name.lexeme⟩]) (position + 2) rest e) :
    Fails owner seen position (word :: name :: rest) e := by
  obtain ⟨items, declared, behind, rfl, hitems, hdistinct, hstuck⟩ := h
  have htypes := types_fieldKind word name.lexeme
  rw [List.append_assoc] at hdistinct hstuck
  refine ⟨word :: name :: items, _, behind, rfl, .field hw hn htypes hitems, hdistinct, ?_⟩
  rwa [List.length_cons, List.length_cons, Nat.add_assoc, Nat.add_comm 1, Nat.add_comm items.length,
    ← Nat.add_assoc]

end Behind

-- The cases are the parser's branches, as they are for a body that can be read.
theorem fails_of_fields {owner : String} {seen : List Field} {position : Nat} {tokens : List Token}
    {e : Error} (hw : ∀ token ∈ tokens, token.kind ≠ .whitespace)
    (hs : (seen.map Field.name).Nodup) (h : fields owner seen position tokens = .error e) :
    Fails owner seen position tokens e := by
  fun_induction fields owner seen position tokens with
  | case1 => exact Except.error.inj h ▸ Stuck.unclosed.fails hs
  | case2 seen position close rest hc =>
      rcases bind_eq_error.mp h with ht | ⟨_, _, hr⟩
      · obtain ⟨marks, other, behind, rfl, hm, ho, rfl⟩ := trailer_eq_error_iff.mp ht
        exact (Stuck.trailing hc hm ho).fails hs
      · cases hr
  | case3 seen position mark rest hm ih =>
      exact (ih (List.forall_mem_cons.mp hw).2 hs h).semicolon hm
  | case4 _ _ space _ hk => exact absurd hk (hw space List.mem_cons_self)
  | case5 _ _ _ hk => exact Except.error.inj h ▸ (Stuck.unnamed (.inl hk)).fails hs
  | case6 _ _ _ hk _ _ hn hany =>
      exact Except.error.inj h ▸ (Stuck.repeated (.inl hk) hn (any_name_iff.mp hany)).fails hs
  | case7 _ _ _ hk _ _ hn hany ih =>
      have hrest := (List.forall_mem_cons.mp (List.forall_mem_cons.mp hw).2).2
      exact (ih hrest (nodup_append_field hs hany) h).field (.inl hk) hn
  | case8 _ _ _ hk _ _ ho => exact Except.error.inj h ▸ (Stuck.misnamed (.inl hk) ho).fails hs
  | case9 _ _ _ hk => exact Except.error.inj h ▸ (Stuck.unnamed (.inr hk)).fails hs
  | case10 _ _ _ hk _ _ hn hany =>
      exact Except.error.inj h ▸ (Stuck.repeated (.inr hk) hn (any_name_iff.mp hany)).fails hs
  | case11 _ _ _ hk _ _ hn hany ih =>
      have hrest := (List.forall_mem_cons.mp (List.forall_mem_cons.mp hw).2).2
      exact (ih hrest (nodup_append_field hs hany) h).field (.inr hk) hn
  | case12 _ _ _ hk _ _ ho => exact Except.error.inj h ▸ (Stuck.misnamed (.inr hk) ho).fails hs
  | case13 _ _ _ _ hk => exact Except.error.inj h ▸ (Stuck.untyped (.inl hk)).fails hs
  | case14 _ _ _ _ hk => exact Except.error.inj h ▸ (Stuck.untyped (.inr hk)).fails hs

theorem body_eq_error_iff {name : String} {tokens : List Token} {e : Error}
    (hw : ∀ token ∈ tokens, token.kind ≠ .whitespace) :
    body name tokens = .error e ↔ Fails name [] bodyPosition tokens e := by
  have hbody : body name tokens = .error e ↔ fields name [] bodyPosition tokens = .error e := by
    rw [body, bind_eq_error, or_iff_left]
    rintro ⟨_, _, hr⟩
    cases hr
  rw [hbody]
  exact ⟨fails_of_fields hw List.nodup_nil, fields_of_fails⟩

/-! ## The whole description -/

theorem expect_eq_error_iff {kind : TokenKind} {owner : Option String} {expected : Expected}
    {position : Nat} {tokens : List Token} {e : Error} :
    expect kind owner expected position tokens = .error e ↔
      (tokens = [] ∧ e = .missingToken owner expected position) ∨
        ∃ other rest, tokens = other :: rest ∧ other.kind ≠ kind ∧
          e = .unexpectedToken owner expected other.lexeme position := by
  cases tokens with
  | nil => simp [expect, eq_comm]
  | cons token rest =>
      rw [expect]
      by_cases hk : token.kind = kind
      · simp [hk]
      · rw [if_neg hk]
        constructor
        · intro h
          exact .inr ⟨token, rest, rfl, hk, (Except.error.inj h).symm⟩
        · rintro (⟨hnil, _⟩ | ⟨_, _, hcons, _, rfl⟩)
          · cases hnil
          · rw [(List.cons.inj hcons).1]

theorem header_eq_error_iff {tokens : List Token} {e : Error} :
    header tokens = .error e ↔ Headless tokens e := by
  constructor
  · intro h
    cases tokens with
    | nil => exact Except.error.inj h ▸ .empty
    | cons keyword rest =>
        rw [header] at h
        split at h
        · rename_i hk
          rcases bind_eq_error.mp h with hname | ⟨⟨name, behind⟩, hname, h⟩
          · rcases expect_eq_error_iff.mp hname with ⟨rfl, rfl⟩ | ⟨other, behind, rfl, ho, rfl⟩
            · exact .unnamed hk
            · exact .misnamed hk ho
          · obtain ⟨name, rfl, hn, rfl⟩ := expect_eq_ok_iff.mp hname
            rcases bind_eq_error.mp h with hbrace | ⟨_, _, h⟩
            · rcases expect_eq_error_iff.mp hbrace with ⟨rfl, rfl⟩ | ⟨other, rest, rfl, ho, rfl⟩
              · exact .unopened hk hn
              · exact .misopened hk hn ho
            · cases h
        · cases h
  · intro h
    cases h with
    | empty => rfl
    | unnamed hk =>
        rw [header, if_pos hk]
        rfl
    | misnamed hk ho =>
        rw [header, if_pos hk, expect_eq_error_iff.mpr (.inr ⟨_, _, rfl, ho, rfl⟩), error_bind]
    | unopened hk hn =>
        rw [header, if_pos hk, expect_eq_ok_iff.mpr ⟨_, rfl, hn, rfl⟩, ok_bind]
        rfl
    | misopened hk hn ho =>
        rw [header, if_pos hk, expect_eq_ok_iff.mpr ⟨_, rfl, hn, rfl⟩, ok_bind]
        simp only []
        rw [expect_eq_error_iff.mpr (.inr ⟨_, _, rfl, ho, rfl⟩), error_bind]

/-- A description fails exactly as its tokens are refused. -/
theorem ofTokens_eq_error_iff {tokens : List Token} {e : Error} :
    ofTokens tokens = .error e ↔ Refused (Token.significant tokens) e := by
  constructor
  · intro h
    rcases bind_eq_error.mp h with hheader | ⟨opened, ho, h⟩
    · exact .header (header_eq_error_iff.mp hheader)
    · cases opened with
      | none => cases h
      | some found =>
          obtain ⟨declared, rest⟩ := found
          obtain ⟨keyword, name, brace, ht, hk, ⟨hn, rfl⟩, hb⟩ := header_eq_some_iff.mp ho
          have hw := kind_of_mem_significant [keyword, name, brace] ht
          obtain ⟨items, declared, behind, rfl, hitems, hdistinct, hstuck⟩ :=
            (body_eq_error_iff hw).mp (map_eq_error.mp h)
          have hopened := Opened.body (isStructKeyword_iff.mpr hk) hn hb hitems hdistinct
          rw [Nat.add_comm] at hstuck
          rw [ht]
          exact .body hopened hstuck
  · intro h
    generalize hS : Token.significant tokens = significant at h
    cases h with
    | header hh => rw [ofTokens, hS, header_eq_error_iff.mpr hh, error_bind]
    | @body front rest owner declared e hopened hstuck =>
        cases hopened with
        | @body keyword name brace items _ hk hn hb hitems hdistinct =>
            have ho : header (keyword :: name :: brace :: (items ++ rest)) =
                .ok (some (name.lexeme, items ++ rest)) := header_eq_some_iff.mpr
              ⟨keyword, name, brace, rfl, isStructKeyword_iff.mp hk, ⟨hn, rfl⟩, hb⟩
            have hw := kind_of_mem_significant [keyword, name, brace] hS
            have hposition : (keyword :: name :: brace :: items).length =
                bodyPosition + items.length := Nat.add_comm items.length bodyPosition
            rw [hposition] at hstuck
            have hf : Fails name.lexeme [] bodyPosition (items ++ rest) e :=
              ⟨items, declared, rest, rfl, hitems, hdistinct, hstuck⟩
            rw [ofTokens, hS, List.cons_append, List.cons_append, List.cons_append, ho, ok_bind]
            exact map_eq_error.mpr ((body_eq_error_iff hw).mpr hf)

end RecordSchema.Description
