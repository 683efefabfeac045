import Mathlib.Data.Fintype.EquivFin
import RecordSchema.Proofs.Description.Refusal

/-! Where failures are found. A failure at a token is found at the first one with which no struct
description can begin, and a missing token is missed at the end of tokens that some struct description
goes on from (`ofTokens_error_located`). -/

namespace RecordSchema.Description

/-- Some struct description begins with the tokens. -/
def Viable (front : List Token) : Prop := ∃ rest d, ofTokens (front ++ rest) = .ok (some d)

/-! ## Tokens to go on with -/

theorem Items.append {items more : List Token} {declared others : List Field}
    (h : Items items declared) (hmore : Items more others) :
    Items (items ++ more) (declared ++ others) := by
  induction h with
  | nil => exact hmore
  | semicolon hm _ ih => exact .semicolon hm ih
  | field hw hn ht _ ih => exact .field hw hn ht ih

theorem Items.not_whitespace {items : List Token} {declared : List Field}
    (h : Items items declared) : ∀ token ∈ items, token.kind ≠ .whitespace := by
  induction h with
  | nil => exact List.forall_mem_nil _
  | semicolon hm _ ih =>
      refine List.forall_mem_cons.mpr ⟨?_, ih⟩
      simp [hm]
  | field hw hn _ _ ih =>
      refine List.forall_mem_cons.mpr ⟨?_, List.forall_mem_cons.mpr ⟨?_, ih⟩⟩
      · rcases hw with hw | hw <;> simp [hw]
      · simp [hn]

theorem Describes.not_whitespace {tokens : List Token} {d : Descriptor} (h : Describes tokens d) :
    ∀ token ∈ tokens, token.kind ≠ .whitespace := by
  cases h with
  | struct hk _ hn hb hbody _ =>
      obtain ⟨items, close, trailer, rfl, hitems, hc, htrailer⟩ := hbody
      simp only [List.forall_mem_cons, List.forall_mem_append, hk, hn, hb, hc]
      refine ⟨nofun, nofun, nofun, hitems.not_whitespace, nofun, fun mark hm => ?_⟩
      rw [htrailer mark hm]
      nofun

theorem significant_eq_self {tokens : List Token} (h : ∀ token ∈ tokens, token.kind ≠ .whitespace) :
    Token.significant tokens = tokens := by
  refine List.filter_eq_self.mpr fun token hm => ?_
  simpa [TokenKind.isWhitespace] using h token hm

theorem Describes.viable {tokens : List Token} {d : Descriptor} (h : Describes tokens d) :
    Viable tokens := by
  refine ⟨[], d, ofTokens_eq_some_iff.mpr ?_⟩
  rwa [List.append_nil, significant_eq_self h.not_whitespace]

theorem Viable.left {front rest : List Token} (h : Viable (front ++ rest)) : Viable front := by
  obtain ⟨more, d, hd⟩ := h
  rw [List.append_assoc] at hd
  exact ⟨rest ++ more, d, hd⟩

/-- Nothing is described by tokens that are refused at one of them, whatever stands behind it. -/
theorem not_viable {front rest : List Token} {other : Token} {e : Error}
    (hw : ∀ token ∈ front ++ other :: rest, token.kind ≠ .whitespace)
    (h : ∀ more, Refused (front ++ other :: more) e) : ¬Viable (front ++ [other]) := by
  rintro ⟨more, d, hd⟩
  rw [List.append_cons] at hw
  have hkept := significant_eq_self (List.forall_mem_append.mp hw).1
  have herror : ofTokens (front ++ [other] ++ more) = .error e := by
    rw [ofTokens_eq_error_iff, significant_append, hkept, ← List.append_cons]
    exact h _
  cases hd.symm.trans herror

/-- There are more names than any struct has fields. -/
theorem exists_fresh (fields : List Field) : ∃ name, name ∉ fields.map Field.name := by
  obtain ⟨name, hn⟩ := Infinite.exists_notMem_finset (fields.map Field.name).toFinset
  exact ⟨name, by simpa using hn⟩

namespace Opened
variable {front : List Token} {owner : String} {declared : List Field}

theorem describes (h : Opened front owner declared) {items marks : List Token}
    {others : List Field} {close : Token} (hi : Items items others)
    (hn : ((declared ++ others).map Field.name).Nodup) (hc : close.kind = .closeBrace)
    (hm : ∀ mark ∈ marks, mark.kind = .semicolon) :
    Describes (front ++ (items ++ close :: marks)) ⟨owner, declared ++ others⟩ := by
  cases h with
  | body hk hname hb hitems _ =>
      obtain ⟨hkind, hlexeme⟩ := isStructKeyword_iff.mp hk
      refine .struct hkind hlexeme hname hb ⟨_, close, marks, ?_, hitems.append hi, hc, hm⟩ hn
      exact (List.append_assoc ..).symm

theorem nodup (h : Opened front owner declared) : (declared.map Field.name).Nodup := by
  cases h with
  | body _ _ _ _ hn => exact hn

theorem describes_closed (h : Opened front owner declared) {close : Token} {marks : List Token}
    (hc : close.kind = .closeBrace) (hm : ∀ mark ∈ marks, mark.kind = .semicolon) :
    Describes (front ++ close :: marks) ⟨owner, declared⟩ := by
  have hn : ((declared ++ []).map Field.name).Nodup := by
    rw [List.append_nil]
    exact h.nodup
  have hd := h.describes .nil hn hc hm
  rwa [List.append_nil] at hd

theorem viable (h : Opened front owner declared) : Viable front := by
  have hc : (⟨.closeBrace, "\x7d"⟩ : Token).kind = .closeBrace := rfl
  exact (h.describes_closed hc (List.forall_mem_nil _)).viable.left

/-- A field may have any name that is not taken. -/
theorem viable_type (h : Opened front owner declared) {type : Token}
    (ht : type.kind = .nativeType ∨ type.kind = .userType) : Viable (front ++ [type]) := by
  obtain ⟨fresh, hf⟩ := exists_fresh declared
  have hitems : Items [type, ⟨.fieldName, fresh⟩] [⟨fresh, fieldKind type fresh⟩] :=
    .field ht rfl (types_fieldKind type fresh) .nil
  have hn : ((declared ++ [(⟨fresh, fieldKind type fresh⟩ : Field)]).map Field.name).Nodup :=
    nodup_append_field h.nodup (mt any_name_iff.mp hf)
  have hc : (⟨.closeBrace, "\x7d"⟩ : Token).kind = .closeBrace := rfl
  have hd := h.describes hitems hn hc (List.forall_mem_nil _)
  rw [List.cons_append, List.append_cons] at hd
  exact hd.viable.left

end Opened

/-- Behind a name, a body may be opened. -/
theorem viable_name {keyword name : Token} (hk : keyword.isStructKeyword = true)
    (hn : name.kind = .fieldName) : Viable [keyword, name] := by
  have ho : Opened [keyword, name, ⟨.openBrace, "\x7b"⟩] name.lexeme [] :=
    .body hk hn rfl .nil List.nodup_nil
  exact Viable.left ho.viable

theorem viable_keyword {keyword : Token} (hk : keyword.isStructKeyword = true) :
    Viable [keyword] := by
  have hn : (⟨.fieldName, "Name"⟩ : Token).kind = .fieldName := rfl
  exact Viable.left (viable_name hk hn)

/-! ## Where tokens are refused -/

/-- A failure tells how far the tokens could be gone on with. -/
inductive Located (tokens : List Token) : Error → Prop
  | empty : tokens = [] → Located tokens .emptyDescription
  | unexpected {owner : Option String} {expected : Expected} {position : Nat}
      {front rest : List Token} {other : Token} :
      tokens = front ++ other :: rest → position = front.length → Viable front →
      ¬Viable (front ++ [other]) →
      Located tokens (.unexpectedToken owner expected other.lexeme position)
  | missing {owner : Option String} {expected : Expected} {position : Nat} :
      position = tokens.length → Viable tokens →
      Located tokens (.missingToken owner expected position)
  | duplicate {owner : String} {front rest : List Token} {name : Token} :
      tokens = front ++ name :: rest → name.kind = .fieldName → Viable front →
      ¬Viable (front ++ [name]) → Located tokens (.duplicateField owner name.lexeme)

section Wrong
variable {front rest : List Token} {other : Token}

theorem Located.of_unexpected {owner : Option String} {expected : Expected} {position : Nat}
    (hw : ∀ token ∈ front ++ other :: rest, token.kind ≠ .whitespace)
    (hp : position = front.length) (hv : Viable front)
    (h : ∀ more,
      Refused (front ++ other :: more) (.unexpectedToken owner expected other.lexeme position)) :
    Located (front ++ other :: rest) (.unexpectedToken owner expected other.lexeme position) :=
  .unexpected rfl hp hv (not_viable hw h)

theorem Located.of_duplicate {owner : String}
    (hw : ∀ token ∈ front ++ other :: rest, token.kind ≠ .whitespace)
    (hk : other.kind = .fieldName) (hv : Viable front)
    (h : ∀ more, Refused (front ++ other :: more) (.duplicateField owner other.lexeme)) :
    Located (front ++ other :: rest) (.duplicateField owner other.lexeme) :=
  .duplicate rfl hk hv (not_viable hw h)

end Wrong

theorem Headless.located {tokens : List Token} {e : Error} (h : Headless tokens e)
    (hw : ∀ token ∈ tokens, token.kind ≠ .whitespace) : Located tokens e := by
  cases h with
  | empty => exact .empty rfl
  | unnamed hk => exact .missing rfl (viable_keyword hk)
  | @misnamed keyword other rest hk ho =>
      refine .of_unexpected hw rfl (viable_keyword hk) fun more => ?_
      exact .header (.misnamed hk ho)
  | unopened hk hn => exact .missing rfl (viable_name hk hn)
  | @misopened keyword name other rest hk hn ho =>
      refine .of_unexpected hw rfl (viable_name hk hn) fun more => ?_
      exact .header (.misopened hk hn ho)

-- `Stuck` looks at no token but the ones up to the wrong one, so what stands behind that one may be
-- replaced.
theorem Stuck.located {front rest : List Token} {owner : String} {declared : List Field}
    {e : Error} (h : Stuck owner declared front.length rest e)
    (ho : Opened front owner declared) (hw : ∀ token ∈ front ++ rest, token.kind ≠ .whitespace) :
    Located (front ++ rest) e := by
  have hbehind : ∀ token, front.length + 1 = (front ++ [token]).length := by
    intro token
    rw [List.length_append, List.length_singleton]
  cases h with
  | unclosed =>
      rw [List.append_nil]
      exact .missing rfl ho.viable
  | unnamed hk => exact .missing (hbehind _) (ho.viable_type hk)
  | misnamed hk hother =>
      rw [List.append_cons] at hw ⊢
      refine .of_unexpected hw (hbehind _) (ho.viable_type hk) fun more => ?_
      rw [← List.append_cons]
      exact .body ho (.misnamed hk hother)
  | repeated hk hn hs =>
      rw [List.append_cons] at hw ⊢
      refine .of_duplicate hw hn (ho.viable_type hk) fun more => ?_
      rw [← List.append_cons]
      exact .body ho (.repeated hk hn hs)
  | untyped hk => exact .of_unexpected hw rfl ho.viable fun more => .body ho (.untyped hk)
  | @trailing close other marks rest hc hm hother =>
      have hsplit : front ++ close :: (marks ++ other :: rest) =
          (front ++ close :: marks) ++ other :: rest := by
        rw [List.append_assoc, List.cons_append]
      rw [hsplit] at hw
      rw [hsplit, ← length_append_close]
      exact .of_unexpected hw rfl (ho.describes_closed hc hm).viable
        (ho.refused_trailing hc hm hother)

theorem Refused.located {tokens : List Token} {e : Error} (h : Refused tokens e)
    (hw : ∀ token ∈ tokens, token.kind ≠ .whitespace) : Located tokens e := by
  cases h with
  | header hh => exact hh.located hw
  | body ho hs => exact hs.located ho hw

/-- Failures are found at the first wrong token, among those that the grammar looks at. Some struct
description begins with the tokens before the reported position, and none with these and the one that
stands there. A token is missing only at their end, and some struct description begins with all of
them. A duplicate is found at the second use of its name, up to which some description goes, and
behind which none does. -/
theorem ofTokens_error_located (tokens : List Token) :
    (∀ owner expected got position,
      ofTokens tokens = .error (.unexpectedToken owner expected got position) →
      (∃ token, (Token.significant tokens)[position]? = some token ∧ token.lexeme = got) ∧
      Viable ((Token.significant tokens).take position) ∧
      ¬Viable ((Token.significant tokens).take (position + 1))) ∧
    (∀ owner expected position, ofTokens tokens = .error (.missingToken owner expected position) →
      position = (Token.significant tokens).length ∧ Viable (Token.significant tokens)) ∧
    ∀ owner field, ofTokens tokens = .error (.duplicateField owner field) →
      ∃ front name rest, Token.significant tokens = front ++ name :: rest ∧
        name.kind = .fieldName ∧ name.lexeme = field ∧
        Viable front ∧ ¬Viable (front ++ [name]) := by
  have hlocated : ∀ e, ofTokens tokens = .error e → Located (Token.significant tokens) e :=
    fun e he => (ofTokens_eq_error_iff.mp he).located (kind_of_mem_significant [] rfl)
  refine ⟨?_, ?_, ?_⟩
  · intro owner expected got position he
    cases hlocated _ he with
    | @unexpected _ _ _ front rest other hS hposition hv hn =>
        subst hposition
        have hhere : (front ++ other :: rest)[front.length]? = some other := by
          rw [List.getElem?_append_right (Nat.le_refl _), Nat.sub_self]
          rfl
        have hupto : (front ++ other :: rest).take (front.length + 1) = front ++ [other] := by
          rw [List.append_cons]
          exact List.take_left' List.length_append
        rw [hS, hupto, List.take_left]
        exact ⟨⟨other, hhere, rfl⟩, hv, hn⟩
  · intro owner expected position he
    cases hlocated _ he with
    | missing hposition hv => exact ⟨hposition, hv⟩
  · intro owner field he
    cases hlocated _ he with
    | duplicate hS hk hv hn => exact ⟨_, _, _, hS, hk, rfl, hv, hn⟩

end RecordSchema.Description
