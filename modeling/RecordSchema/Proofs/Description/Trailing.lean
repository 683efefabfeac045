import RecordSchema.Proofs.Description.Layout
import RecordSchema.Proofs.Description.Refusal
import RecordSchema.Proofs.Token.Resume

/-! A description with one more word behind it. The grammar has no place for the word, but the lexer
drops a type word that the text ends in, and then the description compiles as it did without it
(`stray_word_accepted`). The word is refused only if it stands apart from another stray word
(`parse_append_word`). -/

namespace RecordSchema.Description
open Lexer (EndsInMark IsMark IsWord ResumesWord markTokens nameToken typeToken)

/-! ## The end of a description -/

theorem Describes.endsInMark {tokens : List Token} {d : Descriptor}
    (h : Describes (Token.significant tokens) d) : EndsInMark tokens := by
  obtain ⟨front, close, marks, hS, _, hclose, hmarks⟩ := h.opened
  obtain ⟨mark, hlast⟩ : ∃ mark, (close :: marks).getLast? = some mark :=
    ⟨_, List.getLast?_eq_some_getLast (List.cons_ne_nil close marks)⟩
  refine ⟨mark, ?_, ?_⟩
  · rw [hS, List.getLast?_append, hlast, Option.some_or]
  · rcases List.mem_cons.mp (List.mem_of_getLast? hlast) with rfl | hm
    · exact .inl hclose
    · exact .inr (hmarks _ hm)

/-- More semicolons may follow a description. -/
theorem Describes.append {significant marks : List Token} {d : Descriptor}
    (h : Describes significant d) (hm : ∀ mark ∈ marks, mark.kind = .semicolon) :
    Describes (significant ++ marks) d := by
  cases h with
  | struct hk hs hn hb hbody hnodup =>
      obtain ⟨items, close, trailer, rfl, hitems, hclose, htrailer⟩ := hbody
      refine .struct hk hs hn hb ⟨items, close, trailer ++ marks, ?_, hitems, hclose, ?_⟩ hnodup
      · show (items ++ close :: trailer) ++ marks = _
        rw [List.append_assoc, List.cons_append]
      · exact List.forall_mem_append.mpr ⟨htrailer, hm⟩

/-- Any other token behind a description is refused where it stands. -/
theorem ofTokens_append_error {tokens more rest : List Token} {token : Token} {d : Descriptor}
    (h : Describes (Token.significant tokens) d) (hm : Token.significant more = token :: rest)
    (hk : token.kind ≠ .semicolon) :
    ofTokens (tokens ++ more) =
      .error (.unexpectedToken (some d.name) .endOfDescription token.lexeme
        (Token.significant tokens).length) := by
  obtain ⟨front, close, marks, hS, ho, hclose, hmarks⟩ := h.opened
  rw [ofTokens_eq_error_iff, significant_append, hm, hS]
  exact ho.refused_trailing hclose hmarks hk rest

/-! ## A stray word -/

/-- A word behind a description is refused if and only if it goes on after another word that the
description's text ends in. Otherwise nothing of it is seen. -/
theorem parse_append_word {source gap word : String} {d : Descriptor}
    (hs : parse source = .ok (some d)) (hg : IsGap gap) (hw : IsWord word) :
    (ResumesWord source gap → ∃ got position, parse (source ++ gap ++ word) =
      .error (.unexpectedToken (some d.name) .endOfDescription got position)) ∧
    (¬ResumesWord source gap → parse (source ++ gap ++ word) = .ok (some d)) := by
  obtain ⟨tokens, ht, htokens⟩ := bind_eq_ok.mp hs
  have hd := ofTokens_eq_some_iff.mp htokens
  obtain ⟨hresumed, hdropped⟩ :=
    Lexer.tokenize_append_word ht hd.endsInMark hg.isMark hw
  constructor
  · intro h
    obtain ⟨begun, spaces, hspaces, hall⟩ := hresumed h
    have hkept : Token.significant [typeToken begun] = [typeToken begun] := by
      rcases isType_typeToken begun with hk | hk <;>
        simp [Token.significant, TokenKind.isWhitespace, hk]
    have hmore : Token.significant (typeToken begun :: (spaces ++ [nameToken word])) =
        [typeToken begun, nameToken word] := by
      rw [← List.singleton_append, significant_append, significant_append, hkept, hspaces]
      rfl
    have hkind : (typeToken begun).kind ≠ .semicolon := by
      rcases isType_typeToken begun with hk | hk <;> simp [hk]
    rw [parse, hall, ok_bind, ofTokens_append_error hd hmore hkind]
    exact ⟨_, _, rfl⟩
  · intro h
    obtain ⟨marks, hmarks, hall⟩ := hdropped h
    have hsemicolons : ∀ mark ∈ Token.significant marks, mark.kind = .semicolon := by
      rcases hmarks with rfl | rfl
      · exact List.forall_mem_nil _
      · exact significant_gap hg
    rw [parse, hall, ok_bind]
    refine ofTokens_eq_some_iff.mpr ?_
    rw [significant_append]
    exact hd.append hsemicolons

/-- A word that goes on after the word `x`, behind white space. -/
theorem parse_append_word_apart :
    ResumesWord "struct A \x7b\x7d;x" " \n" ∧
      ∃ got position, parse ("struct A \x7b\x7d;x" ++ " \n" ++ "y") =
        .error (.unexpectedToken (some "A") .endOfDescription got position) := by
  have hs : parse "struct A \x7b\x7d;x" = .ok (some ⟨"A", []⟩) := by rfl
  have hg : IsGap " \n" := by decide
  have hw : IsWord "y" := by decide
  have hresumes : ResumesWord "struct A \x7b\x7d;x" " \n" := ⟨by decide, by decide⟩
  exact ⟨hresumes, (parse_append_word hs hg hw).1 hresumes⟩

/-- A description is accepted with a stray word behind it. -/
theorem stray_word_accepted :
    ¬∀ (source gap word : String) (d : Descriptor), parse source = .ok (some d) → IsGap gap →
      IsWord word → ∃ e, parse (source ++ gap ++ word) = .error e := by
  intro h
  have hs : parse "struct A \x7b\x7d;" = .ok (some ⟨"A", []⟩) := by rfl
  have hall : parse ("struct A \x7b\x7d;" ++ "" ++ "x") = .ok (some ⟨"A", []⟩) := by rfl
  obtain ⟨e, he⟩ := h _ "" "x" _ hs (by decide) (by decide)
  cases hall.symm.trans he

end RecordSchema.Description
