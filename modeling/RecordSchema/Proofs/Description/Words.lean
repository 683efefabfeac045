import RecordSchema.Proofs.Description.Layout
import RecordSchema.Proofs.Token.Words

/-! The words of a descriptor and the description that it was compiled from. Each of them is a word
of the description's tokens, and so the letters and digits of a stretch of its text
(`words_of_stretches`); other characters within the stretch are lost (`broken_words_joined`). All that
compiles can be described again (`writable_of_parse`). -/

namespace RecordSchema

/-- Every name and type that a descriptor mentions. -/
def Descriptor.words (d : Descriptor) : List String :=
  d.name :: d.fields.flatMap fun field => field.name :: field.target?.toList

namespace Description
open Lexer (IsWord Lexed StandIn Stretch isWordKind isWordKind_of_type nameToken typeToken wordsOf)

/-! ## Words of the description -/

theorem Types.target {word : Token} {field target : String} {kind : FieldKind}
    (h : Types word field kind) (ht : kind = .reference target) :
    target = field ∨ target = word.lexeme := by
  cases h with
  | struct _ => exact .inl (FieldKind.reference.inj ht).symm
  | native _ _ _ => cases ht
  | other _ _ => exact .inr (FieldKind.reference.inj ht).symm

theorem Items.words {items : List Token} {declared : List Field} (h : Items items declared) :
    ∀ field ∈ declared, ∀ word ∈ field.name :: field.target?.toList,
      ∃ token ∈ items, isWordKind token.kind = true ∧ token.lexeme = word := by
  induction h with
  | nil => exact List.forall_mem_nil _
  | semicolon _ _ ih =>
      intro field hf word hw
      obtain ⟨token, hm, ht⟩ := ih field hf word hw
      exact ⟨token, List.mem_cons_of_mem _ hm, ht⟩
  | @field type name kind items declared hk hn ht _ ih =>
      have hname : isWordKind name.kind = true := by
        rw [hn]
        rfl
      refine List.forall_mem_cons.mpr ⟨fun word hw => ?_, fun field hf word hw => ?_⟩
      · rcases List.mem_cons.mp hw with rfl | hw
        · exact ⟨name, List.mem_cons_of_mem _ List.mem_cons_self, hname, rfl⟩
        · have hkind : kind = .reference word := by
            cases kind with
            | scalar native => simp [Field.target?] at hw
            | reference target => simpa [Field.target?, eq_comm] using hw
          rcases ht.target hkind with rfl | rfl
          · exact ⟨name, List.mem_cons_of_mem _ List.mem_cons_self, hname, rfl⟩
          · exact ⟨type, List.mem_cons_self, isWordKind_of_type hk, rfl⟩
      · obtain ⟨token, hm, ht⟩ := ih field hf word hw
        exact ⟨token, List.mem_cons_of_mem _ (List.mem_cons_of_mem _ hm), ht⟩

theorem Describes.words {tokens : List Token} {d : Descriptor} (h : Describes tokens d) :
    ∀ word ∈ d.words, ∃ token ∈ tokens, isWordKind token.kind = true ∧ token.lexeme = word := by
  cases h with
  | @struct keyword name brace rest declared _ _ hn _ hbody _ =>
      obtain ⟨items, close, trailer, rfl, hitems, _, _⟩ := hbody
      refine List.forall_mem_cons.mpr ⟨⟨name, by simp, by rw [hn]; rfl, rfl⟩, fun word hw => ?_⟩
      obtain ⟨field, hf, hw⟩ := List.mem_flatMap.mp hw
      obtain ⟨token, hm, ht⟩ := hitems.words field hf word hw
      exact ⟨token, by simp [hm], ht⟩

theorem words_of_parse {source : String} {tokens : List Token} {d : Descriptor}
    (ht : Lexer.tokenize source = .ok tokens) (h : parse source = .ok (some d)) :
    ∀ word ∈ d.words, word ∈ wordsOf tokens := by
  intro word hw
  rw [parse, ht, ok_bind] at h
  obtain ⟨token, hm, hk, rfl⟩ := (ofTokens_eq_some_iff.mp h).words word hw
  have hin : token ∈ tokens := (List.mem_filter.mp hm).1
  exact List.mem_map_of_mem (List.mem_filter.mpr ⟨hin, hk⟩)

/-- The words of a text are the letters and digits of stretches of it that follow one another, and
those of a descriptor are among them. Where nothing else stands in the stretches, the words stand in
the text. -/
theorem words_of_stretches (source : String) :
    ∃ tokens stretches rest, Lexer.tokenize source = .ok tokens ∧
      source.toList = Stretch.covered stretches ++ rest ∧
      wordsOf tokens = stretches.map Stretch.word ∧
      (∀ d, parse source = .ok (some d) →
        ∀ word ∈ d.words, ∃ stretch ∈ stretches, stretch.word = word) ∧
      ((∀ stretch ∈ stretches, stretch.IsWhole) →
        StandIn (wordsOf tokens) source.toList ∧
        ∀ d, parse source = .ok (some d) → ∀ word ∈ d.words, word.toList <:+: source.toList) := by
  obtain ⟨tokens, ht⟩ := Lexer.exists_tokenize source
  obtain ⟨stretches, rest, htext, hwords⟩ := Lexer.tokenize_stretches ht
  refine ⟨tokens, stretches, rest, ht, htext, hwords, fun d hd word hw => ?_, fun hwhole => ?_⟩
  · have hm := words_of_parse ht hd word hw
    rw [hwords] at hm
    exact List.mem_map.mp hm
  · have hstand : StandIn (wordsOf tokens) source.toList := by
      rw [hwords, htext]
      exact Stretch.standIn hwhole rest
    exact ⟨hstand, fun d hd word hw => hstand.contains (words_of_parse ht hd word hw)⟩

/-- Letters and digits that other characters set apart are joined to one word, as type, as name and
in the descriptor. -/
theorem broken_words_joined :
    (¬∀ source tokens, Lexer.tokenize source = .ok tokens →
      StandIn (wordsOf tokens) source.toList) ∧
    ¬∀ source d, parse source = .ok (some d) →
      ∀ word ∈ d.words, word.toList <:+: source.toList := by
  have hchars : "struct A_B \x7b\x7d".toList =
      ['s', 't', 'r', 'u', 'c', 't', ' ', 'A', '_', 'B', ' ', '\x7b', '\x7d'] := by rfl
  have houtside : ¬"AB".toList <:+: "struct A_B \x7b\x7d".toList := by
    rw [hchars]
    decide
  constructor
  · intro h
    have ht : Lexer.tokenize "struct A_B \x7b\x7d" = .ok [typeToken "struct",
        ⟨.whitespace, " "⟩, nameToken "AB", ⟨.whitespace, " "⟩, ⟨.openBrace, "\x7b"⟩,
        ⟨.closeBrace, "\x7d"⟩] := by rfl
    have hstand : StandIn ["struct", "AB"] _ := h _ _ ht
    exact houtside (hstand.contains (List.mem_cons_of_mem _ List.mem_cons_self))
  · intro h
    have hd : parse "struct A_B \x7b\x7d" = .ok (some ⟨"AB", []⟩) := by rfl
    exact houtside (h _ _ hd "AB" List.mem_cons_self)

/-! ## Regular descriptors -/

/-- Whether a type word is native is told by its spelling, so a field can be described again. -/
theorem Types.writable {word name : String} {kind : FieldKind}
    (h : Types (typeToken word) name kind) (hw : IsWord word) (hn : IsWord name) :
    WritableField ⟨name, kind⟩ := by
  cases h with
  | struct _ => exact .own hn
  | native _ hs _ => exact .scalar hn hs
  | other _ hnot =>
      cases hword : NativeType.ofWord? word with
      | none => exact .target hn hw hword
      | some native =>
          have hspelling : native.spelling = word := NativeType.spelling_of_ofWord? hword
          have hkind : (typeToken word).kind = .nativeType := by
            rw [← hspelling, kind_typeToken_spelling]
          exact absurd hspelling.symm (hnot hkind native)

theorem Items.writable {items : List Token} {declared : List Field} (h : Items items declared)
    (hlexed : ∀ token ∈ items, Lexed token) : ∀ field ∈ declared, WritableField field := by
  induction h with
  | nil => exact List.forall_mem_nil _
  | semicolon _ _ ih => exact ih (List.forall_mem_cons.mp hlexed).2
  | @field type name kind items declared hk hn ht _ ih =>
      obtain ⟨htype, hmore⟩ := List.forall_mem_cons.mp hlexed
      obtain ⟨hname, hmore⟩ := List.forall_mem_cons.mp hmore
      obtain ⟨word, hword, rfl⟩ := htype.type hk
      exact List.forall_mem_cons.mpr ⟨ht.writable hword (hname.isWord_lexeme hn), ih hmore⟩

theorem writable_of_parse {source : String} {d : Descriptor}
    (h : parse source = .ok (some d)) : Writable d := by
  obtain ⟨tokens, ht, h⟩ := bind_eq_ok.mp h
  have hlexed : ∀ token ∈ Token.significant tokens, Lexed token :=
    fun token hm => Lexer.tokenize_lexed ht token (List.mem_filter.mp hm).1
  have hd := ofTokens_eq_some_iff.mp h
  generalize Token.significant tokens = significant at hlexed hd
  cases hd with
  | @struct keyword name brace rest declared _ _ hn _ hbody hnodup =>
      obtain ⟨items, close, trailer, rfl, hitems, _, _⟩ := hbody
      have hname : Lexed name := hlexed name (by simp)
      have hitem : ∀ token ∈ items, Lexed token := fun token hm => hlexed token (by simp [hm])
      exact ⟨hname.isWord_lexeme hn, hitems.writable hitem, hnodup⟩

end Description
end RecordSchema
