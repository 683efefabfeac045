import RecordSchema.Proofs.Description.Grammar
import RecordSchema.Proofs.Token.Run

/-! Descriptors laid out as descriptions. Compiling a description gives back the descriptor that it
lays out, however its words are spaced and its fields set apart (`parse_of_layout`). -/

namespace RecordSchema.Description
open Lexer (IsWord IsSpaces IsMark Reads declarationTokens markToken markTokens nameToken spelled
  typeToken)

/-! ## Layouts -/

/-- A field that has a description: a native scalar, or a reference to a type that is not native or
has the field's own name. -/
inductive WritableField : Field → Prop where
  | scalar {name : String} {native : NativeType} : IsWord name → native ≠ .struct →
      WritableField ⟨name, .scalar native⟩
  | target {name target : String} : IsWord name → IsWord target →
      NativeType.ofWord? target = none → WritableField ⟨name, .reference target⟩
  | own {name : String} : IsWord name → WritableField ⟨name, .reference name⟩

structure Writable (d : Descriptor) : Prop where
  name : IsWord d.name
  fields : ∀ field ∈ d.fields, WritableField field
  distinct : (d.fields.map Field.name).Nodup

/-- The words that may stand before a field's name. -/
inductive TypeWord : Field → String → Prop where
  | scalar {name : String} {native : NativeType} : TypeWord ⟨name, .scalar native⟩ native.spelling
  | target {name target : String} : NativeType.ofWord? target = none →
      TypeWord ⟨name, .reference target⟩ target
  | own {name : String} : TypeWord ⟨name, .reference name⟩ "struct"

/-- White space that begins with a space. -/
def IsBlanks (blanks : String) : Prop :=
  blanks.toList.head? = some ' ' ∧ ∀ c ∈ blanks.toList, c ∈ [' ', '\t', '\r', '\n']

/-- White space and semicolons, or nothing at all. -/
def IsGap (gap : String) : Prop := ∀ c ∈ gap.toList, c ∈ [' ', '\t', '\r', '\n', ';']

instance : DecidablePred IsGap := fun gap =>
  inferInstanceAs (Decidable (∀ c ∈ gap.toList, c ∈ [' ', '\t', '\r', '\n', ';']))

/-- A gap sets a field's name apart from what follows it. -/
def IsSeparator (gap : String) : Prop :=
  IsGap gap ∧ (gap.toList.head? = some ';' ∨ gap.toList.head? = some ' ')

/-- Fields, each with the separator behind it. -/
inductive BodyText : List Field → String → Prop where
  | nil : BodyText [] ""
  | field {field : Field} {fields : List Field} {word spaces gap rest : String} :
      TypeWord field word → IsSpaces spaces → IsSeparator gap → BodyText fields rest →
      BodyText (field :: fields) (word ++ spaces ++ field.name ++ gap ++ rest)

inductive Layout : Descriptor → String → Prop where
  | struct {name spaces blanks gap body tail : String} {fields : List Field} :
      IsSpaces spaces → IsBlanks blanks → IsGap gap → BodyText fields body → IsGap tail →
      Layout ⟨name, fields⟩
        ("struct" ++ spaces ++ name ++ blanks ++ "\x7b" ++ gap ++ body ++ "\x7d" ++ tail)

/-! ## Words and marks -/

theorem isWord_spelling (native : NativeType) : IsWord native.spelling := by
  cases native <;> decide

theorem WritableField.isWord_name {field : Field} (h : WritableField field) :
    IsWord field.name := by
  cases h with
  | scalar hn _ => exact hn
  | target hn _ _ => exact hn
  | own hn => exact hn

theorem WritableField.isWord_type {field : Field} {word : String} (h : WritableField field)
    (ht : TypeWord field word) : IsWord word := by
  cases ht with
  | scalar => exact isWord_spelling _
  | own => exact isWord_spelling .struct
  | target hw =>
      cases h with
      | target _ ht _ => exact ht
      | own hn => exact hn

theorem kind_typeToken_spelling (native : NativeType) :
    (typeToken native.spelling).kind = .nativeType := by
  simp [typeToken, NativeType.ofWord?_spelling]

theorem kind_typeToken_of_none {word : String} (h : NativeType.ofWord? word = none) :
    (typeToken word).kind = .userType := by
  simp [typeToken, h]

/-- A field's type word is read as the type that the field has. -/
theorem WritableField.types {field : Field} {word : String} (h : WritableField field)
    (ht : TypeWord field word) : Types (typeToken word) field.name field.kind := by
  cases ht with
  | @scalar name native =>
      cases h with
      | scalar _ hs => exact .native (kind_typeToken_spelling native) hs rfl
  | own => exact .struct rfl
  | @target name target hw =>
      refine .other ?_ ?_
      · rintro rfl
        cases hw
      · intro hk
        rw [kind_typeToken_of_none hw] at hk
        cases hk

theorem isType_typeToken (word : String) :
    (typeToken word).kind = .nativeType ∨ (typeToken word).kind = .userType := by
  unfold typeToken
  split
  · exact .inl rfl
  · exact .inr rfl

theorem IsGap.isMark {gap : String} (h : IsGap gap) : ∀ c ∈ gap.toList, IsMark c := by
  intro c hc
  have hmem := h c hc
  simp only [List.mem_cons, List.not_mem_nil, or_false] at hmem
  rcases hmem with rfl | rfl | rfl | rfl | rfl <;> rfl

theorem IsGap.append {front back : String} (hf : IsGap front) (hb : IsGap back) :
    IsGap (front ++ back) := by
  unfold IsGap
  rw [String.toList_append]
  exact List.forall_mem_append.mpr ⟨hf, hb⟩

theorem IsSeparator.append {separator gap : String} (hs : IsSeparator separator) (hg : IsGap gap) :
    IsSeparator (separator ++ gap) := by
  refine ⟨hs.1.append hg, hs.2.imp ?_ ?_⟩ <;>
  · intro hhead
    rw [String.toList_append, List.head?_append, hhead, Option.some_or]

theorem IsBlanks.isGap {blanks : String} (h : IsBlanks blanks) : IsGap blanks := by
  intro c hc
  have hmem := h.2 c hc
  exact List.mem_append_left [';'] hmem

/-! ## The tokens that the grammar sees -/

theorem significant_blank {text : String} (h : ∀ c ∈ text.toList, c ∈ [' ', '\t', '\r', '\n']) :
    Token.significant (markTokens text) = [] := by
  refine List.filter_eq_nil_iff.mpr ?_
  intro token ht
  obtain ⟨c, hc, rfl⟩ := List.mem_map.mp ht
  have hmem := h c hc
  simp only [List.mem_cons, List.not_mem_nil, or_false] at hmem
  rcases hmem with rfl | rfl | rfl | rfl <;> decide

theorem significant_gap {gap : String} (h : IsGap gap) :
    ∀ mark ∈ Token.significant (markTokens gap), mark.kind = .semicolon := by
  intro mark hm
  obtain ⟨ht, hk⟩ := List.mem_filter.mp hm
  obtain ⟨c, hc, rfl⟩ := List.mem_map.mp ht
  have hmem := h c hc
  simp only [List.mem_cons, List.not_mem_nil, or_false] at hmem
  rcases hmem with rfl | rfl | rfl | rfl | rfl
  · cases hk
  · cases hk
  · cases hk
  · cases hk
  · rfl

theorem significant_declarationTokens {word spaces name : String} (h : IsSpaces spaces) :
    Token.significant (declarationTokens word spaces name) = [typeToken word, nameToken name] := by
  have hspaces : Token.significant (markTokens spaces) = [] :=
    significant_blank fun c hc => h.2 c hc ▸ List.mem_cons_self
  have hword : Token.significant [typeToken word] = [typeToken word] := by
    rcases isType_typeToken word with hk | hk <;> simp [Token.significant, TokenKind.isWhitespace, hk]
  rw [declarationTokens, ← List.singleton_append, significant_append, significant_append, hword,
    hspaces]
  rfl

theorem items_append {marks items : List Token} {declared : List Field}
    (hm : ∀ mark ∈ marks, mark.kind = .semicolon) (h : Items items declared) :
    Items (marks ++ items) declared := by
  induction marks with
  | nil => exact h
  | cons mark rest ih =>
      obtain ⟨hfirst, hrest⟩ := List.forall_mem_cons.mp hm
      exact .semicolon hfirst (ih hrest)

/-! ## Reading a layout -/

theorem BodyText.reads {fields : List Field} {text : String} (h : BodyText fields text)
    (hw : ∀ field ∈ fields, WritableField field) :
    ∃ tokens, Reads text tokens ∧ spelled tokens = text ∧
      Items (Token.significant tokens) fields := by
  induction h with
  | nil => exact ⟨[], Lexer.reads_empty, rfl, .nil⟩
  | @field field fields word spaces gap body htype hspaces hgap _ ih =>
      obtain ⟨hfield, hfields⟩ := List.forall_mem_cons.mp hw
      obtain ⟨tokens, hreads, hspelled, hitems⟩ := ih hfields
      refine ⟨declarationTokens word spaces field.name ++ (markTokens gap ++ tokens), ?_, ?_, ?_⟩
      · rw [String.append_assoc]
        exact .declaration (hfield.isWord_type htype) hspaces hfield.isWord_name hgap.2
          hgap.1.isMark hreads
      · simp only [Lexer.spelled_append, Lexer.spelled_declarationTokens,
          Lexer.spelled_markTokens, hspelled, String.append_assoc]
      · rw [significant_append, significant_append, significant_declarationTokens hspaces,
          List.cons_append, List.cons_append, List.nil_append]
        exact .field (isType_typeToken word) rfl (hfield.types htype)
          (items_append (significant_gap hgap.1) hitems)

/-- The tokens of a layout spell it, and the grammar finds the descriptor in them. -/
theorem Layout.tokens {d : Descriptor} {text : String} (hd : Writable d) (h : Layout d text) :
    ∃ tokens, Lexer.tokenize text = .ok tokens ∧ spelled tokens = text ∧
      Describes (Token.significant tokens) d := by
  obtain ⟨hname, hfields, hdistinct⟩ := hd
  cases h with
  | @struct name spaces blanks gap body tail fields hspaces hblanks hgap hbody htail =>
      obtain ⟨tokens, hreads, hspelled, hitems⟩ := hbody.reads hfields
      have hopen : ∀ c ∈ (blanks ++ "\x7b" ++ gap).toList, IsMark c := by
        simp only [String.toList_append, List.forall_mem_append]
        exact ⟨⟨hblanks.isGap.isMark, by decide⟩, hgap.isMark⟩
      have hclose : ∀ c ∈ ("\x7d" ++ tail).toList, IsMark c := by
        simp only [String.toList_append, List.forall_mem_append]
        exact ⟨by decide, htail.isMark⟩
      have hends : (blanks ++ "\x7b" ++ gap).toList.head? = some ' ' := by
        simp only [String.toList_append, List.head?_append, hblanks.1, Option.some_or]
      have hall := Reads.declaration (isWord_spelling .struct) hspaces hname (.inr hends) hopen
        (hreads.append_marks hclose)
      have htext : "struct" ++ spaces ++ name ++ blanks ++ "\x7b" ++ gap ++ body ++ "\x7d" ++ tail =
          "struct" ++ spaces ++ name ++ (blanks ++ "\x7b" ++ gap ++ (body ++ ("\x7d" ++ tail))) := by
        simp only [String.append_assoc]
      rw [htext]
      refine ⟨declarationTokens "struct" spaces name ++
        (markTokens (blanks ++ "\x7b" ++ gap) ++ (tokens ++ markTokens ("\x7d" ++ tail))),
        Lexer.tokenize_of_reads hall ?_, ?_, ?_⟩
      · simp only [String.toList_append]
        rfl
      · simp only [Lexer.spelled_append, Lexer.spelled_declarationTokens, Lexer.spelled_markTokens,
          hspelled]
      · simp only [significant_append, Lexer.markTokens_append, significant_blank hblanks.2,
          significant_declarationTokens hspaces]
        refine .struct rfl rfl rfl rfl ?_ hdistinct
        refine ⟨Token.significant (markTokens gap) ++ Token.significant tokens, markToken '\x7d',
          Token.significant (markTokens tail), ?_, ?_, rfl, significant_gap htail⟩
        · rw [List.append_assoc]
          rfl
        · exact items_append (significant_gap hgap) hitems

/-! ## Printed layouts -/

def typeWord (field : Field) : String :=
  match field.kind with
  | .scalar native => native.spelling
  | .reference target => if (NativeType.ofWord? target).isSome then "struct" else target

/-- What a printer puts behind the opening brace, around each field, and behind the closing brace. -/
structure Spacing where
  opening : String
  indent : String
  ending : String
  closing : String

/-- As short as a description can be. -/
def Spacing.compact : Spacing := ⟨"", "", ";", ";"⟩

/-- The host's layout, with a line for each field. -/
def Spacing.lines : Spacing := ⟨"\n", " ", ";\n", ""⟩

def Spacing.field (spacing : Spacing) (field : Field) : String :=
  spacing.indent ++ typeWord field ++ " " ++ field.name ++ spacing.ending

def Spacing.print (spacing : Spacing) (d : Descriptor) : String :=
  "struct " ++ d.name ++ " \x7b" ++ spacing.opening ++
    String.join (d.fields.map spacing.field) ++ "\x7d" ++ spacing.closing

structure Spacing.Regular (spacing : Spacing) : Prop where
  opening : IsGap spacing.opening
  indent : IsGap spacing.indent
  ending : IsSeparator spacing.ending
  closing : IsGap spacing.closing

theorem Spacing.compact_regular : Spacing.compact.Regular := by
  refine ⟨?_, ?_, ⟨?_, .inl ?_⟩, ?_⟩ <;> decide

theorem Spacing.lines_regular : Spacing.lines.Regular := by
  refine ⟨?_, ?_, ⟨?_, .inl ?_⟩, ?_⟩ <;> decide

theorem typeWord_of_none {name target : String} (h : NativeType.ofWord? target = none) :
    typeWord ⟨name, .reference target⟩ = target := by
  simp [typeWord, h]

theorem typeWord_of_native {name target : String} {native : NativeType}
    (h : NativeType.ofWord? target = some native) :
    typeWord ⟨name, .reference target⟩ = "struct" := by
  simp [typeWord, h]

theorem WritableField.typeWord {field : Field} (h : WritableField field) :
    TypeWord field (typeWord field) := by
  cases h with
  | scalar => exact .scalar
  | target _ _ ht =>
      rw [typeWord_of_none ht]
      exact .target ht
  | @own name hn =>
      cases ht : NativeType.ofWord? name with
      | none =>
          rw [typeWord_of_none ht]
          exact .target ht
      | some native =>
          rw [typeWord_of_native ht]
          exact .own

/-- The indent of each field belongs to the separator before it, and the first one to the gap behind
the brace. -/
theorem Spacing.Regular.body {spacing : Spacing} (h : spacing.Regular) {fields : List Field}
    (hw : ∀ field ∈ fields, WritableField field) :
    ∃ gap body, String.join (fields.map spacing.field) = gap ++ body ∧ IsGap gap ∧
      BodyText fields body := by
  induction fields with
  | nil => exact ⟨"", "", rfl, by decide, .nil⟩
  | cons field fields ih =>
      obtain ⟨hfield, hfields⟩ := List.forall_mem_cons.mp hw
      obtain ⟨gap, body, htext, hgap, hbody⟩ := ih hfields
      have hspaces : IsSpaces " " := by decide
      refine ⟨spacing.indent, _, ?_, h.indent,
        .field hfield.typeWord hspaces (h.ending.append hgap) hbody⟩
      rw [List.map_cons, String.join_cons, htext]
      simp only [Spacing.field, String.append_assoc]

theorem Spacing.Regular.layout {spacing : Spacing} (h : spacing.Regular) {d : Descriptor}
    (hd : Writable d) : Layout d (spacing.print d) := by
  obtain ⟨gap, body, htext, hgap, hbody⟩ := h.body hd.fields
  have hspaces : IsSpaces " " := by decide
  have hblanks : IsBlanks " " := ⟨rfl, by decide⟩
  have hprint : spacing.print d = "struct" ++ " " ++ d.name ++ " " ++ "\x7b" ++
      (spacing.opening ++ gap) ++ body ++ "\x7d" ++ spacing.closing := by
    have hstruct : "struct " = "struct" ++ " " := rfl
    have hbrace : " \x7b" = " " ++ "\x7b" := rfl
    simp only [Spacing.print, hstruct, hbrace, htext, String.append_assoc]
  rw [hprint]
  exact .struct hspaces hblanks (h.opening.append hgap) hbody h.closing

/-- Whatever layout of a descriptor is compiled, the descriptor comes back, and no character of the
text is lost on the way. The compact layout and the host's are such layouts. -/
theorem parse_of_layout {d : Descriptor} (hd : Writable d) :
    (∀ text, Layout d text → parse text = .ok (some d) ∧
      ∃ tokens, Lexer.tokenize text = .ok tokens ∧
        String.join (tokens.map (·.lexeme)) = text) ∧
    Layout d (Spacing.compact.print d) ∧ Layout d (Spacing.lines.print d) := by
  refine ⟨?_, Spacing.compact_regular.layout hd, Spacing.lines_regular.layout hd⟩
  intro text h
  obtain ⟨tokens, ht, hs, hdescribes⟩ := h.tokens hd
  refine ⟨?_, tokens, ht, hs⟩
  rw [parse, ht, ok_bind]
  exact ofTokens_eq_some_iff.mpr hdescribes

example : Spacing.compact.print ⟨"Foo", [⟨"bar", .scalar .string⟩, ⟨"baz", .scalar .int⟩]⟩ =
    "struct Foo \x7bstring bar;int baz;\x7d;" := rfl

example : Spacing.lines.print ⟨"Foo", [⟨"bar", .scalar .string⟩, ⟨"Link", .reference "Bar"⟩]⟩ =
    "struct Foo \x7b\n string bar;\n Bar Link;\n\x7d" := rfl

/-- A native scalar, a target of another name, and two fields that `struct` declares. -/
def contact : Descriptor := ⟨"Contact",
  [⟨"Id", .scalar .int⟩, ⟨"home", .reference "Address"⟩, ⟨"Tag", .reference "Tag"⟩,
    ⟨"date", .reference "date"⟩]⟩

def contactText : String :=
  "struct  Contact \t\x7b;\nint Id ;\r\n\tAddress  home;struct Tag \nstruct date; \x7d; \n"

theorem writable_contact : Writable contact := by
  refine ⟨by decide, ?_, by decide⟩
  simp only [contact, List.forall_mem_cons]
  refine ⟨?_, ?_, ?_, ?_, by simp⟩
  · exact .scalar (by decide) (by decide)
  · exact .target (by decide) (by decide) (by decide)
  · exact .own (by decide)
  · exact .own (by decide)

theorem body_contact : BodyText contact.fields
    "int Id ;\r\n\tAddress  home;struct Tag \nstruct date; " := by
  have one : IsSpaces " " := by decide
  have two : IsSpaces "  " := by decide
  have afterDate : IsSeparator "; " := ⟨by decide, .inl rfl⟩
  have afterTag : IsSeparator " \n" := ⟨by decide, .inr rfl⟩
  have afterHome : IsSeparator ";" := ⟨by decide, .inl rfl⟩
  have afterId : IsSeparator " ;\r\n\t" := ⟨by decide, .inr rfl⟩
  have date := BodyText.field (.own : TypeWord ⟨"date", .reference "date"⟩ "struct") one afterDate
    .nil
  have tag := BodyText.field (.own : TypeWord ⟨"Tag", .reference "Tag"⟩ "struct") one afterTag date
  have home := BodyText.field
    (.target (by decide) : TypeWord ⟨"home", .reference "Address"⟩ "Address") two afterHome tag
  exact BodyText.field (.scalar : TypeWord ⟨"Id", .scalar .int⟩ "int") one afterId home

theorem layout_contact : Layout contact contactText := by
  have two : IsSpaces "  " := by decide
  have before : IsBlanks " \t" := ⟨rfl, by decide⟩
  have opening : IsGap ";\n" := by decide
  have tail : IsGap "; \n" := by decide
  exact Layout.struct two before opening body_contact tail

/-- Doubled spaces, tabs, carriage returns and stray semicolons change nothing. -/
theorem parse_of_layout_contact :
    Writable contact ∧ Layout contact contactText ∧ parse contactText = .ok (some contact) ∧
      ∃ tokens, Lexer.tokenize contactText = .ok tokens ∧
        String.join (tokens.map (·.lexeme)) = contactText :=
  ⟨writable_contact, layout_contact,
    (parse_of_layout writable_contact).1 contactText layout_contact⟩

end RecordSchema.Description
