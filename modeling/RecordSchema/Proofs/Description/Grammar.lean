import RecordSchema.Proofs.Description

/-! The grammar of struct descriptions as a relation, and its parser's agreement with it. -/

namespace RecordSchema.Description

/-- What a type word says about the field behind it. -/
inductive Types (word : Token) (field : String) : FieldKind → Prop where
  | struct : word.lexeme = "struct" → Types word field (.reference field)
  | native {native : NativeType} : word.kind = .nativeType → native ≠ .struct →
      word.lexeme = native.spelling → Types word field (.scalar native)
  | other : word.lexeme ≠ "struct" →
      (word.kind = .nativeType → ∀ native : NativeType, word.lexeme ≠ native.spelling) →
      Types word field (.reference word.lexeme)

inductive Items : List Token → List Field → Prop where
  | nil : Items [] []
  | semicolon {mark : Token} {items : List Token} {declared : List Field} :
      mark.kind = .semicolon → Items items declared → Items (mark :: items) declared
  | field {word name : Token} {kind : FieldKind} {items : List Token} {declared : List Field} :
      word.kind = .nativeType ∨ word.kind = .userType → name.kind = .fieldName →
      Types word name.lexeme kind → Items items declared →
      Items (word :: name :: items) (⟨name.lexeme, kind⟩ :: declared)

/-- What follows an opening brace, with the fields that it declares. -/
def Body (tokens : List Token) (declared : List Field) : Prop :=
  ∃ items close trailer, tokens = items ++ close :: trailer ∧ Items items declared ∧
    close.kind = .closeBrace ∧ ∀ mark ∈ trailer, mark.kind = .semicolon

inductive Describes : List Token → Descriptor → Prop where
  | struct {keyword name brace : Token} {rest : List Token} {declared : List Field} :
      keyword.kind = .nativeType → keyword.lexeme = "struct" → name.kind = .fieldName →
      brace.kind = .openBrace → Body rest declared → (declared.map Field.name).Nodup →
      Describes (keyword :: name :: brace :: rest) ⟨name.lexeme, declared⟩

/-! ## Type words -/

theorem ofWord?_eq_struct {word : String} :
    NativeType.ofWord? word = some .struct ↔ word = "struct" := by
  constructor
  · intro h
    exact (NativeType.spelling_of_ofWord? h).symm
  · rintro rfl
    exact NativeType.ofWord?_spelling .struct

theorem types_fieldKind (word : Token) (field : String) :
    Types word field (fieldKind word field) := by
  unfold fieldKind
  split
  · rename_i hw
    exact .struct (ofWord?_eq_struct.mp hw)
  · rename_i native hn hw
    have hs : word.lexeme ≠ "struct" := by
      intro h
      rw [ofWord?_eq_struct.mpr h] at hw
      exact hn (Option.some.inj hw).symm
    split
    · rename_i hk
      exact .native hk hn (NativeType.spelling_of_ofWord? hw).symm
    · rename_i hk
      exact .other hs (fun h => absurd h hk)
  · rename_i hw
    have hn : ∀ native : NativeType, word.lexeme ≠ native.spelling := by
      intro native h
      rw [h, NativeType.ofWord?_spelling] at hw
      cases hw
    exact .other (hn .struct) (fun _ => hn)

theorem Types.fieldKind_eq {word : Token} {field : String} {kind : FieldKind}
    (h : Types word field kind) : fieldKind word field = kind := by
  cases h with
  | struct hs => rw [fieldKind, ofWord?_eq_struct.mpr hs]
  | @native native hk hn hl =>
      rw [fieldKind, hl, NativeType.ofWord?_spelling]
      cases native with
      | struct => exact absurd rfl hn
      | _ => exact if_pos hk
  | other hs hn =>
      unfold fieldKind
      split
      · rename_i hw
        exact absurd (ofWord?_eq_struct.mp hw) hs
      · rename_i native _ hw
        have hk : word.kind ≠ .nativeType := by
          intro hk
          exact hn hk native (NativeType.spelling_of_ofWord? hw).symm
        exact if_neg hk
      · rfl

theorem isStructKeyword_iff {token : Token} :
    token.isStructKeyword = true ↔ token.kind = .nativeType ∧ token.lexeme = "struct" := by
  simp [Token.isStructKeyword, NativeType.spelling]

/-! ## The cursor -/

theorem expect_eq_ok_iff {kind : TokenKind} {owner : Option String} {expected : Expected}
    {position : Nat} {tokens rest : List Token} {word : String} :
    expect kind owner expected position tokens = .ok (word, rest) ↔
      ∃ token, tokens = token :: rest ∧ token.kind = kind ∧ token.lexeme = word := by
  cases tokens with
  | nil => simp [expect]
  | cons token following =>
      simp only [expect]
      by_cases hk : token.kind = kind
      · rw [if_pos hk]
        constructor
        · intro h
          obtain ⟨rfl, rfl⟩ := Prod.mk.inj (Except.ok.inj h)
          exact ⟨token, rfl, hk, rfl⟩
        · rintro ⟨_, h, _, rfl⟩
          obtain ⟨rfl, rfl⟩ := List.cons.inj h
          rfl
      · rw [if_neg hk]
        constructor
        · intro h
          cases h
        · rintro ⟨_, h, hk', _⟩
          obtain ⟨rfl, _⟩ := List.cons.inj h
          exact absurd hk' hk

theorem header_eq_some_iff {tokens rest : List Token} {declared : String} :
    header tokens = .ok (some (declared, rest)) ↔
      ∃ keyword name brace, tokens = keyword :: name :: brace :: rest ∧
        (keyword.kind = .nativeType ∧ keyword.lexeme = "struct") ∧
        (name.kind = .fieldName ∧ name.lexeme = declared) ∧ brace.kind = .openBrace := by
  cases tokens with
  | nil => simp [header]
  | cons keyword following =>
      simp only [header]
      constructor
      · intro h
        split at h
        · rename_i hk
          obtain ⟨⟨word, behind⟩, hn, hrest⟩ := bind_eq_ok.mp h
          obtain ⟨⟨_, final⟩, hb, hd⟩ := bind_eq_ok.mp hrest
          obtain ⟨rfl, rfl⟩ := Prod.mk.inj (Option.some.inj (Except.ok.inj hd))
          obtain ⟨name, rfl, hname⟩ := expect_eq_ok_iff.mp hn
          obtain ⟨brace, rfl, hbrace, _⟩ := expect_eq_ok_iff.mp hb
          exact ⟨keyword, name, brace, rfl, isStructKeyword_iff.mp hk, hname, hbrace⟩
        · cases h
      · rintro ⟨_, name, brace, ht, hk, hn, hb⟩
        obtain ⟨rfl, rfl⟩ := List.cons.inj ht
        rw [if_pos (isStructKeyword_iff.mpr hk)]
        rw [expect_eq_ok_iff.mpr ⟨name, rfl, hn⟩, ok_bind]
        simp only []
        rw [expect_eq_ok_iff.mpr ⟨brace, rfl, hb, rfl⟩, ok_bind]
        rfl

theorem header_eq_none_iff {tokens : List Token} :
    header tokens = .ok none ↔
      ∃ first rest, tokens = first :: rest ∧
        ¬(first.kind = .nativeType ∧ first.lexeme = "struct") := by
  cases tokens with
  | nil => simp [header]
  | cons keyword following =>
      rw [header]
      constructor
      · intro h
        split at h
        · obtain ⟨_, _, h⟩ := bind_eq_ok.mp h
          obtain ⟨_, _, h⟩ := bind_eq_ok.mp h
          cases h
        · rename_i hk
          exact ⟨keyword, following, rfl, fun hs => hk (isStructKeyword_iff.mpr hs)⟩
      · rintro ⟨_, _, ht, hk⟩
        obtain ⟨rfl, rfl⟩ := List.cons.inj ht
        rw [if_neg (fun hs => hk (isStructKeyword_iff.mp hs))]

theorem trailer_eq_ok_iff {owner : String} {position : Nat} {tokens : List Token} :
    trailer owner position tokens = .ok () ↔ ∀ mark ∈ tokens, mark.kind = .semicolon := by
  induction tokens generalizing position with
  | nil => simp [trailer]
  | cons mark rest ih =>
      rw [trailer, List.forall_mem_cons]
      by_cases hm : mark.kind = .semicolon
      · rw [if_pos hm, ih]
        exact (and_iff_right hm).symm
      · rw [if_neg hm]
        constructor
        · intro h
          cases h
        · rintro ⟨h, _⟩
          exact absurd h hm

/-! ## The fields -/

theorem any_name_iff {seen : List Field} {name : String} :
    seen.any (·.name == name) = true ↔ name ∈ seen.map Field.name := by
  rw [List.any_eq_true, List.mem_map]
  simp only [beq_iff_eq]

theorem fields_semicolon {mark : Token} (hm : mark.kind = .semicolon) (owner : String)
    (seen : List Field) (position : Nat) (rest : List Token) :
    fields owner seen position (mark :: rest) = fields owner seen (position + 1) rest := by
  rw [fields.eq_def]
  simp only [hm]

theorem fields_field {word name : Token} {seen : List Field}
    (hw : word.kind = .nativeType ∨ word.kind = .userType) (hn : name.kind = .fieldName)
    (hs : name.lexeme ∉ seen.map Field.name) (owner : String) (position : Nat)
    (rest : List Token) :
    fields owner seen position (word :: name :: rest) =
      fields owner (seen ++ [⟨name.lexeme, fieldKind word name.lexeme⟩]) (position + 2) rest := by
  have hany : ¬seen.any (·.name == name.lexeme) = true := mt any_name_iff.mp hs
  rcases hw with hw | hw
  · rw [fields, hw]
    simp only [if_pos hn, if_neg hany]
  · rw [fields, hw]
    simp only [if_pos hn, if_neg hany]

theorem fields_close {close : Token} (hc : close.kind = .closeBrace) (owner : String)
    (seen : List Field) (position : Nat) (rest : List Token) :
    fields owner seen position (close :: rest) =
      (trailer owner (position + 1) rest >>= fun _ => .ok seen) := by
  rw [fields.eq_def]
  simp only [hc]
  rfl

/-- Items that declare new names move the parser past them and add what they declare. -/
theorem fields_items {items : List Token} {declared seen : List Field}
    (h : Items items declared) (hn : ((seen ++ declared).map Field.name).Nodup)
    (owner : String) (position : Nat) (rest : List Token) :
    fields owner seen position (items ++ rest) =
      fields owner (seen ++ declared) (position + items.length) rest := by
  induction h generalizing seen position with
  | nil => rw [List.append_nil, List.nil_append, List.length_nil, Nat.add_zero]
  | @semicolon mark items declared hm _ ih =>
      rw [List.cons_append, fields_semicolon hm, ih hn, List.length_cons]
      rw [Nat.add_assoc, Nat.add_comm 1]
  | @field word name kind items declared hw hf ht _ ih =>
      rw [List.append_cons] at hn
      have hs : name.lexeme ∉ seen.map Field.name := by
        rw [List.append_assoc, List.map_append, List.nodup_append] at hn
        exact fun hm => hn.2.2 _ hm _ List.mem_cons_self rfl
      rw [List.cons_append, List.cons_append, fields_field hw hf hs, ht.fieldKind_eq, ih hn]
      rw [List.append_assoc, List.length_cons, List.length_cons]
      congr 1
      omega

/-- Distinct fields that begin with those `seen` and go on with what a body declares. -/
def Extends (tokens : List Token) (seen result : List Field) : Prop :=
  ∃ declared, Body tokens declared ∧ result = seen ++ declared ∧ (result.map Field.name).Nodup

theorem Extends.semicolon {mark : Token} {rest : List Token} {seen result : List Field}
    (hm : mark.kind = .semicolon) (h : Extends rest seen result) :
    Extends (mark :: rest) seen result := by
  obtain ⟨declared, ⟨items, close, trailer, rfl, hi, hc⟩, hr⟩ := h
  exact ⟨declared, ⟨mark :: items, close, trailer, rfl, .semicolon hm hi, hc⟩, hr⟩

theorem Extends.field {word name : Token} {rest : List Token} {seen result : List Field}
    (hw : word.kind = .nativeType ∨ word.kind = .userType) (hn : name.kind = .fieldName)
    (h : Extends rest (seen ++ [⟨name.lexeme, fieldKind word name.lexeme⟩]) result) :
    Extends (word :: name :: rest) seen result := by
  obtain ⟨declared, ⟨items, close, trailer, rfl, hi, hc⟩, hr, hd⟩ := h
  have ht := types_fieldKind word name.lexeme
  refine ⟨_, ⟨word :: name :: items, close, trailer, rfl, .field hw hn ht hi, hc⟩, ?_, hd⟩
  rw [hr, List.append_assoc]
  rfl

theorem nodup_append_field {seen : List Field} {field : Field}
    (hs : (seen.map Field.name).Nodup) (hn : ¬seen.any (·.name == field.name) = true) :
    ((seen ++ [field]).map Field.name).Nodup := by
  rw [List.map_append, List.nodup_append]
  refine ⟨hs, List.pairwise_singleton _ _, ?_⟩
  rintro name hm _ hf rfl
  rw [List.mem_singleton.mp hf] at hm
  exact hn (any_name_iff.mpr hm)

-- The cases are the parser's branches; the fields seen stay distinct from one to the next.
theorem extends_of_fields {owner : String} {seen result : List Field} {position : Nat}
    {tokens : List Token} (hw : ∀ token ∈ tokens, token.kind ≠ .whitespace)
    (hs : (seen.map Field.name).Nodup) (h : fields owner seen position tokens = .ok result) :
    Extends tokens seen result := by
  fun_induction fields owner seen position tokens with
  | case2 seen position close rest hc =>
      obtain ⟨_, ht, hr⟩ := bind_eq_ok.mp h
      obtain rfl := Except.ok.inj hr
      refine ⟨[], ⟨[], close, rest, rfl, .nil, hc, trailer_eq_ok_iff.mp ht⟩, ?_, hs⟩
      exact (List.append_nil _).symm
  | case3 seen position mark rest hm ih =>
      have hrest := (List.forall_mem_cons.mp hw).2
      exact (ih hrest hs h).semicolon hm
  | case4 _ _ space _ hk => exact absurd hk (hw space List.mem_cons_self)
  | case7 seen position word hk name rest hn hany ih =>
      have hrest := (List.forall_mem_cons.mp (List.forall_mem_cons.mp hw).2).2
      exact (ih hrest (nodup_append_field hs hany) h).field (.inl hk) hn
  | case11 seen position word hk name rest hn hany ih =>
      have hrest := (List.forall_mem_cons.mp (List.forall_mem_cons.mp hw).2).2
      exact (ih hrest (nodup_append_field hs hany) h).field (.inr hk) hn
  | _ => cases h

theorem fields_of_extends {tokens : List Token} {seen result : List Field}
    (h : Extends tokens seen result) (owner : String) (position : Nat) :
    fields owner seen position tokens = .ok result := by
  obtain ⟨declared, ⟨items, close, rest, rfl, hi, hc, ht⟩, rfl, hn⟩ := h
  rw [fields_items hi hn, fields_close hc, trailer_eq_ok_iff.mpr ht, ok_bind]

/-! ## Descriptions -/

theorem body_eq_ok_iff {name : String} {tokens : List Token} {d : Descriptor}
    (hw : ∀ token ∈ tokens, token.kind ≠ .whitespace) :
    body name tokens = .ok d ↔
      d.name = name ∧ Body tokens d.fields ∧ (d.fields.map Field.name).Nodup := by
  constructor
  · intro h
    obtain ⟨result, hf, hd⟩ := bind_eq_ok.mp h
    obtain rfl := Except.ok.inj hd
    have hs : (([] : List Field).map Field.name).Nodup := List.nodup_nil
    obtain ⟨declared, hb, hr, hn⟩ := extends_of_fields hw hs hf
    rw [List.nil_append] at hr
    exact ⟨rfl, hr ▸ hb, hn⟩
  · rintro ⟨rfl, hb, hn⟩
    have hx : Extends tokens [] d.fields := ⟨d.fields, hb, (List.nil_append _).symm, hn⟩
    rw [body, fields_of_extends hx, ok_bind]
    rfl

theorem significant_append (front back : List Token) :
    Token.significant (front ++ back) = Token.significant front ++ Token.significant back :=
  List.filter_append front back

/-- Behind the header, too, the parser meets no white space. -/
theorem kind_of_mem_significant {tokens rest : List Token} (before : List Token)
    (h : Token.significant tokens = before ++ rest) :
    ∀ token ∈ rest, token.kind ≠ .whitespace := by
  intro token hm hw
  have hs : token ∈ Token.significant tokens := h ▸ List.mem_append_right before hm
  have hk := (List.mem_filter.mp hs).2
  rw [hw] at hk
  cases hk

theorem ofTokens_eq_some_iff {tokens : List Token} {d : Descriptor} :
    ofTokens tokens = .ok (some d) ↔ Describes (Token.significant tokens) d := by
  constructor
  · intro h
    obtain ⟨opened, ho, h⟩ := bind_eq_ok.mp h
    cases opened with
    | none => cases h
    | some found =>
        obtain ⟨d', hb, hd⟩ := map_eq_ok.mp h
        obtain rfl := Option.some.inj hd
        obtain ⟨keyword, name, brace, ht, ⟨hk, hs⟩, ⟨hn, hname⟩, hbrace⟩ :=
          header_eq_some_iff.mp ho
        have hw := kind_of_mem_significant [keyword, name, brace] ht
        obtain ⟨hdn, hbody, hnodup⟩ := (body_eq_ok_iff hw).mp hb
        have hd : d' = ⟨name.lexeme, d'.fields⟩ := by
          rw [hname, ← hdn]
        rw [ht, hd]
        exact .struct hk hs hn hbrace hbody hnodup
  · intro h
    generalize hS : Token.significant tokens = significant at h
    cases h with
    | @struct keyword name brace rest declared hk hs hn hbrace hbody hnodup =>
        have ho : header (keyword :: name :: brace :: rest) = .ok (some (name.lexeme, rest)) :=
          header_eq_some_iff.mpr ⟨keyword, name, brace, rfl, ⟨hk, hs⟩, ⟨hn, rfl⟩, hbrace⟩
        have hw := kind_of_mem_significant [keyword, name, brace] hS
        have hb : body name.lexeme rest = .ok ⟨name.lexeme, declared⟩ :=
          (body_eq_ok_iff hw).mpr ⟨rfl, hbody, hnodup⟩
        rw [ofTokens, hS, ho, ok_bind]
        simp only [hb]
        rfl

theorem ofTokens_eq_none_iff {tokens : List Token} :
    ofTokens tokens = .ok none ↔ ∃ first rest, Token.significant tokens = first :: rest ∧
      ¬(first.kind = .nativeType ∧ first.lexeme = "struct") := by
  rw [← header_eq_none_iff]
  constructor
  · intro h
    obtain ⟨opened, ho, h⟩ := bind_eq_ok.mp h
    cases opened with
    | none => exact ho
    | some found =>
        obtain ⟨_, _, hd⟩ := map_eq_ok.mp h
        cases hd
  · intro h
    rw [ofTokens, h, ok_bind]
    rfl

theorem ofTokens_eq_empty_iff {tokens : List Token} :
    ofTokens tokens = .error .emptyDescription ↔ Token.significant tokens = [] := by
  constructor
  · intro h
    rcases ofTokens_error h with ⟨hS, _⟩ | he
    · exact hS
    · exact absurd rfl he.notEmpty
  · intro hS
    rw [ofTokens, hS, header, error_bind]

/-- The compiler of descriptions accepts the grammar, with the descriptor that the grammar gives,
sets other kinds of description apart by their first word, and refuses everything else. -/
theorem ofTokens_follows_grammar (tokens : List Token) :
    (∀ d, ofTokens tokens = .ok (some d) ↔ Describes (Token.significant tokens) d) ∧
    (ofTokens tokens = .ok none ↔ ∃ first rest, Token.significant tokens = first :: rest ∧
      ¬(first.kind = .nativeType ∧ first.lexeme = "struct")) ∧
    (ofTokens tokens = .error .emptyDescription ↔ Token.significant tokens = []) ∧
    ((∃ e, ofTokens tokens = .error e) ↔
      (∀ d, ¬Describes (Token.significant tokens) d) ∧
      ¬∃ first rest, Token.significant tokens = first :: rest ∧
        ¬(first.kind = .nativeType ∧ first.lexeme = "struct")) := by
  refine ⟨fun d => ofTokens_eq_some_iff, ofTokens_eq_none_iff, ofTokens_eq_empty_iff, ?_⟩
  rw [← ofTokens_eq_none_iff]
  simp only [← ofTokens_eq_some_iff]
  cases ofTokens tokens with
  | error e => simp
  | ok found =>
      cases found with
      | none => simp
      | some d => simp

-- The kind of a type word counts besides its spelling.
example : ofTokens [⟨.nativeType, "struct"⟩, ⟨.fieldName, "Order"⟩, ⟨.openBrace, "\x7b"⟩,
      ⟨.userType, "int"⟩, ⟨.fieldName, "buyer"⟩, ⟨.nativeType, "int"⟩, ⟨.fieldName, "count"⟩,
      ⟨.semicolon, ";"⟩, ⟨.closeBrace, "\x7d"⟩] =
    .ok (some ⟨"Order", [⟨"buyer", .reference "int"⟩, ⟨"count", .scalar .int⟩]⟩) := by
  rfl

end RecordSchema.Description
