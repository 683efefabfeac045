import RecordSchema.Proofs.Token.Lexer

/-! What the lexer makes of well-spaced text. A type word, spaces and a name are a declaration, and
marks stand behind each declaration. Every lemma moves the lexer past one piece of text, whatever
follows it. -/

namespace RecordSchema.Lexer

/-! ## Pieces of text -/

/-- A word has at least one character, and they are ASCII letters and digits. -/
def IsWord (word : String) : Prop := word ≠ "" ∧ ∀ c ∈ word.toList, isWordChar c = true

/-- Nothing but spaces, and at least one of them. -/
def IsSpaces (spaces : String) : Prop := spaces ≠ "" ∧ ∀ c ∈ spaces.toList, c = ' '

def IsMark (c : Char) : Prop := (markKind? c).isSome = true

/-- Checks the characters of the text, where an instance found by search may go through all that
there are. -/
instance decidableForallMem (p : Char → Prop) [DecidablePred p] (text : String) :
    Decidable (∀ c ∈ text.toList, p c) :=
  List.decidableBAll p text.toList

instance : DecidablePred IsWord := fun word =>
  inferInstanceAs (Decidable (word ≠ "" ∧ ∀ c ∈ word.toList, isWordChar c = true))

instance : DecidablePred IsSpaces := fun spaces =>
  inferInstanceAs (Decidable (spaces ≠ "" ∧ ∀ c ∈ spaces.toList, c = ' '))

instance : DecidablePred IsMark := fun c =>
  inferInstanceAs (Decidable ((markKind? c).isSome = true))

def markToken (c : Char) : Token := ⟨(markKind? c).getD .whitespace, String.singleton c⟩

def markTokens (marks : String) : List Token := marks.toList.map markToken

def nameToken (name : String) : Token := ⟨.fieldName, name⟩

/-- The tokens of a type word, the spaces behind it and a name. -/
def declarationTokens (word spaces name : String) : List Token :=
  typeToken word :: markTokens spaces ++ [nameToken name]

/-- The text that tokens were read from. -/
def spelled (tokens : List Token) : String := String.join (tokens.map (·.lexeme))

theorem spelled_append (front back : List Token) :
    spelled (front ++ back) = spelled front ++ spelled back := by
  simp [spelled]

theorem markTokens_append (front back : String) :
    markTokens (front ++ back) = markTokens front ++ markTokens back := by
  simp [markTokens]

theorem spelled_markTokens (marks : String) : spelled (markTokens marks) = marks := by
  simp [spelled, markTokens, markToken, ← String.toList_inj, List.flatMap_map]

theorem spelled_declarationTokens (word spaces name : String) :
    spelled (declarationTokens word spaces name) = word ++ spaces ++ name := by
  have hword : spelled [typeToken word] = word := by simp [spelled, typeToken]
  have hname : spelled [nameToken name] = name := by simp [spelled, nameToken]
  rw [declarationTokens, ← List.singleton_append, spelled_append, spelled_append,
    spelled_markTokens, hword, hname]

theorem ne_space_of_isWordChar {c : Char} (h : isWordChar c = true) : c ≠ ' ' := by
  rintro rfl
  cases h

theorem endsType_of_isWordChar {c : Char} (h : isWordChar c = true) :
    endsType (some c) = false := by
  unfold endsType
  split
  · rename_i hc
    rw [Option.some.inj hc] at h
    cases h
  · rfl

theorem endsField_of_isWordChar {c : Char} (h : isWordChar c = true) :
    endsField (some c) = false := by
  unfold endsField
  split
  · rename_i hc
    cases hc
  · rename_i hc
    rw [Option.some.inj hc] at h
    cases h
  · rename_i hc
    rw [Option.some.inj hc] at h
    cases h
  · rfl

theorem IsMark.not_isWordChar {c : Char} (h : IsMark c) : isWordChar c = false := by
  unfold IsMark markKind? at h
  split at h <;> first | rfl | cases h

/-! ## The lexer on each piece -/

/-- The modes between two declarations. -/
def idle : Stack Mode := Stack.empty.push .between

/-- The modes between two declarations when a character is next: a word's opens a type word. -/
def modesBefore (next : Option Char) : Stack Mode :=
  if next.any isWordChar then idle.push .typeWord else idle

variable {modes : Stack Mode} {rest : List Char}

theorem withNext_cons (c : Char) (rest : List Char) :
    withNext (c :: rest) = (c, rest.head?) :: withNext rest := by
  cases rest <;> rfl

theorem run_cons (state : State) (c : Char) (rest : List Char) :
    run state (withNext (c :: rest)) =
      (step state c rest.head? >>= fun after => run after (withNext rest)) := by
  rw [withNext_cons]
  rfl

/-- Both modes of words read on until the word ends, and then make a token of all of it. -/
theorem run_word {after : Stack Mode} {ends : Option Char → Bool} {token : String → Token}
    (hstep : ∀ {begun seen c next}, isWordChar c = true →
      step ⟨modes, begun, seen⟩ c next =
        if ends next then .ok ⟨after, "", seen.push (token (begun.push c))⟩
        else .ok ⟨modes, begun.push c, seen⟩)
    (hends : ∀ {c}, isWordChar c = true → ends (some c) = false) {word : List Char}
    (hne : word ≠ []) (hw : ∀ c ∈ word, isWordChar c = true) (hr : ends rest.head? = true)
    (begun : String) (seen : List Token) :
    run ⟨modes, begun, seen.toArray⟩ (withNext (word ++ rest)) =
      run ⟨after, "", (seen ++ [token (begun ++ String.ofList word)]).toArray⟩
        (withNext rest) := by
  induction word generalizing begun with
  | nil => exact absurd rfl hne
  | cons c more ih =>
      obtain ⟨hc, hmore⟩ := List.forall_mem_cons.mp hw
      have hword : begun ++ String.ofList (c :: more) = begun.push c ++ String.ofList more := by
        simp [← String.toList_inj]
      rw [List.cons_append, run_cons, hstep hc, hword]
      cases more with
      | nil =>
          rw [List.nil_append, if_pos hr, ok_bind, List.push_toArray]
          simp
      | cons d others =>
          have hd := (List.forall_mem_cons.mp hmore).1
          rw [List.cons_append, List.head?_cons, hends hd]
          exact ih (List.cons_ne_nil _ _) hmore (begun.push c)

theorem run_typeWord {word : String} (hw : IsWord word) (hr : rest.head? = some ' ')
    (seen : List Token) :
    run ⟨modes.push .typeWord, "", seen.toArray⟩ (withNext (word.toList ++ rest)) =
      run ⟨modes.push .fieldWord, "", (seen ++ [typeToken word]).toArray⟩ (withNext rest) := by
  have hne : word.toList ≠ [] := mt String.toList_eq_nil_iff.mp hw.1
  have hstep : ∀ {begun seen c next}, isWordChar c = true →
      step ⟨modes.push .typeWord, begun, seen⟩ c next =
        if endsType next then .ok ⟨modes.push .fieldWord, "", seen.push (typeToken (begun.push c))⟩
        else .ok ⟨modes.push .typeWord, begun.push c, seen⟩ := by
    intro begun seen c next hc
    rw [step_typeWord, hc]
    cases endsType next <;> rfl
  rw [run_word hstep endsType_of_isWordChar hne hw.2 (hr ▸ rfl) "" seen]
  simp

theorem run_fieldWord {word : String} (hw : IsWord word) (hr : endsField rest.head? = true)
    (seen : List Token) :
    run ⟨modes.push .fieldWord, "", seen.toArray⟩ (withNext (word.toList ++ rest)) =
      run ⟨modes, "", (seen ++ [nameToken word]).toArray⟩ (withNext rest) := by
  have hne : word.toList ≠ [] := mt String.toList_eq_nil_iff.mp hw.1
  have hstep : ∀ {begun seen c next}, isWordChar c = true →
      step ⟨modes.push .fieldWord, begun, seen⟩ c next =
        if endsField next then .ok ⟨modes, "", seen.push (nameToken (begun.push c))⟩
        else .ok ⟨modes.push .fieldWord, begun.push c, seen⟩ := by
    intro begun seen c next hc
    rw [step_fieldWord, if_neg (ne_space_of_isWordChar hc), hc]
    cases endsField next <;> rfl
  rw [run_word hstep endsField_of_isWordChar hne hw.2 hr "" seen]
  simp

theorem run_spaces {spaces : List Char} (hs : ∀ c ∈ spaces, c = ' ') (seen : List Token) :
    run ⟨modes.push .fieldWord, "", seen.toArray⟩ (withNext (spaces ++ rest)) =
      run ⟨modes.push .fieldWord, "", (seen ++ spaces.map markToken).toArray⟩
        (withNext rest) := by
  induction spaces generalizing seen with
  | nil => simp
  | cons c more ih =>
      obtain ⟨rfl, hmore⟩ := List.forall_mem_cons.mp hs
      rw [List.cons_append, run_cons, step_fieldWord, if_pos rfl, ok_bind, List.push_toArray,
        ih hmore, List.append_assoc]
      rfl

theorem modesBefore_mark {c : Char} (h : IsMark c) : modesBefore (some c) = idle := by
  rw [modesBefore, Option.any_some, h.not_isWordChar]
  rfl

theorem step_mark {c : Char} (h : IsMark c) (next : Option Char) (seen : List Token) :
    step ⟨idle, "", seen.toArray⟩ c next =
      .ok ⟨modesBefore next, "", (seen ++ [markToken c]).toArray⟩ := by
  obtain ⟨kind, hk⟩ := Option.isSome_iff_exists.mp h
  rw [idle, step_between, markToken, hk]
  simp [modesBefore, idle]

theorem run_marks {marks : List Char} (hne : marks ≠ []) (hm : ∀ c ∈ marks, IsMark c)
    (seen : List Token) :
    run ⟨idle, "", seen.toArray⟩ (withNext (marks ++ rest)) =
      run ⟨modesBefore rest.head?, "", (seen ++ marks.map markToken).toArray⟩
        (withNext rest) := by
  induction marks generalizing seen with
  | nil => exact absurd rfl hne
  | cons c more ih =>
      obtain ⟨hc, hmore⟩ := List.forall_mem_cons.mp hm
      rw [List.cons_append, run_cons, step_mark hc, ok_bind]
      cases more with
      | nil => rfl
      | cons d others =>
          have hnext := ih (List.cons_ne_nil d others) hmore (seen ++ [markToken c])
          rw [List.append_assoc] at hnext
          rw [List.cons_append, List.head?_cons,
            modesBefore_mark (List.forall_mem_cons.mp hmore).1]
          exact hnext

/-- A declaration leaves the mode that it was found in once its word is taken off. -/
theorem run_declaration {word spaces name : String} (hw : IsWord word) (hs : IsSpaces spaces)
    (hn : IsWord name) (hr : endsField rest.head? = true) (seen : List Token) :
    run ⟨modes.push .typeWord, "", seen.toArray⟩
        (withNext ((word ++ spaces ++ name).toList ++ rest)) =
      run ⟨modes, "", (seen ++ declarationTokens word spaces name).toArray⟩ (withNext rest) := by
  have hhead : (spaces.toList ++ (name.toList ++ rest)).head? = some ' ' := by
    obtain ⟨hne, hall⟩ := hs
    cases h : spaces.toList with
    | nil => exact absurd (String.toList_eq_nil_iff.mp h) hne
    | cons c more => rw [List.cons_append, List.head?_cons, hall c (h ▸ List.mem_cons_self)]
  simp only [String.toList_append, List.append_assoc]
  rw [run_typeWord hw hhead, run_spaces hs.2, run_fieldWord hn hr]
  simp [declarationTokens, markTokens]

/-! ## Texts as sequences of pieces -/

/-- The text is read as the tokens, whatever was read before it, in front of any rest that does not
begin with a word. -/
def Reads (text : String) (tokens : List Token) : Prop :=
  ∀ (seen : List Token) (rest : List Char), rest.head?.any isWordChar = false →
    run ⟨modesBefore (text.toList ++ rest).head?, "", seen.toArray⟩
        (withNext (text.toList ++ rest)) =
      run ⟨idle, "", (seen ++ tokens).toArray⟩ (withNext rest)

theorem modesBefore_of_not_word {next : Option Char} (h : next.any isWordChar = false) :
    modesBefore next = idle := by
  rw [modesBefore, h]
  rfl

theorem modesBefore_of_word {next : Option Char} (h : next.any isWordChar = true) :
    modesBefore next = idle.push .typeWord := by
  rw [modesBefore, h]
  rfl

theorem IsWord.head {word : String} (h : IsWord word) (rest : List Char) :
    (word.toList ++ rest).head?.any isWordChar = true := by
  obtain ⟨hne, hw⟩ := h
  cases hword : word.toList with
  | nil => exact absurd (String.toList_eq_nil_iff.mp hword) hne
  | cons c more => exact hw c (hword ▸ List.mem_cons_self)

theorem reads_empty : Reads "" [] := by
  intro seen rest hrest
  rw [String.toList_empty, List.nil_append, modesBefore_of_not_word hrest, List.append_nil]

theorem head_marks {marks rest : List Char} (hm : ∀ c ∈ marks, IsMark c)
    (hrest : rest.head?.any isWordChar = false) :
    (marks ++ rest).head?.any isWordChar = false := by
  cases marks with
  | nil => exact hrest
  | cons c more => exact (hm c List.mem_cons_self).not_isWordChar

theorem Reads.append_marks {text marks : String} {tokens : List Token} (h : Reads text tokens)
    (hm : ∀ c ∈ marks.toList, IsMark c) : Reads (text ++ marks) (tokens ++ markTokens marks) := by
  intro seen rest hrest
  rw [String.toList_append, List.append_assoc, h seen _ (head_marks hm hrest)]
  by_cases hne : marks.toList = []
  · rw [markTokens, hne, List.nil_append, List.map_nil, List.append_nil]
  · rw [run_marks hne hm, modesBefore_of_not_word hrest, List.append_assoc]
    rfl

/-- A declaration needs a mark behind it that ends its name. -/
theorem Reads.declaration {word spaces name marks text : String} {tokens : List Token}
    (hw : IsWord word) (hs : IsSpaces spaces) (hn : IsWord name)
    (hends : marks.toList.head? = some ';' ∨ marks.toList.head? = some ' ')
    (hm : ∀ c ∈ marks.toList, IsMark c) (h : Reads text tokens) :
    Reads (word ++ spaces ++ name ++ (marks ++ text))
      (declarationTokens word spaces name ++ (markTokens marks ++ tokens)) := by
  intro seen rest hrest
  have hne : marks.toList ≠ [] := by
    intro hnil
    rw [hnil] at hends
    rcases hends with hends | hends <;> cases hends
  have hnext : endsField (marks.toList ++ (text.toList ++ rest)).head? = true := by
    rw [List.head?_append]
    rcases hends with hends | hends <;> rw [hends] <;> rfl
  have hmodes : modesBefore ((word ++ spaces ++ name ++ (marks ++ text)).toList ++ rest).head? =
      idle.push .typeWord := by
    simp only [String.toList_append, List.append_assoc]
    exact modesBefore_of_word (hw.head _)
  have hsplit : (word ++ spaces ++ name ++ (marks ++ text)).toList ++ rest =
      (word ++ spaces ++ name).toList ++ (marks.toList ++ (text.toList ++ rest)) := by
    simp only [String.toList_append, List.append_assoc]
  rw [hmodes, hsplit, run_declaration hw hs hn hnext, run_marks hne hm, h _ rest hrest]
  simp only [List.append_assoc]
  rfl

/-- A text that begins with a word is read from the start. -/
theorem tokenize_of_reads {text : String} {tokens : List Token} (h : Reads text tokens)
    (hw : text.toList.head?.any isWordChar = true) : tokenize text = .ok tokens := by
  have hrun := h [] [] rfl
  rw [List.append_nil, modesBefore_of_word hw] at hrun
  show (run ⟨idle.push .typeWord, "", #[]⟩ _ >>= _) = _
  rw [hrun]
  simp [run]
  rfl

end RecordSchema.Lexer
