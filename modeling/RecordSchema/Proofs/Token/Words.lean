import RecordSchema.Proofs.Token.Resume

/-! The words among the tokens and the text that they were read from. A word is the letters and
digits of a stretch of the text, and the stretches follow one another (`tokenize_stretches`). Other
characters within a stretch are passed over, so only where there are none is the word the stretch
itself. -/

namespace RecordSchema.Lexer

/-! ## One character -/

/-- What one character does to the open word and the tokens, in whatever mode. -/
inductive Effect (c : Char) : State → State → Prop
  | passed {modes after : Stack Mode} {word : String} {tokens : Array Token} :
      isWordChar c = false → Effect c ⟨modes, word, tokens⟩ ⟨after, word, tokens⟩
  | marked {modes after : Stack Mode} {word : String} {tokens : Array Token} :
      IsMark c → Effect c ⟨modes, word, tokens⟩ ⟨after, word, tokens.push (markToken c)⟩
  | extended {modes after : Stack Mode} {word : String} {tokens : Array Token} :
      isWordChar c = true → Effect c ⟨modes, word, tokens⟩ ⟨after, word.push c, tokens⟩
  | ended {modes after : Stack Mode} {word : String} {tokens : Array Token} {token : Token} :
      isWordChar c = true → (token = typeToken (word.push c) ∨ token = nameToken (word.push c)) →
      Effect c ⟨modes, word, tokens⟩ ⟨after, "", tokens.push token⟩

theorem markedTokens_of_isMark {c : Char} (h : IsMark c) (tokens : Array Token) :
    markedTokens tokens c = tokens.push (markToken c) := by
  obtain ⟨kind, hk⟩ := Option.isSome_iff_exists.mp h
  simp only [markedTokens, markToken, hk, Option.getD_some]

theorem markedTokens_of_not_isMark {c : Char} (h : ¬IsMark c) (tokens : Array Token) :
    markedTokens tokens c = tokens := by
  have hk : markKind? c = none := by simpa [IsMark] using h
  simp only [markedTokens, hk]

theorem effect_between {c : Char} (hc : isWordChar c = false) (modes after : Stack Mode)
    (word : String) (tokens : Array Token) :
    Effect c ⟨modes, word, tokens⟩ ⟨after, word, markedTokens tokens c⟩ := by
  by_cases hm : IsMark c
  · rw [markedTokens_of_isMark hm]
    exact .marked hm
  · rw [markedTokens_of_not_isMark hm]
    exact .passed hc

theorem Transition.effect {before after : State} {c : Char} {next : Option Char}
    (h : Transition c next before after) : Effect c before after := by
  cases h with
  | between hc => exact effect_between hc _ _ _ _
  | typePassed hc => exact .passed hc
  | typeExtended hc _ => exact .extended hc
  | typeEnded hc _ => exact .ended hc (.inl rfl)
  | space hc =>
      subst hc
      exact .marked rfl
  | namePassed _ hc => exact .passed hc
  | nameExtended hc _ => exact .extended hc
  | nameEnded hc _ => exact .ended hc (.inr rfl)

/-- What every effect keeps holds at the end, of the whole text. -/
theorem run_induction {P : List Char → State → Prop} {text : List Char} {after : State}
    (h : run .initial (withNext text) = .ok after) (start : P [] .initial)
    (step : ∀ {seen c before after}, Effect c before after → P seen before →
      P (seen ++ [c]) after) : P text after :=
  run_invariant (P := fun seen _ state => P seen state) h start fun ht hp => step ht.effect hp

/-! ## Words and stretches -/

def isWordKind (kind : TokenKind) : Bool := kind.isType || kind == .fieldName

/-- The lexemes of the type words and names, in order. -/
def wordsOf (tokens : List Token) : List String :=
  (tokens.filter fun token => isWordKind token.kind).map (·.lexeme)

/-- The letters and digits of a text. -/
def lettersOf (text : List Char) : String := String.ofList (text.filter isWordChar)

/-- A part of a text that opens and closes with a letter or digit, and what stands before it. -/
structure Stretch where
  gap : List Char
  body : List Char
  gap_bare : ∀ c ∈ gap, isWordChar c = false
  opens : body.head?.any isWordChar = true
  closes : body.getLast?.any isWordChar = true

namespace Stretch

def word (stretch : Stretch) : String := lettersOf stretch.body

/-- Nothing but letters and digits stands in it. -/
def IsWhole (stretch : Stretch) : Prop := ∀ c ∈ stretch.body, isWordChar c = true

/-- The text that stretches make up, one behind the other. -/
def covered (stretches : List Stretch) : List Char :=
  stretches.flatMap fun stretch => stretch.gap ++ stretch.body

theorem covered_append (front back : List Stretch) :
    covered (front ++ back) = covered front ++ covered back :=
  List.flatMap_append

theorem covered_singleton (stretch : Stretch) :
    covered [stretch] = stretch.gap ++ stretch.body :=
  List.flatMap_singleton ..

theorem IsWhole.toList_word {stretch : Stretch} (h : stretch.IsWhole) :
    stretch.word.toList = stretch.body := by
  rw [word, lettersOf, String.toList_ofList, List.filter_eq_self.mpr h]

end Stretch

theorem isWordKind_markToken {c : Char} (h : IsMark c) :
    isWordKind (markToken c).kind = false := by
  obtain ⟨kind, hk⟩ := Option.isSome_iff_exists.mp h
  have hkind : (markToken c).kind = kind := by rw [markToken, hk, Option.getD_some]
  rw [hkind]
  unfold markKind? at hk
  split at hk <;> first | (obtain rfl := Option.some.inj hk; rfl) | cases hk

theorem isWordKind_of_type {kind : TokenKind} (h : kind = .nativeType ∨ kind = .userType) :
    isWordKind kind = true := by
  rcases h with rfl | rfl <;> rfl

theorem isWordKind_typeToken (word : String) : isWordKind (typeToken word).kind = true := by
  rw [isWordKind, isType_kind_typeToken, Bool.true_or]

theorem wordsOf_push_word {token : Token} (h : isWordKind token.kind = true)
    (tokens : Array Token) :
    wordsOf (tokens.push token).toList = wordsOf tokens.toList ++ [token.lexeme] := by
  simp [wordsOf, h]

theorem wordsOf_push_mark {c : Char} (h : IsMark c) (tokens : Array Token) :
    wordsOf (tokens.push (markToken c)).toList = wordsOf tokens.toList := by
  simp [wordsOf, isWordKind_markToken h]

theorem lettersOf_append_word {c : Char} (hc : isWordChar c = true) (text : List Char) :
    lettersOf (text ++ [c]) = (lettersOf text).push c := by
  simp [lettersOf, hc]

theorem lettersOf_append_other {c : Char} (hc : isWordChar c = false) (text : List Char) :
    lettersOf (text ++ [c]) = lettersOf text := by
  simp [lettersOf, hc]

/-! ## The text read so far -/

/-- The characters `seen` are stretches, whose words are those among the tokens, a gap, and what is
read of the stretch of the open word. -/
structure Reading (seen : List Char) (stretches : List Stretch) (gap body : List Char)
    (state : State) : Prop where
  seen_eq : seen = Stretch.covered stretches ++ gap ++ body
  gap_bare : ∀ c ∈ gap, isWordChar c = false
  opens : body ≠ [] → body.head?.any isWordChar = true
  word : state.word = lettersOf body
  words : wordsOf state.tokens.toList = stretches.map Stretch.word

namespace Reading
variable {seen gap body : List Char} {stretches : List Stretch} {modes after : Stack Mode}
  {word : String} {tokens : Array Token} {c : Char}

/-- A character that is no part of a word widens the open stretch, or the gap if there is none. -/
theorem pass (h : Reading seen stretches gap body ⟨modes, word, tokens⟩)
    (hc : isWordChar c = false) {marked : Array Token}
    (hm : wordsOf marked.toList = wordsOf tokens.toList) :
    ∃ gap body, Reading (seen ++ [c]) stretches gap body ⟨after, word, marked⟩ := by
  cases body with
  | nil =>
      refine ⟨gap ++ [c], [], ?_, ?_, nofun, h.word, hm.trans h.words⟩
      · rw [h.seen_eq, List.append_nil, List.append_nil, List.append_assoc]
      · exact List.forall_mem_append.mpr ⟨h.gap_bare, by simpa using hc⟩
  | cons d more =>
      refine ⟨gap, d :: more ++ [c], ?_, h.gap_bare, fun _ => ?_, ?_, hm.trans h.words⟩
      · rw [h.seen_eq, List.append_assoc]
      · exact h.opens (List.cons_ne_nil d more)
      · rw [lettersOf_append_other hc]
        exact h.word

theorem opens_append (h : Reading seen stretches gap body ⟨modes, word, tokens⟩)
    (hc : isWordChar c = true) : (body ++ [c]).head?.any isWordChar = true := by
  cases body with
  | nil => exact hc
  | cons d more => exact h.opens (List.cons_ne_nil d more)

theorem extend (h : Reading seen stretches gap body ⟨modes, word, tokens⟩)
    (hc : isWordChar c = true) :
    Reading (seen ++ [c]) stretches gap (body ++ [c]) ⟨after, word.push c, tokens⟩ where
  seen_eq := by rw [h.seen_eq, List.append_assoc]
  gap_bare := h.gap_bare
  opens := fun _ => h.opens_append hc
  word := by rw [lettersOf_append_word hc, ← h.word]
  words := h.words

/-- The last character of a word closes its stretch. -/
theorem close (h : Reading seen stretches gap body ⟨modes, word, tokens⟩)
    (hc : isWordChar c = true) {token : Token} (hk : isWordKind token.kind = true)
    (ht : token.lexeme = word.push c) :
    ∃ stretch, Reading (seen ++ [c]) (stretches ++ [stretch]) [] []
      ⟨after, "", tokens.push token⟩ := by
  have hopens := h.opens_append hc
  have hcloses : (body ++ [c]).getLast?.any isWordChar = true := by
    rw [List.getLast?_concat]
    exact hc
  obtain ⟨rfl, hgap, _, rfl, hwords⟩ := h
  refine ⟨⟨gap, body ++ [c], hgap, hopens, hcloses⟩, ?_, ?_, ?_, rfl, ?_⟩
  · rw [Stretch.covered_append, Stretch.covered_singleton]
    simp only [List.append_assoc, List.append_nil]
  · exact List.forall_mem_nil _
  · exact fun hne => absurd rfl hne
  · rw [wordsOf_push_word hk, hwords, List.map_append, ht, ← lettersOf_append_word hc]
    rfl

theorem step {before after : State} (h : Reading seen stretches gap body before)
    (he : Effect c before after) :
    ∃ stretches gap body, Reading (seen ++ [c]) stretches gap body after := by
  cases he with
  | passed hc => exact ⟨stretches, h.pass hc rfl⟩
  | marked hm => exact ⟨stretches, h.pass hm.not_isWordChar (wordsOf_push_mark hm _)⟩
  | extended hc => exact ⟨stretches, gap, _, h.extend hc⟩
  | @ended _ _ word _ token hc ht =>
      have hword : isWordKind token.kind = true ∧ token.lexeme = word.push c := by
        rcases ht with rfl | rfl
        · exact ⟨isWordKind_typeToken _, rfl⟩
        · exact ⟨rfl, rfl⟩
      obtain ⟨stretch, hclosed⟩ := h.close hc hword.1 hword.2
      exact ⟨_, _, _, hclosed⟩

end Reading

/-- The words of a text are those of stretches that follow one another in it, and none of its
letters and digits stand outside but behind the last of them. -/
theorem tokenize_stretches {text : String} {tokens : List Token}
    (h : tokenize text = .ok tokens) :
    ∃ stretches rest, text.toList = Stretch.covered stretches ++ rest ∧
      wordsOf tokens = stretches.map Stretch.word := by
  obtain ⟨after, hrun, rfl⟩ := tokenize_eq_ok.mp h
  have hstart : Reading [] [] [] [] .initial :=
    ⟨rfl, List.forall_mem_nil _, fun hne => absurd rfl hne, rfl, rfl⟩
  obtain ⟨stretches, gap, body, hread⟩ := run_induction
    (P := fun seen state => ∃ stretches gap body, Reading seen stretches gap body state) hrun
    ⟨[], [], [], hstart⟩ fun he ⟨_, _, _, hread⟩ => hread.step he
  refine ⟨stretches, gap ++ body, ?_, hread.words⟩
  rw [hread.seen_eq, List.append_assoc]

/-! ## Words in their places -/

/-- The words stand in the text as they are, one behind the other. -/
inductive StandIn : List String → List Char → Prop
  | nil {rest : List Char} : StandIn [] rest
  | cons {word : String} {words : List String} {gap rest : List Char} :
      StandIn words rest → StandIn (word :: words) (gap ++ (word.toList ++ rest))

theorem StandIn.contains {words : List String} {text : List Char} (h : StandIn words text)
    {word : String} (hw : word ∈ words) : word.toList <:+: text := by
  induction h with
  | nil => exact absurd hw List.not_mem_nil
  | @cons first words gap rest _ ih =>
      rcases List.mem_cons.mp hw with rfl | hw
      · exact ⟨gap, rest, List.append_assoc ..⟩
      · exact ((ih hw).trans (List.suffix_append first.toList rest).isInfix).trans
          (List.suffix_append gap _).isInfix

theorem Stretch.standIn {stretches : List Stretch} (h : ∀ stretch ∈ stretches, stretch.IsWhole)
    (rest : List Char) : StandIn (stretches.map word) (covered stretches ++ rest) := by
  induction stretches with
  | nil => exact .nil
  | cons stretch stretches ih =>
      obtain ⟨hfirst, hmore⟩ := List.forall_mem_cons.mp h
      have htext : covered (stretch :: stretches) ++ rest =
          stretch.gap ++ (stretch.word.toList ++ (covered stretches ++ rest)) := by
        rw [hfirst.toList_word, covered, List.flatMap_cons]
        simp only [List.append_assoc]
        rfl
      rw [htext]
      exact .cons (ih hmore)

/-! ## Tokens one by one -/

/-- The tokens that the lexer makes. -/
inductive Lexed : Token → Prop
  | typeWord {word : String} : IsWord word → Lexed (typeToken word)
  | name {word : String} : IsWord word → Lexed (nameToken word)
  | mark {c : Char} : IsMark c → Lexed (markToken c)

namespace Lexed
variable {token : Token}

theorem type (h : Lexed token) (hk : token.kind = .nativeType ∨ token.kind = .userType) :
    ∃ word, IsWord word ∧ token = typeToken word := by
  cases h with
  | typeWord hw => exact ⟨_, hw, rfl⟩
  | name _ => rcases hk with hk | hk <;> cases hk
  | mark hm => cases (isWordKind_markToken hm).symm.trans (isWordKind_of_type hk)

theorem isWord_lexeme (h : Lexed token) (hk : token.kind = .fieldName) : IsWord token.lexeme := by
  cases h with
  | typeWord hw => exact hw
  | name hw => exact hw
  | @mark c hm =>
      have hword : isWordKind (markToken c).kind = true := by
        rw [hk]
        rfl
      cases (isWordKind_markToken hm).symm.trans hword

end Lexed

theorem isWord_push {word : String} (hw : ∀ c ∈ word.toList, isWordChar c = true) {c : Char}
    (hc : isWordChar c = true) : IsWord (word.push c) := by
  refine ⟨fun hempty => ?_, ?_⟩
  · have hlist := congrArg String.toList hempty
    rw [String.toList_push] at hlist
    exact List.append_ne_nil_of_right_ne_nil _ (List.cons_ne_nil c []) hlist
  · rw [String.toList_push]
    exact List.forall_mem_append.mpr ⟨hw, List.forall_mem_singleton.mpr hc⟩

theorem tokenize_lexed {text : String} {tokens : List Token} (h : tokenize text = .ok tokens) :
    ∀ token ∈ tokens, Lexed token := by
  obtain ⟨after, hrun, rfl⟩ := tokenize_eq_ok.mp h
  refine (run_induction (P := fun _ state => (∀ c ∈ state.word.toList, isWordChar c = true) ∧
    ∀ token ∈ state.tokens.toList, Lexed token) hrun ?_ ?_).2
  · exact ⟨by simp [State.initial], by simp [State.initial]⟩
  · rintro _ c _ _ he ⟨hword, htokens⟩
    cases he with
    | passed _ => exact ⟨hword, htokens⟩
    | marked hm =>
        rw [Array.toList_push]
        exact ⟨hword, List.forall_mem_append.mpr ⟨htokens, by simpa using .mark hm⟩⟩
    | extended hc => exact ⟨(isWord_push hword hc).2, htokens⟩
    | ended hc ht =>
        have hlexed := isWord_push hword hc
        rw [Array.toList_push]
        refine ⟨by simp, List.forall_mem_append.mpr ⟨htokens, ?_⟩⟩
        rw [List.forall_mem_singleton]
        rcases ht with rfl | rfl
        · exact .typeWord hlexed
        · exact .name hlexed

end RecordSchema.Lexer
