import RecordSchema.Proofs.Token.Run

/-! The lexer on a text that goes on behind a text it could have ended at. Of the first text only the
last character sees the second one, so the state before that character says what the tokens of both
together are (`tokenize_append_word`). -/

namespace RecordSchema.Lexer

/-! ## States before a character -/

/-- The states in which the lexer meets the character `next`, or the end of the text. Between words
none is open and none begins, and a name is read only behind the type word it belongs to. -/
inductive Ready (next : Option Char) : State → Prop
  | between {tokens : Array Token} : next.any isWordChar = false → Ready next ⟨idle, "", tokens⟩
  | typeWord {word : String} {tokens : Array Token} :
      Ready next ⟨idle.push .typeWord, word, tokens⟩
  | fieldWord {word : String} {tokens : Array Token} {type : Token} :
      (Token.significant tokens.toList).getLast? = some type → type.kind.isType = true →
      Ready next ⟨idle.push .fieldWord, word, tokens⟩

theorem ready_initial (next : Option Char) : Ready next .initial := .typeWord

theorem isType_kind_typeToken (word : String) : (typeToken word).kind.isType = true := by
  unfold typeToken
  split <;> rfl

theorem isWhitespace_of_isType {kind : TokenKind} (h : kind.isType = true) :
    kind.isWhitespace = false := by
  cases kind <;> first | rfl | cases h

theorem significant_concat {token : Token} (h : token.kind.isWhitespace = false)
    (tokens : List Token) :
    Token.significant (tokens ++ [token]) = Token.significant tokens ++ [token] := by
  simp [Token.significant, h]

theorem significant_concat_whitespace {token : Token} (h : token.kind.isWhitespace = true)
    (tokens : List Token) : Token.significant (tokens ++ [token]) = Token.significant tokens := by
  simp [Token.significant, h]

theorem significant_push_space (tokens : Array Token) :
    Token.significant (tokens.push ⟨.whitespace, " "⟩).toList = Token.significant tokens.toList := by
  rw [Array.toList_push]
  exact significant_concat_whitespace rfl _

theorem getLast?_significant_push {tokens : Array Token} {token : Token}
    (h : token.kind.isWhitespace = false) :
    (Token.significant (tokens.push token).toList).getLast? = some token := by
  rw [Array.toList_push, significant_concat h, List.getLast?_concat]

/-- The tokens behind a character that stands between words. -/
def markedTokens (tokens : Array Token) (c : Char) : Array Token :=
  match markKind? c with
  | some kind => tokens.push ⟨kind, String.singleton c⟩
  | none => tokens

theorem step_idle (word : String) (tokens : Array Token) (c : Char) (next : Option Char) :
    step ⟨idle, word, tokens⟩ c next = .ok ⟨modesBefore next, word, markedTokens tokens c⟩ := rfl

theorem ready_modesBefore (next : Option Char) (tokens : Array Token) :
    Ready next ⟨modesBefore next, "", tokens⟩ := by
  cases h : next.any isWordChar with
  | true =>
      rw [modesBefore_of_word h]
      exact .typeWord
  | false =>
      rw [modesBefore_of_not_word h]
      exact .between h

theorem not_word_of_endsField {next : Option Char} (h : endsField next = true) :
    next.any isWordChar = false := by
  cases next with
  | none => rfl
  | some c =>
      cases hc : isWordChar c with
      | false => exact hc
      | true => cases (endsField_of_isWordChar hc).symm.trans h

/-- All that the character `c` can do, met before `next`. -/
inductive Transition (c : Char) (next : Option Char) : State → State → Prop
  | between {tokens : Array Token} : isWordChar c = false →
      Transition c next ⟨idle, "", tokens⟩ ⟨modesBefore next, "", markedTokens tokens c⟩
  | typePassed {word : String} {tokens : Array Token} : isWordChar c = false →
      Transition c next ⟨idle.push .typeWord, word, tokens⟩ ⟨idle.push .typeWord, word, tokens⟩
  | typeExtended {word : String} {tokens : Array Token} :
      isWordChar c = true → endsType next = false →
      Transition c next ⟨idle.push .typeWord, word, tokens⟩
        ⟨idle.push .typeWord, word.push c, tokens⟩
  | typeEnded {word : String} {tokens : Array Token} :
      isWordChar c = true → endsType next = true →
      Transition c next ⟨idle.push .typeWord, word, tokens⟩
        ⟨idle.push .fieldWord, "", tokens.push (typeToken (word.push c))⟩
  | space {word : String} {tokens : Array Token} : c = ' ' →
      Transition c next ⟨idle.push .fieldWord, word, tokens⟩
        ⟨idle.push .fieldWord, word, tokens.push ⟨.whitespace, " "⟩⟩
  | namePassed {word : String} {tokens : Array Token} : c ≠ ' ' → isWordChar c = false →
      Transition c next ⟨idle.push .fieldWord, word, tokens⟩ ⟨idle.push .fieldWord, word, tokens⟩
  | nameExtended {word : String} {tokens : Array Token} :
      isWordChar c = true → endsField next = false →
      Transition c next ⟨idle.push .fieldWord, word, tokens⟩
        ⟨idle.push .fieldWord, word.push c, tokens⟩
  | nameEnded {word : String} {tokens : Array Token} :
      isWordChar c = true → endsField next = true →
      Transition c next ⟨idle.push .fieldWord, word, tokens⟩
        ⟨idle, "", tokens.push (nameToken (word.push c))⟩

theorem Ready.transition {state : State} {c : Char} (h : Ready (some c) state)
    (next : Option Char) :
    ∃ after, step state c next = .ok after ∧ Transition c next state after := by
  cases h with
  | between hc => exact ⟨_, step_idle _ _ _ _, .between hc⟩
  | typeWord =>
      rw [step_typeWord]
      cases hc : isWordChar c with
      | false => exact ⟨_, rfl, .typePassed hc⟩
      | true =>
          cases hn : endsType next with
          | false => exact ⟨_, rfl, .typeExtended hc hn⟩
          | true => exact ⟨_, rfl, .typeEnded hc hn⟩
  | fieldWord =>
      rw [step_fieldWord]
      by_cases hspace : c = ' '
      · rw [if_pos hspace]
        exact ⟨_, rfl, .space hspace⟩
      · rw [if_neg hspace]
        cases hc : isWordChar c with
        | false => exact ⟨_, rfl, .namePassed hspace hc⟩
        | true =>
            cases hn : endsField next with
            | false => exact ⟨_, rfl, .nameExtended hc hn⟩
            | true => exact ⟨_, rfl, .nameEnded hc hn⟩

theorem Transition.ready {before after : State} {c : Char} {next : Option Char}
    (h : Transition c next before after) (hb : Ready (some c) before) : Ready next after := by
  cases h with
  | between _ => exact ready_modesBefore next _
  | typePassed _ => exact .typeWord
  | typeExtended _ _ => exact .typeWord
  | @typeEnded word tokens _ _ =>
      have htype := isType_kind_typeToken (word.push c)
      exact .fieldWord (getLast?_significant_push (isWhitespace_of_isType htype)) htype
  | @space word tokens _ =>
      cases hb with
      | fieldWord hlast htype => exact .fieldWord (significant_push_space tokens ▸ hlast) htype
  | namePassed _ _ =>
      cases hb with
      | fieldWord hlast htype => exact .fieldWord hlast htype
  | nameExtended _ _ =>
      cases hb with
      | fieldWord hlast htype => exact .fieldWord hlast htype
  | nameEnded _ hn => exact .between (not_word_of_endsField hn)

theorem Ready.step {state : State} {c : Char} (h : Ready (some c) state) (next : Option Char) :
    ∃ after, step state c next = .ok after ∧ Ready next after := by
  obtain ⟨after, hs, ht⟩ := h.transition next
  exact ⟨after, hs, ht.ready h⟩

/-- What holds at the start and is kept by every transition holds at the end, of the whole text. -/
theorem run_invariant {P : List Char → Option Char → State → Prop} {text : List Char}
    {after : State} (h : run .initial (withNext text) = .ok after)
    (start : P [] text.head? .initial)
    (step : ∀ {seen c next before after}, Transition c next before after →
      P seen (some c) before → P (seen ++ [c]) next after) : P text none after := by
  suffices ∀ (rest seen : List Char) (state : State), Ready rest.head? state →
      P seen rest.head? state → run state (withNext rest) = .ok after →
      P (seen ++ rest) none after from
    this text [] .initial (ready_initial _) start h
  intro rest
  induction rest with
  | nil =>
      intro seen state _ hp hrun
      rw [List.append_nil]
      exact Except.ok.inj hrun ▸ hp
  | cons c rest ih =>
      intro seen state hready hp hrun
      obtain ⟨middle, hmiddle, htransition⟩ := hready.transition rest.head?
      rw [run_cons, hmiddle, ok_bind] at hrun
      rw [List.append_cons]
      exact ih _ middle (htransition.ready hready) (step htransition hp) hrun

/-- Up to its last character a text is read in one way, whatever follows it. -/
theorem Ready.run_before {front : List Char} {c : Char} {state : State}
    (h : Ready (front ++ [c]).head? state) :
    ∃ before, Ready (some c) before ∧ ∀ rest,
      run state (withNext (front ++ c :: rest)) =
        (Lexer.step before c rest.head? >>= fun after => run after (withNext rest)) := by
  induction front generalizing state with
  | nil => exact ⟨state, h, fun rest => run_cons state c rest⟩
  | cons d front ih =>
      obtain ⟨after, hstep, hafter⟩ := Ready.step (c := d) h (front ++ [c]).head?
      obtain ⟨before, hbefore, hrun⟩ := ih hafter
      refine ⟨before, hbefore, fun rest => ?_⟩
      have hhead : (front ++ c :: rest).head? = (front ++ [c]).head? := by
        cases front <;> rfl
      rw [List.cons_append, run_cons, hhead, hstep, ok_bind, hrun]

/-! ## Words without an end -/

variable {modes : Stack Mode} {tokens : Array Token}

/-- Whatever is no part of a word is passed over while a type word is open. -/
theorem run_skipped {skipped : List Char} (h : ∀ c ∈ skipped, isWordChar c = false) (word : String)
    (rest : List Char) :
    run ⟨modes.push .typeWord, word, tokens⟩ (withNext (skipped ++ rest)) =
      run ⟨modes.push .typeWord, word, tokens⟩ (withNext rest) := by
  induction skipped with
  | nil => rfl
  | cons c skipped ih =>
      obtain ⟨hc, hmore⟩ := List.forall_mem_cons.mp h
      rw [List.cons_append, run_cons, step_typeWord, hc, ← ih hmore]
      rfl

/-- A type word that the text ends in makes no token. -/
theorem run_unfinished {word : List Char} (h : ∀ c ∈ word, isWordChar c = true) (begun : String) :
    run ⟨modes.push .typeWord, begun, tokens⟩ (withNext word) =
      .ok ⟨modes.push .typeWord, begun ++ String.ofList word, tokens⟩ := by
  induction word generalizing begun with
  | nil => simp [run]; rfl
  | cons c more ih =>
      obtain ⟨hc, hmore⟩ := List.forall_mem_cons.mp h
      have hopen : endsType more.head? = false := by
        cases more with
        | nil => rfl
        | cons d others => exact endsType_of_isWordChar (List.forall_mem_cons.mp hmore).1
      have hword : begun ++ String.ofList (c :: more) = begun.push c ++ String.ofList more := by
        simp [← String.toList_inj]
      rw [run_cons, step_typeWord, hc, hopen, hword, ← ih hmore (begun.push c)]
      rfl

/-- Behind a type word only spaces make tokens until the name begins. -/
theorem run_beforeName {gap : List Char} (h : ∀ c ∈ gap, isWordChar c = false)
    (modes : Stack Mode) (rest : List Char) (seen : List Token) :
    ∃ spaces, Token.significant spaces = [] ∧
      run ⟨modes.push .fieldWord, "", seen.toArray⟩ (withNext (gap ++ rest)) =
        run ⟨modes.push .fieldWord, "", (seen ++ spaces).toArray⟩ (withNext rest) := by
  induction gap generalizing seen with
  | nil => exact ⟨[], rfl, by rw [List.append_nil, List.nil_append]⟩
  | cons c gap ih =>
      obtain ⟨hc, hmore⟩ := List.forall_mem_cons.mp h
      by_cases hspace : c = ' '
      · obtain ⟨spaces, hs, hrun⟩ := ih hmore (seen ++ [⟨.whitespace, " "⟩])
        refine ⟨⟨.whitespace, " "⟩ :: spaces, hs, ?_⟩
        rw [List.cons_append, run_cons, step_fieldWord, if_pos hspace, ok_bind, List.push_toArray,
          hrun, List.append_assoc]
        rfl
      · obtain ⟨spaces, hs, hrun⟩ := ih hmore seen
        refine ⟨spaces, hs, ?_⟩
        rw [List.cons_append, run_cons, step_fieldWord, if_neg hspace, hc, ← hrun]
        rfl

/-! ## A word behind a text -/

theorem tokenize_eq_ok {text : String} {tokens : List Token} :
    tokenize text = .ok tokens ↔
      ∃ after, run .initial (withNext text.toList) = .ok after ∧ after.tokens.toList = tokens := by
  rw [tokenize, bind_eq_ok]
  constructor
  · rintro ⟨after, hrun, ht⟩
    exact ⟨after, hrun, Except.ok.inj ht⟩
  · rintro ⟨after, hrun, rfl⟩
    exact ⟨after, hrun, rfl⟩

/-- The last token that the grammar looks at is a mark, as it is in every complete description. -/
def EndsInMark (tokens : List Token) : Prop :=
  ∃ mark, (Token.significant tokens).getLast? = some mark ∧
    (mark.kind = .closeBrace ∨ mark.kind = .semicolon)

/-- A text whose last word may go on to be a type word, before a space behind the text. -/
def ResumesWord (text gap : String) : Prop :=
  text.toList.getLast?.any isWordChar = true ∧ gap.toList.head? = some ' '

theorem EndsInMark.not_type {tokens : List Token} {type : Token} (h : EndsInMark tokens)
    (hlast : (Token.significant tokens).getLast? = some type) : type.kind.isType = false := by
  obtain ⟨mark, hm, hk⟩ := h
  obtain rfl := Option.some.inj (hm.symm.trans hlast)
  rcases hk with hk | hk <;> rw [hk] <;> rfl

theorem EndsInMark.not_name {tokens : Array Token} {name : String} :
    ¬EndsInMark (tokens.push (nameToken name)).toList := by
  rintro ⟨mark, hm, hk⟩
  obtain rfl := Option.some.inj (hm.symm.trans (getLast?_significant_push rfl))
  rcases hk with hk | hk <;> cases hk

/-- A name is still to be read only if a type word is the last token. -/
theorem not_endsInMark_of_fieldWord {word : String} {type : Token} {c : Char} {after : State}
    (hlast : (Token.significant tokens.toList).getLast? = some type)
    (htype : type.kind.isType = true)
    (hstep : step ⟨idle.push .fieldWord, word, tokens⟩ c none = .ok after) :
    ¬EndsInMark after.tokens.toList := by
  intro hmark
  rw [step_fieldWord] at hstep
  split at hstep
  · obtain rfl := Except.ok.inj hstep
    have hsame := hmark.not_type ((significant_push_space tokens).symm ▸ hlast)
    cases hsame.symm.trans htype
  · split at hstep
    · obtain rfl := Except.ok.inj hstep
      cases (hmark.not_type hlast).symm.trans htype
    · obtain rfl := Except.ok.inj hstep
      exact EndsInMark.not_name hmark

theorem step_typeWord_ended {begun : String} {c : Char} (hc : isWordChar c = true) :
    step ⟨modes.push .typeWord, begun, tokens⟩ c (some ' ') =
      .ok ⟨modes.push .fieldWord, "", tokens.push (typeToken (begun.push c))⟩ := by
  rw [step_typeWord, hc]
  rfl

theorem step_typeWord_open {begun : String} {c : Char} {next : Option Char}
    (h : ¬(isWordChar c = true ∧ next = some ' ')) :
    ∃ word, step ⟨modes.push .typeWord, begun, tokens⟩ c next =
      .ok ⟨modes.push .typeWord, word, tokens⟩ := by
  rw [step_typeWord]
  split
  · exact ⟨_, rfl⟩
  · rename_i hc
    have hends : endsType next = false := by
      unfold endsType
      split
      · exact absurd ⟨by simpa using hc, rfl⟩ h
      · rfl
    rw [hends]
    exact ⟨_, rfl⟩

theorem IsWord.begins {word : String} (h : IsWord word) :
    word.toList.head?.any isWordChar = true := by
  have hhead := h.head []
  rwa [List.append_nil] at hhead

section Following
variable {gap : List Char} {word : String} (hg : ∀ c ∈ gap, IsMark c) (hw : IsWord word)
  (tokens : Array Token)
include hg hw

theorem run_word_between :
    ∃ after, run ⟨modesBefore (gap ++ word.toList).head?, "", tokens⟩
        (withNext (gap ++ word.toList)) = .ok after ∧
      after.tokens.toList = tokens.toList ++ gap.map markToken := by
  have hword : modesBefore word.toList.head? = idle.push .typeWord := modesBefore_of_word hw.begins
  by_cases hne : gap = []
  · subst hne
    rw [List.nil_append, hword, run_unfinished hw.2]
    exact ⟨_, rfl, (List.append_nil _).symm⟩
  · have hidle : modesBefore (gap ++ word.toList).head? = idle := by
      cases gap with
      | nil => exact absurd rfl hne
      | cons c more => exact modesBefore_mark (List.forall_mem_cons.mp hg).1
    have hrun : run ⟨idle, "", tokens.toList.toArray⟩ (withNext (gap ++ word.toList)) = _ :=
      run_marks hne hg tokens.toList
    rw [Array.toArray_toList, hword, run_unfinished hw.2] at hrun
    rw [hidle, hrun]
    exact ⟨_, rfl, rfl⟩

theorem run_word_typeWord (begun : String) :
    ∃ after, run ⟨idle.push .typeWord, begun, tokens⟩ (withNext (gap ++ word.toList)) = .ok after ∧
      after.tokens = tokens := by
  rw [run_skipped fun c hc => (hg c hc).not_isWordChar, run_unfinished hw.2]
  exact ⟨_, rfl, rfl⟩

theorem run_word_fieldWord :
    ∃ after spaces, Token.significant spaces = [] ∧
      run ⟨idle.push .fieldWord, "", tokens⟩ (withNext (gap ++ word.toList)) = .ok after ∧
      after.tokens.toList = tokens.toList ++ (spaces ++ [nameToken word]) := by
  obtain ⟨spaces, hs, hgap⟩ := run_beforeName (fun c hc => (hg c hc).not_isWordChar) idle
    word.toList tokens.toList
  have hname : run ⟨idle.push .fieldWord, "", (tokens.toList ++ spaces).toArray⟩
      (withNext (word.toList ++ [])) = _ := run_fieldWord hw rfl _
  rw [List.append_nil] at hname
  rw [Array.toArray_toList, hname] at hgap
  refine ⟨_, spaces, hs, hgap, ?_⟩
  rw [List.append_assoc]

end Following

/-- The step at a text's last character is the only one that what follows the text bears on. -/
theorem exists_lastStep {text : String} {tokens : List Token} (ht : tokenize text = .ok tokens)
    (hne : text ≠ "") :
    ∃ c before after, text.toList.getLast? = some c ∧ Ready (some c) before ∧
      step before c none = .ok after ∧ after.tokens.toList = tokens ∧
      ∀ rest, run .initial (withNext (text.toList ++ rest)) =
        (step before c rest.head? >>= fun after => run after (withNext rest)) := by
  obtain ⟨final, hfinal, htokens⟩ := tokenize_eq_ok.mp ht
  rcases List.eq_nil_or_concat text.toList with hnil | ⟨front, c, htext⟩
  · exact absurd (String.toList_eq_nil_iff.mp hnil) hne
  · rw [List.concat_eq_append] at htext
    obtain ⟨before, hbefore, hrun⟩ := Ready.run_before (ready_initial (front ++ [c]).head?)
    have hend : step before c none = .ok final := by
      rw [htext, hrun []] at hfinal
      obtain ⟨after, hstep, hafter⟩ := bind_eq_ok.mp hfinal
      exact hstep.trans hafter
    refine ⟨c, before, final, ?_, hbefore, hend, htokens, fun rest => ?_⟩
    · rw [htext, List.getLast?_concat]
    · rw [htext, List.append_assoc, List.singleton_append, hrun]

theorem EndsInMark.text_ne_empty {text : String} {tokens : List Token} (h : EndsInMark tokens)
    (ht : tokenize text = .ok tokens) : text ≠ "" := by
  rintro rfl
  obtain rfl := Except.ok.inj ht
  obtain ⟨mark, hlast, _⟩ := h
  cases hlast

theorem head?_append_word {gap : List Char} {word : String} (hw : IsWord word) :
    (gap ++ word.toList).head? = some ' ' ↔ gap.head? = some ' ' := by
  cases gap with
  | cons c more => rfl
  | nil =>
      constructor
      · intro h
        have hbegins := hw.begins
        rw [List.nil_append] at h
        rw [h] at hbegins
        cases hbegins
      · intro h
        cases h

/-- A stray word makes a token only where it stands apart from an open word. -/
theorem tokenize_append_word {text gap word : String} {tokens : List Token}
    (ht : tokenize text = .ok tokens) (hm : EndsInMark tokens)
    (hg : ∀ c ∈ gap.toList, IsMark c) (hw : IsWord word) :
    (ResumesWord text gap → ∃ begun spaces, Token.significant spaces = [] ∧
      tokenize (text ++ gap ++ word) =
        .ok (tokens ++ typeToken begun :: (spaces ++ [nameToken word]))) ∧
    (¬ResumesWord text gap → ∃ marks, (marks = [] ∨ marks = markTokens gap) ∧
      tokenize (text ++ gap ++ word) = .ok (tokens ++ marks)) := by
  obtain ⟨c, before, final, hc, hbefore, hend, rfl, hrun⟩ :=
    exists_lastStep ht (hm.text_ne_empty ht)
  have hall : (text ++ gap ++ word).toList = text.toList ++ (gap.toList ++ word.toList) := by
    simp only [String.toList_append, List.append_assoc]
  have hresumes : ResumesWord text gap ↔
      isWordChar c = true ∧ (gap.toList ++ word.toList).head? = some ' ' := by
    rw [ResumesWord, hc, Option.any_some, head?_append_word hw]
  rw [hresumes]
  cases hbefore with
  | fieldWord hlast htype => exact absurd hm (not_endsInMark_of_fieldWord hlast htype hend)
  | @between seen hnot =>
      rw [step_idle] at hend
      obtain rfl := Except.ok.inj hend
      obtain ⟨after, hafter, htokens⟩ := run_word_between hg hw (markedTokens seen c)
      refine ⟨fun h => absurd h.1 (by simpa using hnot), fun _ => ⟨_, .inr rfl, ?_⟩⟩
      refine tokenize_eq_ok.mpr ⟨after, ?_, htokens⟩
      rw [hall, hrun, step_idle, ok_bind, hafter]
  | @typeWord begun seen =>
      have hopen : ¬(isWordChar c = true ∧ none = some ' ') := nofun
      obtain ⟨kept, hkept⟩ := step_typeWord_open hopen
      obtain rfl := Except.ok.inj (hkept.symm.trans hend)
      constructor
      · rintro ⟨hword, hspace⟩
        obtain ⟨after, spaces, hs, hafter, htokens⟩ :=
          run_word_fieldWord hg hw (seen.push (typeToken (begun.push c)))
        refine ⟨begun.push c, spaces, hs, tokenize_eq_ok.mpr ⟨after, ?_, ?_⟩⟩
        · rw [hall, hrun, hspace, step_typeWord_ended hword, ok_bind, hafter]
        · rw [htokens, Array.toList_push, List.append_assoc, List.singleton_append]
      · intro h
        obtain ⟨word', hword'⟩ := step_typeWord_open h
        obtain ⟨after, hafter, htokens⟩ := run_word_typeWord hg hw seen word'
        refine ⟨[], .inl rfl, tokenize_eq_ok.mpr ⟨after, ?_, ?_⟩⟩
        · rw [hall, hrun, hword', ok_bind, hafter]
        · rw [htokens, List.append_nil]

end RecordSchema.Lexer
