import RecordSchema.Description
import RecordSchema.Proofs.Token.Words

/-! The sequences of tokens that texts have. A text's tokens are such a sequence, however much of the
text is passed over (`tokenize_stream`), and spelled out one behind the other they are read again as
they are (`tokenize_spelled`). -/

namespace RecordSchema.Lexer

/-! ## Streams -/

/-- What the last tokens of a stream are. Behind a type word there is a space before anything else,
and behind a name a space or a semicolon. -/
inductive Stage where
  | opening | typed | spaced | named | marked

inductive Stream : Stage → List Token → Prop
  | opening : Stream .opening []
  | typed {stage : Stage} {tokens : List Token} {word : String} :
      stage = .opening ∨ stage = .marked → Stream stage tokens → IsWord word →
      Stream .typed (tokens ++ [typeToken word])
  | spaced {stage : Stage} {tokens : List Token} :
      stage = .typed ∨ stage = .spaced → Stream stage tokens →
      Stream .spaced (tokens ++ [markToken ' '])
  | named {tokens : List Token} {name : String} :
      Stream .spaced tokens → IsWord name → Stream .named (tokens ++ [nameToken name])
  | ended {tokens : List Token} {c : Char} :
      Stream .named tokens → endsField (some c) = true → Stream .marked (tokens ++ [markToken c])
  | marked {tokens : List Token} {c : Char} :
      Stream .marked tokens → IsMark c → Stream .marked (tokens ++ [markToken c])

namespace Stage

/-- Whether a stream at this stage may stand before the character, or at the end of the text. -/
def Admits : Stage → Option Char → Prop
  | .typed, next => next = some ' '
  | .named, next => endsField next = true
  | _, _ => True

/-- The lexer's modes at this stage, before the character. -/
def modes : Stage → Option Char → Stack Mode
  | .opening, _ => idle.push .typeWord
  | .typed, _ | .spaced, _ => idle.push .fieldWord
  | .named, next | .marked, next => modesBefore next

end Stage

theorem isMark_of_endsField {c : Char} (h : endsField (some c) = true) : IsMark c := by
  unfold endsField at h
  split at h
  · rename_i hc
    cases hc
  · rename_i hc
    exact Option.some.inj hc ▸ rfl
  · rename_i hc
    exact Option.some.inj hc ▸ rfl
  · cases h

theorem spelled_concat (tokens : List Token) (token : Token) (rest : List Char) :
    (spelled (tokens ++ [token])).toList ++ rest =
      (spelled tokens).toList ++ (token.lexeme.toList ++ rest) := by
  simp [spelled]

theorem toList_lexeme_markToken (c : Char) (rest : List Char) :
    (markToken c).lexeme.toList ++ rest = c :: rest := by
  simp [markToken]

/-- What a stream spells is read as the stream. -/
theorem Stream.run {stage : Stage} {tokens : List Token} (h : Stream stage tokens)
    {rest : List Char} (ha : stage.Admits rest.head?) :
    run .initial (withNext ((spelled tokens).toList ++ rest)) =
      run ⟨stage.modes rest.head?, "", tokens.toArray⟩ (withNext rest) := by
  induction h generalizing rest with
  | opening => rfl
  | @typed stage tokens word hs _ hw ih =>
      have hlexeme : (typeToken word).lexeme = word := rfl
      have hadmits : stage.Admits (word.toList ++ rest).head? := by
        rcases hs with rfl | rfl <;> trivial
      have hmodes : stage.modes (word.toList ++ rest).head? = idle.push .typeWord := by
        rcases hs with rfl | rfl
        · rfl
        · exact modesBefore_of_word (hw.head rest)
      rw [spelled_concat, hlexeme, ih hadmits, hmodes, run_typeWord hw ha]
      rfl
  | @spaced stage tokens hs _ ih =>
      have hadmits : stage.Admits (' ' :: rest).head? := by
        rcases hs with rfl | rfl <;> trivial
      have hmodes : stage.modes (' ' :: rest).head? = idle.push .fieldWord := by
        rcases hs with rfl | rfl <;> rfl
      rw [spelled_concat, toList_lexeme_markToken, ih hadmits, hmodes, run_cons, step_fieldWord,
        if_pos rfl, ok_bind, List.push_toArray]
      rfl
  | @named tokens name _ hn ih =>
      have hlexeme : (nameToken name).lexeme = name := rfl
      rw [spelled_concat, hlexeme, ih trivial, Stage.modes, run_fieldWord hn ha, Stage.modes,
        modesBefore_of_not_word (not_word_of_endsField ha)]
  | @ended tokens c _ hc ih =>
      have hmark := isMark_of_endsField hc
      have hadmits : Stage.named.Admits (c :: rest).head? := hc
      rw [spelled_concat, toList_lexeme_markToken, ih hadmits, List.head?_cons, Stage.modes,
        modesBefore_mark hmark, run_cons, step_mark hmark, ok_bind]
      rfl
  | @marked tokens c _ hc ih =>
      rw [spelled_concat, toList_lexeme_markToken, ih trivial, List.head?_cons, Stage.modes,
        modesBefore_mark hc, run_cons, step_mark hc, ok_bind]
      rfl

/-! ## The stream read so far -/

/-- The tokens before `next` are a stream, at the stage that the modes tell of. -/
inductive Tracks (next : Option Char) : State → Prop
  | between {stage : Stage} {tokens : Array Token} :
      stage = .named ∨ stage = .marked → Stream stage tokens.toList → stage.Admits next →
      Tracks next ⟨idle, "", tokens⟩
  | typeWord {stage : Stage} {word : String} {tokens : Array Token} :
      stage = .opening ∨ stage = .marked → Stream stage tokens.toList →
      (∀ c ∈ word.toList, isWordChar c = true) → Tracks next ⟨idle.push .typeWord, word, tokens⟩
  | fieldWord {stage : Stage} {word : String} {tokens : Array Token} :
      stage = .typed ∨ stage = .spaced → Stream stage tokens.toList → stage.Admits next →
      (∀ c ∈ word.toList, isWordChar c = true) → Tracks next ⟨idle.push .fieldWord, word, tokens⟩

theorem Tracks.stream {state : State} (h : Tracks none state) :
    ∃ stage, Stream stage state.tokens.toList ∧ stage.Admits none := by
  cases h with
  | between _ hstream hadmits => exact ⟨_, hstream, hadmits⟩
  | fieldWord _ hstream hadmits => exact ⟨_, hstream, hadmits⟩
  | typeWord hs hstream _ =>
      refine ⟨_, hstream, ?_⟩
      rcases hs with rfl | rfl <;> trivial

/-- The character behind a name is a mark, so one that is passed over has a mark before it. -/
theorem Stream.markedTokens {stage : Stage} {tokens : Array Token} {c : Char}
    (h : Stream stage tokens.toList) (hs : stage = .named ∨ stage = .marked)
    (ha : stage.Admits (some c)) : Stream .marked (markedTokens tokens c).toList := by
  rcases hs with rfl | rfl
  · rw [markedTokens_of_isMark (isMark_of_endsField ha), Array.toList_push]
    exact .ended h ha
  · by_cases hm : IsMark c
    · rw [markedTokens_of_isMark hm, Array.toList_push]
      exact .marked h hm
    · rw [markedTokens_of_not_isMark hm]
      exact h

/-- Only a space may stand directly behind a type word. -/
theorem Stage.spaced_of_admits {stage : Stage} {c : Char} (hs : stage = .typed ∨ stage = .spaced)
    (ha : stage.Admits (some c)) (hc : c ≠ ' ') : stage = .spaced := by
  rcases hs with rfl | rfl
  · exact absurd (Option.some.inj ha) hc
  · rfl

theorem eq_space_of_endsType {next : Option Char} (h : endsType next = true) :
    next = some ' ' := by
  unfold endsType at h
  split at h
  · rfl
  · cases h

theorem Transition.tracks {before after : State} {c : Char} {next : Option Char}
    (h : Transition c next before after) (hb : Tracks (some c) before) : Tracks next after := by
  cases h with
  | between _ =>
      cases hb with
      | between hs hstream hadmits =>
          have hmarked := hstream.markedTokens hs hadmits
          cases hn : next.any isWordChar with
          | true =>
              rw [modesBefore_of_word hn]
              exact .typeWord (.inr rfl) hmarked (by simp)
          | false =>
              rw [modesBefore_of_not_word hn]
              exact .between (.inr rfl) hmarked trivial
  | typePassed _ =>
      cases hb with
      | typeWord hs hstream hw => exact .typeWord hs hstream hw
  | typeExtended hc _ =>
      cases hb with
      | typeWord hs hstream hw => exact .typeWord hs hstream (isWord_push hw hc).2
  | typeEnded hc hn =>
      cases hb with
      | typeWord hs hstream hw =>
          refine .fieldWord (.inl rfl) ?_ (eq_space_of_endsType hn) (by simp)
          rw [Array.toList_push]
          exact .typed hs hstream (isWord_push hw hc)
  | space _ =>
      cases hb with
      | fieldWord hs hstream _ hw =>
          refine .fieldWord (.inr rfl) ?_ trivial hw
          rw [Array.toList_push]
          exact .spaced hs hstream
  | namePassed hc _ =>
      cases hb with
      | fieldWord hs hstream hadmits hw =>
          obtain rfl := Stage.spaced_of_admits hs hadmits hc
          exact .fieldWord hs hstream trivial hw
  | nameExtended hc _ =>
      cases hb with
      | fieldWord hs hstream hadmits hw =>
          obtain rfl := Stage.spaced_of_admits hs hadmits (ne_space_of_isWordChar hc)
          exact .fieldWord hs hstream trivial (isWord_push hw hc).2
  | nameEnded hc hn =>
      cases hb with
      | fieldWord hs hstream hadmits hw =>
          obtain rfl := Stage.spaced_of_admits hs hadmits (ne_space_of_isWordChar hc)
          refine .between (.inl rfl) ?_ hn
          rw [Array.toList_push]
          exact .named hstream (isWord_push hw hc)

theorem tokenize_stream {text : String} {tokens : List Token} (h : tokenize text = .ok tokens) :
    ∃ stage, Stream stage tokens ∧ stage.Admits none := by
  obtain ⟨after, hrun, rfl⟩ := tokenize_eq_ok.mp h
  have hstart : Tracks text.toList.head? .initial := .typeWord (.inl rfl) .opening (by simp)
  have htracks := run_invariant (P := fun _ next state => Tracks next state) hrun hstart
    fun ht hb => ht.tracks hb
  exact htracks.stream

/-- The tokens of any text, spelled out, are read as they were, so what a description is compiled to
does not depend on the characters passed over. -/
theorem tokenize_spelled (text : String) :
    ∃ tokens, tokenize text = .ok tokens ∧ tokenize (spelled tokens) = .ok tokens ∧
      Description.parse (spelled tokens) = Description.parse text := by
  obtain ⟨tokens, ht⟩ := exists_tokenize text
  obtain ⟨stage, hstream, hadmits⟩ := tokenize_stream ht
  have hagain : tokenize (spelled tokens) = .ok tokens := by
    have hrun : run .initial (withNext ((spelled tokens).toList ++ [])) = _ := hstream.run hadmits
    rw [List.append_nil] at hrun
    exact tokenize_eq_ok.mpr ⟨_, hrun, rfl⟩
  refine ⟨tokens, ht, hagain, ?_⟩
  rw [Description.parse, Description.parse, ht, hagain]

end RecordSchema.Lexer
