import Mathlib.Data.List.Chain
import RecordSchema.Proofs.Token.Stream

/-! What the tokens of a text look like. The lexeme of each token is of the sort that its kind
promises, and among the tokens that the grammar looks at every type word has a name behind it, and
every name a type word before it, but for a type word that the text ends in. -/

namespace RecordSchema

/-- A lexeme of the sort that the token's kind promises. -/
def Token.Regular (token : Token) : Prop :=
  match token.kind with
  | .nativeType => ∃ native : NativeType, token.lexeme = native.spelling
  | .userType =>
      Lexer.IsWord token.lexeme ∧ ∀ native : NativeType, token.lexeme ≠ native.spelling
  | .fieldName => Lexer.IsWord token.lexeme
  | .openBrace => token.lexeme = "\x7b"
  | .closeBrace => token.lexeme = "\x7d"
  | .semicolon => token.lexeme = ";"
  | .whitespace => token.lexeme ∈ [" ", "\n", "\r", "\t"]

/-- Types and names by turns: a type word opens the tokens, a name stands behind every type word that
is not the last token, and nowhere else. -/
structure Token.Alternates (tokens : List Token) : Prop where
  opens : ∀ first, tokens[0]? = some first → first.kind.isType = true
  named : ∀ (i : Nat) (type next : Token), tokens[i]? = some type → type.kind.isType = true →
    tokens[i + 1]? = some next → next.kind = .fieldName
  typed : ∀ (i : Nat) (name : Token), tokens[i]? = some name → name.kind = .fieldName →
    ∃ j type, i = j + 1 ∧ tokens[j]? = some type ∧ type.kind.isType = true

namespace Lexer

theorem mem_of_isMark {c : Char} (h : IsMark c) :
    c ∈ ['\x7b', '\x7d', ';', ' ', '\n', '\r', '\t'] := by
  unfold IsMark markKind? at h
  split at h <;> first | decide | cases h

theorem regular_markToken {c : Char} (h : IsMark c) : (markToken c).Regular := by
  have hc := mem_of_isMark h
  simp only [List.mem_cons, List.not_mem_nil, or_false] at hc
  rcases hc with rfl | rfl | rfl | rfl | rfl | rfl | rfl
  · rfl
  · rfl
  · rfl
  all_goals
    show String.singleton _ ∈ [" ", "\n", "\r", "\t"]
    decide

theorem regular_typeToken {word : String} (h : IsWord word) : (typeToken word).Regular := by
  unfold Token.Regular typeToken
  cases hn : NativeType.ofWord? word with
  | some native => exact ⟨native, (NativeType.spelling_of_ofWord? hn).symm⟩
  | none =>
      refine ⟨h, fun native he => ?_⟩
      obtain rfl : word = native.spelling := he
      rw [NativeType.ofWord?_spelling] at hn
      cases hn

theorem Lexed.regular {token : Token} (h : Lexed token) : token.Regular := by
  cases h with
  | typeWord hw => exact regular_typeToken hw
  | name hw => exact hw
  | mark hm => exact regular_markToken hm

/-- A name follows a type word, and only a type word. -/
def Follows (token next : Token) : Prop := token.kind.isType = true ↔ next.kind = .fieldName

/-- Whether the last of the tokens that the grammar looks at is a type word, if there are any. -/
def Stage.endsInType? : Stage → Option Bool
  | .opening => none
  | .typed | .spaced => some true
  | .named | .marked => some false

structure Alternating (stage : Stage) (tokens : List Token) : Prop where
  opens : ∀ first ∈ tokens.head?, first.kind.isType = true
  chain : tokens.IsChain Follows
  ends : tokens.getLast?.map (·.kind.isType) = stage.endsInType?

theorem Alternating.push {stage next : Stage} {tokens : List Token} {token : Token}
    (h : Alternating stage tokens) (ho : stage.endsInType? = none → token.kind.isType = true)
    (hf : ∀ type, stage.endsInType? = some type → (type = true ↔ token.kind = .fieldName))
    (he : next.endsInType? = some token.kind.isType) : Alternating next (tokens ++ [token]) := by
  obtain ⟨hopens, hchain, hends⟩ := h
  refine ⟨?_, List.isChain_append.mpr ⟨hchain, .singleton _, ?_⟩, ?_⟩
  · cases tokens with
    | nil => simpa using ho hends.symm
    | cons first rest => exact hopens
  · intro last hlast other ho
    obtain rfl := Option.some.inj ho
    rw [hlast] at hends
    exact hf _ hends.symm
  · rw [List.getLast?_concat, he]
    rfl

theorem Alternating.mark {stage : Stage} {tokens : List Token} {c : Char}
    (h : Alternating stage (Token.significant tokens)) (hs : stage.endsInType? = some false)
    (hc : IsMark c) : Alternating .marked (Token.significant (tokens ++ [markToken c])) := by
  cases hw : (markToken c).kind.isWhitespace with
  | true =>
      rw [significant_concat_whitespace hw]
      exact ⟨h.opens, h.chain, h.ends.trans hs⟩
  | false =>
      obtain ⟨htype, hname⟩ := Bool.or_eq_false_iff.mp (isWordKind_markToken hc)
      rw [significant_concat hw]
      refine h.push ?_ ?_ (congrArg some htype.symm)
      · intro hnone
        cases hs.symm.trans hnone
      · intro type htype
        obtain rfl := Option.some.inj (hs.symm.trans htype)
        exact iff_of_false Bool.false_ne_true (beq_eq_false_iff_ne.mp hname)

theorem Stream.alternating {stage : Stage} {tokens : List Token} (h : Stream stage tokens) :
    Alternating stage (Token.significant tokens) := by
  induction h with
  | opening => exact ⟨nofun, .nil, rfl⟩
  | @typed stage tokens word hs _ _ ih =>
      have htype := isType_kind_typeToken word
      rw [significant_concat (isWhitespace_of_isType htype)]
      refine ih.push (fun _ => htype) ?_ (congrArg some htype.symm)
      intro type hlast
      have hname : (typeToken word).kind ≠ .fieldName := by
        intro hk
        rw [hk] at htype
        cases htype
      rcases hs with rfl | rfl
      · cases hlast
      · exact Option.some.inj hlast ▸ iff_of_false Bool.false_ne_true hname
  | @spaced stage tokens hs _ ih =>
      have hends : stage.endsInType? = some true := by
        rcases hs with rfl | rfl <;> rfl
      rw [significant_concat_whitespace rfl]
      exact ⟨ih.opens, ih.chain, ih.ends.trans hends⟩
  | named _ _ ih =>
      rw [significant_concat rfl]
      refine ih.push nofun ?_ rfl
      intro type hlast
      exact Option.some.inj hlast ▸ iff_of_true rfl rfl
  | ended _ hc ih => exact ih.mark rfl (isMark_of_endsField hc)
  | marked _ hc ih => exact ih.mark rfl hc

theorem Alternating.alternates {stage : Stage} {tokens : List Token}
    (h : Alternating stage tokens) : Token.Alternates tokens := by
  have hfollows : ∀ {i : Nat} {token next : Token}, tokens[i]? = some token →
      tokens[i + 1]? = some next → Follows token next := by
    intro i token next ht hn
    obtain ⟨_, rfl⟩ := List.getElem?_eq_some_iff.mp ht
    obtain ⟨hi, rfl⟩ := List.getElem?_eq_some_iff.mp hn
    exact List.isChain_iff_getElem.mp h.chain i hi
  refine ⟨?_, ?_, ?_⟩
  · intro first hfirst
    rw [← List.head?_eq_getElem?] at hfirst
    exact h.opens first hfirst
  · intro i type next ht htype hn
    exact (hfollows ht hn).mp htype
  · intro i name hi hname
    cases i with
    | zero =>
        rw [← List.head?_eq_getElem?] at hi
        have htype := h.opens name hi
        rw [hname] at htype
        cases htype
    | succ j =>
        obtain ⟨hlength, _⟩ := List.getElem?_eq_some_iff.mp hi
        have hj : tokens[j]? = some tokens[j] := List.getElem?_eq_getElem (Nat.lt_of_succ_lt hlength)
        exact ⟨j, tokens[j], rfl, hj, (hfollows hj hi).mpr hname⟩

end Lexer
end RecordSchema
