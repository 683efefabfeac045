import RecordSchema.Proofs.Outcome
import RecordSchema.Token.Lexer

/-! The lexer's stack never runs empty, so every text has tokens. -/

namespace RecordSchema.Lexer

variable {rest : Stack Mode} {word : String} {tokens : Array Token} {c : Char}
  {next : Option Char}

theorem step_between :
    step ⟨rest.push .between, word, tokens⟩ c next =
      .ok ⟨if next.any isWordChar then (rest.push .between).push .typeWord else rest.push .between,
        word,
        match markKind? c with
        | some kind => tokens.push ⟨kind, String.singleton c⟩
        | none => tokens⟩ := rfl

theorem step_typeWord :
    step ⟨rest.push .typeWord, word, tokens⟩ c next =
      if !isWordChar c then .ok ⟨rest.push .typeWord, word, tokens⟩
      else if !endsType next then .ok ⟨rest.push .typeWord, word.push c, tokens⟩
      else .ok ⟨rest.push .fieldWord, "", tokens.push (typeToken (word.push c))⟩ := rfl

theorem step_fieldWord :
    step ⟨rest.push .fieldWord, word, tokens⟩ c next =
      if c = ' ' then .ok ⟨rest.push .fieldWord, word, tokens.push ⟨.whitespace, " "⟩⟩
      else if !isWordChar c then .ok ⟨rest.push .fieldWord, word, tokens⟩
      else if !endsField next then .ok ⟨rest.push .fieldWord, word.push c, tokens⟩
      else .ok ⟨rest, "", tokens.push ⟨.fieldName, word.push c⟩⟩ := rfl

/-- The stacks that occur: the mode between words, with at most one word's mode on it. -/
def Settled (modes : Stack Mode) : Prop :=
  modes = Stack.empty.push .between ∨
    modes = (Stack.empty.push .between).push .typeWord ∨
    modes = (Stack.empty.push .between).push .fieldWord

theorem settled_between : Settled (Stack.empty.push .between) := .inl rfl

theorem settled_typeWord : Settled ((Stack.empty.push .between).push .typeWord) := .inr (.inl rfl)

theorem settled_fieldWord : Settled ((Stack.empty.push .between).push .fieldWord) := .inr (.inr rfl)

theorem step_settled {state : State} (h : Settled state.modes) (c : Char) (next : Option Char) :
    ∃ after, step state c next = .ok after ∧ Settled after.modes := by
  obtain ⟨modes, word, tokens⟩ := state
  rcases h with rfl | rfl | rfl
  · refine ⟨_, step_between, ?_⟩
    dsimp only
    split
    · exact settled_typeWord
    · exact settled_between
  · rw [step_typeWord]
    split
    · exact ⟨_, rfl, settled_typeWord⟩
    · split
      · exact ⟨_, rfl, settled_typeWord⟩
      · exact ⟨_, rfl, settled_fieldWord⟩
  · rw [step_fieldWord]
    split
    · exact ⟨_, rfl, settled_fieldWord⟩
    · split
      · exact ⟨_, rfl, settled_fieldWord⟩
      · split
        · exact ⟨_, rfl, settled_fieldWord⟩
        · exact ⟨_, rfl, settled_between⟩

theorem run_settled {state : State} (h : Settled state.modes)
    (steps : List (Char × Option Char)) :
    ∃ after, run state steps = .ok after ∧ Settled after.modes := by
  induction steps generalizing state with
  | nil => exact ⟨state, rfl, h⟩
  | cons first rest ih =>
      obtain ⟨c, next⟩ := first
      obtain ⟨middle, hm, hs⟩ := step_settled h c next
      obtain ⟨after, ha, hsa⟩ := ih hs
      refine ⟨after, ?_, hsa⟩
      show (step state c next >>= fun middle => run middle rest) = .ok after
      rw [hm, ok_bind, ha]

theorem exists_tokenize (text : String) : ∃ tokens, tokenize text = .ok tokens := by
  have hs : Settled State.initial.modes := settled_typeWord
  obtain ⟨after, ha, _⟩ := run_settled hs (withNext text.toList)
  refine ⟨after.tokens.toList, ?_⟩
  rw [tokenize, ha]
  rfl

end RecordSchema.Lexer
