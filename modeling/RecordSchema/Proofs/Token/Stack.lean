import RecordSchema.Proofs.Compiler.Entry
import RecordSchema.Proofs.Token.Resume

/-! The lexer's stack of modes never runs empty. What the stack, the open word and the next character
can be is kept by every character read (`Ready`), so that at any place in any text the stack answers
whatever the lexer asks of it. -/

namespace RecordSchema.Lexer

/-- How the lexer stands before the character `next`, or at the end of the text. -/
structure Steady (next : Option Char) (state : State) : Prop where
  settled : Settled state.modes
  between : state.modes.top = .ok .between → next.any isWordChar = false ∧ state.word = ""
  top : ∃ mode, state.modes.top = .ok mode
  pop : ∃ mode rest, state.modes.pop = .ok (mode, rest)
  replaceTop : ∀ mode, ∃ modes, state.modes.replaceTop mode = .ok modes

theorem Ready.steady {next : Option Char} {state : State} (h : Ready next state) :
    Steady next state := by
  cases h with
  | between hn =>
      exact ⟨settled_between, fun _ => ⟨hn, rfl⟩, ⟨_, rfl⟩, ⟨_, _, rfl⟩, fun _ => ⟨_, rfl⟩⟩
  | typeWord => exact ⟨settled_typeWord, nofun, ⟨_, rfl⟩, ⟨_, _, rfl⟩, fun _ => ⟨_, rfl⟩⟩
  | fieldWord _ _ => exact ⟨settled_fieldWord, nofun, ⟨_, rfl⟩, ⟨_, _, rfl⟩, fun _ => ⟨_, rfl⟩⟩

/-- Any part of a text is read, and leaves the lexer ready for what follows it. -/
theorem Ready.run_take {text : List Char} {state : State} (h : Ready text.head? state)
    (count : Nat) :
    ∃ after, run state ((withNext text).take count) = .ok after ∧ Ready text[count]? after := by
  induction text generalizing state count with
  | nil => exact ⟨state, by rw [withNext_nil, List.take_nil]; rfl, h⟩
  | cons c rest ih =>
      cases count with
      | zero => exact ⟨state, rfl, h⟩
      | succ count =>
          obtain ⟨middle, hstep, hmiddle⟩ := Ready.step h rest.head?
          obtain ⟨after, hrun, hafter⟩ := ih hmiddle count
          refine ⟨after, ?_, hafter⟩
          rw [withNext_cons, List.take_succ_cons]
          show (Lexer.step state c rest.head? >>= fun middle => run middle _) = .ok after
          rw [hstep, ok_bind, hrun]

/-- Wherever the lexer stands in a text, its stack has the mode that it asks for. So every text has
tokens, and no entry of a catalogue fails for want of a mode. -/
theorem stack_never_underflows (text : String) :
    (∀ count, ∃ state, run .initial ((withNext text.toList).take count) = .ok state ∧
      Steady text.toList[count]? state) ∧
    (∃ tokens, tokenize text = .ok tokens) ∧
    ∀ (builder : Builder) (typeName : Option String) (operation : StackOperation),
      builder.compileEntry text ≠ .error ⟨typeName, .stackUnderflow operation⟩ := by
  refine ⟨fun count => ?_, exists_tokenize text, fun builder typeName operation hentry => ?_⟩
  · obtain ⟨state, hrun, hready⟩ := (ready_initial text.toList.head?).run_take count
    exact ⟨state, hrun, hready.steady⟩
  · have hclass := Description.parse_error (Builder.compileEntry_eq_error.mp hentry).1
    cases hclass

end RecordSchema.Lexer
