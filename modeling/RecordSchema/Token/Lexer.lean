import RecordSchema.Stack
import RecordSchema.Token

/-! Type descriptions as tokens. A type word ends only before a space, a field name only before
`;`, a space or the end of the text; a word cut short by anything else stays open, and one still
open at the end of the text is dropped. -/

namespace RecordSchema.Lexer

/-- What the next word character would belong to. -/
inductive Mode where
  | between | typeWord | fieldWord
  deriving DecidableEq, Repr

structure State where
  modes : Stack Mode
  word : String
  tokens : Array Token
  deriving DecidableEq, Repr

/-- A description opens with a type word; marks stand between a field and the next type. -/
def State.initial : State := ⟨(Stack.empty.push .between).push .typeWord, "", #[]⟩

/-- ASCII letters and digits. -/
def isWordChar (c : Char) : Bool := c.isAlphanum

def markKind? : Char → Option TokenKind
  | '{' => some .openBrace
  | '}' => some .closeBrace
  | ';' => some .semicolon
  | ' ' | '\n' | '\r' | '\t' => some .whitespace
  | _ => none

def typeToken (word : String) : Token :=
  ⟨if (NativeType.ofWord? word).isSome then .nativeType else .userType, word⟩

def endsType : Option Char → Bool
  | some ' ' => true
  | _ => false

def endsField : Option Char → Bool
  | none | some ';' | some ' ' => true
  | _ => false

/-- One character, with the one after it. -/
def step : State → Char → Option Char → Except Error State
  | ⟨modes, word, tokens⟩, c, next => do
    match ← modes.top with
    | .between =>
        let tokens := match markKind? c with
          | some kind => tokens.push ⟨kind, String.singleton c⟩
          | none => tokens
        return ⟨if next.any isWordChar then modes.push .typeWord else modes, word, tokens⟩
    | .typeWord =>
        if !isWordChar c then return ⟨modes, word, tokens⟩
        let word := word.push c
        if !endsType next then return ⟨modes, word, tokens⟩
        let modes ← modes.replaceTop .fieldWord
        return ⟨modes, "", tokens.push (typeToken word)⟩
    | .fieldWord =>
        if c = ' ' then return ⟨modes, word, tokens.push ⟨.whitespace, " "⟩⟩
        if !isWordChar c then return ⟨modes, word, tokens⟩
        let word := word.push c
        if !endsField next then return ⟨modes, word, tokens⟩
        let (_, modes) ← modes.pop
        return ⟨modes, "", tokens.push ⟨.fieldName, word⟩⟩

/-- Every character with its successor. -/
def withNext (cs : List Char) : List (Char × Option Char) :=
  cs.zip (cs.tail.map some ++ [none])

@[simp] theorem withNext_nil : withNext [] = [] := rfl

def run (state : State) (steps : List (Char × Option Char)) : Except Error State :=
  steps.foldlM (fun state (c, next) => step state c next) state

def tokenize (text : String) : Except Error (List Token) := do
  let state ← run .initial (withNext text.toList)
  return state.tokens.toList

end RecordSchema.Lexer
