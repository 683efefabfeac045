import RecordSchema.Descriptor
import RecordSchema.Token.Lexer

/-! The grammar of struct descriptions, over the significant tokens:
`struct Name { type field ... }` with semicolons anywhere between fields and after the end.
Positions in errors count significant tokens. -/

namespace RecordSchema.Description

def expect (kind : TokenKind) (owner : Option String) (expected : Expected) (position : Nat) :
    List Token → Except Error (String × List Token)
  | [] => .error (.missingToken owner expected position)
  | token :: rest =>
      if token.kind = kind then .ok (token.lexeme, rest)
      else .error (.unexpectedToken owner expected token.lexeme position)

/-- The declared name with the tokens after the opening brace; `none` if this is no struct. -/
def header : List Token → Except Error (Option (String × List Token))
  | [] => .error .emptyDescription
  | keyword :: rest =>
      if keyword.isStructKeyword then do
        let (name, rest) ← expect .fieldName none .structName 1 rest
        let (_, rest) ← expect .openBrace (some name) .openBrace 2 rest
        return some (name, rest)
      else .ok none

/-- The first token of a body stands after the keyword, the name and the brace. -/
def bodyPosition : Nat := 3

/-- The word `struct` declares a field named after the struct it holds. -/
def fieldKind (typeToken : Token) (field : String) : FieldKind :=
  match NativeType.ofWord? typeToken.lexeme with
  | some .struct => .reference field
  | some native =>
      if typeToken.kind = .nativeType then .scalar native else .reference typeToken.lexeme
  | none => .reference typeToken.lexeme

/-- Only semicolons may follow the closing brace. -/
def trailer (owner : String) (position : Nat) : List Token → Except Error Unit
  | [] => .ok ()
  | token :: rest =>
      if token.kind = .semicolon then trailer owner (position + 1) rest
      else .error (.unexpectedToken (some owner) .endOfDescription token.lexeme position)

/-- The fields up to the closing brace, after those already `seen`. -/
def fields (owner : String) (seen : List Field) (position : Nat) :
    List Token → Except Error (List Field)
  | [] => .error (.missingToken (some owner) .closeBrace position)
  | token :: rest =>
      match token.kind with
      | .closeBrace => do
          trailer owner (position + 1) rest
          return seen
      | .semicolon | .whitespace => fields owner seen (position + 1) rest
      | .nativeType | .userType =>
          match rest with
          | [] => .error (.missingToken (some owner) .fieldName (position + 1))
          | name :: rest =>
              if name.kind = .fieldName then
                if seen.any (·.name == name.lexeme) then
                  .error (.duplicateField owner name.lexeme)
                else
                  fields owner (seen ++ [⟨name.lexeme, fieldKind token name.lexeme⟩])
                    (position + 2) rest
              else .error (.unexpectedToken (some owner) .fieldName name.lexeme (position + 1))
      | .fieldName | .openBrace =>
          .error (.unexpectedToken (some owner) .fieldType token.lexeme position)

def body (name : String) (tokens : List Token) : Except Error Descriptor := do
  let fields ← fields name [] bodyPosition tokens
  return ⟨name, fields⟩

/-- `none` stands for a description of something other than a struct. -/
def ofTokens (tokens : List Token) : Except Error (Option Descriptor) := do
  match ← header (Token.significant tokens) with
  | none => return none
  | some (name, rest) => some <$> body name rest

def parse (text : String) : Except Error (Option Descriptor) :=
  Lexer.tokenize text >>= ofTokens

end RecordSchema.Description
