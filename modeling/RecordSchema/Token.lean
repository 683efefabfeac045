/-! The closed set of primitive type words, and the classified words and marks of a type
description. -/

namespace RecordSchema

inductive NativeType where
  | base64 | boolean | byte | date | dateTime | double | int | string | struct | time
  deriving DecidableEq, Repr

namespace NativeType

/-- Every native type, in the grammar's order. -/
def all : List NativeType :=
  [.base64, .boolean, .byte, .date, .dateTime, .double, .int, .string, .struct, .time]

def spelling : NativeType → String
  | .base64 => "base64"
  | .boolean => "boolean"
  | .byte => "byte"
  | .date => "date"
  | .dateTime => "dateTime"
  | .double => "double"
  | .int => "int"
  | .string => "string"
  | .struct => "struct"
  | .time => "time"

/-- The type a word names; case counts. -/
def ofWord? (word : String) : Option NativeType := all.find? (·.spelling == word)

theorem ofWord?_spelling (native : NativeType) : ofWord? native.spelling = some native := by
  cases native <;> decide

theorem spelling_of_ofWord? {word : String} {native : NativeType}
    (h : ofWord? word = some native) : native.spelling = word := by
  simpa using List.find?_some h

end NativeType

inductive TokenKind where
  | nativeType | userType | fieldName | openBrace | closeBrace | semicolon | whitespace
  deriving DecidableEq, Repr

namespace TokenKind

def label : TokenKind → String
  | nativeType => "native_type"
  | userType => "user_type"
  | fieldName => "field_name"
  | openBrace => "open_brace"
  | closeBrace => "close_brace"
  | semicolon => "semicolon"
  | whitespace => "whitespace"

def all : List TokenKind :=
  [nativeType, userType, fieldName, openBrace, closeBrace, semicolon, whitespace]

def isWhitespace (kind : TokenKind) : Bool := kind == whitespace

def isType (kind : TokenKind) : Bool := kind == nativeType || kind == userType

end TokenKind

structure Token where
  kind : TokenKind
  lexeme : String
  deriving DecidableEq, Repr

namespace Token

/-- The native word that opens a struct, and declares a field named after its own type. -/
def isStructKeyword (token : Token) : Bool :=
  token.kind == .nativeType && token.lexeme == NativeType.struct.spelling

/-- The tokens that the grammar looks at. -/
def significant (tokens : List Token) : List Token :=
  tokens.filter fun token => !token.kind.isWhitespace

/-- The name a description declares: the word after `struct`, or else the first field name behind
the first token. -/
def declaredName? (tokens : List Token) : Option String :=
  match significant tokens with
  | [] => none
  | first :: rest =>
      if first.isStructKeyword then
        match rest with
        | [] => none
        | second :: _ => if second.kind = .fieldName then some second.lexeme else none
      else (rest.find? (·.kind == .fieldName)).map (·.lexeme)

end Token

end RecordSchema
