import RecordSchema.Text

/-! Everything that can go wrong, as causes, with one text and one class for each. -/

namespace RecordSchema

/-- The sorts of value that error texts name, for record values and JSON alike. -/
inductive Kind where
  | null | bool | int | double | number | string | array | record | object
  deriving DecidableEq, Repr

def Kind.label : Kind → String
  | .null => "null"
  | .bool => "bool"
  | .int => "int"
  | .double => "double"
  | .number => "number"
  | .string => "string"
  | .array => "array"
  | .record => "record"
  | .object => "object"

/-- The stack operations that need an element. -/
inductive StackOperation where
  | pop | top
  deriving DecidableEq, Repr

def StackOperation.label : StackOperation → String
  | .pop => "pop"
  | .top => "top"

/-- What the grammar of type descriptions asked for. -/
inductive Expected where
  | structName | openBrace | fieldName | fieldType | closeBrace | endOfDescription
  deriving DecidableEq, Repr

def Expected.label : Expected → String
  | .structName => "struct name"
  | .openBrace => "\x7b"
  | .fieldName => "field name"
  | .fieldType => "field type"
  | .closeBrace => "\x7d"
  | .endOfDescription => "end of description"

/-- Why a JSON text was refused: it stopped where it could have gone on, it is not JSON, or it is
JSON of another shape than asked for. -/
inductive JsonFault where
  | endOfText | malformed | wrongShape
  deriving DecidableEq, Repr

inductive ErrorClass where
  | structural | grammar | input | record
  deriving DecidableEq, Repr

/-- `owner` is the struct being described, absent while its own name is still missing, and
`position` counts the tokens other than whitespace. -/
inductive Error where
  | stackUnderflow (operation : StackOperation)
  | emptyDescription
  | missingToken (owner : Option String) (expected : Expected) (position : Nat)
  | unexpectedToken (owner : Option String) (expected : Expected) (got : String) (position : Nat)
  | duplicateField (owner field : String)
  | recursiveType (chain : List String)
  | depthExceeded (limit : Nat)
  | arrayTooLarge (count limit : Nat)
  | identityNotNumeric (got : Kind)
  | typeNotFound (name : String)
  | registryAlreadyInstalled
  | invalidFieldPath (path : String)
  | replyShape (path : String) (got : Kind)
  | replyNotObject (got : Kind)
  | decompressedTooLarge (limit : Nat)
  | catalogueNotUtf8
  | json (fault : JsonFault)
  | io
  deriving DecidableEq, Repr

namespace Error

def ownerLabel (owner : Option String) : String := owner.getD "?"

def message : Error → String
  | stackUnderflow operation => "state stack underflow on " ++ operation.label
  | emptyDescription => "empty type description"
  | missingToken owner expected position =>
      "missing " ++ expected.label ++ " in " ++ ownerLabel owner ++ " at token " ++ toString position
  | unexpectedToken owner expected got position =>
      "unexpected " ++ Text.quoted got ++ " in " ++ ownerLabel owner ++ " at token " ++
        toString position ++ ", expected " ++ expected.label
  | duplicateField owner field => "duplicate field " ++ field ++ " in " ++ owner
  | recursiveType chain => "recursive type reference: " ++ " -> ".intercalate chain
  | depthExceeded limit => "nesting depth exceeded (max=" ++ toString limit ++ ")"
  | arrayTooLarge count limit =>
      "array too large: count=" ++ toString count ++ ", max=" ++ toString limit
  | identityNotNumeric got => "identity must be an integer, got " ++ got.label
  | typeNotFound name => "type not found: " ++ name
  | registryAlreadyInstalled => "type registry already installed"
  | invalidFieldPath path => "invalid field path: " ++ path
  | replyShape path got =>
      "reply field " ++ path ++ " holds " ++ got.label ++ ", expected record, record list, or null"
  | replyNotObject got => "reply payload must be an object, got " ++ got.label
  | decompressedTooLarge limit => "decompressed output exceeded limit " ++ toString limit ++ " bytes"
  | catalogueNotUtf8 => "catalogue is not valid utf-8"
  | json _ => "json"
  | io => "io"

/-- Which part of the work a failure belongs to. -/
def errorClass : Error → ErrorClass
  | stackUnderflow _ => .structural
  | emptyDescription | missingToken .. | unexpectedToken .. | duplicateField .. => .grammar
  | replyShape .. | replyNotObject _ | invalidFieldPath _ | decompressedTooLarge _
  | catalogueNotUtf8 | json _ | io => .input
  | recursiveType _ | depthExceeded _ | arrayTooLarge .. | identityNotNumeric _ | typeNotFound _
  | registryAlreadyInstalled => .record

/-- A malformed type description costs its own entry, not the catalogue. -/
def isSkippable (error : Error) : Bool :=
  match error.errorClass with
  | .structural | .grammar => true
  | .input | .record => false

end Error

end RecordSchema
