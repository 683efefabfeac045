import RecordSchema.Record

/-! Paths into records such as `Result.Items[2].Name`: names joined by dots, each with any number of
indexes after it. -/

namespace RecordSchema

inductive PathStep where
  | field (name : String)
  | index (i : UInt64)
  deriving DecidableEq, Repr

/-- `source` is the text the steps were read from. -/
structure Path where
  steps : List PathStep
  source : String
  deriving DecidableEq, Repr

namespace Path

/-- ASCII letters, digits and the underscore. -/
def isNameChar (c : Char) : Bool := c.isAlphanum || c == '_'

def digitsValue (digits : List Char) : Nat :=
  digits.foldl (fun value c => 10 * value + (c.toNat - '0'.toNat)) 0

/-- Indexes have 64 bits, whatever zeros they start with. -/
def index? (digits : List Char) : Option UInt64 :=
  let value := digitsValue digits
  if digits.isEmpty || 0x10000000000000000 ≤ value then none else some (UInt64.ofNat value)

/-- What the reader of a path stands in. -/
inductive ReadState where
  /-- A name, with the characters read so far. -/
  | name (seen : List Char)
  /-- An index, with the digits read so far. -/
  | index (seen : List Char)
  /-- Behind a closing bracket. -/
  | closed
  deriving DecidableEq, Repr

/-- The steps of the text from here on; the characters of the open step are held in reverse. -/
def readSteps : ReadState → List Char → Option (List PathStep)
  | .name [], [] => none
  | .name seen, [] => some [.field (String.ofList seen.reverse)]
  | .index _, [] => none
  | .closed, [] => some []
  | .name seen, c :: rest =>
      if isNameChar c then readSteps (.name (c :: seen)) rest
      else if seen.isEmpty then none
      else if c = '.' then
        (readSteps (.name []) rest).map (.field (String.ofList seen.reverse) :: ·)
      else if c = '[' then
        (readSteps (.index []) rest).map (.field (String.ofList seen.reverse) :: ·)
      else none
  | .index seen, c :: rest =>
      if c.isDigit then readSteps (.index (c :: seen)) rest
      else if c = ']' then do
        let i ← index? seen.reverse
        let steps ← readSteps .closed rest
        return .index i :: steps
      else none
  | .closed, c :: rest =>
      if c = '.' then readSteps (.name []) rest
      else if c = '[' then readSteps (.index []) rest
      else none

def parse (text : String) : Except Error Path :=
  match readSteps (.name []) text.toList with
  | some steps => .ok ⟨steps, text⟩
  | none => .error (.invalidFieldPath text)

/-- Follow the steps from a value; a step that does not fit the value it meets finds nothing. -/
def follow : List PathStep → Value → Option Value
  | [], value => some value
  | .field name :: rest, .record r => (r.field? name).bind (follow rest)
  | .index i :: rest, .array items => items[i.toNat]?.bind (follow rest)
  | _ :: _, _ => none

/-- What the path finds in a record; at least one step is needed. -/
def resolve (path : Path) (root : Record) : Option Value :=
  if path.steps.isEmpty then none else follow path.steps (.record root)

end Path

end RecordSchema
