import RecordSchema.Double
import RecordSchema.Error
import RecordSchema.Fields

/-! Records whose fields are given by data, and the values they hold. The field name `ID` stands
for the identity of a record and is never among its stored fields. -/

namespace RecordSchema

/-- A plain struct, or one of the two wrappers that name the type they wrap. -/
inductive Shape where
  | struct
  | entity (category : String)
  | asset
  deriving DecidableEq, Repr

structure RecordOf (α : Type) where
  typeName : String
  shape : Shape
  identity : Option Int64
  fields : List (String × α)
  deriving Repr

/-- Dates, times and base64 payloads are strings. -/
inductive Value where
  | null
  | bool (b : Bool)
  | int (n : Int64)
  | double (x : Double)
  | string (s : String)
  | array (items : List Value)
  | record (r : RecordOf Value)
  deriving Repr

abbrev Record := RecordOf Value

namespace Value

def kind : Value → Kind
  | null => .null
  | bool _ => .bool
  | int _ => .int
  | double _ => .double
  | string _ => .string
  | array _ => .array
  | record _ => .record

def isNull : Value → Bool
  | null => true
  | _ => false

def string? : Value → Option String
  | string s => some s
  | _ => none

def int? : Value → Option Int64
  | int n => some n
  | _ => none

/-- Integers count as doubles, rounded to the nearest. -/
def double? : Value → Option Double
  | int n => some (Double.ofInt n.toInt)
  | double x => some x
  | _ => none

def bool? : Value → Option Bool
  | bool b => some b
  | _ => none

def items? : Value → Option (List Value)
  | array items => some items
  | _ => none

def record? : Value → Option Record
  | record r => some r
  | _ => none

/-- Apply `f` to a record; every other value stays. -/
def updateRecord (f : Record → Record) : Value → Value
  | record r => record (f r)
  | value => value

mutual
/-- Equality of the contents, in which doubles are compared as numbers. -/
def equals : Value → Value → Bool
  | null, null => true
  | bool a, bool b => a == b
  | int a, int b => a == b
  | double a, double b => a.equals b
  | string a, string b => a == b
  | array a, array b => itemsEqual a b
  | record a, record b => recordsEqual a b
  | _, _ => false

def itemsEqual : List Value → List Value → Bool
  | [], [] => true
  | a :: as, b :: bs => equals a b && itemsEqual as bs
  | _, _ => false

def recordsEqual : RecordOf Value → RecordOf Value → Bool
  | ⟨typeName, shape, identity, fields⟩, other =>
      typeName == other.typeName && shape == other.shape && identity == other.identity &&
        fieldsEqual fields other.fields

def fieldsEqual : List (String × Value) → List (String × Value) → Bool
  | [], [] => true
  | (name, a) :: as, (other, b) :: bs => name == other && equals a b && fieldsEqual as bs
  | _, _ => false
end

end Value

namespace RecordOf
variable {α : Type}

/-- The field name that reads and writes the identity. -/
def identityName : String := "ID"

/-- The category of an entity for which none is given. -/
def defaultCategory : String := "Base"

def empty (typeName : String) (shape : Shape) : RecordOf α := ⟨typeName, shape, none, []⟩

def struct (typeName : String) : RecordOf α := empty typeName .struct

def entity (typeName category : String) : RecordOf α := empty typeName (.entity category)

def asset (typeName : String) : RecordOf α := empty typeName .asset

def names (r : RecordOf α) : List String := Fields.names r.fields

def size (r : RecordOf α) : Nat := r.fields.length

def isEmpty (r : RecordOf α) : Bool := r.fields.isEmpty

/-- A stored field, whatever its name. -/
def field? (r : RecordOf α) (name : String) : Option α := Fields.lookup name r.fields

def setIdentity (r : RecordOf α) (identity : Option Int64) : RecordOf α := { r with identity }

/-- Change a stored field in its place. -/
def updateField (r : RecordOf α) (name : String) (f : α → α) : RecordOf α :=
  { r with fields := Fields.update name f r.fields }

/-- Take out a stored field, with its value. -/
def remove (r : RecordOf α) (name : String) : Option α × RecordOf α :=
  (r.field? name, { r with fields := Fields.erase name r.fields })

end RecordOf

namespace Record
open RecordOf

def get? (r : Record) (name : String) : Option Value :=
  if name = identityName then r.identity.map .int else r.field? name

/-- The identity takes an integer, and null to clear it. -/
def set (r : Record) (name : String) (value : Value) : Except Error Record :=
  if name = identityName then
    match value with
    | .int n => .ok (r.setIdentity (some n))
    | .null => .ok (r.setIdentity none)
    | other => .error (.identityNotNumeric other.kind)
  else .ok { r with fields := Fields.assign name value r.fields }

/-- The record in a stored field. -/
def nested? (r : Record) (name : String) : Option Record := (r.field? name).bind Value.record?

/-- Change the record in a stored field. -/
def updateNested (r : Record) (name : String) (f : Record → Record) : Record :=
  r.updateField name (Value.updateRecord f)

def equals (a b : Record) : Bool := Value.recordsEqual a b

end Record

end RecordSchema
