import RecordSchema.Double
import RecordSchema.Error
import RecordSchema.Fields

/-! JSON values. Objects keep the order of their keys. -/

namespace RecordSchema

/-- A number is an integer of 64 bits, signed or unsigned, or a finite double. -/
inductive JsonNumber where
  | integer (n : Int) (fits : -0x8000000000000000 ≤ n ∧ n < 0x10000000000000000)
  | double (x : Double) (finite : x.isFinite = true)
  deriving DecidableEq, Repr

inductive Json where
  | null
  | bool (b : Bool)
  | number (n : JsonNumber)
  | string (s : String)
  | array (items : List Json)
  | object (fields : List (String × Json))
  deriving Repr

namespace Json

/-- What a whole text holds, or why it is refused. -/
abbrev TextReader (α : Type) := List UInt8 → Except JsonFault α

/-- In a text arrays and objects may be nested this deep. -/
def maxNesting : Nat := 127

def kind : Json → Kind
  | null => .null
  | bool _ => .bool
  | number _ => .number
  | string _ => .string
  | array _ => .array
  | object _ => .object

def string? : Json → Option String
  | string s => some s
  | _ => none

def object? : Json → Option (List (String × Json))
  | object fields => some fields
  | _ => none

/-- A count, which stays below the greatest integer. -/
def ofNat (n : Nat) : Json := .number (.integer (min n 0xffffffffffffffff) (by omega))

def ofInt64 (n : Int64) : Json :=
  .number (.integer n.toInt ⟨n.le_toInt, Int.lt_trans n.toInt_lt (by decide)⟩)

/-- A double that is no number has no JSON form but null. -/
def ofDouble (x : Double) : Json :=
  if h : x.isFinite = true then .number (.double x h) else .null

mutual
/-- No object within the value has two fields of one key. -/
def Distinct : Json → Prop
  | null | bool _ | number _ | string _ => True
  | array items => DistinctItems items
  | object fields => (Fields.names fields).Nodup ∧ DistinctFields fields

def DistinctItems : List Json → Prop
  | [] => True
  | item :: rest => Distinct item ∧ DistinctItems rest

def DistinctFields : List (String × Json) → Prop
  | [] => True
  | (_, value) :: rest => Distinct value ∧ DistinctFields rest
end

end Json

end RecordSchema
