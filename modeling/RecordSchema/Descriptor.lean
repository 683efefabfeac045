import RecordSchema.Json
import RecordSchema.Token

/-! The shape of one struct: its name and its declared fields, in order. It may be shown as JSON. -/

namespace RecordSchema

inductive FieldKind where
  | scalar (native : NativeType)
  | reference (target : String)
  deriving DecidableEq, Repr

structure Field where
  name : String
  kind : FieldKind
  deriving DecidableEq, Repr

namespace Field

/-- The struct a reference field holds. -/
def target? (field : Field) : Option String :=
  match field.kind with
  | .scalar _ => none
  | .reference target => some target

/-- Whether construction fills the field at once. -/
def isAlwaysInitialized (field : Field) : Bool := field.target?.isSome

end Field

structure Descriptor where
  name : String
  fields : List Field
  deriving DecidableEq, Repr

namespace Descriptor

def field? (descriptor : Descriptor) (name : String) : Option Field :=
  descriptor.fields.find? (·.name == name)

/-- The reference fields with their targets. -/
def references (descriptor : Descriptor) : List (String × String) :=
  descriptor.fields.filterMap fun field => field.target?.map (field.name, ·)

/-- The type that values stored under `name` are read as: the declared target, else the name. -/
def hint (descriptor : Option Descriptor) (name : String) : String :=
  ((descriptor.bind (·.field? name)).bind Field.target?).getD name

end Descriptor

def FieldKind.toJson : FieldKind → Json
  | scalar native => .object [("kind", .string "scalar"), ("native", .string native.spelling)]
  | reference target => .object [("kind", .string "reference"), ("target", .string target)]

def Field.toJson (field : Field) : Json :=
  .object [("name", .string field.name), ("kind", field.kind.toJson)]

def Descriptor.toJson (descriptor : Descriptor) : Json :=
  .object [("name", .string descriptor.name),
    ("fields", .array (descriptor.fields.map Field.toJson))]

end RecordSchema
