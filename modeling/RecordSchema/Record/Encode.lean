import RecordSchema.Json
import RecordSchema.Record

/-! Records as JSON. A struct is an object with a key for each field, its identity first. A wrapper
carries its type, its fields as a list of name and value, and its identity or null. -/

namespace RecordSchema

/-- The two wrappers, which differ in their keys only. -/
inductive Wrapper where
  | entity | asset
  deriving DecidableEq, Repr

namespace Wrapper

def typeKey : Wrapper → String
  | entity => "EntityType"
  | asset => "AssetType"

def entriesKey : Wrapper → String
  | entity => "EntityFields"
  | asset => "AssetFields"

def collectionKey : String := "FieldValueCollection"

def identityKey : String := "Id"

def nameKey : String := "Name"

def categoryKey : String := "Type"

def entryNameKey : String := "InternalName"

def entryValueKey : String := "Value"

/-- The object that names the wrapped type. -/
def typeJson (typeName : String) (category : Option String) : Json :=
  .object ([(RecordOf.identityName, .ofInt64 0), (nameKey, .string typeName)] ++
    (category.map fun category => (categoryKey, .string category)).toList)

def toJson (wrapper : Wrapper) (typeName : String) (category : Option String)
    (identity : Option Int64) (entries : List Json) : Json :=
  .object [(wrapper.typeKey, typeJson typeName category),
    (collectionKey, .object [(wrapper.entriesKey, .array entries)]),
    (identityKey, (identity.map .ofInt64).getD .null)]

end Wrapper

namespace Value

mutual
def toJson : Value → Json
  | null => .null
  | bool b => .bool b
  | int n => .ofInt64 n
  | double x => .ofDouble x
  | string s => .string s
  | array items => .array (itemsJson items)
  | record r => recordJson r

def itemsJson : List Value → List Json
  | [] => []
  | item :: rest => toJson item :: itemsJson rest

def recordJson : RecordOf Value → Json
  | ⟨_, .struct, identity, fields⟩ =>
      .object ((identity.map fun n => (RecordOf.identityName, .ofInt64 n)).toList ++
        fieldsJson fields)
  | ⟨typeName, .entity category, identity, fields⟩ =>
      Wrapper.entity.toJson typeName (some category) identity (entriesJson fields)
  | ⟨typeName, .asset, identity, fields⟩ =>
      Wrapper.asset.toJson typeName none identity (entriesJson fields)

def fieldsJson : List (String × Value) → List (String × Json)
  | [] => []
  | (name, value) :: rest => (name, toJson value) :: fieldsJson rest

def entriesJson : List (String × Value) → List Json
  | [] => []
  | (name, value) :: rest =>
      .object [(Wrapper.entryNameKey, .string name), (Wrapper.entryValueKey, toJson value)] ::
        entriesJson rest
end

theorem itemsJson_eq_map (items : List Value) : itemsJson items = items.map toJson := by
  induction items with
  | nil => rfl
  | cons item rest ih => rw [itemsJson, ih, List.map_cons]

theorem fieldsJson_eq_map (fields : List (String × Value)) :
    fieldsJson fields = fields.map fun entry => (entry.1, entry.2.toJson) := by
  induction fields with
  | nil => rfl
  | cons entry rest ih => rw [fieldsJson, ih, List.map_cons]

theorem entriesJson_eq_map (fields : List (String × Value)) :
    entriesJson fields = fields.map fun entry =>
      .object [(Wrapper.entryNameKey, .string entry.1),
        (Wrapper.entryValueKey, entry.2.toJson)] := by
  induction fields with
  | nil => rfl
  | cons entry rest ih => rw [entriesJson, ih, List.map_cons]

end Value

def Record.toJson (r : Record) : Json := Value.recordJson r

end RecordSchema
