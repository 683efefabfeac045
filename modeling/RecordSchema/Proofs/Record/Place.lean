import RecordSchema.Record
import RecordSchema.Registry

/-! Where the values within a record stand: the type that each is read as, and how deep it is. -/

namespace RecordSchema

/-- The type a value is read as, and how many arrays and records there are around it. -/
structure Place where
  hint : String
  depth : Nat
  deriving DecidableEq, Repr

/-- The type a stored field is read as. A struct asks the registry for its own type's declaration
of the field; a wrapper goes by the field's name alone. -/
def Record.hint (registry : Registry) (r : Record) (name : String) : String :=
  match r.shape with
  | .struct => Descriptor.hint (registry.lookup r.typeName) name
  | .entity _ | .asset => name

/-- One value directly within another, each with its place. -/
inductive Part (registry : Registry) : Place → Value → Place → Value → Prop
  | item {place : Place} {items : List Value} {item : Value} (h : item ∈ items) :
      Part registry place (.array items) ⟨place.hint, place.depth + 1⟩ item
  | field {place : Place} {r : Record} {name : String} {value : Value}
      (h : (name, value) ∈ r.fields) :
      Part registry place (.record r) ⟨r.hint registry name, place.depth + 1⟩ value

/-- `P` holds of a value and of everything within it, each at its own place. -/
inductive Everywhere (registry : Registry) (P : Place → Value → Prop) : Place → Value → Prop
  | intro {place : Place} {value : Value} (here : P place value)
      (within : ∀ inner part, Part registry place value inner part →
        Everywhere registry P inner part) :
      Everywhere registry P place value

namespace Everywhere
variable {registry : Registry} {P : Place → Value → Prop} {place : Place}

theorem here {value : Value} (h : Everywhere registry P place value) : P place value := by
  cases h with
  | intro here _ => exact here

theorem within {value : Value} (h : Everywhere registry P place value) {inner : Place}
    {part : Value} (hp : Part registry place value inner part) :
    Everywhere registry P inner part := by
  cases h with
  | intro _ within => exact within inner part hp

theorem array_iff {items : List Value} :
    Everywhere registry P place (.array items) ↔
      P place (.array items) ∧
        ∀ item ∈ items, Everywhere registry P ⟨place.hint, place.depth + 1⟩ item := by
  constructor
  · intro h
    exact ⟨h.here, fun _ hi => h.within (.item hi)⟩
  · rintro ⟨h, hi⟩
    refine .intro h ?_
    rintro _ _ ⟨hm⟩
    exact hi _ hm

theorem record_iff {r : Record} :
    Everywhere registry P place (.record r) ↔
      P place (.record r) ∧ ∀ entry ∈ r.fields,
        Everywhere registry P ⟨r.hint registry entry.1, place.depth + 1⟩ entry.2 := by
  constructor
  · intro h
    exact ⟨h.here, fun _ he => h.within (.field he)⟩
  · rintro ⟨h, he⟩
    refine .intro h ?_
    rintro _ _ (_ | hm)
    exact he _ hm

/-- Nothing is within a value that is neither an array nor a record. -/
theorem leaf_iff {value : Value} (ha : ∀ items, value ≠ .array items)
    (hr : ∀ r, value ≠ .record r) :
    Everywhere registry P place value ↔ P place value := by
  refine ⟨here, fun h => .intro h ?_⟩
  rintro _ _ (_ | _)
  · exact absurd rfl (ha _)
  · exact absurd rfl (hr _)

end Everywhere

end RecordSchema
