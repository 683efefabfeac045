import RecordSchema.Descriptor

/-! Descriptors by name. Their list stays in increasing order of name, and the first descriptor
added under a name is the one that stays. -/

namespace RecordSchema

structure Registry where
  descriptors : List Descriptor
  deriving DecidableEq, Repr

namespace Registry

def empty : Registry := ⟨[]⟩

def names (registry : Registry) : List String := registry.descriptors.map (·.name)

def size (registry : Registry) : Nat := registry.descriptors.length

def isEmpty (registry : Registry) : Bool := registry.descriptors.isEmpty

def lookup (registry : Registry) (name : String) : Option Descriptor :=
  registry.descriptors.find? (·.name == name)

def contains (registry : Registry) (name : String) : Bool := (registry.lookup name).isSome

/-- Put a descriptor before the first one of a greater name. -/
def insertByName (descriptor : Descriptor) : List Descriptor → List Descriptor
  | [] => [descriptor]
  | other :: rest =>
      if descriptor.name < other.name then descriptor :: other :: rest
      else other :: insertByName descriptor rest

/-- A name that is taken keeps its descriptor. -/
def add (registry : Registry) (descriptor : Descriptor) : Registry :=
  if registry.contains descriptor.name then registry
  else ⟨insertByName descriptor registry.descriptors⟩

theorem contains_iff_mem_names {registry : Registry} {name : String} :
    registry.contains name = true ↔ name ∈ registry.names := by
  simp [contains, lookup, names, List.find?_isSome]

theorem mem_insertByName {d descriptor : Descriptor} {descriptors : List Descriptor} :
    d ∈ insertByName descriptor descriptors ↔ d = descriptor ∨ d ∈ descriptors := by
  induction descriptors with
  | nil => simp [insertByName]
  | cons other rest ih =>
      simp only [insertByName]
      split
      · simp
      · simp only [List.mem_cons, ih]
        constructor <;> rintro (h | h | h) <;> simp [h]

end Registry

end RecordSchema
