import RecordSchema.Error
import RecordSchema.Registry

/-! How a program comes by its registry: one under construction, which also knows which of its names
the host defined, and the one that all of the program shares, installed once and never replaced. -/

namespace RecordSchema

/-- Whether a descriptor was taken or its name was known before. -/
inductive Registration where
  | added | alreadyKnown
  deriving DecidableEq, Repr

structure Builder where
  registry : Registry
  hostNames : List String
  deriving DecidableEq, Repr

namespace Builder

def empty : Builder := ⟨.empty, []⟩

def isKnown (builder : Builder) (name : String) : Bool := builder.registry.contains name

def isHostDefined (builder : Builder) (name : String) : Bool := builder.hostNames.contains name

def register (builder : Builder) (descriptor : Descriptor) : Registration × Builder :=
  if builder.isKnown descriptor.name then (.alreadyKnown, builder)
  else (.added, { builder with registry := builder.registry.add descriptor })

/-- Only a descriptor that is taken marks its name as the host's. -/
def seedHost (builder : Builder) (descriptor : Descriptor) : Registration × Builder :=
  match builder.register descriptor with
  | (.added, builder) => (.added, { builder with hostNames := descriptor.name :: builder.hostNames })
  | (.alreadyKnown, builder) => (.alreadyKnown, builder)

end Builder

structure Shared where
  registry? : Option Registry
  deriving DecidableEq, Repr

namespace Shared

def empty : Shared := ⟨none⟩

def install (shared : Shared) (registry : Registry) : Except Error Shared :=
  match shared.registry? with
  | none => .ok ⟨some registry⟩
  | some _ => .error .registryAlreadyInstalled

end Shared

end RecordSchema
