import RecordSchema.Host
import RecordSchema.Record

/-! New records of a registered type. Reference fields hold new records of their own; scalar fields
stay unset. A type that would have to hold itself cannot be built. -/

namespace RecordSchema.Registry

theorem unused_lt {registry : Registry} {chain : List String} {name : String}
    (fresh : name ∉ chain) (known : registry.contains name = true) :
    (registry.names.filter (· ∉ chain ++ [name])).length <
      (registry.names.filter (· ∉ chain)).length := by
  have h : registry.names.filter (· ∉ chain ++ [name]) =
      (registry.names.filter (· ∉ chain)).filter (· ≠ name) := by
    rw [List.filter_filter]
    apply List.filter_congr
    intro other _
    simp [and_comm]
  rw [h]
  apply List.length_filter_lt_length_iff_exists.mpr
  exact ⟨name, by simp [fresh, contains_iff_mem_names.mp known], by simp⟩

set_option linter.unusedVariables false in
/-- `chain` holds the types under construction, from the outermost to the innermost. -/
def construct (registry : Registry) (chain : List String) (name : String) : Except Error Record :=
  if fresh : name ∈ chain then .error (.recursiveType (chain ++ [name]))
  else if name = Host.dynamicEntity then .ok (.entity name RecordOf.defaultCategory)
  else if name = Host.dynamicAsset then .ok (.asset name)
  else match known : registry.lookup name with
    | none => .ok (.struct name)
    | some descriptor =>
        descriptor.references.foldlM (fun record (field, target) =>
          if field = RecordOf.identityName then .ok record
          else do
            let nested ← construct registry (chain ++ [name]) target
            record.set field (.record nested)) (.struct name)
termination_by (registry.names.filter (· ∉ chain)).length
decreasing_by exact unused_lt fresh (by simp [contains, known])

/-- An empty record of the named type; a type that is not registered has no fields to fill. -/
def instantiate (registry : Registry) (name : String) : Except Error Record :=
  registry.construct [] name

end RecordSchema.Registry
