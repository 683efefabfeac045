import Mathlib.Data.List.Perm.Subperm
import RecordSchema.Proofs.Fields
import RecordSchema.Record

/-! What writing one name does to a record, and the rule that its stored names obey. -/

namespace RecordSchema.Record
open RecordOf

/-- The stored names of a record are distinct, and the identity's name is not among them. -/
structure Proper (r : Record) : Prop where
  nodup : r.names.Nodup
  noIdentity : identityName ∉ r.names

theorem set_identity (r : Record) (n : Int64) :
    r.set identityName (.int n) = .ok (r.setIdentity (some n)) := rfl

theorem set_field {name : String} (h : name ≠ identityName) (r : Record) (value : Value) :
    r.set name value = .ok { r with fields := Fields.assign name value r.fields } := by
  simp [set, h]

/-- A write that succeeds goes to the identity or to one stored field. -/
theorem set_eq_ok {r written : Record} {name : String} {value : Value}
    (h : r.set name value = .ok written) :
    (name = identityName ∧ ∃ identity, written = r.setIdentity identity) ∨
    (name ≠ identityName ∧ written = { r with fields := Fields.assign name value r.fields }) := by
  by_cases hn : name = identityName
  · refine .inl ⟨hn, ?_⟩
    cases value with
    | null => exact ⟨none, by simpa [set, hn] using h.symm⟩
    | int n => exact ⟨some n, by simpa [set, hn] using h.symm⟩
    | _ => simp [set, hn] at h
  · rw [set_field hn] at h
    exact .inr ⟨hn, (Except.ok.inj h).symm⟩

theorem typeName_set {r written : Record} {name : String} {value : Value}
    (h : r.set name value = .ok written) : written.typeName = r.typeName := by
  rcases set_eq_ok h with ⟨_, identity, rfl⟩ | ⟨_, rfl⟩ <;> rfl

theorem shape_set {r written : Record} {name : String} {value : Value}
    (h : r.set name value = .ok written) : written.shape = r.shape := by
  rcases set_eq_ok h with ⟨_, identity, rfl⟩ | ⟨_, rfl⟩ <;> rfl

theorem get?_of_ne_identity {name : String} (h : name ≠ identityName) (r : Record) :
    r.get? name = r.field? name := if_neg h

theorem get?_identity (r : Record) : r.get? identityName = r.identity.map .int := if_pos rfl

/-- A write to one name is not seen under another. -/
theorem get?_set_of_ne {r written : Record} {name other : String} {value : Value}
    (h : r.set name value = .ok written) (hne : other ≠ name) :
    written.get? other = r.get? other := by
  unfold get?
  rcases set_eq_ok h with ⟨rfl, identity, rfl⟩ | ⟨_, rfl⟩
  · rw [if_neg hne, if_neg hne]
    rfl
  · split
    · rfl
    · exact Fields.lookup_assign_of_ne hne value r.fields

/-- What a name shows once a value is written to it. A null clears the identity. -/
def shown (name : String) (value : Value) : Option Value :=
  if name = identityName ∧ value.isNull = true then none else some value

theorem get?_set {r written : Record} {name : String} {value : Value}
    (h : r.set name value = .ok written) (other : String) :
    written.get? other = if other = name then shown name value else r.get? other := by
  split
  · rename_i ho
    subst ho
    unfold get? shown
    by_cases hn : other = identityName
    · cases value with
      | null =>
          obtain rfl : r.setIdentity none = written := by simpa [set, hn] using h
          simp [hn, setIdentity, Value.isNull]
      | int n =>
          obtain rfl : r.setIdentity (some n) = written := by simpa [set, hn] using h
          simp [hn, setIdentity, Value.isNull]
      | _ => simp [set, hn] at h
    · rw [set_field hn] at h
      rw [← Except.ok.inj h, if_neg hn, if_neg (fun hs => hn hs.1)]
      exact Fields.lookup_assign_self other value r.fields
  · rename_i ho
    exact get?_set_of_ne h ho

/-- The value may be written to the name. -/
def Takes (name : String) (value : Value) : Prop :=
  name = identityName → value = .null ∨ ∃ n, value = .int n

/-- Whether a write succeeds does not depend on the record. -/
theorem exists_set {r : Record} {name : String} {value : Value} :
    (∃ written, r.set name value = .ok written) ↔ Takes name value := by
  by_cases hn : name = identityName
  · cases value <;> simp [set, hn, Takes]
  · simp [set_field hn, Takes, hn]

/-- The names after a write depend only on the names before it. -/
theorem names_set {r written : Record} {name : String} {value : Value}
    (h : r.set name value = .ok written) :
    written.names = if name = identityName ∨ name ∈ r.names then r.names
      else r.names ++ [name] := by
  rcases set_eq_ok h with ⟨hn, identity, rfl⟩ | ⟨hn, rfl⟩
  · rw [if_pos (.inl hn)]
    rfl
  · simp only [hn, false_or]
    exact Fields.names_assign name value r.fields

theorem mem_fields_set {r written : Record} {name : String} {value : Value}
    (h : r.set name value = .ok written) {entry : String × Value} (he : entry ∈ written.fields) :
    entry = (name, value) ∨ entry ∈ r.fields := by
  rcases set_eq_ok h with ⟨_, identity, rfl⟩ | ⟨_, rfl⟩
  · exact .inr he
  · exact Fields.mem_of_mem_assign he

theorem Proper.set {r written : Record} {name : String} {value : Value} (hr : r.Proper)
    (h : r.set name value = .ok written) : written.Proper := by
  rcases set_eq_ok h with ⟨_, identity, rfl⟩ | ⟨hn, rfl⟩
  · exact ⟨hr.nodup, hr.noIdentity⟩
  · refine ⟨Fields.nodup_names_assign hr.nodup, ?_⟩
    intro hi
    rcases Fields.mem_names_assign.mp hi with hi | hi
    · exact hn hi.symm
    · exact hr.noIdentity hi

theorem Proper.empty (typeName : String) (shape : Shape) : Proper (.empty typeName shape) :=
  ⟨List.nodup_nil, List.not_mem_nil⟩

theorem Proper.setIdentity {r : Record} (hr : r.Proper) (identity : Option Int64) :
    Proper (r.setIdentity identity) :=
  ⟨hr.nodup, hr.noIdentity⟩

theorem Proper.updateField {r : Record} (hr : r.Proper) (name : String) (f : Value → Value) :
    Proper (r.updateField name f) := by
  have hnames : (r.updateField name f).names = r.names := Fields.names_update name f r.fields
  constructor
  · rw [hnames]
    exact hr.nodup
  · rw [hnames]
    exact hr.noIdentity

theorem Proper.remove {r : Record} (hr : r.Proper) (name : String) : Proper (r.remove name).2 := by
  have hnames : (r.remove name).2.names.Sublist r.names :=
    (Fields.erase_sublist name r.fields).map _
  exact ⟨hnames.nodup hr.nodup, fun h => hr.noIdentity (hnames.subset h)⟩

/-- Distinct names that all come from a list are no more than its entries. -/
theorem Proper.length_le {r : Record} (hr : r.Proper) {names : List String}
    (h : ∀ name ∈ r.names, name ∈ names) : r.fields.length ≤ names.length := by
  rw [← Fields.length_names]
  exact (List.subperm_of_subset hr.nodup h).length_le

end RecordSchema.Record
