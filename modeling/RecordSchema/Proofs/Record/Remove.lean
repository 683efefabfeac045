import RecordSchema.Proofs.Record.Made

/-! Taking a name out of a record. A stored name reads as absent afterwards, since it was stored
once. The identity's name is never stored, so that it cannot be taken out
(`removed_reads_absent`). -/

namespace RecordSchema.Record
open RecordOf

/-- What the name showed is handed over, the name reads as absent, and no other name changes its
value or its place among the others. -/
structure Removes (r : Record) (name : String) : Prop where
  taken : (r.remove name).1 = r.get? name
  absent : get? (r.remove name).2 name = none
  others : ∀ other, other ≠ name → get? (r.remove name).2 other = r.get? other
  names : (r.remove name).2.names = r.names.filter (· ≠ name)

variable {r : Record} {name : String}

/-- A removal is not seen under another name, the identity's included. -/
theorem get?_remove_of_ne {other : String} (h : other ≠ name) (r : Record) :
    get? (r.remove name).2 other = r.get? other := by
  unfold get?
  split
  · rfl
  · exact Fields.lookup_erase_of_ne h r.fields

theorem Proper.names_remove (hr : r.Proper) (name : String) :
    (r.remove name).2.names = r.names.filter (· ≠ name) := by
  have herase : (r.remove name).2.names = r.names.erase name := Fields.names_erase name r.fields
  rw [herase, hr.nodup.erase_eq_filter]
  exact List.filter_congr fun other _ => by rw [bne, decide_not, beq_eq_decide]

theorem Proper.removes (hr : r.Proper) (h : name ≠ identityName) : r.Removes name where
  taken := (get?_of_ne_identity h r).symm
  absent := by
    rw [get?_of_ne_identity h]
    exact Fields.lookup_erase_self hr.nodup name
  others _ ho := get?_remove_of_ne ho r
  names := hr.names_remove name

/-- The identity is no stored field, and nothing else has its name. -/
theorem Proper.remove_identity (hr : r.Proper) : r.remove identityName = (none, r) := by
  have hnone : r.field? identityName = none := Fields.lookup_eq_none_iff.mpr hr.noIdentity
  rw [RecordOf.remove, hnone, Fields.erase_of_not_mem hr.noIdentity]

theorem Proper.removes_identity_iff (hr : r.Proper) :
    r.Removes identityName ↔ r.identity = none := by
  constructor
  · intro h
    have absent := h.absent
    rwa [hr.remove_identity, get?_identity, Option.map_eq_none_iff] at absent
  · intro h
    have hget : r.get? identityName = none := by rw [get?_identity, h, Option.map_none]
    refine ⟨?_, ?_, fun _ ho => get?_remove_of_ne ho r, hr.names_remove identityName⟩
    · rw [hr.remove_identity, hget]
    · rw [hr.remove_identity]
      exact hget

/-- Whatever a program makes of a record, a name that is removed from it reads as absent, except
for an identity that is set, which a removal neither hands over nor clears. -/
theorem removed_reads_absent (h : Made (.record r)) (name : String) :
    (r.Removes name ↔ (name = identityName → r.identity = none)) ∧
      r.remove identityName = (none, r) := by
  have hr : r.Proper := h.wellFormed.proper .self
  refine ⟨?_, hr.remove_identity⟩
  by_cases hn : name = identityName
  · subst hn
    rw [hr.removes_identity_iff]
    exact ⟨fun h _ => h, fun h => h rfl⟩
  · exact ⟨fun _ hi => absurd hi hn, fun _ => hr.removes hn⟩

/-- An order with an identity: its customer can be taken out, the identity cannot. -/
theorem removed_reads_absent_editedOrder :
    Made (.record editedOrder) ∧ editedOrder.Removes "customer" ∧
      ¬editedOrder.Removes identityName ∧
      editedOrder.remove identityName = (none, editedOrder) := by
  have customer := removed_reads_absent made_editedOrder "customer"
  have identity := removed_reads_absent made_editedOrder identityName
  refine ⟨made_editedOrder, customer.1.mpr (by decide), ?_, identity.2⟩
  intro h
  cases identity.1.mp h rfl

/-- An identity that is set is still there after its removal. -/
theorem removed_identity_remains :
    ¬∀ (r : Record) (name : String), Made (.record r) → r.Removes name := by
  intro h
  have made : Made (.record ((Edit.setIdentity (some 5)).apply (.struct "T"))) :=
    .edited (.empty "T" .struct) nofun
  have absent := (h _ identityName made).absent
  cases absent

end RecordSchema.Record
