import Mathlib.Data.List.Nodup
import RecordSchema.Proofs.Json
import RecordSchema.Proofs.Record.WellFormed
import RecordSchema.Proofs.Reply.RoundTrip

/-! What is written of a well-formed value. None of its objects has two fields of one key
(`WellFormed.distinct`). -/

namespace RecordSchema

namespace Json

theorem distinct_ofInt64 (n : Int64) : (ofInt64 n).Distinct := trivial

theorem distinct_ofDouble (x : Double) : (ofDouble x).Distinct := by
  unfold ofDouble
  split <;> trivial

end Json

namespace Value

variable {r : Record}

/-- The identity's key is none of the stored names, which are distinct. -/
theorem distinct_structJson (hs : r.shape = .struct) (hr : r.Proper)
    (h : ∀ entry ∈ r.fields, entry.2.toJson.Distinct) : (record r).toJson.Distinct := by
  rw [Reply.toJson_struct hs, Json.Distinct, Json.distinctFields_iff, Fields.names_append,
    Reply.names_fieldsJson, fieldsJson_eq_map, List.forall_mem_append, List.forall_mem_map]
  refine ⟨List.nodup_append.mpr ⟨?_, hr.nodup, ?_⟩, ?_, h⟩
  · cases r.identity with
    | none => exact List.nodup_nil
    | some n => exact List.nodup_singleton _
  · rintro name hi other ho rfl
    exact hr.noIdentity (Reply.mem_names_identityFields hi ▸ ho)
  · cases r.identity with
    | none => exact fun _ hf => absurd hf List.not_mem_nil
    | some n => exact List.forall_mem_singleton.mpr (Json.distinct_ofInt64 n)

theorem distinct_typeJson (typeName : String) (category : Option String) :
    (Wrapper.typeJson typeName category).Distinct := by
  cases category with
  | none =>
      have hkeys : [RecordOf.identityName, Wrapper.nameKey].Nodup := by decide
      exact ⟨hkeys, trivial, trivial, trivial⟩
  | some category =>
      have hkeys : [RecordOf.identityName, Wrapper.nameKey, Wrapper.categoryKey].Nodup := by decide
      exact ⟨hkeys, trivial, trivial, trivial, trivial⟩

/-- The names of a wrapper's fields are no keys: they may even be those of the wrapper. -/
theorem distinct_wrapperJson (hs : r.shape ≠ .struct)
    (h : ∀ entry ∈ r.fields, entry.2.toJson.Distinct) : (record r).toJson.Distinct := by
  obtain ⟨wrapper, category, hjson, _⟩ := Reply.toJson_wrapper hs
  have hkeys : [wrapper.typeKey, Wrapper.collectionKey, Wrapper.identityKey].Nodup := by
    cases wrapper <;> decide
  have hentryKeys : [Wrapper.entryNameKey, Wrapper.entryValueKey].Nodup := by decide
  have hentries : Json.DistinctItems (entriesJson r.fields) := by
    rw [Json.distinctItems_iff, entriesJson_eq_map, List.forall_mem_map]
    intro entry he
    exact ⟨hentryKeys, trivial, h entry he, trivial⟩
  have hidentity : ((r.identity.map Json.ofInt64).getD .null).Distinct := by
    cases r.identity <;> trivial
  rw [hjson]
  exact ⟨hkeys, distinct_typeJson r.typeName category,
    ⟨List.nodup_singleton _, hentries, trivial⟩, hidentity, trivial⟩

theorem WellFormed.distinct {value : Value} (h : WellFormed value) : value.toJson.Distinct := by
  induction h with
  | @intro value proper _ ih =>
      cases value with
      | null => trivial
      | bool b => trivial
      | string s => trivial
      | int n => exact Json.distinct_ofInt64 n
      | double x => exact Json.distinct_ofDouble x
      | array items =>
          rw [toJson, Json.Distinct, Json.distinctItems_iff, itemsJson_eq_map, List.forall_mem_map]
          exact ih
      | record r =>
          have hfields : ∀ entry ∈ r.fields, entry.2.toJson.Distinct :=
            fun entry he => ih entry.2 (List.mem_map_of_mem he)
          by_cases hs : r.shape = .struct
          · exact distinct_structJson hs (proper r rfl) hfields
          · exact distinct_wrapperJson hs hfields

end Value

end RecordSchema
