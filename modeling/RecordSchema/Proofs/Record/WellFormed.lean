import RecordSchema.Proofs.Record

/-! Values in which every record is proper, however deep it stands. Every way to change a record
keeps them so (`WellFormed.edit`). -/

namespace RecordSchema.Value

/-! ## Values within values -/

/-- The values directly within a value. -/
def parts : Value → List Value
  | array items => items
  | record r => r.fields.map (·.2)
  | null | bool _ | int _ | double _ | string _ => []

/-- One value is another, or stands in it at some depth. -/
inductive Within : Value → Value → Prop where
  | self {value : Value} : Within value value
  | part {inner part whole : Value} : part ∈ whole.parts → Within inner part → Within inner whole

/-- Every record within the value is proper. -/
inductive WellFormed : Value → Prop where
  | intro {value : Value} (proper : ∀ r : Record, value = record r → r.Proper)
      (parts : ∀ part ∈ value.parts, WellFormed part) : WellFormed value

namespace WellFormed

theorem parts {value part : Value} (h : WellFormed value) (hp : part ∈ value.parts) :
    WellFormed part := by
  cases h with
  | intro _ parts => exact parts part hp

theorem within {inner whole : Value} (h : WellFormed whole) (hw : Within inner whole) :
    WellFormed inner := by
  induction hw with
  | self => exact h
  | part hp _ ih => exact ih (h.parts hp)

theorem record_iff {r : Record} :
    WellFormed (record r) ↔ r.Proper ∧ ∀ entry ∈ r.fields, WellFormed entry.2 := by
  constructor
  · intro h
    refine ⟨?_, fun entry he => h.parts (List.mem_map_of_mem he)⟩
    cases h with
    | intro proper _ => exact proper r rfl
  · rintro ⟨hr, he⟩
    refine .intro (fun _ heq => Value.record.inj heq ▸ hr) ?_
    rintro _ hp
    obtain ⟨entry, hm, rfl⟩ := List.mem_map.mp hp
    exact he entry hm

theorem proper {r : Record} {whole : Value} (h : WellFormed whole) (hw : Within (record r) whole) :
    r.Proper :=
  (record_iff.mp (h.within hw)).1

theorem empty (typeName : String) (shape : Shape) : WellFormed (record (.empty typeName shape)) :=
  record_iff.mpr ⟨.empty typeName shape, fun _ he => absurd he List.not_mem_nil⟩

/-! ## Writes -/

variable {r : Record}

theorem set {written : Record} {name : String} {value : Value} (h : WellFormed (record r))
    (hv : WellFormed value) (hset : r.set name value = .ok written) :
    WellFormed (record written) := by
  obtain ⟨hr, hfields⟩ := record_iff.mp h
  refine record_iff.mpr ⟨hr.set hset, fun entry he => ?_⟩
  rcases Record.mem_fields_set hset he with rfl | he
  · exact hv
  · exact hfields entry he

theorem setIdentity (h : WellFormed (record r)) (identity : Option Int64) :
    WellFormed (record (r.setIdentity identity)) := by
  obtain ⟨hr, hfields⟩ := record_iff.mp h
  exact record_iff.mpr ⟨hr.setIdentity identity, hfields⟩

theorem remove (h : WellFormed (record r)) (name : String) :
    WellFormed (record (r.remove name).2) := by
  obtain ⟨hr, hfields⟩ := record_iff.mp h
  refine record_iff.mpr ⟨hr.remove name, fun entry he => ?_⟩
  exact hfields entry ((Fields.erase_sublist name r.fields).subset he)

theorem updateField (h : WellFormed (record r)) (name : String) {f : Value → Value}
    (hf : ∀ value, WellFormed value → WellFormed (f value)) :
    WellFormed (record (r.updateField name f)) := by
  obtain ⟨hr, hfields⟩ := record_iff.mp h
  refine record_iff.mpr ⟨hr.updateField name f, fun entry he => ?_⟩
  rcases Fields.mem_of_mem_update he with he | ⟨value, hv, rfl⟩
  · exact hfields entry he
  · exact hf value (hfields _ hv)

theorem updateRecord {f : Record → Record} {value : Value} (h : WellFormed value)
    (hf : ∀ r, WellFormed (record r) → WellFormed (record (f r))) :
    WellFormed (value.updateRecord f) := by
  cases value with
  | record r => exact hf r h
  | _ => exact h

end WellFormed

end RecordSchema.Value

namespace RecordSchema
open Value (WellFormed)

/-! ## Edits -/

/-- One change of a record, or of a record in one of its fields. -/
inductive Edit where
  | set (name : String) (value : Value)
  | setIdentity (identity : Option Int64)
  | remove (name : String)
  | replace (name : String) (value : Value)
  | nested (name : String) (edit : Edit)

namespace Edit

/-- The value that an edit brings in. -/
def value? : Edit → Option Value
  | set _ value | replace _ value => some value
  | setIdentity _ | remove _ => none
  | nested _ edit => edit.value?

/-- A write that is refused changes nothing, and so does an edit of a field that is not there. -/
def apply : Edit → Record → Record
  | set name value, r => (r.set name value).toOption.getD r
  | setIdentity identity, r => r.setIdentity identity
  | remove name, r => (r.remove name).2
  | replace name value, r => r.updateField name fun _ => value
  | nested name edit, r => r.updateNested name edit.apply

def applyAll (edits : List Edit) (r : Record) : Record :=
  edits.foldl (fun r edit => edit.apply r) r

end Edit

theorem Value.WellFormed.edit {r : Record} {edit : Edit} (h : WellFormed (.record r))
    (hv : ∀ value ∈ edit.value?, WellFormed value) : WellFormed (.record (edit.apply r)) := by
  induction edit generalizing r with
  | set name value =>
      cases hset : r.set name value with
      | error e =>
          rw [Edit.apply, hset]
          exact h
      | ok written =>
          rw [Edit.apply, hset]
          exact h.set (hv value rfl) hset
  | setIdentity identity => exact h.setIdentity identity
  | remove name => exact h.remove name
  | replace name value => exact h.updateField name fun _ _ => hv value rfl
  | nested name edit ih =>
      exact h.updateField name fun _ hvalue => hvalue.updateRecord fun _ hr => ih hr hv

/-! ## Positions

The steps that lead to what stands within a value. In a well-formed value every part has a position
(`exists_position`). -/

/-- To the stored field of a record, or to the item of an array. -/
inductive Step where
  | field (name : String)
  | item (i : Nat)
  deriving DecidableEq, Repr

namespace Value

/-- A step that does not fit the value leads nowhere. -/
def step? : Value → Step → Option Value
  | record r, .field name => r.field? name
  | array items, .item i => items[i]?
  | _, _ => none

/-- What stands at the end of the steps. -/
def at? (position : List Step) (value : Value) : Option Value := position.foldlM step? value

theorem at?_cons (step : Step) (rest : List Step) (value : Value) :
    value.at? (step :: rest) = (value.step? step).bind (at? rest) := rfl

theorem exists_step {value part : Value} (h : WellFormed value) (hp : part ∈ value.parts) :
    ∃ step, value.step? step = some part := by
  cases value with
  | array items =>
      obtain ⟨i, hi⟩ := List.mem_iff_getElem?.mp hp
      exact ⟨.item i, hi⟩
  | record r =>
      obtain ⟨⟨name, value⟩, he, rfl⟩ := List.mem_map.mp hp
      have hr := (WellFormed.record_iff.mp h).1
      exact ⟨.field name, Fields.lookup_of_mem hr.nodup he⟩
  | _ => cases hp

theorem exists_position {inner whole : Value} (h : WellFormed whole) (hw : Within inner whole) :
    ∃ position, whole.at? position = some inner := by
  induction hw with
  | self => exact ⟨[], rfl⟩
  | part hp _ ih =>
      obtain ⟨step, hstep⟩ := exists_step h hp
      obtain ⟨position, hposition⟩ := ih (h.parts hp)
      refine ⟨step :: position, ?_⟩
      rw [at?_cons, hstep, Option.bind_some, hposition]

end Value

end RecordSchema
