import RecordSchema.Json

/-! JSON values within one another: what holds of all of them, and how deep they are nested. -/

namespace RecordSchema.Json

/-- Neither an array nor an object. -/
def IsScalar : Json → Prop
  | array _ | object _ => False
  | _ => True

theorem inductionOn {P : Json → Prop} (value : Json) (scalar : ∀ value, IsScalar value → P value)
    (array : ∀ items, (∀ item ∈ items, P item) → P (.array items))
    (object : ∀ fields, (∀ field ∈ fields, P field.2) → P (.object fields)) : P value := by
  induction hsize : sizeOf value using Nat.strongRecOn generalizing value with
  | ind size ih =>
      cases value with
      | array items =>
          refine array items fun item hi => ih _ ?_ item rfl
          have hlt := List.sizeOf_lt_of_mem hi
          rw [← hsize, Json.array.sizeOf_spec]
          omega
      | object fields =>
          refine object fields fun field hf => ih _ ?_ field.2 rfl
          have hlt := List.sizeOf_lt_of_mem hf
          have hfield : sizeOf field = 1 + sizeOf field.1 + sizeOf field.2 := rfl
          rw [← hsize, Json.object.sizeOf_spec]
          omega
      | _ => exact scalar _ trivial

/-! ## Keys -/

theorem distinctItems_iff {items : List Json} :
    DistinctItems items ↔ ∀ item ∈ items, item.Distinct := by
  induction items with
  | nil => simp [DistinctItems]
  | cons item rest ih => rw [DistinctItems, ih, List.forall_mem_cons]

theorem distinctFields_iff {fields : List (String × Json)} :
    DistinctFields fields ↔ ∀ field ∈ fields, field.2.Distinct := by
  induction fields with
  | nil => simp [DistinctFields]
  | cons field rest ih => rw [DistinctFields, ih, List.forall_mem_cons]

/-! ## Nesting -/

mutual
/-- How many arrays and objects stand in one another at most. -/
def nesting : Json → Nat
  | null | bool _ | number _ | string _ => 0
  | array items => itemsNesting items + 1
  | object fields => fieldsNesting fields + 1

def itemsNesting : List Json → Nat
  | [] => 0
  | item :: rest => max (nesting item) (itemsNesting rest)

def fieldsNesting : List (String × Json) → Nat
  | [] => 0
  | (_, value) :: rest => max (nesting value) (fieldsNesting rest)
end

theorem itemsNesting_cons {item : Json} {rest : List Json} {n : Nat} :
    itemsNesting (item :: rest) ≤ n ↔ item.nesting ≤ n ∧ itemsNesting rest ≤ n := Nat.max_le

theorem fieldsNesting_cons {field : String × Json} {rest : List (String × Json)} {n : Nat} :
    fieldsNesting (field :: rest) ≤ n ↔ field.2.nesting ≤ n ∧ fieldsNesting rest ≤ n := Nat.max_le

theorem itemsNesting_le_iff {items : List Json} {n : Nat} :
    itemsNesting items ≤ n ↔ ∀ item ∈ items, item.nesting ≤ n := by
  induction items with
  | nil => simp [itemsNesting]
  | cons item rest ih => rw [itemsNesting_cons, ih, List.forall_mem_cons]

theorem lt_itemsNesting_iff {items : List Json} {n : Nat} :
    n < itemsNesting items ↔ ∃ item ∈ items, n < item.nesting := by
  rw [← Nat.not_le, itemsNesting_le_iff]
  simp

theorem fieldsNesting_le_iff {fields : List (String × Json)} {n : Nat} :
    fieldsNesting fields ≤ n ↔ ∀ field ∈ fields, field.2.nesting ≤ n := by
  induction fields with
  | nil => simp [fieldsNesting]
  | cons field rest ih => rw [fieldsNesting_cons, ih, List.forall_mem_cons]

theorem nesting_of_isScalar {value : Json} (h : IsScalar value) : value.nesting = 0 := by
  cases value with
  | array items => exact h.elim
  | object fields => exact h.elim
  | _ => rfl

/-- The text written of a value is read back, unless the value is nested deeper than a text may
be: such a text is refused. -/
structure RoundTrips (read : TextReader Json) (write : Json → String) (payload : Json) : Prop where
  within : payload.nesting ≤ maxNesting → read (write payload).toUTF8.toList = .ok payload
  beyond : maxNesting < payload.nesting →
    read (write payload).toUTF8.toList = .error .malformed

end RecordSchema.Json
