/-! Named entries in order. Of several entries of one name the first counts. -/

namespace RecordSchema.Fields
variable {α : Type}

def lookup (name : String) : List (String × α) → Option α
  | [] => none
  | (key, value) :: rest => if key = name then some value else lookup name rest

def names (fields : List (String × α)) : List String := fields.map (·.1)

/-- Replace the value of a name in its place, or append the name. -/
def assign (name : String) (value : α) : List (String × α) → List (String × α)
  | [] => [(name, value)]
  | (key, old) :: rest =>
      if key = name then (key, value) :: rest else (key, old) :: assign name value rest

def erase (name : String) : List (String × α) → List (String × α)
  | [] => []
  | (key, value) :: rest => if key = name then rest else (key, value) :: erase name rest

def update (name : String) (f : α → α) : List (String × α) → List (String × α)
  | [] => []
  | (key, value) :: rest =>
      if key = name then (key, f value) :: rest else (key, value) :: update name f rest

/-- Repeated names keep the place of the first and the value of the last. -/
def ofEntries (entries : Array (String × α)) : List (String × α) :=
  entries.foldl (fun fields (name, value) => assign name value fields) []

@[simp] theorem lookup_assign_self (name : String) (value : α) (fields : List (String × α)) :
    lookup name (assign name value fields) = some value := by
  induction fields with
  | nil => simp [assign, lookup]
  | cons entry rest ih =>
      simp only [assign]
      split <;> simp_all [lookup]

theorem lookup_assign_of_ne {name other : String} (h : other ≠ name) (value : α)
    (fields : List (String × α)) :
    lookup other (assign name value fields) = lookup other fields := by
  induction fields with
  | nil => simp [assign, lookup, h.symm]
  | cons entry rest ih =>
      simp only [assign]
      split <;> simp_all [lookup, h.symm]

theorem lookup_eq_none_iff {name : String} {fields : List (String × α)} :
    lookup name fields = none ↔ name ∉ names fields := by
  induction fields with
  | nil => simp [lookup, names]
  | cons entry rest ih =>
      by_cases h : entry.1 = name
      · simp [lookup, names, h]
      · simp [lookup, names, h, ih, Ne.symm h]

theorem names_assign_of_mem {name : String} {fields : List (String × α)}
    (h : name ∈ names fields) (value : α) : names (assign name value fields) = names fields := by
  induction fields with
  | nil => simp [names] at h
  | cons entry rest ih =>
      by_cases hk : entry.1 = name
      · simp [assign, names, hk]
      · have hr : name ∈ names rest := by simpa [names, Ne.symm hk] using h
        simpa [assign, names, hk] using ih hr

theorem assign_of_not_mem {name : String} {fields : List (String × α)}
    (h : name ∉ names fields) (value : α) : assign name value fields = fields ++ [(name, value)] := by
  induction fields with
  | nil => rfl
  | cons entry rest ih =>
      simp only [names, List.map_cons, List.mem_cons, not_or] at h
      simp [assign, Ne.symm h.1, ih h.2]

end RecordSchema.Fields
