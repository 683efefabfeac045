import RecordSchema.Proofs.Record

/-! Any history of reads and writes on a new record. The record is a map that keeps its names in
the order in which they were first written, beside a slot for the identity
(`accesses_follow_ordered_map`). -/

namespace RecordSchema.Record
open RecordOf

/-! ## Accesses -/

/-- One read or write by name, or one of the identity itself. -/
inductive Access where
  | get (name : String)
  | set (name : String) (value : Value)
  | setIdentity (identity : Option Int64)

inductive Answer where
  | found (value : Option Value)
  | written
  | refused (e : Error)

namespace Access

/-- The answer, and the record after it, which is the old one if a write is refused. -/
def run : Access → Record → Answer × Record
  | get name, r => (.found (r.get? name), r)
  | set name value, r =>
      match r.set name value with
      | .ok changed => (.written, changed)
      | .error e => (.refused e, r)
  | setIdentity identity, r => (.written, r.setIdentity identity)

/-- The field that is stored. -/
def stored? : Access → Option (String × Value)
  | set name value => if name = identityName then none else some (name, value)
  | get _ | setIdentity _ => none

/-- What is put in the identity's place. -/
def identity? : Access → Option (Option Int64)
  | set name (.int n) => if name = identityName then some (some n) else none
  | set name .null => if name = identityName then some none else none
  | setIdentity identity => some identity
  | get _ | set _ _ => none

end Access

/-- A new record after the accesses, in order. -/
def afterAccesses (typeName : String) (shape : Shape) (accesses : List Access) : Record :=
  accesses.foldl (fun r access => (access.run r).2) (.empty typeName shape)

/-- The answer to one access and the record after it, as of an ordered map with a slot for the
identity. Whatever is not named stays as it was. -/
inductive Accessed (r : Record) : Access → Answer → Record → Prop
  | readIdentity : Accessed r (.get identityName) (.found (r.identity.map .int)) r
  | read {name : String} (field : name ≠ identityName) :
      Accessed r (.get name) (.found (Fields.lookup name r.fields)) r
  | appended {name : String} {value : Value} (field : name ≠ identityName)
      (new : name ∉ r.names) :
      Accessed r (.set name value) .written { r with fields := r.fields ++ [(name, value)] }
  | replaced {name : String} {old value : Value} {front back : List (String × Value)}
      (field : name ≠ identityName) (stored : r.fields = front ++ (name, old) :: back)
      (once : name ∉ Fields.names (front ++ back)) :
      Accessed r (.set name value) .written { r with fields := front ++ (name, value) :: back }
  | identified {n : Int64} :
      Accessed r (.set identityName (.int n)) .written { r with identity := some n }
  | cleared : Accessed r (.set identityName .null) .written { r with identity := none }
  | refused {value : Value} (notNull : value ≠ .null) (notInt : ∀ n, value ≠ .int n) :
      Accessed r (.set identityName value) (.refused (.identityNotNumeric value.kind)) r
  | assigned {identity : Option Int64} :
      Accessed r (.setIdentity identity) .written { r with identity }

/-- The fields that a history stored, whether or not they were overwritten. -/
def storedFields (accesses : List Access) : List (String × Value) :=
  accesses.filterMap Access.stored?

/-- The number that was put in the identity's place last, unless it was cleared since. -/
def lastIdentity (accesses : List Access) : Option Int64 :=
  (accesses.filterMap Access.identity?).getLast?.join

/-- All of a record as its history determines it. -/
structure Recalls (typeName : String) (shape : Shape) (accesses : List Access) (r : Record) :
    Prop where
  typeName : r.typeName = typeName
  shape : r.shape = shape
  /-- The names stand in the order in which they were first written. -/
  names : r.names = (Fields.names (storedFields accesses)).eraseDups
  value : ∀ name, name ≠ identityName →
    r.get? name = Fields.lookup name (storedFields accesses).reverse
  identity : r.get? identityName = (lastIdentity accesses).map .int
  size : r.size = (Fields.names (storedFields accesses)).dedup.length

/-! ## One access -/

variable {r : Record}

theorem Proper.run (hr : r.Proper) (access : Access) : Proper (access.run r).2 := by
  cases access with
  | get name => exact hr
  | setIdentity identity => exact hr.setIdentity identity
  | set name value =>
      cases h : r.set name value with
      | ok changed => simpa only [Access.run, h] using hr.set h
      | error e => simpa only [Access.run, h] using hr

theorem Proper.accessed (hr : r.Proper) (access : Access) :
    Accessed r access (access.run r).1 (access.run r).2 := by
  cases access with
  | get name =>
      by_cases hn : name = identityName
      · subst hn
        exact .readIdentity
      · rw [Access.run, get?_of_ne_identity hn]
        exact .read hn
  | setIdentity identity => exact .assigned
  | set name value =>
      by_cases hn : name = identityName
      · subst hn
        cases value with
        | int n => exact .identified
        | null => exact .cleared
        | _ => exact .refused nofun nofun
      · simp only [Access.run, set_field hn]
        by_cases hm : name ∈ r.names
        · obtain ⟨front, old, back, hfields, hassign⟩ := Fields.assign_of_mem hm value
          have once : name ∉ Fields.names (front ++ back) := by
            have distinct := hr.nodup
            rw [names, hfields, Fields.names_append, Fields.names_cons,
              List.nodup_middle, List.nodup_cons] at distinct
            rw [Fields.names_append]
            exact distinct.1
          rw [hassign]
          exact .replaced hn hfields once
        · rw [Fields.assign_of_not_mem hm]
          exact .appended hn hm

/-- The changes to the identity and to the fields do not depend on each other. -/
theorem run_eq (access : Access) (r : Record) :
    (access.run r).2 =
      { r with
        identity := access.identity?.getD r.identity
        fields := access.stored?.toList.foldl
          (fun fields entry => Fields.assign entry.1 entry.2 fields) r.fields } := by
  cases access with
  | get name => rfl
  | setIdentity identity => rfl
  | set name value =>
      by_cases hn : name = identityName
      · subst hn
        cases value <;> rfl
      · cases value <;> simp [Access.run, Access.identity?, Access.stored?, set_field hn, hn]

/-! ## Histories -/

variable {typeName : String} {shape : Shape} {accesses : List Access}

theorem storedFields_append (accesses : List Access) (access : Access) :
    storedFields (accesses ++ [access]) = storedFields accesses ++ access.stored?.toList := by
  cases h : access.stored? <;> simp [storedFields, h]

theorem lastIdentity_append (accesses : List Access) (access : Access) :
    lastIdentity (accesses ++ [access]) = access.identity?.getD (lastIdentity accesses) := by
  cases h : access.identity? <;> simp [lastIdentity, h]

theorem afterAccesses_append (access : Access) :
    afterAccesses typeName shape (accesses ++ [access]) =
      (access.run (afterAccesses typeName shape accesses)).2 := by
  rw [afterAccesses, List.foldl_append]
  rfl

theorem proper_afterAccesses (accesses : List Access) :
    (afterAccesses typeName shape accesses).Proper := by
  induction accesses using List.reverseRecOn with
  | nil => exact .empty typeName shape
  | append_singleton accesses access ih =>
      rw [afterAccesses_append]
      exact ih.run access

theorem afterAccesses_eq (typeName : String) (shape : Shape) (accesses : List Access) :
    afterAccesses typeName shape accesses =
      ⟨typeName, shape, lastIdentity accesses,
        (storedFields accesses).foldl
          (fun fields entry => Fields.assign entry.1 entry.2 fields) []⟩ := by
  induction accesses using List.reverseRecOn with
  | nil => rfl
  | append_singleton accesses access ih =>
      rw [afterAccesses_append, run_eq, ih, lastIdentity_append, storedFields_append,
        List.foldl_append]

theorem recalls (typeName : String) (shape : Shape) (accesses : List Access) :
    Recalls typeName shape accesses (afterAccesses typeName shape accesses) := by
  have distinct : (afterAccesses typeName shape accesses).names.Nodup :=
    (proper_afterAccesses accesses).nodup
  have names : (afterAccesses typeName shape accesses).names =
      (Fields.names (storedFields accesses)).eraseDups := by
    rw [afterAccesses_eq]
    exact Fields.names_foldl_assign (storedFields accesses)
  refine ⟨?_, ?_, names, fun name hn => ?_, ?_, ?_⟩
  · rw [afterAccesses_eq]
  · rw [afterAccesses_eq]
  · rw [get?_of_ne_identity hn, afterAccesses_eq]
    exact (Fields.lookup_foldl_assign name (storedFields accesses) []).trans Option.or_none
  · rw [get?_identity, afterAccesses_eq]
  · rw [← Fields.length_eq_dedup distinct fun name => by rw [names, List.mem_eraseDups]]
    exact (Fields.length_names _).symm

/-- Whatever is read from and written to a new record, in whatever order: each access acts on it as
on an ordered map with a slot for the identity, and at the end each name shows the value that was
written to it last. -/
theorem accesses_follow_ordered_map (typeName : String) (shape : Shape) (accesses : List Access) :
    (∀ before access after, accesses = before ++ access :: after →
      Accessed (afterAccesses typeName shape before) access
        (access.run (afterAccesses typeName shape before)).1
        (afterAccesses typeName shape (before ++ [access]))) ∧
    Recalls typeName shape accesses (afterAccesses typeName shape accesses) := by
  refine ⟨?_, recalls typeName shape accesses⟩
  intro before access _ _
  rw [afterAccesses_append]
  exact (proper_afterAccesses before).accessed access

-- A refused identity leaves the old one, and an overwritten name keeps its place.
example :
    let r := afterAccesses "Contact" .asset
      [.set "a" .null, .set "ID" (.int 3), .set "b" (.bool true), .set "ID" (.string "x"),
        .set "a" (.int 1)]
    r.names = ["a", "b"] ∧ r.identity = some 3 := by
  decide

end RecordSchema.Record
