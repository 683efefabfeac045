import RecordSchema.Proofs.Compiler.Load
import RecordSchema.Proofs.Registry

/-! The report on a lenient load accounts for every entry once (`compileCatalogue_accounts`), and
the names it calls registered are those that the load added. -/

namespace RecordSchema

/-! ## What a report says -/

def registeredName? : Except EntryFailure EntryOutcome → Option String
  | .ok (.registered name) => some name
  | _ => none

def recognizedName? : Except EntryFailure EntryOutcome → Option String
  | .ok (.recognized name) => some name
  | _ => none

/-- A failure with the position that an outcome stands at. -/
def failureAt? : Except EntryFailure EntryOutcome × Nat → Option (Nat × EntryFailure)
  | (.error failure, index) => some (index, failure)
  | (.ok _, _) => none

namespace Report

/-- How many entries a report speaks of. -/
def total (report : Report) : Nat :=
  report.registered.size + report.recognized.size + report.failures.size +
    report.skippedNonStruct

variable {report : Report} {index : Nat}

theorem total_note (outcome : Except EntryFailure EntryOutcome) :
    (report.note index outcome).total = report.total + 1 := by
  obtain ⟨registered, recognized, skipped, failures⟩ := report
  obtain failure | name | name | _ := outcome <;>
    simp [note, addOutcome, addFailure, total] <;> omega

theorem total_noteAll (outcomes : List (Except EntryFailure EntryOutcome)) :
    (report.noteAll index outcomes).total = report.total + outcomes.length := by
  induction outcomes generalizing report index with
  | nil => rfl
  | cons outcome rest ih =>
      rw [noteAll, ih, total_note, List.length_cons]
      omega

theorem registered_noteAll (outcomes : List (Except EntryFailure EntryOutcome)) :
    (report.noteAll index outcomes).registered.toList =
      report.registered.toList ++ outcomes.filterMap registeredName? := by
  induction outcomes generalizing report index with
  | nil => simp [noteAll]
  | cons outcome rest ih =>
      rw [noteAll, ih]
      obtain failure | name | name | _ := outcome <;>
        simp [note, addOutcome, addFailure, registeredName?, List.filterMap_cons]

theorem recognized_noteAll (outcomes : List (Except EntryFailure EntryOutcome)) :
    (report.noteAll index outcomes).recognized.toList =
      report.recognized.toList ++ outcomes.filterMap recognizedName? := by
  induction outcomes generalizing report index with
  | nil => simp [noteAll]
  | cons outcome rest ih =>
      rw [noteAll, ih]
      obtain failure | name | name | _ := outcome <;>
        simp [note, addOutcome, addFailure, recognizedName?, List.filterMap_cons]

theorem failures_noteAll (outcomes : List (Except EntryFailure EntryOutcome)) :
    (report.noteAll index outcomes).failures.toList =
      report.failures.toList ++ (outcomes.zipIdx index).filterMap failureAt? := by
  induction outcomes generalizing report index with
  | nil => simp [noteAll]
  | cons outcome rest ih =>
      rw [noteAll, ih]
      obtain failure | name | name | _ := outcome <;>
        simp [note, addOutcome, addFailure, failureAt?, List.filterMap_cons]

end Report

/-! ## What the entries do -/

theorem mem_failures {outcomes : List (Except EntryFailure EntryOutcome)} {index : Nat}
    {failure : EntryFailure} :
    (index, failure) ∈ outcomes.zipIdx.filterMap failureAt? ↔
      outcomes[index]? = some (.error failure) := by
  rw [List.mem_filterMap]
  constructor
  · rintro ⟨⟨outcome, position⟩, hm, h⟩
    cases outcome with
    | error failure =>
        cases h
        exact List.mem_zipIdx_iff_getElem?.mp hm
    | ok outcome => cases h
  · intro h
    exact ⟨(.error failure, index), List.mem_zipIdx_iff_getElem?.mpr h, rfl⟩

theorem failures_increasing (outcomes : List (Except EntryFailure EntryOutcome)) :
    ((outcomes.zipIdx.filterMap failureAt?).map (·.1)).Pairwise (· < ·) := by
  have positions : outcomes.zipIdx.Pairwise (·.2 < ·.2) := by
    rw [← List.pairwise_map, List.zipIdx_map_snd]
    exact List.pairwise_lt_range'
  rw [List.pairwise_map]
  refine positions.filterMap failureAt? ?_
  rintro ⟨_ | _, i⟩ ⟨_ | _, j⟩ hij _ h _ h' <;> cases h <;> cases h'
  exact hij

namespace Builder
variable {builder : Builder} {entries : List String} {source name : String}

theorem length_outcomes : (builder.outcomes entries).length = entries.length := by
  induction entries generalizing builder with
  | nil => rfl
  | cons source rest ih => rw [outcomes, List.length_cons, List.length_cons, ih]

theorem getElem?_outcomes (index : Nat) :
    (builder.outcomes entries)[index]? = entries[index]?.map fun source =>
      (((entries.take index).foldl afterEntry builder).compileEntry source).map (·.1) := by
  induction entries generalizing builder index with
  | nil => rfl
  | cons source rest ih =>
      cases index with
      | zero => rfl
      | succ index =>
          rw [outcomes, List.getElem?_cons_succ, List.getElem?_cons_succ, ih]
          rfl

/-- An entry makes known the name it registers and no other. -/
theorem isKnown_afterEntry (builder : Builder) (source name : String) :
    (builder.afterEntry source).isKnown name = true ↔
      builder.isKnown name = true ∨
        registeredName? ((builder.compileEntry source).map (·.1)) = some name := by
  have step := compileEntry_step builder source
  unfold afterEntry
  generalize builder.compileEntry source = result at step
  cases step with
  | notStruct => simp [registeredName?, Except.map]
  | recognized => simp [registeredName?, Except.map]
  | failed => simp [registeredName?, Except.map]
  | registered => simp [registeredName?, Except.map, isKnown, Registry.contains_add, or_comm]

theorem not_isKnown_of_registered
    (h : registeredName? ((builder.compileEntry source).map (·.1)) = some name) :
    builder.isKnown name = false := by
  have step := compileEntry_step builder source
  generalize builder.compileEntry source = result at step h
  cases step with
  | registered hp hk => exact Option.some.inj h ▸ hk
  | _ => cases h

theorem isKnown_of_recognized
    (h : recognizedName? ((builder.compileEntry source).map (·.1)) = some name) :
    builder.isKnown name = true := by
  have step := compileEntry_step builder source
  generalize builder.compileEntry source = result at step h
  cases step with
  | recognized hd hk => exact Option.some.inj h ▸ hk
  | _ => cases h

/-- Known names stay known. -/
theorem isKnown_foldl_afterEntry (h : builder.isKnown name = true) (entries : List String) :
    (entries.foldl afterEntry builder).isKnown name = true := by
  induction entries generalizing builder with
  | nil => exact h
  | cons source rest ih => exact ih ((isKnown_afterEntry builder source name).mpr (.inl h))

theorem mem_registered_iff :
    name ∈ (builder.outcomes entries).filterMap registeredName? ↔
      builder.isKnown name = false ∧ (entries.foldl afterEntry builder).isKnown name = true := by
  induction entries generalizing builder with
  | nil => simp [outcomes]
  | cons source rest ih =>
      have hafter := isKnown_afterEntry builder source name
      simp only [outcomes, List.mem_filterMap, List.mem_cons, exists_eq_or_imp, List.foldl_cons]
      rw [← List.mem_filterMap, ih]
      constructor
      · rintro (hn | ⟨hu, hk⟩)
        · have known := hafter.mpr (.inr hn)
          exact ⟨not_isKnown_of_registered hn, isKnown_foldl_afterEntry known rest⟩
        · refine ⟨?_, hk⟩
          rw [← Bool.not_eq_true] at hu ⊢
          exact fun known => hu (hafter.mpr (.inl known))
      · rintro ⟨hu, hk⟩
        by_cases known : (builder.afterEntry source).isKnown name = true
        · exact .inl ((hafter.mp known).resolve_left (by simp [hu]))
        · exact .inr ⟨Bool.not_eq_true _ ▸ known, hk⟩

theorem registered_loadReport (builder : Builder) (entries : List String) :
    (builder.loadReport entries).registered.toList =
      (builder.outcomes entries).filterMap registeredName? := by
  rw [loadReport, Report.registered_noteAll]
  rfl

theorem recognized_loadReport (builder : Builder) (entries : List String) :
    (builder.loadReport entries).recognized.toList =
      (builder.outcomes entries).filterMap recognizedName? := by
  rw [loadReport, Report.recognized_noteAll]
  rfl

theorem failures_loadReport (builder : Builder) (entries : List String) :
    (builder.loadReport entries).failures.toList =
      (builder.outcomes entries).zipIdx.filterMap failureAt? := by
  rw [loadReport, Report.failures_noteAll]
  rfl

theorem nodup_registered : ((builder.outcomes entries).filterMap registeredName?).Nodup := by
  induction entries generalizing builder with
  | nil => exact List.nodup_nil
  | cons source rest ih =>
      rw [outcomes, List.filterMap_cons]
      split
      · exact ih
      · rename_i name hn
        refine List.nodup_cons.mpr ⟨fun hm => ?_, ih⟩
        have known := (isKnown_afterEntry builder source name).mpr (.inr hn)
        exact absurd known (by simp [(mem_registered_iff.mp hm).1])

theorem isKnown_of_mem_recognized
    (h : name ∈ (builder.outcomes entries).filterMap recognizedName?) :
    (entries.foldl afterEntry builder).isKnown name = true := by
  obtain ⟨outcome, ho, hn⟩ := List.mem_filterMap.mp h
  obtain ⟨index, hi⟩ := List.mem_iff_getElem?.mp ho
  rw [getElem?_outcomes] at hi
  obtain ⟨source, hs, rfl⟩ := Option.map_eq_some_iff.mp hi
  have known := isKnown_foldl_afterEntry (isKnown_of_recognized hn) (entries.drop index)
  rwa [← List.foldl_append, List.take_append_drop] at known

theorem parse_of_failed_outcome {index : Nat} {failure : EntryFailure}
    (h : (builder.outcomes entries)[index]? = some (.error failure)) :
    ∃ hi : index < entries.length, Description.parse entries[index] = .error failure.error := by
  rw [getElem?_outcomes] at h
  obtain ⟨source, hs, hf⟩ := Option.map_eq_some_iff.mp h
  obtain ⟨hi, rfl⟩ := List.getElem?_eq_some_iff.mp hs
  refine ⟨hi, ?_⟩
  generalize hc : compileEntry _ _ = result at hf
  cases result with
  | ok result => cases hf
  | error failure' =>
      obtain rfl := Except.error.inj hf
      exact (compileEntry_eq_error.mp hc).1

end Builder

/-- What the report on a load tells of its entries, and of the names known before and after it.
Registered and recognized names stand in the order of the entries, as the outcomes do. -/
structure Accounts (before : Builder) (entries : List String) (after : Builder)
    (report : Report) : Prop where
  counted : report.registered.size + report.recognized.size + report.failures.size +
    report.skippedNonStruct = entries.length
  registered : report.registered.toList = (before.outcomes entries).filterMap registeredName?
  recognized : report.recognized.toList = (before.outcomes entries).filterMap recognizedName?
  increasing : (report.failures.toList.map (·.1)).Pairwise (· < ·)
  failed : ∀ index failure, (index, failure) ∈ report.failures ↔
    (before.outcomes entries)[index]? = some (.error failure)
  unparsed : ∀ index failure, (index, failure) ∈ report.failures →
    ∃ h : index < entries.length, Description.parse entries[index] = .error failure.error
  distinct : report.registered.toList.Nodup
  added : ∀ name, name ∈ report.registered ↔
    before.isKnown name = false ∧ after.isKnown name = true
  kept : ∀ name, before.isKnown name = true → after.isKnown name = true
  known : ∀ name ∈ report.recognized, after.isKnown name = true

/-- A lenient load ends well from any state, whatever texts it is given, and its report accounts
for all of them. -/
theorem compileCatalogue_accounts (builder : Builder) (entries : List String) :
    ∃ after report,
      (Compiler.mk false builder).compileCatalogue entries = (⟨false, after⟩, .ok report) ∧
        Accounts builder entries after report := by
  have hrun := builder.compileEntries_eq_noteAll .empty 0 entries
  generalize hreport : Report.empty.noteAll 0 (builder.outcomes entries) = report at hrun
  have total : report.total = entries.length := by
    rw [← hreport, Report.total_noteAll, Builder.length_outcomes]
    exact Nat.zero_add _
  have registered : report.registered.toList =
      (builder.outcomes entries).filterMap registeredName? := by
    rw [← hreport, Report.registered_noteAll]
    rfl
  have recognized : report.recognized.toList =
      (builder.outcomes entries).filterMap recognizedName? := by
    rw [← hreport, Report.recognized_noteAll]
    rfl
  have failures : report.failures.toList =
      (builder.outcomes entries).zipIdx.filterMap failureAt? := by
    rw [← hreport, Report.failures_noteAll]
    rfl
  have failed : ∀ index failure, (index, failure) ∈ report.failures ↔
      (builder.outcomes entries)[index]? = some (.error failure) := by
    intro index failure
    rw [← Array.mem_toList_iff, failures, mem_failures]
  refine ⟨entries.foldl Builder.afterEntry builder, report, ?_, ?_⟩
  · simp only [Compiler.compileCatalogue, hrun]
  · exact {
      counted := total
      registered := registered
      recognized := recognized
      increasing := failures ▸ failures_increasing (builder.outcomes entries)
      failed := failed
      unparsed := fun index failure hm =>
        Builder.parse_of_failed_outcome ((failed index failure).mp hm)
      distinct := registered ▸ Builder.nodup_registered
      added := fun name => by rw [← Array.mem_toList_iff, registered, Builder.mem_registered_iff]
      kept := fun name hk => Builder.isKnown_foldl_afterEntry hk entries
      known := fun name hm => by
        rw [← Array.mem_toList_iff, recognized] at hm
        exact Builder.isKnown_of_mem_recognized hm }

end RecordSchema
