import RecordSchema.Proofs.Compiler.Entry

/-! A lenient load goes through all entries: the builder that one entry leaves compiles the next,
and the report notes how each of them ended. -/

namespace RecordSchema

namespace Builder

/-- A builder after an entry, which a failure leaves as it was. -/
def afterEntry (builder : Builder) (source : String) : Builder :=
  match builder.compileEntry source with
  | .ok (_, after) => after
  | .error _ => builder

/-- How each entry ends, compiled by the builder that the entries before it leave. -/
def outcomes (builder : Builder) : List String → List (Except EntryFailure EntryOutcome)
  | [] => []
  | source :: rest =>
      (builder.compileEntry source).map (·.1) :: (builder.afterEntry source).outcomes rest

end Builder

namespace Report

def note (report : Report) (index : Nat) : Except EntryFailure EntryOutcome → Report
  | .ok outcome => report.addOutcome outcome
  | .error failure => report.addFailure index failure

/-- Note outcomes in order, from position `index` on. -/
def noteAll (report : Report) (index : Nat) : List (Except EntryFailure EntryOutcome) → Report
  | [] => report
  | outcome :: rest => (report.note index outcome).noteAll (index + 1) rest

end Report

namespace Builder

theorem isSkippable_of_compileEntry {builder : Builder} {source : String} {failure : EntryFailure}
    (h : builder.compileEntry source = .error failure) : failure.error.isSkippable = true := by
  have hclass := Description.parse_error (compileEntry_eq_error.mp h).1
  simp only [Error.isSkippable, hclass]

/-- A lenient load ends well, since every failure may be skipped. -/
theorem compileEntries_eq_noteAll (builder : Builder) (report : Report) (index : Nat)
    (entries : List String) :
    builder.compileEntries false report index entries =
      (entries.foldl afterEntry builder,
        .ok (report.noteAll index (builder.outcomes entries))) := by
  induction entries generalizing builder report index with
  | nil => rfl
  | cons source rest ih =>
      rw [List.foldl_cons, outcomes, Report.noteAll]
      cases h : builder.compileEntry source with
      | ok result =>
          obtain ⟨outcome, after⟩ := result
          have hafter : builder.afterEntry source = after := by simp only [afterEntry, h]
          simp only [compileEntries, h, hafter]
          exact ih after _ _
      | error failure =>
          have hafter : builder.afterEntry source = builder := by simp only [afterEntry, h]
          have hskip := isSkippable_of_compileEntry h
          simp only [compileEntries, h, hafter, hskip]
          exact ih builder _ _

/-- The report on a lenient load. -/
def loadReport (builder : Builder) (entries : List String) : Report :=
  Report.empty.noteAll 0 (builder.outcomes entries)

end Builder

theorem Compiler.compileCatalogue_lenient (builder : Builder) (entries : List String) :
    (Compiler.mk false builder).compileCatalogue entries =
      (⟨false, entries.foldl Builder.afterEntry builder⟩, .ok (builder.loadReport entries)) := by
  simp only [compileCatalogue, builder.compileEntries_eq_noteAll]
  rfl

theorem compileCatalogue_lenient (seeded : Bool) (entries : List String) :
    compileCatalogue ⟨seeded, false⟩ entries =
      .ok ((entries.foldl Builder.afterEntry (Compiler.new ⟨seeded, false⟩).builder).registry,
        (Compiler.new ⟨seeded, false⟩).builder.loadReport entries) :=
  congrArg (fun run => run.2.map (run.1.builder.registry, ·))
    (Compiler.compileCatalogue_lenient (Compiler.new ⟨seeded, false⟩).builder entries)

end RecordSchema
