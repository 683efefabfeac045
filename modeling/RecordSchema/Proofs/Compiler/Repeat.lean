import RecordSchema.Proofs.Compiler.Merge
import RecordSchema.Proofs.Compiler.Report

/-! A catalogue compiled again, after whatever else was compiled behind it. All that its entries
declare is known by then, so the second load changes nothing. An entry that failed may be recognized
now, for a good entry of its name came later; one that still fails does so as it did before. -/

namespace RecordSchema

/-- Whether a description is of no other kind than a struct. -/
def Description.isStruct (source : String) : Bool :=
  match parse source with
  | .ok none => false
  | _ => true

theorem Description.isStruct_of_error {source : String} {e : Error} (h : parse source = .error e) :
    isStruct source = true := by
  rw [isStruct, h]

theorem Description.isStruct_of_none {source : String} (h : parse source = .ok none) :
    isStruct source = false := by
  rw [isStruct, h]

theorem Description.isStruct_of_declares {source name : String} (h : declares? source = some name) :
    isStruct source = true := by
  unfold isStruct
  split
  · rename_i hp
    rw [declares?_of_parse_none hp] at h
    cases h
  · rfl

/-! ## Entries passed over -/

def isNotStruct : Except EntryFailure EntryOutcome → Bool
  | .ok .notStruct => true
  | _ => false

theorem Report.skippedNonStruct_noteAll (report : Report) (index : Nat)
    (outcomes : List (Except EntryFailure EntryOutcome)) :
    (report.noteAll index outcomes).skippedNonStruct =
      report.skippedNonStruct + outcomes.countP isNotStruct := by
  induction outcomes generalizing report index with
  | nil => rfl
  | cons outcome rest ih =>
      rw [noteAll, ih, List.countP_cons]
      obtain failure | name | name | _ := outcome <;>
        simp [note, addOutcome, addFailure, isNotStruct]
      omega

namespace Builder
variable {builder : Builder} {entries : List String} {source : String}

theorem isNotStruct_compileEntry (builder : Builder) (source : String) :
    isNotStruct ((builder.compileEntry source).map (·.1)) = !Description.isStruct source := by
  have step := compileEntry_step builder source
  generalize builder.compileEntry source = result at step
  cases step with
  | notStruct hp =>
      rw [Description.isStruct_of_none hp]
      rfl
  | recognized hd _ =>
      rw [Description.isStruct_of_declares hd]
      rfl
  | registered hp _ =>
      rw [Description.isStruct_of_declares (Description.declares?_of_parse_some hp)]
      rfl
  | failed hp _ =>
      rw [Description.isStruct_of_error hp]
      rfl

/-- What is skipped does not depend on the state that a load starts from. -/
theorem skippedNonStruct_loadReport (builder : Builder) (entries : List String) :
    (builder.loadReport entries).skippedNonStruct =
      entries.countP fun source => !Description.isStruct source := by
  rw [loadReport, Report.skippedNonStruct_noteAll, Report.empty, Nat.zero_add]
  induction entries generalizing builder with
  | nil => rfl
  | cons source rest ih =>
      rw [outcomes, List.countP_cons, List.countP_cons, ih, isNotStruct_compileEntry]

/-! ## Entries that have nothing to add -/

/-- The name of what the entry declares is taken, if it compiles at all. -/
def Absorbed (builder : Builder) (source : String) : Prop :=
  ∀ d, Description.parse source = .ok (some d) → builder.isKnown d.name = true

theorem absorbed_afterEntry (builder : Builder) (source : String) :
    (builder.afterEntry source).Absorbed source := by
  intro d hp
  rw [isKnown, registry_afterEntry, hp, Registry.contains_add]
  exact .inl rfl

theorem Absorbed.foldl_afterEntry (h : builder.Absorbed source) (entries : List String) :
    (entries.foldl afterEntry builder).Absorbed source :=
  fun d hp => isKnown_foldl_afterEntry (h d hp) entries

theorem absorbed_of_mem (hm : source ∈ entries) (builder : Builder) :
    (entries.foldl afterEntry builder).Absorbed source := by
  obtain ⟨front, rest, rfl⟩ := List.append_of_mem hm
  rw [List.foldl_append, List.foldl_cons]
  exact (absorbed_afterEntry _ source).foldl_afterEntry rest

theorem Absorbed.afterEntry_eq (h : builder.Absorbed source) :
    builder.afterEntry source = builder := by
  have step := compileEntry_step builder source
  unfold afterEntry
  generalize builder.compileEntry source = result at step
  cases step with
  | notStruct => rfl
  | recognized => rfl
  | failed => rfl
  | registered hp hk => cases (h _ hp).symm.trans hk

theorem foldl_afterEntry_of_absorbed (h : ∀ source ∈ entries, builder.Absorbed source) :
    entries.foldl afterEntry builder = builder := by
  induction entries with
  | nil => rfl
  | cons source rest ih =>
      obtain ⟨hfirst, hrest⟩ := List.forall_mem_cons.mp h
      rw [List.foldl_cons, hfirst.afterEntry_eq, ih hrest]

theorem outcomes_of_absorbed (h : ∀ source ∈ entries, builder.Absorbed source) :
    builder.outcomes entries =
      entries.map fun source => (builder.compileEntry source).map (·.1) := by
  induction entries with
  | nil => rfl
  | cons source rest ih =>
      obtain ⟨hfirst, hrest⟩ := List.forall_mem_cons.mp h
      rw [outcomes, hfirst.afterEntry_eq, ih hrest, List.map_cons]

/-- Such an entry is recognized, if it is of a struct and does not fail. -/
theorem Absorbed.recognizedName? (h : builder.Absorbed source) :
    (recognizedName? ((builder.compileEntry source).map (·.1))).map some =
      if Description.isStruct source && (builder.compileEntry source).isOk then
        some (Description.declares? source)
      else none := by
  have step := compileEntry_step builder source
  generalize builder.compileEntry source = result at step
  cases step with
  | notStruct hp =>
      rw [Description.isStruct_of_none hp]
      rfl
  | recognized hd _ =>
      rw [Description.isStruct_of_declares hd, hd]
      rfl
  | registered hp hk => cases (h _ hp).symm.trans hk
  | failed hp _ =>
      rw [Description.isStruct_of_error hp]
      rfl

/-- What still fails failed from every state before. -/
theorem compileEntry_eq_error_of_grown {after : Builder} {failure : EntryFailure}
    (hgrown : ∀ name, builder.isKnown name = true → after.isKnown name = true)
    (h : after.compileEntry source = .error failure) :
    builder.compileEntry source = .error failure := by
  obtain ⟨hp, hd, hk⟩ := compileEntry_eq_error.mp h
  refine compileEntry_eq_error.mpr ⟨hp, hd, fun name hn => ?_⟩
  have hafter := hk name hn
  rw [← Bool.not_eq_true] at hafter ⊢
  exact mt (hgrown name) hafter

theorem mem_failures_loadReport {index : Nat} {failure : EntryFailure} :
    (index, failure) ∈ (builder.loadReport entries).failures ↔
      (builder.outcomes entries)[index]? = some (.error failure) := by
  rw [← Array.mem_toList_iff, failures_loadReport, mem_failures]

end Builder

/-- A compiler after further catalogues. -/
def Compiler.afterAll (compiler : Compiler) (catalogues : List (List String)) : Compiler :=
  catalogues.foldl (fun compiler entries => (compiler.compileCatalogue entries).1) compiler

/-- Loads that follow each other leave what one long load leaves. -/
theorem Compiler.afterAll_lenient (builder : Builder) (catalogues : List (List String)) :
    (Compiler.mk false builder).afterAll catalogues =
      ⟨false, catalogues.flatten.foldl Builder.afterEntry builder⟩ := by
  induction catalogues generalizing builder with
  | nil => rfl
  | cons entries rest ih =>
      have hrest := ih (entries.foldl Builder.afterEntry builder)
      rw [afterAll] at hrest ⊢
      rw [List.foldl_cons, compileCatalogue_lenient, hrest, List.flatten_cons, List.foldl_append]

/-- Whether the report notes a failure of the entry at a position. -/
def Report.failsAt (report : Report) (index : Nat) : Bool :=
  report.failures.any fun failure => failure.1 == index

theorem Builder.failsAt_loadReport {builder : Builder} {entries : List String} {source : String}
    {index : Nat} (h : ∀ source ∈ entries, builder.Absorbed source)
    (hs : entries[index]? = some source) :
    (builder.loadReport entries).failsAt index = !(builder.compileEntry source).isOk := by
  have hout : (builder.outcomes entries)[index]? =
      some ((builder.compileEntry source).map (·.1)) := by
    rw [outcomes_of_absorbed h, List.getElem?_map, hs]
    rfl
  rw [Bool.eq_iff_iff, Report.failsAt, Array.any_eq_true']
  constructor
  · rintro ⟨⟨position, failure⟩, hm, hp⟩
    obtain rfl : position = index := by simpa using hp
    have hfail := hout.symm.trans (mem_failures_loadReport.mp hm)
    cases hc : builder.compileEntry source with
    | error failure => rfl
    | ok result =>
        rw [hc] at hfail
        cases hfail
  · intro hok
    cases hc : builder.compileEntry source with
    | error failure =>
        rw [hc] at hout
        exact ⟨(index, failure), mem_failures_loadReport.mpr hout, by simp⟩
    | ok result =>
        rw [hc] at hok
        cases hok

/-- The report on a repeated load, beside that on the first one. Of the entries that describe a
struct, each that does not fail again is recognized, under the name that it declares. -/
structure Repeated (entries : List String) (first again : Report) : Prop where
  registered : again.registered = #[]
  skipped : again.skippedNonStruct = first.skippedNonStruct
  failures : ∀ index failure, (index, failure) ∈ again.failures → (index, failure) ∈ first.failures
  recognized : again.recognized.toList.map some =
    (entries.zipIdx.filter fun (source, index) =>
      Description.isStruct source && !again.failsAt index).map
        fun (source, _) => Description.declares? source

theorem map_some_filterMap {α β : Type} {f : α → Option β} {p : α → Bool} {k : α → Option β}
    {xs : List α} (h : ∀ x ∈ xs, (f x).map some = if p x then some (k x) else none) :
    (xs.filterMap f).map some = (xs.filter p).map k := by
  induction xs with
  | nil => rfl
  | cons x rest ih =>
      obtain ⟨hx, hrest⟩ := List.forall_mem_cons.mp h
      rw [List.filterMap_cons, List.filter_cons]
      cases hf : f x with
      | none =>
          have hp : p x = false := by
            cases hp : p x with
            | false => rfl
            | true => simp [hf, hp] at hx
          rw [hp]
          exact ih hrest
      | some y =>
          have hp : p x = true ∧ some y = k x := by
            cases hp : p x with
            | false => simp [hf, hp] at hx
            | true => simpa [hf, hp] using hx
          rw [hp.1, if_pos rfl, List.map_cons, List.map_cons, hp.2, ih hrest]

namespace Builder
variable {builder : Builder} {entries : List String}

theorem recognized_of_absorbed (h : ∀ source ∈ entries, builder.Absorbed source) :
    (builder.loadReport entries).recognized.toList.map some =
      (entries.zipIdx.filter fun (source, index) =>
        Description.isStruct source && !(builder.loadReport entries).failsAt index).map
          fun (source, _) => Description.declares? source := by
  have hout : builder.outcomes entries =
      entries.zipIdx.map fun entry => (builder.compileEntry entry.1).map (·.1) := by
    have hfst := congrArg
      (List.map fun source => (builder.compileEntry source).map (·.1)) (List.zipIdx_map_fst 0 entries)
    rw [outcomes_of_absorbed h, ← hfst, List.map_map]
    rfl
  rw [recognized_loadReport, hout, List.filterMap_map]
  refine map_some_filterMap ?_
  rintro ⟨source, index⟩ hm
  have hs : entries[index]? = some source := List.mem_zipIdx_iff_getElem?.mp hm
  have habsorbed := h source (List.mem_of_getElem? hs)
  have hfails : (!(builder.loadReport entries).failsAt index) =
      (builder.compileEntry source).isOk := by
    rw [failsAt_loadReport h hs, Bool.not_not]
  simp only [Function.comp_apply, habsorbed.recognizedName?, hfails]

end Builder

/-- A repeated load changes nothing, however much was loaded since the first. -/
theorem recompiling_changes_nothing (builder : Builder) (entries : List String)
    (later : List (List String)) :
    ∃ first again,
      ((Compiler.mk false builder).compileCatalogue entries).2 = .ok first ∧
      (((Compiler.mk false builder).compileCatalogue entries).1.afterAll later).compileCatalogue
          entries =
        (((Compiler.mk false builder).compileCatalogue entries).1.afterAll later, .ok again) ∧
      Repeated entries first again := by
  have hgrown : ∀ index name,
      ((entries.take index).foldl Builder.afterEntry builder).isKnown name = true →
        ((entries ++ later.flatten).foldl Builder.afterEntry builder).isKnown name = true := by
    intro index name hk
    have hmore := Builder.isKnown_foldl_afterEntry hk (entries.drop index ++ later.flatten)
    rwa [← List.foldl_append, ← List.append_assoc, List.take_append_drop] at hmore
  have habsorbed : ∀ source ∈ entries,
      ((entries ++ later.flatten).foldl Builder.afterEntry builder).Absorbed source := by
    intro source hm
    exact Builder.absorbed_of_mem (List.mem_append_left _ hm) builder
  have hafter : ((Compiler.mk false builder).compileCatalogue entries).1.afterAll later =
      ⟨false, (entries ++ later.flatten).foldl Builder.afterEntry builder⟩ := by
    rw [Compiler.compileCatalogue_lenient, Compiler.afterAll_lenient, List.foldl_append]
  rw [hafter, Compiler.compileCatalogue_lenient, Compiler.compileCatalogue_lenient,
    Builder.foldl_afterEntry_of_absorbed habsorbed]
  generalize (entries ++ later.flatten).foldl Builder.afterEntry builder = after at *
  refine ⟨_, _, rfl, rfl, ?_, ?_, ?_, Builder.recognized_of_absorbed habsorbed⟩
  · rw [← Array.toList_eq_nil_iff, Builder.registered_loadReport, List.eq_nil_iff_forall_not_mem]
    intro name hm
    obtain ⟨hunknown, hknown⟩ := Builder.mem_registered_iff.mp hm
    rw [Builder.foldl_afterEntry_of_absorbed habsorbed, hunknown] at hknown
    cases hknown
  · rw [Builder.skippedNonStruct_loadReport, Builder.skippedNonStruct_loadReport]
  · intro index failure hm
    rw [Builder.mem_failures_loadReport] at hm ⊢
    rw [Builder.outcomes_of_absorbed habsorbed, List.getElem?_map] at hm
    obtain ⟨source, hs, hf⟩ := Option.map_eq_some_iff.mp hm
    rw [Builder.getElem?_outcomes, hs]
    cases hc : after.compileEntry source with
    | ok result =>
        rw [hc] at hf
        cases hf
    | error failure =>
        rw [hc] at hf
        rw [Option.map_some, Builder.compileEntry_eq_error_of_grown (hgrown index) hc]
        exact congrArg some hf

end RecordSchema
