import RecordSchema.Proofs.Compiler.Report

/-! Strict loads against lenient ones. Up to the first entry that fails both do the same, and there
a strict load stops with what it has. -/

namespace RecordSchema

namespace Builder
variable {builder : Builder} {entries front : List String} {source : String}
  {failure : EntryFailure}

theorem outcomes_append (rest : List String) :
    builder.outcomes (front ++ rest) =
      builder.outcomes front ++ (front.foldl afterEntry builder).outcomes rest := by
  induction front generalizing builder with
  | nil => rfl
  | cons source front ih =>
      rw [List.cons_append, outcomes, outcomes, ih, List.cons_append, List.foldl_cons]

/-- No entry fails, compiled one after the other. -/
def AllCompile (builder : Builder) (entries : List String) : Prop :=
  ∀ failure, .error failure ∉ builder.outcomes entries

theorem AllCompile.no_failures (h : builder.AllCompile entries) :
    (builder.outcomes entries).zipIdx.filterMap failureAt? = [] := by
  refine List.eq_nil_iff_forall_not_mem.mpr ?_
  rintro ⟨index, failure⟩ hm
  exact h failure (List.mem_of_getElem? (mem_failures.mp hm))

/-- The first failure stands behind entries that compile. -/
theorem failures_of_first (h : builder.AllCompile front)
    (hs : (front.foldl afterEntry builder).compileEntry source = .error failure)
    (rest : List String) :
    ∃ later, (builder.outcomes (front ++ source :: rest)).zipIdx.filterMap failureAt? =
      (front.length, failure) :: later := by
  have hout : builder.outcomes (front ++ source :: rest) = builder.outcomes front ++
      .error failure :: ((front.foldl afterEntry builder).afterEntry source).outcomes rest := by
    rw [outcomes_append, outcomes, hs]
    rfl
  rw [hout, List.zipIdx_append, List.filterMap_append, h.no_failures, List.nil_append,
    List.zipIdx_cons, List.filterMap_cons, length_outcomes, Nat.zero_add]
  exact ⟨_, rfl⟩

theorem allCompile_or_first_failure (builder : Builder) (entries : List String) :
    builder.AllCompile entries ∨
      ∃ front source rest failure, entries = front ++ source :: rest ∧
        builder.AllCompile front ∧
        (front.foldl afterEntry builder).compileEntry source = .error failure := by
  induction entries generalizing builder with
  | nil => exact .inl fun _ => List.not_mem_nil
  | cons source rest ih =>
      cases hs : builder.compileEntry source with
      | error failure => exact .inr ⟨[], source, rest, failure, rfl, fun _ => List.not_mem_nil, hs⟩
      | ok result =>
          have hcons : ∀ {more}, (builder.afterEntry source).AllCompile more →
              builder.AllCompile (source :: more) := by
            intro more hm failure hf
            rw [outcomes, hs] at hf
            rcases List.mem_cons.mp hf with hf | hf
            · cases hf
            · exact hm failure hf
          rcases ih (builder.afterEntry source) with hall | ⟨front, bad, tail, failure, rfl, hf, hb⟩
          · exact .inl (hcons hall)
          · exact .inr ⟨source :: front, bad, tail, failure, rfl, hcons hf, hb⟩

/-- Entries that compile are passed in the same way, strict or not. -/
theorem compileEntries_append (h : builder.AllCompile front) (strict : Bool) (report : Report)
    (index : Nat) (rest : List String) :
    builder.compileEntries strict report index (front ++ rest) =
      (front.foldl afterEntry builder).compileEntries strict
        (report.noteAll index (builder.outcomes front)) (index + front.length) rest := by
  induction front generalizing builder report index with
  | nil => rfl
  | cons source front ih =>
      cases hs : builder.compileEntry source with
      | error failure =>
          refine absurd ?_ (h failure)
          rw [outcomes, hs]
          exact List.mem_cons_self
      | ok result =>
          obtain ⟨outcome, after⟩ := result
          have hafter : builder.afterEntry source = after := by simp only [afterEntry, hs]
          have hfront : after.AllCompile front := by
            intro failure hf
            refine h failure ?_
            rw [outcomes, hafter]
            exact List.mem_cons_of_mem _ hf
          rw [List.cons_append, List.foldl_cons, outcomes, Report.noteAll, hafter,
            List.length_cons, Nat.add_comm front.length, ← Nat.add_assoc]
          simp only [compileEntries, hs]
          exact ih hfront _ _

theorem compileEntries_of_allCompile (h : builder.AllCompile entries) (strict : Bool)
    (report : Report) (index : Nat) :
    builder.compileEntries strict report index entries =
      (entries.foldl afterEntry builder,
        .ok (report.noteAll index (builder.outcomes entries))) := by
  have hrun := compileEntries_append h strict report index []
  rw [List.append_nil] at hrun
  rw [hrun, compileEntries]

theorem compileEntries_strict_of_first (h : builder.AllCompile front)
    (hs : (front.foldl afterEntry builder).compileEntry source = .error failure)
    (report : Report) (index : Nat) (rest : List String) :
    builder.compileEntries true report index (front ++ source :: rest) =
      (front.foldl afterEntry builder, .error failure.error) := by
  rw [compileEntries_append h]
  simp only [compileEntries, hs]
  rfl

end Builder

/-- A strict load of entries that compile is the lenient one. Otherwise it ends with the first
failure that the lenient load reports, and with the builder that a lenient load of the entries
before that one leaves. -/
theorem strict_load_follows_lenient (builder : Builder) (entries : List String) :
    ∃ after report,
      (Compiler.mk false builder).compileCatalogue entries = (⟨false, after⟩, .ok report) ∧
      match report.failures.toList with
      | [] => (Compiler.mk true builder).compileCatalogue entries = (⟨true, after⟩, .ok report)
      | (index, failure) :: _ =>
          index < entries.length ∧
            (Compiler.mk true builder).compileCatalogue entries =
              (⟨true, ((Compiler.mk false builder).compileCatalogue
                (entries.take index)).1.builder⟩, .error failure.error) := by
  refine ⟨_, _, Compiler.compileCatalogue_lenient builder entries, ?_⟩
  rw [Builder.failures_loadReport]
  rcases builder.allCompile_or_first_failure entries with
    hall | ⟨front, source, rest, failure, rfl, hfront, hs⟩
  · rw [hall.no_failures]
    simp only [Compiler.compileCatalogue, Builder.compileEntries_of_allCompile hall]
    rfl
  · obtain ⟨later, hlater⟩ := Builder.failures_of_first hfront hs rest
    have hindex : front.length < (front ++ source :: rest).length := by simp
    have htake : (front ++ source :: rest).take front.length = front := List.take_left
    rw [hlater]
    refine ⟨hindex, ?_⟩
    rw [htake, Compiler.compileCatalogue_lenient]
    simp only [Compiler.compileCatalogue, Builder.compileEntries_strict_of_first hfront hs]

end RecordSchema
