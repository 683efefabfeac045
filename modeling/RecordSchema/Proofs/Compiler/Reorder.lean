import Mathlib.Data.List.FinRange
import Mathlib.Data.List.Pairwise
import RecordSchema.Proofs.Compiler.Repeat

/-! Catalogues in another order. How an entry ends depends on the entries before it only through
whether its own name is known. So if no two entries declare the same name, a lenient load of them
gives the same registry in every order, and the reports tell the same (`compileCatalogue_reordered`). -/

namespace RecordSchema

/-! ## Registries as maps -/

theorem offer_apply (known : String → Option Descriptor) (d : Descriptor) (name : String) :
    offer known d name = (known name).or (if name = d.name then some d else none) := by
  unfold offer
  by_cases hn : name = d.name
  · subst hn
    cases hk : known d.name with
    | none => simp
    | some found => simp [hk]
  · split <;> simp [hn]

theorem offer_comm (known : String → Option Descriptor) {d other : Descriptor}
    (h : d.name ≠ other.name) : offer (offer known d) other = offer (offer known other) d := by
  funext name
  simp only [offer_apply, Option.or_assoc]
  congr 1
  by_cases hd : name = d.name
  · simp [hd, h]
  · simp [hd]

/-- Descriptions of different names may be merged in either order. -/
theorem mergeEntry_comm (known : String → Option Descriptor) {source other : String}
    (h : ∀ name, Description.declares? source = some name →
      Description.declares? other ≠ some name) :
    mergeEntry (mergeEntry known source) other = mergeEntry (mergeEntry known other) source := by
  unfold mergeEntry
  split
  · rename_i d hd
    split
    · rename_i d' hd'
      have hdeclared := Description.declares?_of_parse_some hd
      have hother := Description.declares?_of_parse_some hd'
      exact offer_comm _ fun hname => h _ hother (hname ▸ hdeclared)
    · rfl
  · rfl

theorem Registry.Ordered.mem_iff {registry : Registry} (h : registry.Ordered) (d : Descriptor) :
    d ∈ registry.descriptors ↔ registry.lookup d.name = some d := by
  rw [lookup_eq_some_iff h, and_iff_left rfl]

/-- A registry's look-up tells everything about it, the order of its descriptors included. -/
theorem Registry.Ordered.ext {registry other : Registry} (h : registry.Ordered)
    (ho : other.Ordered) (hl : registry.lookup = other.lookup) : registry = other := by
  obtain ⟨ds⟩ := registry
  obtain ⟨others⟩ := other
  have hmem : ∀ d, d ∈ ds ↔ d ∈ others := by
    intro d
    exact (h.mem_iff d).trans (hl ▸ (ho.mem_iff d).symm)
  have hsorted : ds.Pairwise (·.name < ·.name) := List.pairwise_map.mp h
  have hsorted' : others.Pairwise (·.name < ·.name) := List.pairwise_map.mp ho
  have hne : ∀ {d d' : Descriptor}, d.name < d'.name → d ≠ d' := fun hlt he =>
    String.ne_of_lt hlt (congrArg Descriptor.name he)
  have hperm : ds.Perm others :=
    (List.perm_ext_iff_of_nodup (hsorted.imp hne) (hsorted'.imp hne)).mpr hmem
  have heq : ds = others := hperm.eq_of_pairwise
    (fun _ _ _ _ hlt hgt => absurd (String.lt_trans hlt hgt) (String.lt_irrefl _)) hsorted hsorted'
  rw [heq]

/-! ## Entries of different names -/

/-- No two of the entries declare the same name. Entries that declare none are free to repeat. -/
def DistinctNames (entries : List String) : Prop :=
  (entries.filterMap Description.declares?).Nodup

theorem DistinctNames.pairwise {entries : List String} (h : DistinctNames entries) :
    entries.Pairwise fun source other => ∀ name, Description.declares? source = some name →
      Description.declares? other ≠ some name := by
  refine (List.pairwise_filterMap.mp h).imp ?_
  intro source other hne name hs ho
  exact hne name hs name ho rfl

theorem foldl_mergeEntry_perm {entries other : List String} (h : DistinctNames entries)
    (hp : entries.Perm other) (known : String → Option Descriptor) :
    entries.foldl mergeEntry known = other.foldl mergeEntry known := by
  refine hp.foldl_eq' (fun source hs next hn known => ?_) known
  by_cases he : source = next
  · rw [he]
  · have hsymm : Std.Symm fun source other : String =>
        ∀ name, Description.declares? source = some name →
          Description.declares? other ≠ some name := ⟨fun _ _ hne name ho hs => hne name hs ho⟩
    exact mergeEntry_comm known (h.pairwise.forall hs hn he)

namespace Builder
variable {builder after : Builder} {entries : List String} {source name : String}

theorem registry_foldl_afterEntry_perm {other : List String} (h : DistinctNames entries)
    (hp : entries.Perm other) (hb : builder.registry.Ordered) :
    (entries.foldl afterEntry builder).registry = (other.foldl afterEntry builder).registry := by
  refine (ordered_foldl_afterEntry entries hb).ext (ordered_foldl_afterEntry other hb) ?_
  rw [lookup_foldl_afterEntry, lookup_foldl_afterEntry, foldl_mergeEntry_perm h hp]

/-- How an entry ends depends on the builder only through whether the entry's name is known. -/
theorem outcome_congr (h : ∀ name, Description.declares? source = some name →
      after.isKnown name = builder.isKnown name) :
    (after.compileEntry source).map (·.1) = (builder.compileEntry source).map (·.1) := by
  have step := compileEntry_step builder source
  generalize builder.compileEntry source = result at step
  cases step with
  | notStruct hp =>
      rw [compileEntry_eq_notStruct.mpr ⟨hp, rfl⟩]
      rfl
  | recognized hd hk =>
      rw [compileEntry_eq_recognized.mpr ⟨hd, (h _ hd).trans hk, rfl⟩]
      rfl
  | registered hp hk =>
      have hknown := (h _ (Description.declares?_of_parse_some hp)).trans hk
      rw [compileEntry_eq_registered.mpr ⟨_, hp, rfl, hknown, rfl⟩]
      rfl
  | failed hp hk =>
      have hfailed : after.compileEntry source = .error ⟨Description.declares? source, _⟩ :=
        compileEntry_eq_error.mpr ⟨hp, rfl, fun name hd => (h name hd).trans (hk name hd)⟩
      rw [hfailed]

theorem declares?_of_registered
    (h : registeredName? ((builder.compileEntry source).map (·.1)) = some name) :
    Description.declares? source = some name := by
  have step := compileEntry_step builder source
  generalize builder.compileEntry source = result at step h
  cases step with
  | registered hp _ => exact Option.some.inj h ▸ Description.declares?_of_parse_some hp
  | _ => cases h

/-- Entries of different names end as each of them does when it comes first. -/
theorem outcomes_of_distinct (h : DistinctNames entries) :
    builder.outcomes entries =
      entries.map fun source => (builder.compileEntry source).map (·.1) := by
  replace h := h.pairwise
  induction entries generalizing builder with
  | nil => rfl
  | cons source rest ih =>
      obtain ⟨hfirst, hrest⟩ := List.pairwise_cons.mp h
      rw [outcomes, ih hrest, List.map_cons]
      congr 1
      refine List.map_congr_left fun other ho => outcome_congr fun name hd => ?_
      rw [Bool.eq_iff_iff, isKnown_afterEntry, or_iff_left]
      exact fun hn => hfirst other ho name (declares?_of_registered hn) hd

end Builder

/-! ## Reports -/

def failure? : Except EntryFailure EntryOutcome → Option EntryFailure
  | .error failure => some failure
  | .ok _ => none

theorem failureAt?_eq (outcome : Except EntryFailure EntryOutcome) (index : Nat) :
    failureAt? (outcome, index) = (failure? outcome).map (index, ·) := by
  cases outcome <;> rfl

/-- The report on the entries in another order, where the entry that stood at `σ i` stands at `i`. -/
structure Report.Reordered {n : Nat} (σ : Equiv.Perm (Fin n)) (report reordered : Report) :
    Prop where
  registered : reordered.registered.toList.Perm report.registered.toList
  recognized : reordered.recognized.toList.Perm report.recognized.toList
  skipped : reordered.skippedNonStruct = report.skippedNonStruct
  failures : ∃ failed : List (Fin n × EntryFailure),
    reordered.failures.toList = failed.map (fun (i, failure) => (i.val, failure)) ∧
      report.failures.toList.Perm (failed.map fun (i, failure) => ((σ i).val, failure))

theorem filterMap_failureAt?_ofFn {n : Nat} (outcome : Fin n → Except EntryFailure EntryOutcome) :
    (List.ofFn outcome).zipIdx.filterMap failureAt? =
      (List.finRange n).filterMap fun i => (failure? (outcome i)).map (i.val, ·) := by
  have hzip : (List.ofFn outcome).zipIdx = (List.finRange n).map fun i => (outcome i, i.val) := by
    apply List.ext_getElem <;> simp
  rw [hzip, List.filterMap_map]
  exact List.filterMap_congr fun i _ => failureAt?_eq (outcome i) i.val

/-- The entries in another order: at each position stands the one that stood where `σ` says. -/
def reorder (entries : List String) (σ : Equiv.Perm (Fin entries.length)) : List String :=
  List.ofFn fun i => entries[σ i]

theorem reorder_perm (entries : List String) (σ : Equiv.Perm (Fin entries.length)) :
    (reorder entries σ).Perm entries := by
  have hp := σ.ofFn_comp_perm fun i => entries[i]
  have hsame : (List.ofFn fun i => entries[i]) = entries := List.ofFn_getElem
  rwa [hsame] at hp

theorem DistinctNames.reorder {entries : List String} (h : DistinctNames entries)
    (σ : Equiv.Perm (Fin entries.length)) : DistinctNames (reorder entries σ) :=
  ((reorder_perm entries σ).filterMap _).nodup_iff.mpr h

theorem Builder.loadReport_reordered {entries : List String} (h : DistinctNames entries)
    (σ : Equiv.Perm (Fin entries.length)) (builder : Builder) :
    Report.Reordered σ (builder.loadReport entries) (builder.loadReport (reorder entries σ)) := by
  have hp := reorder_perm entries σ
  have hout := builder.outcomes_of_distinct h
  have hout' := builder.outcomes_of_distinct (h.reorder σ)
  generalize houtcome : (fun source => (builder.compileEntry source).map (·.1)) = outcome
    at hout hout'
  refine ⟨?_, ?_, ?_, ?_⟩
  · rw [registered_loadReport, registered_loadReport, hout, hout']
    exact (hp.map outcome).filterMap _
  · rw [recognized_loadReport, recognized_loadReport, hout, hout']
    exact (hp.map outcome).filterMap _
  · rw [skippedNonStruct_loadReport, skippedNonStruct_loadReport, hp.countP_eq]
  · have hplaces : entries.map outcome = List.ofFn fun i : Fin entries.length =>
        outcome entries[i] := by
      apply List.ext_getElem <;> simp
    have hplaces' : (reorder entries σ).map outcome = List.ofFn fun i => outcome entries[σ i] :=
      List.map_ofFn ..
    refine ⟨(List.finRange entries.length).filterMap fun i =>
      (failure? (outcome entries[σ i])).map (i, ·), ?_, ?_⟩
    · rw [failures_loadReport, hout', hplaces', filterMap_failureAt?_ofFn, List.map_filterMap]
      simp [Function.comp_def]
    · rw [failures_loadReport, hout, hplaces, filterMap_failureAt?_ofFn, List.map_filterMap]
      refine (σ.map_finRange_perm.symm.filterMap _).trans ?_
      rw [List.filterMap_map]
      simp [Function.comp_def]

/-- Where declared names are distinct, a lenient load does not depend on the order of the entries. -/
theorem compileCatalogue_reordered {entries : List String} (h : DistinctNames entries)
    (σ : Equiv.Perm (Fin entries.length)) (seeded : Bool) :
    ∃ registry report reordered,
      compileCatalogue ⟨seeded, false⟩ entries = .ok (registry, report) ∧
      compileCatalogue ⟨seeded, false⟩ (reorder entries σ) = .ok (registry, reordered) ∧
      Report.Reordered σ report reordered := by
  have hregistry := Builder.registry_foldl_afterEntry_perm (h.reorder σ) (reorder_perm entries σ)
    (ordered_new ⟨seeded, false⟩)
  refine ⟨_, _, _, compileCatalogue_lenient seeded entries, ?_, Builder.loadReport_reordered h σ _⟩
  rw [compileCatalogue_lenient, hregistry]

/-- Two types, a host type, a type that does not compile, a description of no struct, and one without
tokens that stands there twice. -/
def mixedCatalogue : List String :=
  ["struct A \x7bB b;\x7d", "int Plain", "struct", "struct EntityType \x7b\x7d", "struct B \x7b\x7d",
    "struct", "struct C \x7bint x;int x;\x7d"]

theorem compileCatalogue_reordered_mixed :
    DistinctNames mixedCatalogue ∧ ∃ registry report reordered,
      compileCatalogue ⟨true, false⟩ mixedCatalogue = .ok (registry, report) ∧
      compileCatalogue ⟨true, false⟩ (reorder mixedCatalogue Fin.revPerm) =
        .ok (registry, reordered) ∧
      Report.Reordered (Fin.revPerm : Equiv.Perm (Fin mixedCatalogue.length)) report reordered := by
  have hnames : mixedCatalogue.filterMap Description.declares? = ["A", "EntityType", "B", "C"] := by
    rfl
  have hdistinct : DistinctNames mixedCatalogue := by
    rw [DistinctNames, hnames]
    decide
  exact ⟨hdistinct, compileCatalogue_reordered hdistinct Fin.revPerm true⟩

example : reorder mixedCatalogue Fin.revPerm = mixedCatalogue.reverse := by rfl

end RecordSchema
