import Mathlib.Data.List.Chain
import Mathlib.Data.List.Nodup
import Mathlib.Logic.Relation
import RecordSchema.Proofs.Outcome
import RecordSchema.Proofs.Record
import RecordSchema.Registry.Construct

/-! Construction walks along the references of a registry, depth first. It fails exactly when the
walk can come back to a type that it is still inside of, and the chain it then reports is such a
walk (`instantiate_fails_iff_cyclic`). -/

namespace RecordSchema.Registry

/-! ## One step -/

/-- Fill every reference field but the identity with the record that `build` gives for its
target. -/
def fill (build : String → Except Error Record) (record : Record)
    (references : List (String × String)) : Except Error Record :=
  references.foldlM (fun record (field, target) =>
    if field = RecordOf.identityName then .ok record
    else do
      let nested ← build target
      record.set field (.record nested)) record

variable {registry : Registry} {build : String → Except Error Record} {record result : Record}
  {references : List (String × String)} {chain : List String} {name target : String}
  {descriptor : Descriptor} {e : Error}

theorem construct_of_mem (h : name ∈ chain) :
    registry.construct chain name = .error (.recursiveType (chain ++ [name])) := by
  rw [construct, dif_pos h]

theorem construct_entity (fresh : Host.dynamicEntity ∉ chain) :
    registry.construct chain Host.dynamicEntity =
      .ok (.entity Host.dynamicEntity RecordOf.defaultCategory) := by
  rw [construct, dif_neg fresh, if_pos rfl]

theorem construct_asset (fresh : Host.dynamicAsset ∉ chain) :
    registry.construct chain Host.dynamicAsset = .ok (.asset Host.dynamicAsset) := by
  have he : Host.dynamicAsset ≠ Host.dynamicEntity := by decide
  rw [construct, dif_neg fresh, if_neg he, if_pos rfl]

theorem construct_unknown (fresh : name ∉ chain) (he : name ≠ Host.dynamicEntity)
    (ha : name ≠ Host.dynamicAsset) (unknown : registry.lookup name = none) :
    registry.construct chain name = .ok (.struct name) := by
  rw [construct, dif_neg fresh, if_neg he, if_neg ha]
  split
  · rfl
  · rename_i known
    cases known.symm.trans unknown

theorem construct_eq_fill (fresh : name ∉ chain) (he : name ≠ Host.dynamicEntity)
    (ha : name ≠ Host.dynamicAsset) (known : registry.lookup name = some descriptor) :
    registry.construct chain name =
      fill (registry.construct (chain ++ [name])) (.struct name) descriptor.references := by
  rw [construct, dif_neg fresh, if_neg he, if_neg ha]
  split
  · rename_i hn
    cases hn.symm.trans known
  · rename_i found hf
    obtain rfl := Option.some.inj (hf.symm.trans known)
    rfl

/-- A new record has no fields, or it is filled with records that were built inside a chain longer
by its own type. -/
theorem construct_induction {P : List String → String → Record → Prop}
    (empty : ∀ {chain name} shape, name ∉ chain → P chain name (.empty name shape))
    (filled : ∀ {chain name descriptor result}, name ∉ chain → name ≠ Host.dynamicEntity →
      name ≠ Host.dynamicAsset → registry.lookup name = some descriptor →
      fill (registry.construct (chain ++ [name])) (.struct name) descriptor.references =
        .ok result →
      (∀ {target nested}, registry.construct (chain ++ [name]) target = .ok nested →
        P (chain ++ [name]) target nested) → P chain name result)
    (h : registry.construct chain name = .ok result) : P chain name result := by
  induction chain, name using construct.induct registry generalizing result with
  | case1 chain name repeated =>
      rw [construct_of_mem repeated] at h
      cases h
  | case2 chain fresh =>
      rw [construct_entity fresh] at h
      exact Except.ok.inj h ▸ empty _ fresh
  | case3 chain fresh he =>
      rw [construct_asset fresh] at h
      exact Except.ok.inj h ▸ empty _ fresh
  | case4 chain name fresh he ha unknown =>
      rw [construct_unknown fresh he ha unknown] at h
      exact Except.ok.inj h ▸ empty _ fresh
  | case5 chain name fresh he ha descriptor known ih =>
      rw [construct_eq_fill fresh he ha known] at h
      exact filled fresh he ha known h fun hn => ih _ hn

/-- Only the construction of a target can fail: a record takes a record under any name but the
identity's. -/
theorem fill_cons (field target : String) :
    fill build record ((field, target) :: references) =
      if field = RecordOf.identityName then fill build record references
      else build target >>= fun nested =>
        fill build { record with fields := Fields.assign field (.record nested) record.fields }
          references := by
  unfold fill
  rw [List.foldlM_cons]
  by_cases hf : field = RecordOf.identityName
  · simp only [if_pos hf]
    rfl
  · simp only [if_neg hf]
    cases build target with
    | error e => rfl
    | ok nested =>
        rw [ok_bind, ok_bind, Record.set_field hf]
        rfl

/-- A property that no new field breaks is kept while the fields of a record are filled. -/
theorem fill_induction {P : Record → Prop} (h : fill build record references = .ok result)
    (start : P record)
    (step : ∀ {r field target nested}, (field, target) ∈ references →
      field ≠ RecordOf.identityName → build target = .ok nested → P r →
      P { r with fields := Fields.assign field (.record nested) r.fields }) : P result := by
  induction references generalizing record with
  | nil =>
      obtain rfl : record = result := Except.ok.inj h
      exact start
  | cons reference rest ih =>
      have step' : ∀ {r field target nested}, (field, target) ∈ rest →
          field ≠ RecordOf.identityName → build target = .ok nested → P r →
          P { r with fields := Fields.assign field (.record nested) r.fields } :=
        fun hm => step (List.mem_cons_of_mem _ hm)
      rw [fill_cons] at h
      split at h
      · exact ih h start step'
      · rename_i hf
        obtain ⟨nested, hn, h⟩ := bind_eq_ok.mp h
        exact ih h (step List.mem_cons_self hf hn start) step'

theorem typeName_fill (h : fill build record references = .ok result) :
    result.typeName = record.typeName :=
  fill_induction (P := fun r => r.typeName = record.typeName) h rfl fun _ _ _ hr => hr

theorem shape_fill (h : fill build record references = .ok result) :
    result.shape = record.shape :=
  fill_induction (P := fun r => r.shape = record.shape) h rfl fun _ _ _ hr => hr

/-- Whatever a filled record stores was there before or was built for a reference of that name. -/
theorem mem_fill (h : fill build record references = .ok result) {entry : String × Value}
    (he : entry ∈ result.fields) :
    entry ∈ record.fields ∨ ∃ target nested, (entry.1, target) ∈ references ∧
      entry.1 ≠ RecordOf.identityName ∧ build target = .ok nested ∧ entry.2 = .record nested := by
  refine fill_induction (P := fun r => ∀ entry ∈ r.fields, entry ∈ record.fields ∨
    ∃ target nested, (entry.1, target) ∈ references ∧ entry.1 ≠ RecordOf.identityName ∧
      build target = .ok nested ∧ entry.2 = .record nested) h ?_ ?_ entry he
  · intro entry he
    exact .inl he
  · intro r field target nested hm hf hn hr entry he
    rcases Fields.mem_of_mem_assign he with rfl | he
    · exact .inr ⟨target, nested, hm, hf, hn, rfl⟩
    · exact hr entry he

theorem fill_eq_error (h : fill build record references = .error e) :
    ∃ field target, (field, target) ∈ references ∧ field ≠ RecordOf.identityName ∧
      build target = .error e := by
  induction references generalizing record with
  | nil => cases h
  | cons reference rest ih =>
      obtain ⟨field, target⟩ := reference
      rw [fill_cons] at h
      split at h
      · obtain ⟨other, found, hm, hrest⟩ := ih h
        exact ⟨other, found, List.mem_cons_of_mem _ hm, hrest⟩
      · rename_i hf
        rcases bind_eq_error.mp h with h | ⟨nested, _, h⟩
        · exact ⟨field, target, List.mem_cons_self, hf, h⟩
        · obtain ⟨other, found, hm, hrest⟩ := ih h
          exact ⟨other, found, List.mem_cons_of_mem _ hm, hrest⟩

theorem build_of_fill (h : fill build record references = .ok result) {field : String}
    (hm : (field, target) ∈ references) (hf : field ≠ RecordOf.identityName) :
    ∃ nested, build target = .ok nested := by
  induction references generalizing record with
  | nil => cases hm
  | cons reference rest ih =>
      rw [fill_cons] at h
      split at h
      · rename_i hi
        rcases List.mem_cons.mp hm with rfl | hm
        · exact absurd hi hf
        · exact ih h hm
      · obtain ⟨nested, hn, h⟩ := bind_eq_ok.mp h
        rcases List.mem_cons.mp hm with rfl | hm
        · exact ⟨nested, hn⟩
        · exact ih h hm

theorem mem_references {field : String} :
    (field, target) ∈ descriptor.references ↔
      ∃ declared ∈ descriptor.fields, declared.name = field ∧
        declared.kind = .reference target := by
  rw [Descriptor.references, List.mem_filterMap]
  constructor
  · rintro ⟨declared, hd, h⟩
    obtain ⟨found, hf, h⟩ := Option.map_eq_some_iff.mp h
    obtain ⟨rfl, rfl⟩ := Prod.mk.inj h
    refine ⟨declared, hd, rfl, ?_⟩
    unfold Field.target? at hf
    split at hf
    · cases hf
    · rename_i hk
      rw [hk, Option.some.inj hf]
  · rintro ⟨declared, hd, rfl, hk⟩
    exact ⟨declared, hd, by simp [Field.target?, hk]⟩

/-! ## Walks -/

/-- A new record of the one type holds a new record of the other. -/
def Needs (registry : Registry) (name target : String) : Prop :=
  name ≠ Host.dynamicEntity ∧ name ≠ Host.dynamicAsset ∧
    ∃ descriptor, registry.lookup name = some descriptor ∧
      ∃ field ∈ descriptor.fields, field.name ≠ RecordOf.identityName ∧
        field.kind = .reference target

/-- A walk from the type comes to one that it can come back to. -/
def Cyclic (registry : Registry) (name : String) : Prop :=
  ∃ repeated, Relation.ReflTransGen registry.Needs name repeated ∧
    Relation.TransGen registry.Needs repeated repeated

/-- A walk over distinct types up to its last one, which stands in it before. -/
structure Loop (registry : Registry) (walk : List String) : Prop where
  steps : walk.IsChain registry.Needs
  closes : ∃ front last, walk = front ++ [last] ∧ front.Nodup ∧ last ∈ front

theorem needs_iff (he : name ≠ Host.dynamicEntity) (ha : name ≠ Host.dynamicAsset)
    (known : registry.lookup name = some descriptor) :
    registry.Needs name target ↔
      ∃ field, (field, target) ∈ descriptor.references ∧ field ≠ RecordOf.identityName := by
  simp only [mem_references]
  constructor
  · rintro ⟨_, _, found, hf, field, hm, hi, hk⟩
    obtain rfl := Option.some.inj (hf.symm.trans known)
    exact ⟨field.name, ⟨field, hm, rfl, hk⟩, hi⟩
  · rintro ⟨_, ⟨field, hm, rfl, hk⟩, hi⟩
    exact ⟨he, ha, descriptor, known, field, hm, hi, hk⟩

/-- A cycle that can be reached is reached by a first step. -/
theorem not_cyclic_of_targets (h : ∀ target, registry.Needs name target → ¬registry.Cyclic target) :
    ¬registry.Cyclic name := by
  rintro ⟨repeated, reached, cycle⟩
  rcases reached.cases_head with rfl | ⟨target, needs, onward⟩
  · obtain ⟨target, needs, back⟩ := Relation.TransGen.head'_iff.mp cycle
    exact h target needs ⟨name, back, cycle⟩
  · exact h target needs ⟨repeated, onward, cycle⟩

theorem Loop.cyclic {walk : List String} (h : registry.Loop walk) (hs : walk.head? = some name) :
    registry.Cyclic name := by
  obtain ⟨steps, front, last, rfl, _, hl⟩ := h
  have reached : (front ++ [last]).Pairwise (Relation.TransGen registry.Needs) :=
    List.isChain_iff_pairwise.mp (steps.imp fun _ _ => Relation.TransGen.single)
  have closing : ∀ other ∈ front, Relation.TransGen registry.Needs other last :=
    fun other ho => (List.pairwise_append.mp reached).2.2 other ho last List.mem_cons_self
  cases front with
  | nil => cases hl
  | cons first rest =>
      obtain rfl : first = name := Option.some.inj hs
      exact ⟨last, (closing first List.mem_cons_self).to_reflTransGen, closing last hl⟩

theorem isChain_append_of_needs (h : (chain ++ [name]).IsChain registry.Needs)
    (hn : registry.Needs name target) :
    (chain ++ [name] ++ [target]).IsChain registry.Needs := by
  rw [List.append_assoc]
  exact List.isChain_append_cons_cons.mpr ⟨h, hn, List.isChain_singleton _⟩

/-! ## Failure and success -/

/-- Whatever fails, fails for the walk that led to it: the chain of types under construction is a
walk over distinct types, and every step extends it by one. -/
theorem loop_of_construct_error (walk : (chain ++ [name]).IsChain registry.Needs)
    (distinct : chain.Nodup) (h : registry.construct chain name = .error e) :
    ∃ more, e = .recursiveType (chain ++ [name] ++ more) ∧
      registry.Loop (chain ++ [name] ++ more) := by
  induction chain, name using construct.induct registry with
  | case1 chain name repeated =>
      rw [construct_of_mem repeated] at h
      refine ⟨[], ?_, ?_⟩
      · rw [List.append_nil, ← Except.error.inj h]
      · rw [List.append_nil]
        exact ⟨walk, chain, name, rfl, distinct, repeated⟩
  | case2 chain fresh =>
      rw [construct_entity fresh] at h
      cases h
  | case3 chain fresh he =>
      rw [construct_asset fresh] at h
      cases h
  | case4 chain name fresh he ha unknown =>
      rw [construct_unknown fresh he ha unknown] at h
      cases h
  | case5 chain name fresh he ha descriptor known ih =>
      rw [construct_eq_fill fresh he ha known] at h
      obtain ⟨field, target, hm, hf, h⟩ := fill_eq_error h
      have needs := (needs_iff he ha known).mpr ⟨field, hm, hf⟩
      have distinct' : (chain ++ [name]).Nodup := by
        rw [← List.concat_eq_append]
        exact List.Nodup.concat fresh distinct
      obtain ⟨more, rfl, loop⟩ := ih target (isChain_append_of_needs walk needs) distinct' h
      refine ⟨target :: more, ?_, ?_⟩
      · rw [List.append_assoc (chain ++ [name])]
        rfl
      · rwa [List.append_assoc (chain ++ [name])] at loop

/-- The chain does not matter here: it can only make a construction fail. -/
theorem not_cyclic_of_construct (h : registry.construct chain name = .ok result) :
    ¬registry.Cyclic name := by
  induction chain, name using construct.induct registry generalizing result with
  | case1 chain name repeated =>
      rw [construct_of_mem repeated] at h
      cases h
  | case2 chain fresh => exact not_cyclic_of_targets fun _ needs => absurd rfl needs.1
  | case3 chain fresh he => exact not_cyclic_of_targets fun _ needs => absurd rfl needs.2.1
  | case4 chain name fresh he ha unknown =>
      refine not_cyclic_of_targets fun target needs => ?_
      obtain ⟨_, _, descriptor, known, _⟩ := needs
      cases unknown.symm.trans known
  | case5 chain name fresh he ha descriptor known ih =>
      rw [construct_eq_fill fresh he ha known] at h
      refine not_cyclic_of_targets fun target needs => ?_
      obtain ⟨field, hm, hf⟩ := (needs_iff he ha known).mp needs
      obtain ⟨nested, hn⟩ := build_of_fill h hm hf
      exact ih target hn

/-- Construction fails exactly for the types from which a cycle of references can be reached, in no
other way than this, and reports a walk from the type into such a cycle. -/
theorem instantiate_fails_iff_cyclic (registry : Registry) (name : String) :
    ((∃ walk, registry.instantiate name = .error (.recursiveType walk)) ↔
      registry.Cyclic name) ∧
    (¬registry.Cyclic name → ∃ record, registry.instantiate name = .ok record) ∧
    ∀ e, registry.instantiate name = .error e →
      ∃ walk, e = .recursiveType walk ∧ walk.head? = some name ∧ registry.Loop walk := by
  have failure : ∀ e, registry.instantiate name = .error e →
      ∃ walk, e = .recursiveType walk ∧ walk.head? = some name ∧ registry.Loop walk := by
    intro e h
    obtain ⟨more, he, loop⟩ := loop_of_construct_error (List.isChain_singleton _) List.nodup_nil h
    exact ⟨_, he, rfl, loop⟩
  have success : ¬registry.Cyclic name → ∃ record, registry.instantiate name = .ok record := by
    intro acyclic
    cases h : registry.instantiate name with
    | ok record => exact ⟨record, rfl⟩
    | error e =>
        obtain ⟨walk, _, hs, loop⟩ := failure e h
        exact absurd (loop.cyclic hs) acyclic
  refine ⟨⟨?_, ?_⟩, success, failure⟩
  · rintro ⟨walk, h⟩
    obtain ⟨_, _, hs, loop⟩ := failure _ h
    exact loop.cyclic hs
  · intro cyclic
    cases h : registry.instantiate name with
    | ok record => exact absurd cyclic (not_cyclic_of_construct h)
    | error e =>
        obtain ⟨walk, he, _⟩ := failure e h
        exact ⟨walk, by rw [he]⟩

-- A type that two fields share is no cycle; one that comes back through another type is.
example : (Registry.mk [⟨"A", [⟨"b", .reference "B"⟩, ⟨"c", .reference "B"⟩]⟩,
      ⟨"B", [⟨"ID", .reference "A"⟩]⟩]).instantiate "A" =
    .ok ⟨"A", .struct, none, [("b", .record ⟨"B", .struct, none, []⟩),
      ("c", .record ⟨"B", .struct, none, []⟩)]⟩ := by
  cbv

example : (Registry.mk [⟨"A", [⟨"b", .reference "B"⟩]⟩, ⟨"B", [⟨"a", .reference "A"⟩]⟩]).instantiate
    "A" = .error (.recursiveType ["A", "B", "A"]) := by
  cbv

end RecordSchema.Registry
