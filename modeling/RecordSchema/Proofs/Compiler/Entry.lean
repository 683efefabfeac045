import RecordSchema.Compiler
import RecordSchema.Proofs.Description

/-! What compiling one entry can do, told by the description alone and by whether its name is
known. -/

namespace RecordSchema.Builder

/-- The four ends of an entry. A known name is not parsed any further. -/
inductive EntryStep (builder : Builder) (source : String) :
    Except EntryFailure (EntryOutcome × Builder) → Prop
  | notStruct (hp : Description.parse source = .ok none) :
      EntryStep builder source (.ok (.notStruct, builder))
  | recognized {name : String} (hd : Description.declares? source = some name)
      (hk : builder.isKnown name = true) :
      EntryStep builder source (.ok (.recognized name, builder))
  | registered {d : Descriptor} (hp : Description.parse source = .ok (some d))
      (hk : builder.isKnown d.name = false) :
      EntryStep builder source
        (.ok (.registered d.name, { builder with registry := builder.registry.add d }))
  | failed {e : Error} (hp : Description.parse source = .error e)
      (hk : ∀ name, Description.declares? source = some name → builder.isKnown name = false) :
      EntryStep builder source (.error ⟨Description.declares? source, e⟩)

theorem compileEntry_eq (builder : Builder) (source : String) :
    builder.compileEntry source =
      match Description.opening source with
      | .error error => .error ⟨none, error⟩
      | .ok none => .ok (.notStruct, builder)
      | .ok (some (name, rest)) =>
          if builder.isKnown name then .ok (.recognized name, builder)
          else match Description.body name rest with
            | .error error => .error ⟨some name, error⟩
            | .ok descriptor =>
                match builder.register descriptor with
                | (.added, builder) => .ok (.registered name, builder)
                | (.alreadyKnown, builder) => .ok (.recognized name, builder) := rfl

theorem compileEntry_step (builder : Builder) (source : String) :
    EntryStep builder source (builder.compileEntry source) := by
  have hparse := Description.parse_eq source
  cases ho : Description.opening source with
  | error e =>
      have hd : Description.declares? source = none := by simp only [Description.declares?, ho]
      rw [ho, error_bind] at hparse
      simp only [compileEntry_eq, ho]
      exact hd ▸ .failed hparse (by simp [hd])
  | ok opened =>
      rw [ho, ok_bind] at hparse
      cases opened with
      | none =>
          simp only [compileEntry_eq, ho]
          exact .notStruct hparse
      | some found =>
          obtain ⟨name, rest⟩ := found
          have hd : Description.declares? source = some name := by
            simp only [Description.declares?, ho]
          simp only [compileEntry_eq, ho]
          split
          · rename_i hk
            exact .recognized hd hk
          · rename_i hk
            rw [Bool.not_eq_true] at hk
            cases hb : Description.body name rest with
            | error e =>
                simp only [hb] at hparse
                refine hd ▸ .failed hparse ?_
                intro other ho
                obtain rfl := Option.some.inj (hd.symm.trans ho)
                exact hk
            | ok d =>
                have hname := Description.name_of_body hb
                simp only [hb] at hparse
                simp only [register, hname, hk]
                exact hname ▸ .registered hparse (hname ▸ hk)

variable {builder after : Builder} {source : String}

/-- The four ends exclude each other. -/
theorem EntryStep.unique {result other : Except EntryFailure (EntryOutcome × Builder)}
    (h : EntryStep builder source result) (h' : EntryStep builder source other) :
    result = other := by
  cases h with
  | notStruct hp =>
      cases h' with
      | notStruct => rfl
      | recognized hd => cases hd.symm.trans (Description.declares?_of_parse_none hp)
      | registered hp' => cases hp.symm.trans hp'
      | failed hp' => cases hp.symm.trans hp'
  | recognized hd hk =>
      cases h' with
      | notStruct hp => cases hd.symm.trans (Description.declares?_of_parse_none hp)
      | recognized hd' => rw [Option.some.inj (hd.symm.trans hd')]
      | registered hp hk' =>
          rw [Option.some.inj (hd.symm.trans (Description.declares?_of_parse_some hp))] at hk
          cases hk.symm.trans hk'
      | failed _ hk' => cases hk.symm.trans (hk' _ hd)
  | registered hp hk =>
      have hd := Description.declares?_of_parse_some hp
      cases h' with
      | notStruct hp' => cases hp.symm.trans hp'
      | recognized hd' hk' =>
          rw [Option.some.inj (hd'.symm.trans hd)] at hk'
          cases hk.symm.trans hk'
      | registered hp' => rw [Option.some.inj (Except.ok.inj (hp.symm.trans hp'))]
      | failed hp' => cases hp.symm.trans hp'
  | failed hp hk =>
      cases h' with
      | notStruct hp' => cases hp.symm.trans hp'
      | recognized hd hk' => cases hk'.symm.trans (hk _ hd)
      | registered hp' => cases hp.symm.trans hp'
      | failed hp' => rw [Except.error.inj (hp.symm.trans hp')]

theorem compileEntry_eq_iff {result : Except EntryFailure (EntryOutcome × Builder)} :
    builder.compileEntry source = result ↔ EntryStep builder source result := by
  constructor
  · intro h
    exact h ▸ compileEntry_step builder source
  · intro h
    exact (compileEntry_step builder source).unique h

theorem compileEntry_eq_notStruct :
    builder.compileEntry source = .ok (.notStruct, after) ↔
      Description.parse source = .ok none ∧ after = builder := by
  rw [compileEntry_eq_iff]
  constructor
  · intro h
    cases h with
    | notStruct hp => exact ⟨hp, rfl⟩
  · rintro ⟨hp, rfl⟩
    exact .notStruct hp

theorem compileEntry_eq_recognized {name : String} :
    builder.compileEntry source = .ok (.recognized name, after) ↔
      Description.declares? source = some name ∧ builder.isKnown name = true ∧
        after = builder := by
  rw [compileEntry_eq_iff]
  constructor
  · intro h
    cases h with
    | recognized hd hk => exact ⟨hd, hk, rfl⟩
  · rintro ⟨hd, hk, rfl⟩
    exact .recognized hd hk

theorem compileEntry_eq_registered {name : String} :
    builder.compileEntry source = .ok (.registered name, after) ↔
      ∃ d, Description.parse source = .ok (some d) ∧ d.name = name ∧
        builder.isKnown name = false ∧
        after = { builder with registry := builder.registry.add d } := by
  rw [compileEntry_eq_iff]
  constructor
  · intro h
    cases h with
    | registered hp hk => exact ⟨_, hp, rfl, hk, rfl⟩
  · rintro ⟨d, hp, rfl, hk, rfl⟩
    exact .registered hp hk

theorem compileEntry_eq_error {failure : EntryFailure} :
    builder.compileEntry source = .error failure ↔
      Description.parse source = .error failure.error ∧
        failure.typeName = Description.declares? source ∧
        ∀ name, Description.declares? source = some name → builder.isKnown name = false := by
  rw [compileEntry_eq_iff]
  constructor
  · intro h
    cases h with
    | failed hp hk => exact ⟨hp, rfl, hk⟩
  · obtain ⟨typeName, error⟩ := failure
    rintro ⟨hp, rfl, hk⟩
    exact .failed hp hk

end RecordSchema.Builder
