import RecordSchema.Description
import RecordSchema.Host
import RecordSchema.Json

/-! Catalogues of type descriptions as registries. An entry of a known name is recognized by its
header and its body is not looked at, so the first good entry of a name wins. -/

namespace RecordSchema

inductive EntryOutcome where
  | registered (name : String)
  | recognized (name : String)
  | notStruct
  deriving DecidableEq, Repr

/-- `typeName` is there if the header could be read. -/
structure EntryFailure where
  typeName : Option String
  error : Error
  deriving DecidableEq, Repr

/-- What became of the entries of a catalogue. Names are in the order of the entries, and failures
stand beside their entry's position. -/
structure Report where
  registered : Array String
  recognized : Array String
  skippedNonStruct : Nat
  failures : Array (Nat × EntryFailure)
  deriving DecidableEq, Repr

namespace Report

def empty : Report := ⟨#[], #[], 0, #[]⟩

def isClean (report : Report) : Bool := report.failures.isEmpty

def addOutcome : Report → EntryOutcome → Report
  | ⟨registered, recognized, skipped, failures⟩, outcome =>
    match outcome with
    | .registered name => ⟨registered.push name, recognized, skipped, failures⟩
    | .recognized name => ⟨registered, recognized.push name, skipped, failures⟩
    | .notStruct => ⟨registered, recognized, skipped + 1, failures⟩

def addFailure : Report → Nat → EntryFailure → Report
  | ⟨registered, recognized, skipped, failures⟩, index, failure =>
    ⟨registered, recognized, skipped, failures.push (index, failure)⟩

def failureJson (index : Nat) (failure : EntryFailure) : Json :=
  .object [("index", .ofNat index),
    ("type_name", (failure.typeName.map Json.string).getD .null),
    ("error", .string failure.error.message)]

/-- Errors are shown as their texts. -/
def toJson (report : Report) : Json :=
  .object [("registered", .array (report.registered.toList.map Json.string)),
    ("recognized", .array (report.recognized.toList.map Json.string)),
    ("skipped_non_struct", .ofNat report.skippedNonStruct),
    ("failures", .array (report.failures.toList.map fun (index, failure) =>
      failureJson index failure))]

end Report

namespace Builder

/-- Compile one description against what is known so far. -/
def compileEntry (builder : Builder) (source : String) :
    Except EntryFailure (EntryOutcome × Builder) :=
  match Lexer.tokenize source >>= fun tokens => Description.header (Token.significant tokens) with
  | .error error => .error ⟨none, error⟩
  | .ok none => .ok (.notStruct, builder)
  | .ok (some (name, rest)) =>
      if builder.isKnown name then .ok (.recognized name, builder)
      else match Description.body name rest with
        | .error error => .error ⟨some name, error⟩
        | .ok descriptor =>
            match builder.register descriptor with
            | (.added, builder) => .ok (.registered name, builder)
            | (.alreadyKnown, builder) => .ok (.recognized name, builder)

/-- Compile entries in order, from position `index` on. A failure that may be skipped is noted in
the report unless `strict`; any other ends the work, and what was compiled before stays. -/
def compileEntries (strict : Bool) :
    Builder → Report → Nat → List String → Builder × Except Error Report
  | builder, report, _, [] => (builder, .ok report)
  | builder, report, index, source :: rest =>
      match builder.compileEntry source with
      | .ok (outcome, builder) =>
          compileEntries strict builder (report.addOutcome outcome) (index + 1) rest
      | .error failure =>
          if strict || !failure.error.isSkippable then (builder, .error failure.error)
          else compileEntries strict builder (report.addFailure index failure) (index + 1) rest

end Builder

structure CompileOptions where
  seedHostTypes : Bool := true
  strict : Bool := false
  deriving DecidableEq, Repr

structure Compiler where
  strict : Bool
  builder : Builder
  deriving DecidableEq, Repr

namespace Compiler

def new (options : CompileOptions) : Compiler :=
  ⟨options.strict, if options.seedHostTypes then Host.seed .empty else .empty⟩

def compileCatalogue (compiler : Compiler) (entries : List String) :
    Compiler × Except Error Report :=
  let (builder, result) := compiler.builder.compileEntries compiler.strict .empty 0 entries
  ({ compiler with builder }, result)

end Compiler

/-- The registry that a whole catalogue describes. -/
def compileCatalogue (options : CompileOptions) (entries : List String) :
    Except Error (Registry × Report) :=
  match (Compiler.new options).compileCatalogue entries with
  | (compiler, result) => result.map (compiler.builder.registry, ·)

end RecordSchema
