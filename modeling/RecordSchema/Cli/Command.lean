import RecordSchema.Catalogue.Source
import RecordSchema.Compiler
import RecordSchema.Record.Encode
import RecordSchema.Record.Text
import RecordSchema.Registry.Construct
import RecordSchema.Reply
import RecordSchema.Sequence

/-! The commands, and what they print given the contents of the files they name. -/

namespace RecordSchema.Cli

inductive Command where
  /-- Show the tokens of the entries, or of those that declare one type. -/
  | tokens (path : String) (typeName : Option String) (keepsWhitespace asJson : Bool)
  /-- Compile a catalogue and show its types, or one of them. -/
  | compile (path : String) (structName : Option String) (asJson isStrict seedsHost : Bool)
  /-- Show a new record of a type. -/
  | new (path typeName : String) (asJson : Bool)
  /-- Show the records of a reply. -/
  | reply (cataloguePath replyPath typeName records : String) (inspects asJson : Bool)
  deriving DecidableEq, Repr

/-- The files that the command may read. -/
def Command.files : Command → List String
  | tokens path .. | compile path .. | new path .. => [path]
  | reply cataloguePath replyPath .. => [cataloguePath, replyPath]

/-- Why the words of a call are no command. -/
inductive Usage where
  | help (text : String)
  | misuse
  deriving DecidableEq, Repr

/-- What is left to others: to decode frames, to read and to write JSON, and to tell which command
the words of a call are. -/
structure Libraries where
  decompress : Catalogue.Decoder
  readStrings : Json.TextReader (List String)
  readJson : Json.TextReader Json
  pretty : Json → String
  command : List String → Except Usage Command

/-- The contents of a file, none if it cannot be read. -/
abbrev Files := String → Option ByteArray

def unnamed : String := "<unnamed>"

def lines (texts : List String) : String := texts.foldl (fun out text => out ++ text ++ "\n") ""

variable (libraries : Libraries)

def jsonLine (json : Json) : String := libraries.pretty json ++ "\n"

def nameJson (name? : Option String) : Json := (name?.map Json.string).getD .null

/-- The tokens of the entry at some position. -/
structure EntryTokens where
  index : Nat
  name? : Option String
  tokens : List Token
  deriving DecidableEq, Repr

def EntryTokens.ofText (keepsWhitespace : Bool) (index : Nat) (text : String) :
    Except Error EntryTokens := do
  let tokens ← Lexer.tokenize text
  return ⟨index, Token.declaredName? tokens,
    if keepsWhitespace then tokens else Token.significant tokens⟩

def EntryTokens.toJson (entry : EntryTokens) : Json :=
  .object [("index", .ofNat entry.index), ("name", nameJson entry.name?),
    ("tokens", .array (entry.tokens.map fun token =>
      .object [("kind", .string token.kind.label), ("lexeme", .string token.lexeme)]))]

/-- Kinds stand in a column of twelve characters. -/
def tokenLine (token : Token) : String :=
  let label := token.kind.label
  "  " ++ label ++ RecordText.pad (12 - label.length) ++ " " ++ Text.quoted token.lexeme

def EntryTokens.lines (entry : EntryTokens) : List String :=
  ("entry[" ++ toString entry.index ++ "]: " ++ entry.name?.getD unnamed) ::
    entry.tokens.map tokenLine

/-- The tokens of every entry, in order. -/
def EntryTokens.ofEntries (keepsWhitespace : Bool) (entries : List String) :
    Except Error (List EntryTokens) :=
  entries.zipIdx.mapM fun (text, index) => ofText keepsWhitespace index text

/-- The entries that declare a type, if one is asked for. -/
def chooseEntries (typeName : Option String) (entries : List EntryTokens) :
    Except Error (List EntryTokens) :=
  match typeName with
  | none => .ok entries
  | some name =>
      let chosen := entries.filter (·.name? == some name)
      if chosen.isEmpty then .error (.typeNotFound name) else .ok chosen

/-- Entries as they are printed, beside the number of all that the catalogue has. -/
def tokensText (path : String) (asJson : Bool) (size : Nat) (entries : List EntryTokens) : String :=
  if asJson then
    jsonLine libraries (.object [("path", .string path),
      ("entries", .array (entries.map EntryTokens.toJson))])
  else
    lines (["path: " ++ path, "entries: " ++ toString size] ++ entries.flatMap EntryTokens.lines)

def runTokens (files : Files) (path : String) (typeName : Option String)
    (keepsWhitespace asJson : Bool) : Except Error String := do
  let catalogue ← Catalogue.ofFileBy libraries.decompress libraries.readStrings (files path)
  let entries ← EntryTokens.ofEntries keepsWhitespace catalogue.entries
  let chosen ← chooseEntries typeName entries
  return tokensText libraries path asJson catalogue.size chosen

/-- A catalogue in a file, with the registry it describes and the report on it. -/
def load (files : Files) (path : String) (options : CompileOptions) :
    Except Error (Catalogue × Registry × Report) := do
  let catalogue ← Catalogue.ofFileBy libraries.decompress libraries.readStrings (files path)
  let (registry, report) ← compileCatalogue options catalogue.entries
  return (catalogue, registry, report)

def fieldLine (field : Field) : String :=
  match field.kind with
  | .scalar type => "  " ++ type.spelling ++ " " ++ field.name
  | .reference target => "  " ++ target ++ " " ++ field.name ++ " -> " ++ target

def descriptorLines (descriptor : Descriptor) : List String :=
  ["struct " ++ descriptor.name ++ " \x7b"] ++ descriptor.fields.map fieldLine ++ ["\x7d"]

def summaryLine (descriptor : Descriptor) : String :=
  "  " ++ descriptor.name ++ " (" ++ toString descriptor.fields.length ++ " fields)"

def failureLine (index : Nat) (failure : EntryFailure) : String :=
  "  entry[" ++ toString index ++ "] " ++ failure.typeName.getD unnamed ++ ": " ++
    failure.error.message

def find (registry : Registry) (name : String) : Except Error Descriptor :=
  match registry.lookup name with
  | some descriptor => .ok descriptor
  | none => .error (.typeNotFound name)

def runCompile (files : Files) (path : String) (structName : Option String)
    (asJson isStrict seedsHost : Bool) : Except Error String := do
  let (catalogue, registry, report) ← load libraries files path ⟨seedsHost, isStrict⟩
  let descriptors ← match structName with
    | some name => (fun descriptor => [descriptor]) <$> find registry name
    | none => pure registry.descriptors
  if asJson then
    return jsonLine libraries (.object [("path", .string path),
      ("compression", .string catalogue.compression.label),
      ("entries", .ofNat catalogue.size),
      ("types", .ofNat registry.size),
      ("report", report.toJson),
      ("descriptors", .array (descriptors.map Descriptor.toJson))])
  else
    return lines (["path: " ++ path,
        "compression: " ++ catalogue.compression.label,
        "entries: " ++ toString catalogue.size,
        "types: " ++ toString registry.size,
        "registered: " ++ toString report.registered.size,
        "recognized: " ++ toString report.recognized.size,
        "skipped_non_struct: " ++ toString report.skippedNonStruct,
        "failures: " ++ toString report.failures.size] ++
      report.failures.toList.map (fun (index, failure) => failureLine index failure) ++
      if structName.isSome then descriptors.flatMap descriptorLines
      else "type_names:" :: descriptors.map summaryLine)

def runNew (files : Files) (path typeName : String) (asJson : Bool) : Except Error String := do
  let (_, registry, _) ← load libraries files path {}
  let _ ← find registry typeName
  let record ← registry.instantiate typeName
  if asJson then
    return jsonLine libraries (.object [("type", .string typeName),
      ("fields", .array (record.names.map Json.string)),
      ("record", record.toJson)])
  else return RecordText.writeRecord .forOne "" 0 0 record

/-- The top-level fields of a reply that hold neither a record nor a list. -/
def passthrough (sequence : Sequence) : List (String × Value) :=
  ((sequence.reply?.map (·.fields)).getD []).filter fun (_, value) => !RecordText.isNested value

def recordLines (out : String) (index : Nat) (record : Record) : String :=
  RecordText.writeRecord .forMany (out ++ "record[" ++ toString index ++ "]:\n") 2 0 record

def runReply (files : Files) (cataloguePath replyPath typeName records : String)
    (inspects asJson : Bool) : Except Error String := do
  let path ← Path.parse records
  let (_, registry, _) ← load libraries files cataloguePath {}
  let limits := if inspects then .forInspection else {}
  let some bytes := files replyPath | .error .io
  let reply ← Reply.decodeTextBy registry limits libraries.readJson typeName bytes.toList
  let sequence ← Sequence.ofReply reply path
  let others := passthrough sequence
  if asJson then
    return jsonLine libraries (.object [("type", .string typeName),
      ("records_path", .string path.source),
      ("count", .ofNat sequence.size),
      ("records", .array (sequence.records.map Record.toJson)),
      ("passthrough", .object (others.map fun (name, value) => (name, value.toJson)))])
  else
    let out := lines ["reply: " ++ replyPath, "type: " ++ typeName,
      "records_path: " ++ path.source, "count: " ++ toString sequence.size]
    let out := others.foldl (fun out (name, value) => RecordText.writeNamed .forOne out name value)
      out
    return sequence.records.zipIdx.foldl (fun out (record, index) => recordLines out index record)
      out

def Command.run (files : Files) : Command → Except Error String
  | .tokens path typeName keepsWhitespace asJson =>
      runTokens libraries files path typeName keepsWhitespace asJson
  | .compile path structName asJson isStrict seedsHost =>
      runCompile libraries files path structName asJson isStrict seedsHost
  | .new path typeName asJson => runNew libraries files path typeName asJson
  | .reply cataloguePath replyPath typeName records inspects asJson =>
      runReply libraries files cataloguePath replyPath typeName records inspects asJson

def usage : String := "usage: tokens PATH | compile PATH | new PATH --type NAME | " ++
  "reply CATALOGUE REPLY --type NAME --records FIELD_PATH"

/-- How a call of the program ends. -/
inductive Outcome where
  | misused
  | failed (error : Error)
  | printed (text : String)
  deriving DecidableEq, Repr

namespace Outcome

def exitCode : Outcome → UInt32
  | misused => 2
  | failed _ => 1
  | printed _ => 0

def output : Outcome → String
  | printed text => text
  | misused | failed _ => ""

def complaint : Outcome → String
  | misused => usage
  | failed error => "error: " ++ error.message
  | printed _ => ""

end Outcome

/-- A call of the program with some words. -/
def runBy (files : Files) (words : List String) : Outcome :=
  match libraries.command words with
  | .error (.help text) => .printed text
  | .error .misuse => .misused
  | .ok command =>
      match command.run libraries files with
      | .ok text => .printed text
      | .error error => .failed error

end RecordSchema.Cli
