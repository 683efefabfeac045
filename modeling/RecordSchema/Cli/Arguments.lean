import RecordSchema.Cli.Command

/-! Command-line words as a command, with its flags, options and operands. Flags and options may
stand anywhere before `--`, each once; every word after it is an operand. The first word that asks
for help or cannot be understood settles the matter. -/

namespace RecordSchema.Cli

/-- What a command takes. An option takes the next word as its value, or what follows `=`. -/
structure Grammar where
  flags : List String
  options : List String
  operands : Nat
  deriving DecidableEq, Repr

structure Arguments where
  flags : List String
  options : List (String × String)
  operands : List String
  deriving DecidableEq, Repr

namespace Arguments

def empty : Arguments := ⟨[], [], []⟩

def hasFlag (arguments : Arguments) (name : String) : Bool := arguments.flags.contains name

def option? (arguments : Arguments) (name : String) : Option String :=
  arguments.options.lookup name

def addFlag (arguments : Arguments) (name : String) : Except Usage Arguments :=
  if arguments.hasFlag name then .error .misuse
  else .ok { arguments with flags := name :: arguments.flags }

def addOption (arguments : Arguments) (name value : String) : Except Usage Arguments :=
  if (arguments.option? name).isSome then .error .misuse
  else .ok { arguments with options := (name, value) :: arguments.options }

/-- The operands are file names, none of which may be empty. -/
def addOperand (grammar : Grammar) (arguments : Arguments) (word : String) :
    Except Usage Arguments :=
  if word = "" ∨ arguments.operands.length = grammar.operands then .error .misuse
  else .ok { arguments with operands := arguments.operands ++ [word] }

/-- An option that must be there. -/
def required (arguments : Arguments) (name : String) : Except Usage String :=
  match arguments.option? name with
  | some value => .ok value
  | none => .error .misuse

end Arguments

/-- A lone dash is an ordinary word. -/
def looksLikeOption (word : String) : Bool := word.startsWith '-' && word != "-"

/-- The name in a long option, without its dashes, and what follows the first `=`. -/
def longOption? (word : String) : Option (String × Option String) :=
  match word.toList with
  | '-' :: '-' :: rest =>
      let name := String.ofList (rest.takeWhile (· ≠ '='))
      match rest.dropWhile (· ≠ '=') with
      | [] => some (name, none)
      | _ :: value => some (name, some (String.ofList value))
  | _ => none

def verboseFlag : String := "verbose"

def help {α : Type} : Except Usage α := .error (.help (usage ++ "\n"))

def asksForHelp (word : String) : Bool := word == "-h" || word == "--help"

/-- Every command knows `-v` and `--verbose`, `-h` and `--help`. -/
def readWords (grammar : Grammar) (arguments : Arguments) :
    List String → Except Usage Arguments
  | [] => .ok arguments
  | word :: rest =>
      if word = "--" then rest.foldlM (Arguments.addOperand grammar) arguments
      else if asksForHelp word then help
      else if word = "-v" then do
        readWords grammar (← arguments.addFlag verboseFlag) rest
      else match longOption? word with
        | some (name, value?) =>
            if name = verboseFlag ∨ name ∈ grammar.flags then
              if value?.isSome then .error .misuse
              else do readWords grammar (← arguments.addFlag name) rest
            else if name ∈ grammar.options then
              match value?, rest with
              | some value, rest => do
                  readWords grammar (← arguments.addOption name value) rest
              | none, value :: rest =>
                  if looksLikeOption value then .error .misuse
                  else do readWords grammar (← arguments.addOption name value) rest
              | none, [] => .error .misuse
            else .error .misuse
        | none =>
            if looksLikeOption word then .error .misuse
            else do readWords grammar (← arguments.addOperand grammar word) rest

namespace Command

def readTokens (words : List String) : Except Usage Command := do
  let a ← readWords ⟨["whitespace", "json"], ["type"], 1⟩ .empty words
  let [path] := a.operands | .error .misuse
  return .tokens path (a.option? "type") (a.hasFlag "whitespace") (a.hasFlag "json")

def readCompile (words : List String) : Except Usage Command := do
  let a ← readWords ⟨["json", "strict", "no-host"], ["struct"], 1⟩ .empty words
  let [path] := a.operands | .error .misuse
  return .compile path (a.option? "struct") (a.hasFlag "json") (a.hasFlag "strict")
    (!a.hasFlag "no-host")

def readNew (words : List String) : Except Usage Command := do
  let a ← readWords ⟨["json"], ["type"], 1⟩ .empty words
  let [path] := a.operands | .error .misuse
  return .new path (← a.required "type") (a.hasFlag "json")

def readReply (words : List String) : Except Usage Command := do
  let a ← readWords ⟨["inspect", "json"], ["type", "records"], 2⟩ .empty words
  let [cataloguePath, replyPath] := a.operands | .error .misuse
  return .reply cataloguePath replyPath (← a.required "type") (← a.required "records")
    (a.hasFlag "inspect") (a.hasFlag "json")

/-- The commands by their names. -/
def readers : List (String × (List String → Except Usage Command)) :=
  [("tokens", readTokens), ("compile", readCompile), ("new", readNew), ("reply", readReply)]

/-- The word `help` may be followed by the name of a command. -/
def readNamed (name : String) (words : List String) : Except Usage Command :=
  if asksForHelp name then help
  else if name = "help" then
    match words with
    | [] => help
    | [other] =>
        if other = "help" ∨ (readers.lookup other).isSome then help
        else .error .misuse
    | _ => .error .misuse
  else match readers.lookup name with
    | some read => read words
    | none => .error .misuse

/-- Only the flag for more messages may stand before the command's name; there are no messages. -/
def read : List String → Except Usage Command
  | [] => .error .misuse
  | word :: rest =>
      if word = "-v" ∨ word = "--" ++ verboseFlag then
        match rest with
        | [] => .error .misuse
        | name :: rest => readNamed name rest
      else readNamed word rest

end Command

end RecordSchema.Cli
