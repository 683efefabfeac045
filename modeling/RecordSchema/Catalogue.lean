import RecordSchema.Error
import RecordSchema.Text

/-! Lists of type descriptions, and the host's text layout of them: a line that starts with a word
opens a description, indented lines and lines that start with `}` continue it, and a blank line
ends it. -/

namespace RecordSchema

inductive Compression where
  | none | zstd
  deriving DecidableEq, Repr

def Compression.label : Compression → String
  | .none => "none"
  | .zstd => "zstd"

/-- `compression` tells what the catalogue was read from. -/
structure Catalogue where
  entries : List String
  compression : Compression
  deriving DecidableEq, Repr

namespace Catalogue

def ofEntries (entries : List String) : Catalogue := ⟨entries, .none⟩

def size (catalogue : Catalogue) : Nat := catalogue.entries.length

def isEmpty (catalogue : Catalogue) : Bool := catalogue.entries.isEmpty

/-- Descriptions that have ended, and the one that may still go on. -/
structure Splitting where
  closed : Array String
  current : Option String
  deriving DecidableEq, Repr

namespace Splitting

def empty : Splitting := ⟨#[], none⟩

/-- All descriptions, the open one included. -/
def close : Splitting → Array String
  | ⟨closed, none⟩ => closed
  | ⟨closed, some entry⟩ => closed.push entry

end Splitting

def continues (line : String) : Bool :=
  line.startsWith fun c : Char => c == ' ' || c == '\t' || c == '\x7d'

def addLine (splitting : Splitting) (line : String) : Splitting :=
  if Text.isBlank line then ⟨splitting.close, none⟩
  else match splitting with
    | ⟨closed, some entry⟩ =>
        if continues line then ⟨closed, some (entry ++ "\n" ++ line)⟩
        else ⟨closed.push entry, some line⟩
    | ⟨closed, none⟩ => ⟨closed, some line⟩

def parse (text : String) : Catalogue :=
  ofEntries ((Text.lines text).foldl addLine .empty).close.toList

end Catalogue

end RecordSchema
