import RecordSchema.Double.Shortest
import RecordSchema.Json
import RecordSchema.Text

/-! JSON values as text, on one line or indented by two spaces a level. -/

namespace RecordSchema.Json

/-- Only the quote, the backslash and the controls below the space are escaped. -/
def escapedChar (c : Char) : List Char :=
  match c with
  | '"' => ['\\', '"']
  | '\\' => ['\\', '\\']
  | '\n' => ['\\', 'n']
  | '\r' => ['\\', 'r']
  | '\t' => ['\\', 't']
  | '\x08' => ['\\', 'b']
  | '\x0c' => ['\\', 'f']
  | _ =>
      if c.toNat < 0x10 then ['\\', 'u', '0', '0', '0'] ++ Text.hexDigits c.toNat
      else if c.toNat < 0x20 then ['\\', 'u', '0', '0'] ++ Text.hexDigits c.toNat
      else [c]

def stringText (s : String) : String :=
  String.ofList ('"' :: s.toList.flatMap escapedChar ++ ['"'])

/-- Numbers from `10 ^ -5` up to `10 ^ 16` are written out, with a digit after the point at least;
all others by powers of ten. -/
def doubleText (x : Double) : String :=
  let decimal := Double.shortest .toEven x.magnitude
  let sign := if x.isNegative then "-" else ""
  if -5 < decimal.point ∧ decimal.point ≤ 16 then
    let (whole, fraction) := decimal.positional
    sign ++ whole ++ "." ++ (if fraction.isEmpty then "0" else fraction)
  else sign ++ decimal.scientific

def numberText : JsonNumber → String
  | .integer n _ => toString n
  | .double x _ => doubleText x

def scalarText : Json → String
  | null => "null"
  | bool true => "true"
  | bool false => "false"
  | number n => numberText n
  | string s => stringText s
  | array _ => "[]"
  | object _ => "\x7b\x7d"

mutual
/-- The text of a value after `out`. -/
def write (out : String) : Json → String
  | array items => (writeItems (out ++ "[") true items) ++ "]"
  | object fields => (writeFields (out ++ "\x7b") true fields) ++ "\x7d"
  | value => out ++ scalarText value

def writeItems (out : String) (isFirst : Bool) : List Json → String
  | [] => out
  | item :: rest => writeItems (write (if isFirst then out else out ++ ",") item) false rest

def writeFields (out : String) (isFirst : Bool) : List (String × Json) → String
  | [] => out
  | (key, value) :: rest =>
      writeFields (write ((if isFirst then out else out ++ ",") ++ stringText key ++ ":") value)
        false rest
end

/-- The text without any space. -/
def compact (value : Json) : String := write "" value

/-- A new line at some level of nesting. -/
def newLine (level : Nat) : String := "\n" ++ String.ofList (List.replicate (2 * level) ' ')

mutual
def writePretty (out : String) (level : Nat) : Json → String
  | array (item :: rest) =>
      let out := writePretty (out ++ "[" ++ newLine (level + 1)) (level + 1) item
      writePrettyItems out (level + 1) rest ++ newLine level ++ "]"
  | object ((key, value) :: rest) =>
      let out := out ++ "\x7b" ++ newLine (level + 1) ++ stringText key ++ ": "
      let out := writePretty out (level + 1) value
      writePrettyFields out (level + 1) rest ++ newLine level ++ "\x7d"
  | value => out ++ scalarText value

def writePrettyItems (out : String) (level : Nat) : List Json → String
  | [] => out
  | item :: rest =>
      writePrettyItems (writePretty (out ++ "," ++ newLine level) level item) level rest

def writePrettyFields (out : String) (level : Nat) : List (String × Json) → String
  | [] => out
  | (key, value) :: rest =>
      let out := out ++ "," ++ newLine level ++ stringText key ++ ": "
      writePrettyFields (writePretty out level value) level rest
end

/-- The text with each item and field on a line of its own. -/
def pretty (value : Json) : String := writePretty "" 0 value

end RecordSchema.Json
