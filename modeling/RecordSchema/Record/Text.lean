import RecordSchema.Double.Shortest
import RecordSchema.Record

/-! Records as indented text for reading, cut off where they grow too long or too deep. -/

namespace RecordSchema.RecordText

/-- How much of a record is shown; string lengths count characters. -/
structure Limits where
  fields : Nat
  characters : Nat
  items : Nat
  depth : Nat
  deriving DecidableEq, Repr

def Limits.forOne : Limits := ⟨80, 200, 16, 6⟩

/-- For each of many records. -/
def Limits.forMany : Limits := ⟨40, 120, 8, 4⟩

/-- All digits of the shortest decimal, and a point only if some come after it. -/
def doubleText (x : Double) : String :=
  if x.isNaN then "NaN"
  else
    let sign := if x.isNegative then "-" else ""
    if x.isInfinite then sign ++ "inf"
    else
      let (whole, fraction) := (Double.shortest .up x.magnitude).positional
      sign ++ whole ++ (if fraction.isEmpty then "" else "." ++ fraction)

def shortened (text : String) (characters : Nat) : String :=
  if characters < text.length then (text.take characters).copy ++ "..." else text

/-- The type, with the kind of wrapper and the identity if there are any. -/
def label (r : Record) : String :=
  let name := match r.shape with
    | .struct => r.typeName
    | .entity category => r.typeName ++ "<entity:" ++ category ++ ">"
    | .asset => r.typeName ++ "<asset>"
  let name := if name.isEmpty then "<anonymous>" else name
  match r.identity with
  | none => name
  | some n => name ++ " #" ++ toString n.toInt

def pad (indent : Nat) : String := String.ofList (List.replicate indent ' ')

def scalarText (limits : Limits) : Value → String
  | .null => "null"
  | .bool b => if b then "true" else "false"
  | .int n => toString n.toInt
  | .double x => doubleText x
  | .string s => "\"" ++ shortened s limits.characters ++ "\""
  | .array _ => "[]"
  | .record r => label r

/-- Records and lists start on a line of their own. -/
def isNested : Value → Bool
  | .array _ | .record _ => true
  | _ => false

/-- One more line after `out`. -/
def writeLine (out : String) (indent : Nat) (text : String) : String :=
  out ++ pad indent ++ text ++ "\n"

mutual
/-- The lines of a value after `out`. -/
def writeValue (limits : Limits) (out : String) (indent depth : Nat) : Value → String
  | .array items =>
      if limits.depth ≤ depth then
        writeLine out indent ("[... " ++ toString items.length ++ " items]")
      else
        let out := writeLine out indent "["
        let out := writeItems limits out (indent + 2) (depth + 1) limits.items items
        writeLine out indent "]"
  | .record r => writeRecord limits out indent depth r
  | value => writeLine out indent (scalarText limits value)

/-- The first `count` items, and how many more there are. -/
def writeItems (limits : Limits) (out : String) (indent depth : Nat) :
    Nat → List Value → String
  | _, [] => out
  | 0, item :: rest =>
      writeLine out indent ("... " ++ toString (item :: rest).length ++ " more")
  | count + 1, item :: rest =>
      writeItems limits (writeValue limits out indent depth item) indent depth count rest

def writeRecord (limits : Limits) (out : String) (indent depth : Nat) : RecordOf Value → String
  | ⟨typeName, shape, identity, fields⟩ =>
      let name := label ⟨typeName, shape, identity, []⟩
      if limits.depth ≤ depth then writeLine out indent (name ++ " \x7b ... \x7d")
      else
        let out := writeLine out indent (name ++ " \x7b")
        let out := writeFields limits out (indent + 2) (depth + 1) limits.fields fields
        writeLine out indent "\x7d"

/-- The first `count` fields, and how many more there are. -/
def writeFields (limits : Limits) (out : String) (indent depth : Nat) :
    Nat → List (String × Value) → String
  | _, [] => out
  | 0, field :: rest =>
      writeLine out indent ("... " ++ toString (field :: rest).length ++ " more fields")
  | count + 1, (name, value) :: rest =>
      let out := out ++ pad indent ++ name ++ " = "
      let out :=
        if isNested value then writeValue limits (out ++ "\n") (indent + 2) depth value
        else writeValue limits out 0 depth value
      writeFields limits out indent depth count rest
end

/-- A named value that belongs to no record; nested values follow on the same line. -/
def writeNamed (limits : Limits) (out : String) (name : String) (value : Value) : String :=
  writeValue limits (out ++ name ++ " = ") 0 0 value

end RecordSchema.RecordText
