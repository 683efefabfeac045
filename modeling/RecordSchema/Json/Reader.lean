import RecordSchema.Json

/-! JSON texts as bytes. Of two faults the one further left is reported. -/

namespace RecordSchema.Json

/-- What was read, with the bytes after it. -/
abbrev Read (α : Type) := α × List UInt8

def isBlank (b : UInt8) : Bool := b == 0x20 || b == 0x09 || b == 0x0a || b == 0x0d

def skipBlanks (bytes : List UInt8) : List UInt8 := bytes.dropWhile isBlank

def isDigit (b : UInt8) : Bool := '0'.toUInt8 ≤ b && b ≤ '9'.toUInt8

def digitValue (b : UInt8) : Nat := b.toNat - '0'.toNat

def digitsValue (digits : List UInt8) : Nat :=
  digits.foldl (fun value b => 10 * value + digitValue b) 0

/-- The rest of a keyword whose first letter has been seen. -/
def readKeyword (value : Json) : List Char → List UInt8 → Except JsonFault (Read Json)
  | [], bytes => .ok (value, bytes)
  | _ :: _, [] => .error .endOfText
  | c :: cs, b :: bytes =>
      if b = c.toUInt8 then readKeyword value cs bytes else .error .malformed

/-- At least one digit. -/
def readDigits (bytes : List UInt8) : Except JsonFault (Read (List UInt8)) :=
  match bytes with
  | [] => .error .endOfText
  | b :: _ => if isDigit b then .ok (bytes.span isDigit) else .error .malformed

/-- A zero stands alone before the point. -/
def readWhole (bytes : List UInt8) : Except JsonFault (Read (List UInt8)) := do
  let (digits, rest) ← readDigits bytes
  if digits.length ≠ 1 ∧ digits.head? = some '0'.toUInt8 then .error .malformed
  else return (digits, rest)

def readFraction : List UInt8 → Except JsonFault (Read (Option (List UInt8)))
  | [] => .ok (none, [])
  | b :: bytes =>
      if b = '.'.toUInt8 then do
        let (digits, rest) ← readDigits bytes
        return (some digits, rest)
      else .ok (none, b :: bytes)

/-- A sign that may be missing; whether it is a minus. -/
def readSign : List UInt8 → Bool × List UInt8
  | [] => (false, [])
  | b :: bytes =>
      if b = '-'.toUInt8 then (true, bytes)
      else if b = '+'.toUInt8 then (false, bytes)
      else (false, b :: bytes)

def readExponent : List UInt8 → Except JsonFault (Read (Option Int))
  | [] => .ok (none, [])
  | b :: bytes =>
      if b = 'e'.toUInt8 ∨ b = 'E'.toUInt8 then do
        let (isNegative, rest) := readSign bytes
        let (digits, rest) ← readDigits rest
        let n : Int := digitsValue digits
        return (some (if isNegative then -n else n), rest)
      else .ok (none, b :: bytes)

/-- The double nearest to a decimal; one out of range is refused. -/
def doubleNumber (isNegative : Bool) (digits : Nat) (exponent : Int) :
    Except JsonFault JsonNumber :=
  let x := Double.ofMagnitude isNegative (Double.ofDecimal digits exponent)
  if h : x.isFinite = true then .ok (.double x h) else .error .malformed

/-- Digits alone are an integer if they fit; zero with a minus is a double. -/
def wholeNumber (isNegative : Bool) (digits : Nat) : Except JsonFault JsonNumber :=
  let n : Int := if isNegative then -digits else digits
  if h : -0x8000000000000000 ≤ n ∧ n < 0x10000000000000000 then
    if isNegative ∧ digits = 0 then doubleNumber true 0 0 else .ok (.integer n h)
  else doubleNumber isNegative digits 0

/-- A number after its minus, if it has one. -/
def readNumber (isNegative : Bool) (bytes : List UInt8) : Except JsonFault (Read JsonNumber) := do
  let (whole, rest) ← readWhole bytes
  let (fraction, rest) ← readFraction rest
  let (exponent, rest) ← readExponent rest
  let number ← match fraction, exponent with
    | none, none => wholeNumber isNegative (digitsValue whole)
    | _, _ =>
        let fraction := fraction.getD []
        doubleNumber isNegative (digitsValue (whole ++ fraction))
          (exponent.getD 0 - fraction.length)
  return (number, rest)

def hexValue (b : UInt8) : Option Nat :=
  if isDigit b then some (digitValue b)
  else if 'a'.toUInt8 ≤ b && b ≤ 'f'.toUInt8 then some (b.toNat - 'a'.toNat + 10)
  else if 'A'.toUInt8 ≤ b && b ≤ 'F'.toUInt8 then some (b.toNat - 'A'.toNat + 10)
  else none

/-- A unit of 16 bits from its four digits. -/
def hexUnit (a b c d : UInt8) : Option Nat := do
  return (((← hexValue a) * 16 + (← hexValue b)) * 16 + (← hexValue c)) * 16 + (← hexValue d)

def isHighSurrogate (unit : Nat) : Bool := 0xd800 ≤ unit && unit ≤ 0xdbff

def isLowSurrogate (unit : Nat) : Bool := 0xdc00 ≤ unit && unit ≤ 0xdfff

def surrogatePair (high low : Nat) : Char :=
  Char.ofNat (0x10000 + (high - 0xd800) * 0x400 + (low - 0xdc00))

/-- The character that a letter after a backslash stands for. -/
def escapeLetter (b : UInt8) : Option UInt8 :=
  if b = '"'.toUInt8 ∨ b = '\\'.toUInt8 ∨ b = '/'.toUInt8 then some b
  else if b = 'b'.toUInt8 then some 0x08
  else if b = 'f'.toUInt8 then some 0x0c
  else if b = 'n'.toUInt8 then some 0x0a
  else if b = 'r'.toUInt8 then some 0x0d
  else if b = 't'.toUInt8 then some 0x09
  else none

def pushChar (bytes : ByteArray) (c : Char) : ByteArray :=
  (String.utf8EncodeChar c).foldl ByteArray.push bytes

/-- A string after its opening quote, behind the bytes already read. Bytes that are no UTF-8 are
reported only at the closing quote. -/
def readString (seen : ByteArray) : List UInt8 → Except JsonFault (Read String)
  | [] => .error .endOfText
  | b :: rest =>
      if b = '"'.toUInt8 then
        match String.fromUTF8? seen with
        | some text => .ok (text, rest)
        | none => .error .malformed
      else if b < 0x20 then .error .malformed
      else if b ≠ '\\'.toUInt8 then readString (seen.push b) rest
      else match rest with
        | [] => .error .endOfText
        | letter :: rest =>
            if letter ≠ 'u'.toUInt8 then
              match escapeLetter letter with
              | some c => readString (seen.push c) rest
              | none => .error .malformed
            else match rest with
              | h₁ :: h₂ :: h₃ :: h₄ :: rest =>
                  match hexUnit h₁ h₂ h₃ h₄ with
                  | none => .error .malformed
                  | some high =>
                      if isLowSurrogate high then .error .malformed
                      else if !isHighSurrogate high then
                        readString (pushChar seen (Char.ofNat high)) rest
                      else match rest with
                        | [] => .error .endOfText
                        | backslash :: rest =>
                            if backslash ≠ '\\'.toUInt8 then .error .malformed
                            else match rest with
                              | [] => .error .endOfText
                              | letter :: rest =>
                                  if letter ≠ 'u'.toUInt8 then .error .malformed
                                  else match rest with
                                    | h₁ :: h₂ :: h₃ :: h₄ :: rest =>
                                        match hexUnit h₁ h₂ h₃ h₄ with
                                        | none => .error .malformed
                                        | some low =>
                                            if isLowSurrogate low then
                                              readString
                                                (pushChar seen (surrogatePair high low)) rest
                                            else .error .malformed
                                    | _ => .error .endOfText
              | _ => .error .endOfText

/-- A value that is neither array nor object, from its first byte on. -/
def readScalar (b : UInt8) (rest : List UInt8) : Except JsonFault (Read Json) :=
  if b = 'n'.toUInt8 then readKeyword .null ['u', 'l', 'l'] rest
  else if b = 't'.toUInt8 then readKeyword (.bool true) ['r', 'u', 'e'] rest
  else if b = 'f'.toUInt8 then readKeyword (.bool false) ['a', 'l', 's', 'e'] rest
  else if b = '"'.toUInt8 then do
    let (text, rest) ← readString .empty rest
    return (.string text, rest)
  else if b = '-'.toUInt8 then do
    let (n, rest) ← readNumber true rest
    return (.number n, rest)
  else if isDigit b then do
    let (n, rest) ← readNumber false (b :: rest)
    return (.number n, rest)
  else .error .malformed

/-- A key between quotes and the colon after it. -/
def readKey : List UInt8 → Except JsonFault (Read String)
  | [] => .error .endOfText
  | b :: rest =>
      if b = '"'.toUInt8 then do
        let (key, rest) ← readString .empty rest
        match skipBlanks rest with
        | [] => .error .endOfText
        | colon :: rest => if colon = ':'.toUInt8 then .ok (key, rest) else .error .malformed
      else .error .malformed

mutual
/-- A value after blanks; `room` is how many levels of nesting are left. -/
def readValue : Nat → Nat → List UInt8 → Except JsonFault (Read Json)
  | 0, _, _ => .error .malformed
  | fuel + 1, room, bytes =>
      match skipBlanks bytes with
      | [] => .error .endOfText
      | b :: rest =>
          if b = '['.toUInt8 then
            if room = 0 then .error .malformed else readItems fuel (room - 1) #[] (skipBlanks rest)
          else if b = '\x7b'.toUInt8 then
            if room = 0 then .error .malformed else readFields fuel (room - 1) #[] (skipBlanks rest)
          else readScalar b rest

/-- The items of an array up to its end, behind those already read. -/
def readItems : Nat → Nat → Array Json → List UInt8 → Except JsonFault (Read Json)
  | 0, _, _, _ => .error .malformed
  | _, _, _, [] => .error .endOfText
  | fuel + 1, room, items, b :: rest =>
      if b = ']'.toUInt8 then .ok (.array items.toList, rest)
      else if items.isEmpty then readNextItem fuel room items (b :: rest)
      else if b ≠ ','.toUInt8 then .error .malformed
      else match skipBlanks rest with
        | [] => .error .endOfText
        | b :: rest =>
            if b = ']'.toUInt8 then .error .malformed
            else readNextItem fuel room items (b :: rest)

def readNextItem : Nat → Nat → Array Json → List UInt8 → Except JsonFault (Read Json)
  | 0, _, _, _ => .error .malformed
  | fuel + 1, room, items, bytes =>
      match readValue fuel room bytes with
      | .error fault => .error fault
      | .ok (item, rest) => readItems fuel room (items.push item) (skipBlanks rest)

/-- The fields of an object up to its end, behind those already read. -/
def readFields : Nat → Nat → Array (String × Json) → List UInt8 → Except JsonFault (Read Json)
  | 0, _, _, _ => .error .malformed
  | _, _, _, [] => .error .endOfText
  | fuel + 1, room, fields, b :: rest =>
      if b = '\x7d'.toUInt8 then .ok (.object (Fields.ofEntries fields), rest)
      else if fields.isEmpty then readNextField fuel room fields (b :: rest)
      else if b ≠ ','.toUInt8 then .error .malformed
      else readNextField fuel room fields (skipBlanks rest)

def readNextField : Nat → Nat → Array (String × Json) → List UInt8 → Except JsonFault (Read Json)
  | 0, _, _, _ => .error .malformed
  | fuel + 1, room, fields, bytes =>
      match readKey bytes with
      | .error fault => .error fault
      | .ok (key, rest) =>
          match readValue fuel room rest with
          | .error fault => .error fault
          | .ok (value, rest) =>
              readFields fuel room (fields.push (key, value)) (skipBlanks rest)
end

/-- Three steps are taken for each byte at most. -/
def stepsFor (bytes : List UInt8) : Nat := 3 * bytes.length + 3

/-- Nothing but blanks may follow the value. -/
def atEnd {α : Type} : Read α → Except JsonFault α
  | (value, rest) => if (skipBlanks rest).isEmpty then .ok value else .error .malformed

/-- The value that a whole text holds, nested no deeper than `room`. -/
def parseWithin (room : Nat) (bytes : List UInt8) : Except JsonFault Json :=
  readValue (stepsFor bytes) room bytes >>= atEnd

/-- The value that a whole text holds. -/
def parse : TextReader Json := parseWithin maxNesting

/-- A value that was to be of another kind. Scalars are read to their end first, so that a fault
within one wins. -/
def refuse {α : Type} (b : UInt8) (rest : List UInt8) : Except JsonFault α :=
  if b = '['.toUInt8 ∨ b = '\x7b'.toUInt8 then .error .wrongShape
  else do
    let _ ← readScalar b rest
    .error .wrongShape

/-- The strings of an array up to its end, behind those already read. -/
def readStrings : Nat → Array String → List UInt8 → Except JsonFault (Read (List String))
  | 0, _, _ => .error .malformed
  | _, _, [] => .error .endOfText
  | fuel + 1, strings, b :: rest => do
      if b = ']'.toUInt8 then return (strings.toList, rest)
      let next ←
        if strings.isEmpty then pure (b :: rest)
        else if b ≠ ','.toUInt8 then .error .malformed
        else pure (skipBlanks rest)
      match next with
      | [] => .error .endOfText
      | b :: rest =>
          if b = '"'.toUInt8 then
            let (text, rest) ← readString .empty rest
            readStrings fuel (strings.push text) (skipBlanks rest)
          else if b = ']'.toUInt8 then .error .malformed
          else refuse b rest

/-- A text that holds an array of strings. -/
def parseStrings (bytes : List UInt8) : Except JsonFault (List String) :=
  match skipBlanks bytes with
  | [] => .error .endOfText
  | b :: rest =>
      if b = '['.toUInt8 then
        readStrings (bytes.length + 1) #[] (skipBlanks rest) >>= atEnd
      else refuse b rest

end RecordSchema.Json
