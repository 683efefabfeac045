import RecordSchema.Record.Encode
import RecordSchema.Registry

/-! JSON replies as records. A plain object becomes a struct whose type is declared by the field
that holds it, or else is that field's name; an object with a wrapper's keys names its own type. -/

namespace RecordSchema.Reply

/-- How deep objects may be nested and how many items a list may have. -/
structure Limits where
  maxDepth : Nat := 32
  maxItems : Nat := 10000
  deriving DecidableEq, Repr

/-- Limits for a quick look at a reply. -/
def Limits.forInspection : Limits := ⟨12, 1000⟩

def checkCount (limits : Limits) (count : Nat) : Except Error Unit :=
  if limits.maxItems < count then .error (.arrayTooLarge count limits.maxItems) else .ok ()

/-- Integers of 64 bits stay integers; the others become the nearest double. -/
def numberValue : JsonNumber → Value
  | .integer n _ => if n < 0x8000000000000000 then .int (Int64.ofInt n) else .double (Double.ofInt n)
  | .double x _ => .double x

/-- A wrapper has its type and its field collection; the type key of an entity counts first. -/
def wrapper? (fields : List (String × Json)) : Option Wrapper :=
  let has := fun key => (Fields.lookup key fields).isSome
  if has Wrapper.entity.typeKey then
    if has Wrapper.collectionKey then some .entity else none
  else if has Wrapper.asset.typeKey then
    if has Wrapper.collectionKey then some .asset else none
  else none

def stringAt (key : String) (fields : List (String × Json)) : Option String :=
  (Fields.lookup key fields).bind Json.string?

/-- A wrapper's record before its fields: a missing name is empty, a missing category is the
default. -/
def wrapperHeader (wrapper : Wrapper) (fields : List (String × Json)) : Record :=
  let type := ((Fields.lookup wrapper.typeKey fields).bind Json.object?).getD []
  let name := (stringAt Wrapper.nameKey type).getD ""
  match wrapper with
  | .entity =>
      .entity name ((stringAt Wrapper.categoryKey type).getD RecordOf.defaultCategory)
  | .asset => .asset name

/-- The identity of a wrapper is an integer of 64 bits, or null or missing. -/
def wrapperIdentity (fields : List (String × Json)) : Except Error (Option Int64) :=
  match Fields.lookup Wrapper.identityKey fields with
  | none | some .null => .ok none
  | some (.number (.integer n fits)) =>
      if n < 0x8000000000000000 then .ok (some (Int64.ofInt n))
      else .error (.identityNotNumeric (Json.number (.integer n fits)).kind)
  | some other => .error (.identityNotNumeric other.kind)

/-- The record an object opens, still without fields, and the wrapper that it is, if any. -/
def opening (limits : Limits) (hint : String) (depth : Nat) (fields : List (String × Json)) :
    Except Error (Option Wrapper × Record) :=
  if limits.maxDepth ≤ depth then .error (.depthExceeded limits.maxDepth)
  else match wrapper? fields with
    | none => .ok (none, .struct hint)
    | some wrapper => do
        let identity ← wrapperIdentity fields
        return (some wrapper, (wrapperHeader wrapper fields).setIdentity identity)

def entriesPath (wrapper : Wrapper) : String :=
  Wrapper.collectionKey ++ "." ++ wrapper.entriesKey

def entryName (wrapper : Wrapper) (fields : List (String × Json)) : Except Error String :=
  match Fields.lookup Wrapper.entryNameKey fields with
  | some (.string name) => .ok name
  | some other =>
      .error (.replyShape (entriesPath wrapper ++ "." ++ Wrapper.entryNameKey) other.kind)
  | none => .error (.replyShape (entriesPath wrapper ++ "." ++ Wrapper.entryNameKey) .null)

variable (registry : Registry) (limits : Limits)

mutual
/-- A value read as type `hint`, inside `depth` arrays and objects. -/
def decodeValue (hint : String) (depth : Nat) : Json → Except Error Value
  | .null => .ok .null
  | .bool b => .ok (.bool b)
  | .number n => .ok (numberValue n)
  | .string s => .ok (.string s)
  | .array items => do
      checkCount limits items.length
      return .array (← decodeItems hint (depth + 1) items)
  | .object fields => do
      match ← opening limits hint depth fields with
      | (none, record) =>
          return .record (← decodeFields (registry.lookup hint) (depth + 1) record fields)
      | (some wrapper, record) =>
          return .record (← decodeCollection wrapper (depth + 1) record fields)

def decodeItems (hint : String) (depth : Nat) : List Json → Except Error (List Value)
  | [] => .ok []
  | item :: rest => do
      let value ← decodeValue hint depth item
      return value :: (← decodeItems hint depth rest)

/-- The fields of a struct, written to `record` in order. -/
def decodeFields (descriptor : Option Descriptor) (depth : Nat) (record : Record) :
    List (String × Json) → Except Error Record
  | [] => .ok record
  | (name, json) :: rest => do
      let value ← decodeValue (Descriptor.hint descriptor name) depth json
      decodeFields descriptor depth (← record.set name value) rest

/-- The fields of a wrapper, which are kept under its collection key. -/
def decodeCollection (wrapper : Wrapper) (depth : Nat) (record : Record) :
    List (String × Json) → Except Error Record
  | [] => .ok record
  | (key, json) :: rest =>
      if key = Wrapper.collectionKey then
        match json with
        | .object collection => decodeEntries wrapper depth record collection
        | _ => .ok record
      else decodeCollection wrapper depth record rest

/-- The list of entries within a collection. One entry may stand for a list of one. -/
def decodeEntries (wrapper : Wrapper) (depth : Nat) (record : Record) :
    List (String × Json) → Except Error Record
  | [] => .ok record
  | (key, json) :: rest =>
      if key = wrapper.entriesKey then
        match json with
        | .null => .ok record
        | .array entries => do
            checkCount limits entries.length
            decodeEntryList wrapper depth record entries
        | .object entry => do
            checkCount limits 1
            decodeEntry wrapper depth record (.object entry)
        | other => .error (.replyShape (entriesPath wrapper) other.kind)
      else decodeEntries wrapper depth record rest

def decodeEntryList (wrapper : Wrapper) (depth : Nat) (record : Record) :
    List Json → Except Error Record
  | [] => .ok record
  | entry :: rest => do
      decodeEntryList wrapper depth (← decodeEntry wrapper depth record entry) rest

def decodeEntry (wrapper : Wrapper) (depth : Nat) (record : Record) : Json → Except Error Record
  | .object entry => do
      let name ← entryName wrapper entry
      record.set name (← decodeEntryValue name depth entry)
  | other => .error (.replyShape (entriesPath wrapper) other.kind)

/-- The value of an entry, null if it has none. -/
def decodeEntryValue (name : String) (depth : Nat) : List (String × Json) → Except Error Value
  | [] => .ok .null
  | (key, json) :: rest =>
      if key = Wrapper.entryValueKey then decodeValue name depth json
      else decodeEntryValue name depth rest
end

def decodeObject (hint : String) (depth : Nat) (fields : List (String × Json)) :
    Except Error Record := do
  match ← opening limits hint depth fields with
  | (none, record) => decodeFields registry limits (registry.lookup hint) (depth + 1) record fields
  | (some wrapper, record) => decodeCollection registry limits wrapper (depth + 1) record fields

theorem decodeValue_object (hint : String) (depth : Nat) (fields : List (String × Json)) :
    decodeValue registry limits hint depth (.object fields) =
      Value.record <$> decodeObject registry limits hint depth fields := by
  simp only [decodeValue, decodeObject]
  cases opening limits hint depth fields with
  | error e => rfl
  | ok opened =>
      obtain ⟨wrapper, record⟩ := opened
      cases wrapper with
      | none =>
          change (decodeFields .. >>= _) = _ <$> decodeFields ..
          cases decodeFields registry limits (registry.lookup hint) (depth + 1) record fields <;>
            rfl
      | some wrapper =>
          change (decodeCollection .. >>= _) = _ <$> decodeCollection ..
          cases decodeCollection registry limits wrapper (depth + 1) record fields <;> rfl

/-- A reply is an object, read as a struct of the given type unless it is a wrapper. -/
def decode (typeName : String) : Json → Except Error Record
  | .object fields => decodeObject registry limits typeName 0 fields
  | other => .error (.replyNotObject other.kind)

/-- A reply from its text, as the reader takes it. -/
def decodeTextBy (read : Json.TextReader Json) (typeName : String) (bytes : List UInt8) :
    Except Error Record := do
  match read bytes with
  | .error fault => .error (.json fault)
  | .ok payload => decode registry limits typeName payload

end RecordSchema.Reply
