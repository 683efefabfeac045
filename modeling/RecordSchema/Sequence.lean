import RecordSchema.Path

/-! The records of a reply as one sequence, whether the reply holds none, one or many. -/

namespace RecordSchema

/-- The records, and the reply they were taken from. -/
structure Sequence where
  records : List Record
  reply? : Option Record

namespace Sequence

def recordOf (path : String) : Value → Except Error Record
  | .record r => .ok r
  | other => .error (.replyShape path other.kind)

/-- Null holds no record, a record holds itself, an array must hold records only. -/
def normalize (path : String) : Value → Except Error (List Record)
  | .null => .ok []
  | .record r => .ok [r]
  | .array items => items.mapM (recordOf path)
  | other => .error (.replyShape path other.kind)

def ofReply (reply : Record) (path : Path) : Except Error Sequence := do
  let records ← match path.resolve reply with
    | some value => normalize path.source value
    | none => pure []
  return ⟨records, some reply⟩

/-- The path of a value that belongs to no reply. -/
def valuePath : String := "<value>"

def ofValue (value : Value) : Except Error Sequence := do
  return ⟨← normalize valuePath value, none⟩

def ofRecords (records : List Record) : Sequence := ⟨records, none⟩

def size (s : Sequence) : Nat := s.records.length

def isEmpty (s : Sequence) : Bool := s.records.isEmpty

def get? (s : Sequence) (i : Nat) : Option Record := s.records[i]?

/-- Another top-level field of the reply. -/
def field? (s : Sequence) (name : String) : Option Value := s.reply?.bind (·.field? name)

end Sequence

end RecordSchema
