import RecordSchema.Error

/-! Last in, first out. Reading or removing the top of an empty stack is an error. -/

namespace RecordSchema

/-- The head of `items` is the top. -/
structure Stack (α : Type) where
  items : List α
  deriving DecidableEq, Repr

namespace Stack
variable {α : Type}

def empty : Stack α := ⟨[]⟩

def size (s : Stack α) : Nat := s.items.length

def isEmpty (s : Stack α) : Bool := s.items.isEmpty

def push (a : α) (s : Stack α) : Stack α := ⟨a :: s.items⟩

def top (s : Stack α) : Except Error α :=
  match s.items with
  | [] => .error (.stackUnderflow .top)
  | a :: _ => .ok a

def pop (s : Stack α) : Except Error (α × Stack α) :=
  match s.items with
  | [] => .error (.stackUnderflow .pop)
  | a :: rest => .ok (a, ⟨rest⟩)

/-- Swap the top for another element; on an empty stack this fails as `pop` does. -/
def replaceTop (a : α) (s : Stack α) : Except Error (Stack α) := do
  let (_, rest) ← s.pop
  return rest.push a

@[simp] theorem top_push (a : α) (s : Stack α) : (s.push a).top = .ok a := rfl

@[simp] theorem pop_push (a : α) (s : Stack α) : (s.push a).pop = .ok (a, s) := rfl

@[simp] theorem replaceTop_push (a b : α) (s : Stack α) :
    (s.push a).replaceTop b = .ok (s.push b) := rfl

end Stack

end RecordSchema
