import RecordSchema.Error

/-! What a decoder of Zstandard frames yields, and reading it piece by piece up to some number of
bytes. -/

namespace RecordSchema.Zstd

/-- The bytes a frame starts with. -/
def magic : List UInt8 := [0x28, 0xb5, 0x2f, 0xfd]

inductive Chunk where
  | stored (bytes : List UInt8)
  | run (count : Nat) (byte : UInt8)
  deriving DecidableEq, Repr

namespace Chunk

def size : Chunk → Nat
  | stored bytes => bytes.length
  | run count _ => count

def toList : Chunk → List UInt8
  | stored bytes => bytes
  | run count byte => List.replicate count byte

/-- Append the chunk's bytes. -/
def pushTo (out : ByteArray) : Chunk → ByteArray
  | stored bytes => bytes.foldl ByteArray.push out
  | run count byte => Nat.repeat (fun out => out.push byte) count out

/-- The first `count` bytes, or as many as there are. -/
def take (count : Nat) : Chunk → Chunk
  | stored bytes => stored (bytes.take count)
  | run total byte => run (min count total) byte

/-- What stands behind the first `count` bytes. -/
def drop (count : Nat) : Chunk → Chunk
  | stored bytes => stored (bytes.drop count)
  | run total byte => run (total - count) byte

def totalSize (chunks : List Chunk) : Nat :=
  chunks.foldr (fun chunk total => chunk.size + total) 0

/-- The bytes of chunks, one behind the other. -/
def join (chunks : List Chunk) : ByteArray := chunks.foldl pushTo .empty

end Chunk

/-- What a decoder yields, and whether it came to the end of its input without a fault. -/
structure Yield where
  chunks : List Chunk
  isComplete : Bool
  deriving DecidableEq, Repr

namespace Yield

def fault : Yield := ⟨[], false⟩

def complete : Yield := ⟨[], true⟩

def cons (chunk : Chunk) (rest : Yield) : Yield := { rest with chunks := chunk :: rest.chunks }

def toList (yielded : Yield) : List UInt8 := yielded.chunks.flatMap Chunk.toList

end Yield

/-- Read at most `room` bytes. Chunks that hold none are passed over, so that there is nothing to
read only at the end. -/
def Yield.read (room : Nat) (yielded : Yield) : Except Error (Option (Chunk × Yield)) :=
  match yielded.chunks.dropWhile (·.size == 0) with
  | [] => if yielded.isComplete then .ok none else .error .io
  | chunk :: rest => .ok (some (chunk.take room, { yielded with chunks := chunk.drop room :: rest }))

theorem Chunk.size_take_pos {chunk : Chunk} {room : Nat} (hc : chunk.size ≠ 0) (hr : room ≠ 0) :
    0 < (chunk.take room).size := by
  cases chunk with
  | stored bytes =>
      simp only [size] at hc
      simp only [take, size, List.length_take]
      omega
  | run total byte =>
      simp only [size] at hc
      simp only [take, size]
      omega

theorem Yield.size_pos_of_read {yielded rest : Yield} {room : Nat} {chunk : Chunk}
    (h : yielded.read room = .ok (some (chunk, rest))) (hr : room ≠ 0) : 0 < chunk.size := by
  have hhead := List.head?_dropWhile_not (fun chunk : Chunk => chunk.size == 0) yielded.chunks
  simp only [read] at h
  split at h
  · split at h <;> cases h
  · rename_i hchunks
    rw [hchunks] at hhead
    obtain ⟨rfl, -⟩ := Prod.mk.inj (Option.some.inj (Except.ok.inj h))
    exact Chunk.size_take_pos (beq_eq_false_iff_ne.mp hhead) hr

/-- A decoder that is read as if it ended after `allowance` more bytes. -/
structure Limited where
  source : Yield
  allowance : Nat
  deriving DecidableEq, Repr

namespace Limited

/-- The decoder is asked for nothing more once all that is allowed was read. -/
def read (limited : Limited) : Except Error (Option (Chunk × Limited)) :=
  if limited.allowance = 0 then .ok none
  else match limited.source.read limited.allowance with
    | .error e => .error e
    | .ok none => .ok none
    | .ok (some (chunk, rest)) => .ok (some (chunk, ⟨rest, limited.allowance - chunk.size⟩))

/-- Every piece that is read uses up some of the allowance. -/
theorem allowance_lt_of_read {limited rest : Limited} {chunk : Chunk}
    (h : limited.read = .ok (some (chunk, rest))) : rest.allowance < limited.allowance := by
  simp only [read] at h
  split at h
  · cases h
  · rename_i hallowance
    split at h
    · cases h
    · cases h
    · rename_i hread
      obtain ⟨rfl, rfl⟩ := Prod.mk.inj (Option.some.inj (Except.ok.inj h))
      have hsize := Yield.size_pos_of_read hread hallowance
      exact Nat.sub_lt (Nat.pos_of_ne_zero hallowance) hsize

set_option linter.unusedVariables false in
/-- Read until there is no more, or a fault. -/
def readToEnd (limited : Limited) : Except Error (List Chunk) :=
  match h : limited.read with
  | .error e => .error e
  | .ok none => .ok []
  | .ok (some (chunk, rest)) => do return chunk :: (← rest.readToEnd)
termination_by limited.allowance
decreasing_by exact allowance_lt_of_read h

end Limited

end RecordSchema.Zstd
