import RecordSchema.Zstd.Reading

/-! Zstandard frames of stored and run-length blocks. A stream is decoded to the chunks it yields
before it ends or a fault cuts it off, so that its size is known before any run is written out.
Compressed blocks are faults, and checksums are passed over. -/

namespace RecordSchema.Zstd

/-- A number from its bytes, the least first. -/
def littleEndian : List UInt8 → Nat
  | [] => 0
  | b :: rest => b.toNat + 256 * littleEndian rest

/-- The first `count` bytes and the others, if there are that many. -/
def split? (count : Nat) (bytes : List UInt8) : Option (List UInt8 × List UInt8) :=
  if bytes.length < count then none else some (bytes.splitAt count)

/-- No window may be larger than `2 ^ 27 + 1` bytes. -/
def maxWindow : Nat := 0x8000001

/-- Nor may any block be larger than `2 ^ 17`, or than the window if that is smaller. -/
def maxBlock : Nat := 0x20000

structure Frame where
  window : Nat
  contentSize : Option Nat
  hasChecksum : Bool
  deriving DecidableEq, Repr

def Frame.blockLimit (frame : Frame) : Nat := min frame.window maxBlock

/-- A power of two, plus some eighths of it. -/
def windowSize (descriptor : UInt8) : Nat :=
  let base := 1 <<< (10 + descriptor.toNat / 8)
  base + base / 8 * (descriptor.toNat % 8)

/-- The width of the content size, by its code in the descriptor. -/
def contentSizeWidth (code : Nat) (isSingleSegment : Bool) : Nat :=
  match code with
  | 0 => if isSingleSegment then 1 else 0
  | 1 => 2
  | 2 => 4
  | _ => 8

def dictionaryWidth (code : Nat) : Nat :=
  match code with
  | 0 => 0
  | 1 => 1
  | 2 => 2
  | _ => 4

/-- Content sizes of two bytes start at 256. -/
def contentSizeOf (bytes : List UInt8) : Option Nat :=
  match bytes.length with
  | 0 => none
  | 2 => some (littleEndian bytes + 256)
  | _ => some (littleEndian bytes)

/-- The header behind the magic bytes. There are no dictionaries. -/
def readHeader : List UInt8 → Option (Frame × List UInt8)
  | [] => none
  | descriptor :: rest => do
      let code := descriptor.toNat
      let isSingleSegment := code / 32 % 2 == 1
      if code / 8 % 2 = 1 then none
      let (window, rest) ← split? (if isSingleSegment then 0 else 1) rest
      let (dictionary, rest) ← split? (dictionaryWidth (code % 4)) rest
      let (content, rest) ← split? (contentSizeWidth (code / 64) isSingleSegment) rest
      let contentSize := contentSizeOf content
      let window := (window.head?.map windowSize).getD (contentSize.getD 0)
      if littleEndian dictionary ≠ 0 ∨ maxWindow < window then none
      return (⟨window, contentSize, code / 4 % 2 == 1⟩, rest)

/-- Whether a frame that yielded `size` bytes may end, and what follows it. -/
def Frame.finish (frame : Frame) (size : Nat) (rest : List UInt8) : Option (List UInt8) :=
  if frame.contentSize.any (· ≠ size) then none
  else (split? (if frame.hasChecksum then 4 else 0) rest).map (·.2)

inductive BlockKind where
  | stored | run | unsupported
  deriving DecidableEq, Repr

structure BlockHeader where
  isLast : Bool
  kind : BlockKind
  size : Nat
  deriving DecidableEq, Repr

/-- Three bytes: a bit for the last block, two for its kind, and its size. -/
def BlockHeader.ofCode (code : Nat) : BlockHeader :=
  ⟨code % 2 == 1,
    match code / 2 % 4 with
    | 0 => .stored
    | 1 => .run
    | _ => .unsupported,
    code / 8⟩

/-- The bytes of a block. A stored block that is cut short has those that are there. -/
def readChunk (block : BlockHeader) (bytes : List UInt8) : Option (Chunk × List UInt8) :=
  match block.kind with
  | .stored => some (.stored (bytes.take block.size), bytes.drop block.size)
  | .run => bytes.head?.map fun b => (.run block.size b, bytes.tail)
  | .unsupported => none

theorem split?_length {count : Nat} {bytes first rest : List UInt8}
    (h : split? count bytes = some (first, rest)) : rest.length ≤ bytes.length := by
  simp only [split?, List.splitAt_eq] at h
  split at h
  · simp at h
  · simp only [Option.some.injEq, Prod.mk.injEq] at h
    simp [← h.2]

theorem readHeader_length {bytes rest : List UInt8} {frame : Frame}
    (h : readHeader bytes = some (frame, rest)) : rest.length < bytes.length := by
  cases bytes with
  | nil => simp [readHeader] at h
  | cons descriptor tail =>
      simp only [readHeader, Option.bind_eq_bind, Option.pure_def] at h
      split at h
      · simp at h
      · simp only [Option.bind_eq_some_iff] at h
        obtain ⟨⟨w, r₁⟩, h₁, ⟨d, r₂⟩, h₂, ⟨c, r₃⟩, h₃, h⟩ := h
        have l₁ : r₁.length ≤ tail.length := split?_length h₁
        have l₂ : r₂.length ≤ r₁.length := split?_length h₂
        have l₃ : r₃.length ≤ r₂.length := split?_length h₃
        split at h
        · simp at h
        · simp only [Option.some.injEq, Prod.mk.injEq] at h
          simp only [← h.2, List.length_cons]
          omega

theorem Frame.finish_length {frame : Frame} {size : Nat} {bytes rest : List UInt8}
    (h : frame.finish size bytes = some rest) : rest.length ≤ bytes.length := by
  simp only [finish] at h
  split at h
  · simp at h
  · obtain ⟨⟨first, rest⟩, hs, rfl⟩ := Option.map_eq_some_iff.mp h
    exact split?_length hs

theorem readChunk_length {block : BlockHeader} {chunk : Chunk} {bytes rest : List UInt8}
    (h : readChunk block bytes = some (chunk, rest)) : rest.length ≤ bytes.length := by
  simp only [readChunk] at h
  split at h
  · simp only [Option.some.injEq, Prod.mk.injEq] at h
    simp [← h.2]
  · obtain ⟨b, _, hb⟩ := Option.map_eq_some_iff.mp h
    simp only [Prod.mk.injEq] at hb
    simp [← hb.2]
  · simp at h

/-- Bytes to be passed over, behind the four that announce them. -/
def skip? (bytes : List UInt8) : Option (List UInt8) :=
  match split? 4 bytes with
  | none => none
  | some (size, rest) => (split? (littleEndian size) rest).map (·.2)

theorem skip?_length {bytes rest : List UInt8} (h : skip? bytes = some rest) :
    rest.length ≤ bytes.length := by
  simp only [skip?] at h
  split at h
  · simp at h
  · rename_i size middle hs
    obtain ⟨⟨first, rest⟩, hr, rfl⟩ := Option.map_eq_some_iff.mp h
    exact Nat.le_trans (split?_length hr) (split?_length hs)

set_option linter.unusedVariables false in
mutual
/-- What stands between frames: nothing, a frame, or bytes to be passed over. -/
def readFrames : List UInt8 → Yield
  | [] => .complete
  | b₀ :: b₁ :: b₂ :: b₃ :: rest =>
      if [b₀, b₁, b₂, b₃] = magic then
        match h : readHeader rest with
        | some (frame, blocks) => readBlocks frame 0 blocks
        | none => .fault
      else if b₀.toNat / 16 = 5 ∧ [b₁, b₂, b₃] = [0x2a, 0x4d, 0x18] then
        match h : skip? rest with
        | some rest => readFrames rest
        | none => .fault
      else .fault
  | _ => .fault
termination_by bytes => bytes.length
decreasing_by
  · have := readHeader_length h
    simp only [List.length_cons]; omega
  · have := skip?_length h
    simp only [List.length_cons]; omega

/-- The blocks of a frame that has already yielded `size` bytes, and what follows the frame. -/
def readBlocks (frame : Frame) (size : Nat) : List UInt8 → Yield
  | b₀ :: b₁ :: b₂ :: rest =>
      let block := BlockHeader.ofCode (littleEndian [b₀, b₁, b₂])
      if frame.blockLimit < block.size then .fault
      else match hc : readChunk block rest with
        | none => .fault
        | some (chunk, rest) =>
            if chunk.size < block.size then .cons chunk .fault
            else if !block.isLast then .cons chunk (readBlocks frame (size + block.size) rest)
            else match hf : frame.finish (size + block.size) rest with
              | some rest => .cons chunk (readFrames rest)
              | none => .cons chunk .fault
  | _ => .fault
termination_by bytes => bytes.length
decreasing_by
  all_goals
    have := readChunk_length hc
    simp only [List.length_cons]
  · omega
  · have := Frame.finish_length hf
    omega
end

end RecordSchema.Zstd
