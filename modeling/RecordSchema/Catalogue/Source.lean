import RecordSchema.Catalogue
import RecordSchema.Json
import RecordSchema.Zstd.Reading

/-! Catalogues from bytes: a JSON array of strings, or text in the host's layout, either of them
possibly as Zstandard frames. How frames are decoded and JSON is read, is left open. -/

namespace RecordSchema.Catalogue

/-- No catalogue may be larger than this once inflated. -/
def maxSize : UInt64 := 64 * 1024 * 1024

/-- What a decoder makes of the bytes of a file. -/
abbrev Decoder := List UInt8 → Zstd.Yield

/-- The bytes themselves, or what a decoder yields of them if they start as a frame does. One byte
past the limit is enough to tell that there are too many. -/
def inflateBy (decode : Decoder) (limit : UInt64) (raw : ByteArray) :
    Except Error (Compression × ByteArray) :=
  if (raw.extract 0 4).toList ≠ Zstd.magic then .ok (.none, raw)
  else do
    let chunks ← (Zstd.Limited.mk (decode raw.toList) (limit + 1).toNat).readToEnd
    if limit.toNat < Zstd.Chunk.totalSize chunks then .error (.decompressedTooLarge limit.toNat)
    else return (.zstd, Zstd.Chunk.join chunks)

/-- ASCII white space, without the vertical tab. -/
def isAsciiBlank (b : UInt8) : Bool :=
  b == 0x20 || b == 0x09 || b == 0x0a || b == 0x0c || b == 0x0d

/-- The first byte from position `i` on that is not blank. -/
def firstMark? (bytes : ByteArray) (i : Nat) : Option UInt8 :=
  if h : i < bytes.size then
    if isAsciiBlank bytes[i] then firstMark? bytes (i + 1) else some bytes[i]
  else none
termination_by bytes.size - i

/-- The entries of an array of strings. -/
def ofJsonBy (read : Json.TextReader (List String)) (bytes : ByteArray) : Except Error Catalogue :=
  match read bytes.toList with
  | .ok entries => .ok (.ofEntries entries)
  | .error fault => .error (.json fault)

/-- What opens with a bracket is read as JSON. -/
def ofBytesBy (read : Json.TextReader (List String)) (bytes : ByteArray) :
    Except Error Catalogue :=
  if firstMark? bytes 0 = some '['.toUInt8 then ofJsonBy read bytes
  else match String.fromUTF8? bytes with
    | some text => .ok (parse text)
    | none => .error .catalogueNotUtf8

/-- The catalogue in a file with the given contents; a file that cannot be read has none. -/
def ofFileBy (decode : Decoder) (read : Json.TextReader (List String))
    (contents : Option ByteArray) : Except Error Catalogue := do
  match contents with
  | none => .error .io
  | some raw =>
      let (compression, bytes) ← inflateBy decode maxSize raw
      let catalogue ← ofBytesBy read bytes
      return { catalogue with compression }

end RecordSchema.Catalogue
