import RecordSchema.Cli.Arguments
import RecordSchema.Json.Printer
import RecordSchema.Json.Reader
import RecordSchema.Zstd

/-! The program as it runs. How frames are decoded, how JSON is read and written, and how the command
line is read, is settled here and nowhere else. -/

namespace RecordSchema

def Catalogue.ofJson : ByteArray → Except Error Catalogue := ofJsonBy Json.parseStrings

def Catalogue.ofBytes : ByteArray → Except Error Catalogue := ofBytesBy Json.parseStrings

def Catalogue.ofFile : Option ByteArray → Except Error Catalogue :=
  ofFileBy Zstd.readFrames Json.parseStrings

def Reply.decodeText (registry : Registry) (limits : Limits) (typeName : String)
    (bytes : List UInt8) : Except Error Record :=
  decodeTextBy registry limits Json.parse typeName bytes

namespace Cli

def libraries : Libraries where
  decompress := Zstd.readFrames
  readStrings := Json.parseStrings
  readJson := Json.parse
  pretty := Json.pretty
  command := Command.read

def run (files : Files) (words : List String) : Outcome := runBy libraries files words

end Cli

end RecordSchema
