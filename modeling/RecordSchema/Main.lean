import RecordSchema.Cli.Run

/-! The program: it reads the files that its command names, and prints what the command says. -/

namespace RecordSchema

def readFile (path : String) : IO (String × Option ByteArray) := do
  try return (path, some (← IO.FS.readBinFile path))
  catch _ => return (path, none)

end RecordSchema

open RecordSchema in
def main (words : List String) : IO UInt32 := do
  let paths := ((Cli.Command.read words).toOption.map Cli.Command.files).getD []
  let contents ← paths.mapM readFile
  let outcome := Cli.run (fun path => (contents.lookup path).join) words
  let out ← IO.getStdout
  out.putStr outcome.output
  out.flush
  unless outcome.complaint.isEmpty do IO.eprintln outcome.complaint
  return outcome.exitCode
