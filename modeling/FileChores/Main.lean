import FileChores.CommandLine
import FileChores.Volume.FileSystem

/-!
# The program

Reads a script from the disk and rehearses it: the script runs on an empty volume in memory, so what
it does shows in what it prints, and nothing on the disk changes.
-/

namespace FileChores.CommandLine

/-- Why the disk does not give a script, in the words of a volume. -/
def readFailure : IO.Error → String
  | .noFileOrDirectory .. => Refusal.noEntry.message
  | e => toString e

def readScript (arguments : List String) : IO (Except String ByteArray) := do
  match parse arguments with
  | .error _ => return .ok .empty
  | .ok invocation =>
      try return .ok (← IO.FS.readBinFile invocation.script)
      catch e => return .error (readFailure e)

end FileChores.CommandLine

open FileChores in
def main (arguments : List String) : IO UInt32 := do
  let script ← CommandLine.readScript arguments
  let (report, _) := CommandLine.respond Volume.fileSystem (fun _ => script) arguments .empty
  (← IO.getStdout).putStr report.output
  (← IO.getStderr).putStr report.errors
  return report.code.toUInt32
