import DelaySynth.CommandLine.Run

/-!
# The program

The outer layer: it reads the catalog file that the command line names, and writes what the run
leaves behind.
-/

namespace DelaySynth.CommandLine

/-- The words of the operating system for a failure to read a file. -/
def readFailure : IO.Error → String
  | .noFileOrDirectory .. => noSuchFile
  | .permissionDenied .. => permissionDenied
  | .inappropriateType .. => isDirectory
  | e => toString e

/-- Reads the bytes of a file. -/
def readFile (path : String) : IO (Except String ByteArray) := do
  try return .ok (← IO.FS.readBinFile path)
  catch e => return .error (readFailure e)

/-- Plays a run. -/
def play (args : List String) : IO Outcome := do
  match Options.ofArguments? args with
  | none => return .usage
  | some o => return o.run (← o.catalogPath?.mapM readFile)

end DelaySynth.CommandLine

/-- Builds the routine that the command line asks for. -/
def main (args : List String) : IO UInt32 := do
  let outcome ← DelaySynth.CommandLine.play args
  IO.eprint outcome.errors
  IO.print outcome.output
  return UInt32.ofNat outcome.exitCode
