import SwiftMangling.Command.Program

/-!
The command line: it hands arguments, standard input and environment to the program and writes what
comes back.
-/

namespace SwiftMangling.Main

/-- The environment variable with settings. -/
def settingsVariable : String := "SWDEMANGLE_CONFIG"

partial def readBytes (stream : IO.FS.Stream) (before : ByteArray) : IO ByteArray := do
  let chunk ← stream.read 65536
  if chunk.isEmpty then return before else readBytes stream (before ++ chunk)

/-- The standard input. Only on Windows does the stream unify line ends; elsewhere a carriage return
comes through as it is. -/
def readInput : IO Text := do
  let bytes ← readBytes (← IO.getStdin) ByteArray.empty
  let input := Utf8.decode bytes.toList
  return if (← IO.getEnv "OS") = some "Windows_NT" then Text.unifyLineEnds input else input

def write (stream : IO.FS.Stream) (text : Text) : IO Unit := do
  stream.write (ByteArray.mk (MangledName.text text).toBytes.toArray)
  stream.flush

end SwiftMangling.Main

open SwiftMangling in
def main (arguments : List String) : IO UInt32 := do
  let words := arguments.map Text.ofString
  let environment := (← IO.getEnv Main.settingsVariable).map Text.ofString
  let input ← if Program.readsInput words environment then Main.readInput else pure []
  let started ← IO.monoMsNow
  let report ← IO.lazyPure fun _ => Program.run words input environment
  let finished ← IO.monoMsNow
  Main.write (← IO.getStdout) report.written.out
  let errors ← IO.getStderr
  Main.write errors report.written.err
  if let some name := report.timed then
    Main.write errors (Program.timingLine name (Program.seconds (finished - started)))
  match report.ending with
  | .exit code => return UInt32.ofNat code
  | .aborted error =>
    Main.write errors (error.message ++ [Text.newline])
    return 1
  | .cut => return 1
