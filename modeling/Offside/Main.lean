import Offside.CommandLine.Session

/-!
# The program

Reads files and input, and writes what a session leaves.
-/

namespace Offside.Main

/-- Writes to the two output streams. -/
def put (written : Written) : IO Unit := do
  IO.print written.out
  IO.eprint written.err

/-- Writes what an invocation leaves, and gives its exit code. -/
def finish (exit : Exit) : IO UInt32 := do
  put exit.written
  return exit.code.toUInt32

/-- Why a file could not be read. -/
def reason : IO.Error → Unreadable
  | .noFileOrDirectory .. => .missing
  | .permissionDenied .. => .denied
  | .inappropriateType _ 20 _ => .notDirectory
  | .inappropriateType .. => .directory
  | other => .other (toString other)

/-- The text of a file. -/
def readText (path : String) : IO (Except Unreadable String) := do
  try
    let bytes ← IO.FS.readBinFile path
    return match String.fromUTF8? bytes with
      | some content => .ok content
      | none => .error .notText
  catch e => return .error (reason e)

/-- A session on the standard input, line by line. -/
partial def converse (options : Options) (entered : Text) : IO Unit := do
  let stdin ← IO.getStdin
  let line ← stdin.getLine
  match Text.lines line.toList with
  | [] => return
  | text :: _ =>
    let (entered, written) := Session.enter options entered text
    put written
    (← IO.getStdout).flush
    converse options entered

end Offside.Main

open Offside in
/-- Runs the program with the arguments of its command line. -/
def main (arguments : List String) : IO UInt32 := do
  match Invocation.parse arguments with
  | .ok (.interactive options) =>
    IO.println Session.greeting
    (← IO.getStdout).flush
    Main.converse options []
    return 0
  | .ok (.file path options) =>
    match ← Main.readText path with
    | .error reason => Main.finish (Session.cannotRead path reason)
    | .ok content => Main.finish (Session.runOnce options (.file path) content.toList)
  | _ => Main.finish (Session.run (fun _ => .error .missing) "" arguments)
