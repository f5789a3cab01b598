import Offside.CommandLine.Invocation
import Offside.CommandLine.Terminal
import Offside.Machine.Run
import Offside.Report

/-!
# Sessions

What the program does when it is invoked: one run of a source text, or a session
in which texts are entered line by line. Each text is run by a machine of its
own. Files and input are handed in as text, so all of it is a function from text
to text.
-/

namespace Offside

/-- What has been written to the two output streams. -/
structure Written where
  out : String := ""
  err : String := ""
  deriving Repr, DecidableEq

/-- What one invocation leaves: an exit code and what it has written. -/
structure Exit where
  code : Nat
  written : Written
  deriving Repr, DecidableEq

/-- Why a file cannot be read. -/
inductive Unreadable where
  | missing
  | denied
  | directory
  | notDirectory
  | notText
  | other (description : String)
  deriving Repr, DecidableEq

/-- The wording of why a file cannot be read. -/
def Unreadable.message : Unreadable → String
  | missing => "No such file or directory (os error 2)"
  | denied => "Permission denied (os error 13)"
  | directory => "Is a directory (os error 21)"
  | notDirectory => "Not a directory (os error 20)"
  | notText => "stream did not contain valid UTF-8"
  | other description => description

namespace Session

/-- The version of the program. -/
def version : String := programName ++ " 0.1.0"

/-- The line a session starts with. -/
def greeting : String :=
  version ++ ": enter a program, then an empty line to run it. Ctrl-D exits."

/-- How the program is used. -/
def usage : String :=
  "\n".intercalate [
    "Runs a small subset of Python line by line.",
    "",
    "Usage: pylite [OPTIONS] [INPUT]",
    "",
    "Arguments:",
    "  [INPUT]  Program file to run. Starts a REPL when neither a file nor -c is given",
    "",
    "Options:",
    "  -c, --command <COMMAND>      Program passed in as a string",
    "      --json                   Print a JSON report instead of the program output",
    "      --loop-cap <LOOP_CAP>    Body executions a while loop may perform before it is "
      ++ "stopped [default: 1000]",
    "      --max-depth <MAX_DEPTH>  Nested function calls allowed before the run is aborted "
      ++ "[default: 200]",
    "  -h, --help                   Print help",
    "  -V, --version                Print version",
    ""]

/-- Runs one source text: whether it succeeded, and what was written. The report
takes the place of everything else where it is asked for. -/
def execute (options : Options) (origin : Origin) (source : Text) : Bool × Written :=
  let (m, result) := Machine.interpret options.limits source {}
  if options.json then
    let report := Report.ofRun m.output result
    (report.succeeded, { out := report.toJsonText ++ "\n" })
  else
    let out := m.output.foldl (fun shown line => shown ++ line ++ "\n") ""
    match result with
    | .ok () => (true, { out := out })
    | .error failure => (false, { out := out, err := diagnostic false origin source failure })

/-- Runs one source text as the whole of an invocation. -/
def runOnce (options : Options) (origin : Origin) (source : Text) : Exit :=
  let (succeeded, written) := execute options origin source
  ⟨if succeeded then 0 else 1, written⟩

/-- What a session makes of one entered line, given the text entered before it: a
blank line runs that text, if there is any, and other lines are added to it. -/
def enter (options : Options) (entered line : Text) : Text × Written :=
  if line.trim.isEmpty then
    if entered.isEmpty then ([], {})
    else ([], (execute options .interactive entered).2)
  else (entered ++ line ++ ['\n'], {})

/-- What a session writes for lines entered after some text. Text that no blank
line follows is not run. -/
def enterAll (options : Options) (entered : Text) (written : Written) : List Text → Written
  | [] => written
  | line :: rest =>
    let (entered', more) := enter options entered line
    enterAll options entered' ⟨written.out ++ more.out, written.err ++ more.err⟩ rest

/-- A whole session. -/
def converse (options : Options) (input : Text) : Exit :=
  ⟨0, enterAll options [] { out := greeting ++ "\n" } input.lines⟩

/-- What is said when a file cannot be read. -/
def cannotRead (path : String) (reason : Unreadable) : Exit :=
  ⟨1, { err := s!"{programName}: error: failed to read {path}: {reason.message}\n" }⟩

/-- What is said when a command line cannot be understood. -/
def refuse (misuse : Misuse) : Exit :=
  ⟨2, { err := s!"error: {misuse.message}\n\nFor more information, try '--help'.\n" }⟩

/-- What a command line does, given how files are read and what is entered. -/
def run (read : String → Except Unreadable String) (input : String) (arguments : List String) :
    Exit :=
  match Invocation.parse arguments with
  | .error misuse => refuse misuse
  | .ok .help => ⟨0, { out := usage }⟩
  | .ok .version => ⟨0, { out := version ++ "\n" }⟩
  | .ok (.command source options) => runOnce options .commandLine source.toList
  | .ok (.file path options) =>
    match read path with
    | .error reason => cannotRead path reason
    | .ok content => runOnce options (.file path) content.toList
  | .ok (.interactive options) => converse options input.toList

end Session

end Offside
