import Offside.Machine.Assignment
import Offside.Machine.Call
import Offside.Program.Classifier
import Offside.Program.Line

/-!
# Running a program

Lines are run from the front. A line says what to do and where to go on: with the
line after it, behind its block, or nowhere because the run ends. The block under
a loop is run by itself, as often as the loop goes round; the block under a branch
that is taken is simply what comes next. Each indentation may have a chain of
branches open, and it is known whether one of its branches has been taken.

Everything ends. What is left of the lines gets shorter with each step, the block
of a loop is shorter than the lines it stands in, a loop goes round a bounded
number of times, and the body of a function is run with room for one call less.
-/

namespace Offside

/-- The open chains: pairs of an indentation and whether a branch was taken. -/
structure Chains where
  entries : List (Nat × Bool) := []
  deriving Repr, DecidableEq

namespace Chains

/-- Only the chains at smaller indentations. -/
def below (chains : Chains) (indent : Nat) : Chains where
  entries := chains.entries.filter fun (i, _) => i < indent

/-- Without a chain at an indentation. -/
def close (chains : Chains) (indent : Nat) : Chains where
  entries := chains.entries.filter fun (i, _) => i != indent

/-- With a chain at an indentation, and whether its branch is taken. -/
def set (chains : Chains) (indent : Nat) (taken : Bool) : Chains where
  entries := (indent, taken) :: (chains.close indent).entries

/-- Whether the chain at an indentation has had a branch taken, if one is open. -/
def taken? (chains : Chains) (indent : Nat) : Option Bool :=
  chains.entries.lookup indent

end Chains

/-- Where to go on after a line: behind some of the lines that follow it, or out
of the lines. -/
inductive Next where
  | goOn (chains : Chains) (skipped : Nat)
  | exit (completion : Completion)
  deriving Repr, DecidableEq

/-- What a line is run with: the limits, how functions are entered, and how the
first so many of the lines after it are run as the block of a loop. -/
structure Context where
  limits : Limits
  entry : Entry
  block : Nat → Run

namespace Machine

/-- The truth of a condition on a line. -/
def condition (m : Machine) (t : Text) (line : Line) : Except Failure Bool :=
  match evaluateCondition m.scope t with
  | .error fault => .error (.runtime fault line.number)
  | .ok b => .ok b

/-- Goes on with the next line after a statement that changes the machine at once
or not at all. -/
def after (m : Machine) (line : Line) (chains : Chains) (changed : Except Fault Machine) :
    Outcome Next :=
  match changed with
  | .error fault => (m, .error (.runtime fault line.number))
  | .ok m' => (m', .ok (.goOn chains 0))

/-- Goes on behind a loop, or out of the lines if its body returned. -/
def behindLoop (chains : Chains) (length : Nat) : Outcome Completion → Outcome Next
  | (m, .error failure) => (m, .error failure)
  | (m, .ok .returned) => (m, .ok (.exit .returned))
  | (m, .ok _) => (m, .ok (.goOn chains length))

/-- Runs a statement that heads a block. A block that is empty is a fault. -/
def header (m : Machine) (keyword : String) (line : Line) (rest : List Line)
    (run : (length : Nat) → Outcome Next) : Outcome Next :=
  match blockLength line.indent rest with
  | 0 => (m, .error (.malformed (.noBlock keyword) line.number))
  | n + 1 => run (n + 1)

/-- Opens or skips a branch, as its condition says. -/
def branch (m : Machine) (chains : Chains) (line : Line) (condition : Text) (length : Nat) :
    Outcome Next :=
  match m.condition condition line with
  | .error failure => (m, .error failure)
  | .ok taken => (m, .ok (.goOn (chains.set line.indent taken) (if taken then 0 else length)))

/-- Runs the block of a loop for each of some values. -/
def forEach (m : Machine) (context : Context) (chains : Chains) (line : Line) (name : String)
    (iterable : Text) (length : Nat) : Outcome Next :=
  match m.elements iterable with
  | .error fault => (m, .error (.runtime (.runtime fault) line.number))
  | .ok vs =>
    let body v (m : Machine) := context.block length (m.bind name v)
    behindLoop chains length (Run.inLoop (Run.forEach body vs) m)

/-- Runs the block of a loop while a condition holds. -/
def whileHolds (m : Machine) (context : Context) (chains : Chains) (line : Line)
    (condition : Text) (length : Nat) : Outcome Next :=
  let holds (m : Machine) := m.condition condition line
  let loop := Run.whileHolds holds (context.block length) context.limits.warning
    context.limits.loopCap
  behindLoop chains length (Run.inLoop loop m)

/-- Runs a statement on a line, with the lines after it and the chains that the
line leaves open. -/
def perform (m : Machine) (context : Context) (chains : Chains) (line : Line) (rest : List Line) :
    Statement → Outcome Next
  | .print arguments => (m.print (printedLine m.scope arguments), .ok (.goOn chains 0))
  | .define name parameters =>
    m.header "def" line rest fun length =>
      (m.define name parameters (rest.take length), .ok (.goOn chains length))
  | .assign target op value => m.after line chains (m.assign target op value)
  | .ifHolds condition =>
    m.header "if" line rest fun length => m.branch chains line condition length
  | .elseIf condition =>
    m.header "elif" line rest fun length =>
      match chains.taken? line.indent with
      | none => (m, .error (.malformed .elseIfAlone line.number))
      | some true => (m, .ok (.goOn chains length))
      | some false => m.branch chains line condition length
  | .otherwise =>
    m.header "else" line rest fun length =>
      match chains.taken? line.indent with
      | none => (m, .error (.malformed .otherwiseAlone line.number))
      | some true => (m, .ok (.goOn (chains.close line.indent) length))
      | some false => (m, .ok (.goOn (chains.close line.indent) 0))
  | .forEach name iterable =>
    m.header "for" line rest fun length => m.forEach context chains line name iterable length
  | .whileHolds condition =>
    m.header "while" line rest fun length => m.whileHolds context chains line condition length
  | .call name arguments =>
    match m.call context.entry name arguments line.number with
    | (m', .error failure) => (m', .error failure)
    | (m', .ok ()) => (m', .ok (.goOn chains 0))
  | .append list value => m.after line chains (m.append list value)
  | .leave _ =>
    if m.frames.isEmpty then (m, .error (.malformed .leaveOutside line.number))
    else (m, .ok (.exit .returned))
  | .breakLoop =>
    if m.loopDepth = 0 then (m, .error (.malformed .breakOutside line.number))
    else (m, .ok (.exit .broken))
  | .continueLoop =>
    if m.loopDepth = 0 then (m, .error (.malformed .continueOutside line.number))
    else (m, .ok (.exit .continued))
  | .pass => (m, .ok (.goOn chains 0))
  | .unrecognized => (m, .ok (.goOn chains 0))

/-- Runs one line. A statement closes the chains at its indentation and deeper
ones; a further branch leaves that at its own indentation open. -/
def runLine (m : Machine) (context : Context) (chains : Chains) (line : Line) (rest : List Line) :
    Outcome Next :=
  if line.isBlank then (m, .ok (.goOn chains 0))
  else
    match classify line.text with
    | .error fault => (m, .error (.malformed fault line.number))
    | .ok statement =>
      let kept := chains.below (if statement.isBranch then line.indent + 1 else line.indent)
      m.perform context kept line rest statement

/-- Runs lines from the front. -/
def runLines (limits : Limits) (entry : Entry) (chains : Chains) (lines : List Line) : Run :=
  fun m =>
    match lines with
    | [] => (m, .ok .finished)
    | line :: rest =>
      let block length := runLines limits entry {} (rest.take length)
      match m.runLine ⟨limits, entry, block⟩ chains line rest with
      | (m', .error failure) => (m', .error failure)
      | (m', .ok (.exit completion)) => (m', .ok completion)
      | (m', .ok (.goOn chains' skipped)) =>
        runLines limits entry chains' (rest.drop skipped) m'
termination_by lines.length
decreasing_by all_goals simp only [List.length_take, List.length_drop, List.length_cons]; omega

/-- Runs lines with room for some calls more: the body of a function is run with
room for one call less. -/
def runWithin (limits : Limits) : (room : Nat) → List Line → Run
  | 0, lines => runLines limits none {} lines
  | room + 1, lines => runLines limits (some (runWithin limits room)) {} lines

/-- Runs lines under limits. -/
def runUnder (limits : Limits) (lines : List Line) : Run :=
  fun m => runWithin limits (limits.maxDepth - m.frames.length) lines m

/-- Runs a program. -/
def interpret (limits : Limits) (source : Text) (m : Machine) : Outcome Unit :=
  match runUnder limits (sourceLines source) m with
  | (m', .error failure) => (m', .error failure)
  | (m', .ok _) => (m', .ok ())

end Machine

end Offside
