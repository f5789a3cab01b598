import Offside.Bindings
import Offside.Fault
import Offside.Program.Line
import Offside.Program.Statement

/-!
# The machine

What a running program is: the lines it has printed, the global scope, a scope
for each call that is going on, the functions defined so far, and how many loops
the innermost call is in. Statements read and change the active scope, which is
that of the innermost call.
-/

namespace Offside

/-- A function as it was defined: its body is kept as lines, and the scope of
its definition is kept as it was then. -/
structure Function where
  name : String
  parameters : List String
  body : List Line
  captured : Scope

/-- The functions that are defined, by name. -/
abbrev FunctionTable := Bindings Function

/-- How much a program may use: how often a loop under a condition may run its
body, and how many calls may be going on at once. -/
structure Limits where
  loopCap : Nat := 1000
  maxDepth : Nat := 200
  deriving Repr, DecidableEq

/-- The line that is printed when a loop is stopped. -/
def Limits.warning (limits : Limits) : String :=
  s!"Warning: loop stopped after {limits.loopCap} iterations (possible infinite loop)"

/-- Why a run ended early, and at which line: the line is no statement there, or
a value did not allow what it says. -/
inductive Failure where
  | malformed (fault : SyntaxFault) (line : Nat)
  | runtime (fault : Fault) (line : Nat)
  deriving Repr, DecidableEq

namespace Failure

/-- The line at which a run ended. -/
def line : Failure → Nat
  | malformed _ line => line
  | runtime _ line => line

/-- What was wrong. -/
def what : Failure → String
  | malformed fault _ => fault.message
  | runtime fault _ => fault.message

/-- What was wrong, and where. -/
def message (failure : Failure) : String :=
  s!"{failure.what} (line {failure.line})"

end Failure

/-- How a run of lines ended, if it did not fail. -/
inductive Completion where
  | finished
  | broken
  | continued
  | returned
  deriving Repr, DecidableEq

/-- The state of a running program. The frames are the scopes of the calls that
are going on, the innermost first. -/
structure Machine where
  output : Array String := #[]
  globals : Scope := {}
  frames : List Scope := []
  functions : FunctionTable := {}
  loopDepth : Nat := 0

/-- What running something gives: the machine afterwards, also after a failure. -/
abbrev Outcome (α : Type) := Machine × Except Failure α

namespace Machine

/-- The active scope. -/
def scope (m : Machine) : Scope :=
  m.frames.headD m.globals

/-- The machine with a name of the active scope bound to a value. -/
def bind (m : Machine) (name : String) (value : Value) : Machine :=
  match m.frames with
  | [] => { m with globals := m.globals.insert name value }
  | frame :: outer => { m with frames := frame.insert name value :: outer }

/-- The machine after printing a line. -/
def print (m : Machine) (line : String) : Machine :=
  { m with output := m.output.push line }

/-- The machine after defining a function: its name is bound first, so that the
scope it keeps binds its own name. -/
def define (m : Machine) (name : String) (parameters : List String) (body : List Line) : Machine :=
  let bound := m.bind name (.function name)
  { bound with functions := bound.functions.insert name ⟨name, parameters, body, bound.scope⟩ }

end Machine

end Offside
