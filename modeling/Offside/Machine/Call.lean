import Offside.Evaluation
import Offside.Machine.Loop

/-!
# Calls

A call on a line of its own: of a function that the program has defined, or else
of a builtin one. Its arguments are evaluated first, in the scope of the caller.
What a function returns is not kept.
-/

namespace Offside

/-- The scope with parameters bound to arguments in order; a parameter without
one is bound to nothing. -/
def Scope.bindParameters (scope : Scope) : List String → List Value → Scope
  | [], _ => scope
  | p :: ps, [] => Scope.bindParameters (scope.insert p .nothing) ps []
  | p :: ps, v :: vs => Scope.bindParameters (scope.insert p v) ps vs

/-- The scope in which the body of a function is run. -/
def Function.frame (f : Function) (arguments : List Value) : Scope :=
  Scope.bindParameters f.captured f.parameters arguments

/-- How the body of a function is run; nothing where no further call may go on. -/
abbrev Entry := Option (List Line → Run)

namespace Machine

/-- The values of the arguments of a call. -/
def arguments (m : Machine) (t : Text) : List Value :=
  t.pieces.map fun piece => (evaluate m.scope piece).toValue

/-- Calls a builtin function for its faults. -/
def callBuiltin (m : Machine) (name : String) (arguments : List Value) (line : Nat) :
    Outcome Unit :=
  match Builtin.ofName? name with
  | none => (m, .error (.runtime (.runtime (.unbound name)) line))
  | some b =>
    match b.call arguments with
    | .error fault => (m, .error (.runtime (.runtime fault) line))
    | .ok _ => (m, .ok ())

/-- Calls a function of the program. -/
def enter (entry : Entry) (f : Function) (name : String) (arguments : List Value) (line : Nat)
    (m : Machine) : Outcome Unit :=
  if f.parameters.length < arguments.length then
    let fault := .tooManyArguments name f.parameters.length arguments.length
    (m, .error (.runtime (.runtime fault) line))
  else
    match entry with
    | none => (m, .error (.runtime (.runtime .tooDeep) line))
    | some run =>
      match Run.inCall (f.frame arguments) (run f.body) m with
      | (m', .error failure) => (m', .error failure)
      | (m', .ok _) => (m', .ok ())

/-- Calls a function by name. -/
def call (entry : Entry) (name : String) (arguments : Text) (line : Nat) (m : Machine) :
    Outcome Unit :=
  let vs := m.arguments arguments
  match m.functions.get? name with
  | none => m.callBuiltin name vs line
  | some f => enter entry f name vs line m

end Machine

end Offside
