import Offside.Machine.Basic

/-!
# Loops and activations

How a body is run again and again, and how it is run inside a loop or a call.
Each way of running is told what the body does, and takes care of the rest: what
ends a loop, how often it may go round, and that the number of open loops and
calls is what it was before.
-/

namespace Offside

/-- What running some lines does to a machine. -/
abbrev Run := Machine → Outcome Completion

namespace Run

/-- Runs a body for each of some values, until it breaks off or returns. -/
def forEach (body : Value → Run) : List Value → Run
  | [], m => (m, .ok .finished)
  | v :: vs, m =>
    match body v m with
    | (m', .error failure) => (m', .error failure)
    | (m', .ok .broken) => (m', .ok .finished)
    | (m', .ok .returned) => (m', .ok .returned)
    | (m', .ok .finished) => forEach body vs m'
    | (m', .ok .continued) => forEach body vs m'

/-- Runs a body while a condition holds, until it breaks off or returns, and at
most `rounds` times: if the condition then still holds, a warning is printed. -/
def whileHolds (condition : Machine → Except Failure Bool) (body : Run) (warning : String) :
    (rounds : Nat) → Run
  | rounds, m =>
    match condition m with
    | .error failure => (m, .error failure)
    | .ok false => (m, .ok .finished)
    | .ok true =>
      match rounds with
      | 0 => (m.print warning, .ok .finished)
      | rounds + 1 =>
        match body m with
        | (m', .error failure) => (m', .error failure)
        | (m', .ok .broken) => (m', .ok .finished)
        | (m', .ok .returned) => (m', .ok .returned)
        | (m', .ok .finished) => whileHolds condition body warning rounds m'
        | (m', .ok .continued) => whileHolds condition body warning rounds m'

/-- Runs something inside one loop more. -/
def inLoop (run : Run) : Run := fun m =>
  let (m', result) := run { m with loopDepth := m.loopDepth + 1 }
  ({ m' with loopDepth := m'.loopDepth - 1 }, result)

/-- Runs something inside a call with a scope of its own, which is in no loop. -/
def inCall (frame : Scope) (run : Run) : Run := fun m =>
  let (m', result) := run { m with frames := frame :: m.frames, loopDepth := 0 }
  ({ m' with frames := m'.frames.tail, loopDepth := m.loopDepth }, result)

end Run

end Offside
