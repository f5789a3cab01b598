import Offside.Bindings
import Offside.Builtin
import Offside.Expr.Parser
import Offside.Template
import Offside.Value.Position

/-!
# Strict evaluation

The value of a syntax tree in a scope, or the fault that stops its evaluation.
Operands are evaluated from left to right. A chain of comparisons ends at the
first one that does not hold, and a logical operator looks at its second operand
only where the first does not decide.

Inside an expression only builtin functions can be called, and only where their
name is not bound.
-/

namespace Offside

namespace Expr

/-- What a call of a name runs into before its arguments are evaluated. -/
def callee (scope : Scope) (name : String) : Except RuntimeFault Builtin :=
  match scope.get? name with
  | some (.function f) => .error (.calledInExpression f)
  | some v => .error (.notCallable v.kind)
  | none =>
    match Builtin.ofName? name with
    | some b => .ok b
    | none => .error (.unbound name)

mutual

/-- The value of an expression. -/
def eval (scope : Scope) : Expr → Except RuntimeFault Value
  | number x => .ok (.number x)
  | text content => .ok (.text content)
  | truth b => .ok (.truth b)
  | nothing => .ok .nothing
  | template raw =>
    .ok (.text (String.ofList (Text.interpolate scope (Text.unescape raw.toList))))
  | var name _ =>
    match scope.get? name with
    | some v => .ok v
    | none => .error (.unbound name)
  | list elements =>
    match evalAll scope elements with
    | .error fault => .error fault
    | .ok vs => .ok (.list vs)
  | unary op _ operand =>
    match eval scope operand with
    | .error fault => .error fault
    | .ok v => op.apply v
  | arith op _ left right =>
    match eval scope left with
    | .error fault => .error fault
    | .ok v =>
      match eval scope right with
      | .error fault => .error fault
      | .ok w => op.apply v w
  | comparison first links =>
    match eval scope first with
    | .error fault => .error fault
    | .ok v => evalLinks scope v links
  | logical op left right =>
    match eval scope left with
    | .error fault => .error fault
    | .ok v =>
      match op, v.isTrue with
      | .and, false => .ok v
      | .or, true => .ok v
      | _, _ => eval scope right
  | call name _ arguments =>
    match callee scope name with
    | .error fault => .error fault
    | .ok b =>
      match evalAll scope arguments with
      | .error fault => .error fault
      | .ok vs => b.call vs
  | subscript _ container index =>
    match eval scope container with
    | .error fault => .error fault
    | .ok v =>
      match eval scope index with
      | .error fault => .error fault
      | .ok w => v.subscript w

/-- The values of expressions from the front, up to the first fault. -/
def evalAll (scope : Scope) : List Expr → Except RuntimeFault (List Value)
  | [] => .ok []
  | e :: es =>
    match eval scope e with
    | .error fault => .error fault
    | .ok v =>
      match evalAll scope es with
      | .error fault => .error fault
      | .ok vs => .ok (v :: vs)

/-- Whether a value and the operands after it stand in a chain of relations. -/
def evalLinks (scope : Scope) (left : Value) :
    List (Relation × Nat × Expr) → Except RuntimeFault Value
  | [] => .ok (.truth true)
  | (op, _, operand) :: links =>
    match eval scope operand with
    | .error fault => .error fault
    | .ok right =>
      match op.holds left right with
      | .error fault => .error fault
      | .ok false => .ok (.truth false)
      | .ok true => evalLinks scope right links

end

end Expr

/-- The value of a text as an expression. -/
def evaluateStrict (scope : Scope) (t : Text) : Except Fault Value :=
  match parseText t with
  | .error fault => .error fault
  | .ok e =>
    match e.eval scope with
    | .error fault => .error (.runtime fault)
    | .ok v => .ok v

/-- The truth of a text as a condition. -/
def evaluateCondition (scope : Scope) (t : Text) : Except Fault Bool :=
  match evaluateStrict scope t with
  | .error fault => .error fault
  | .ok v => .ok v.isTrue

end Offside
