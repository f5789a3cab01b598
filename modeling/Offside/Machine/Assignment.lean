import Offside.Evaluation
import Offside.Machine.Basic

/-!
# Assigning and appending

The statements that change one binding of the active scope. Each gives the
changed machine or a fault, so that a failed one changes nothing.
-/

namespace Offside

/-- The text that reads what a target names. -/
def Target.text : Target → Text
  | name n => n.toList
  | element n index => n.toList ++ '[' :: index ++ [']']

namespace Machine

/-- The value an assignment stores. Without an operator it is that of the text,
or the text itself; with one, both operands have to have values. -/
def assignedValue (m : Machine) (target : Target) (op : Option ArithOp) (value : Text) :
    Except Fault Value :=
  match op with
  | none => .ok (evaluate m.scope value).toValue
  | some op =>
    match evaluateStrict m.scope target.text with
    | .error fault => .error fault
    | .ok current =>
      match evaluateStrict m.scope value with
      | .error fault => .error fault
      | .ok operand =>
        match op.apply current operand with
        | .error fault => .error (.runtime fault)
        | .ok v => .ok v

/-- The position in a list that an element assignment changes. -/
def assignedPosition (length : Nat) (index : Value) : Except RuntimeFault Nat :=
  match index.indexInto .list length with
  | .error .indexOutOfRange => .error .assignmentIndexOutOfRange
  | result => result

/-- The machine with a value stored where a target says. -/
def store (m : Machine) (target : Target) (value : Value) : Except Fault Machine :=
  match target with
  | .name n => .ok (m.bind n value)
  | .element n index =>
    match evaluateStrict m.scope index with
    | .error fault => .error fault
    | .ok i =>
      match m.scope.get? n with
      | none => .error (.runtime (.unbound n))
      | some (.list elements) =>
        match assignedPosition elements.length i with
        | .error fault => .error (.runtime fault)
        | .ok p => .ok (m.bind n (.list (elements.set p value)))
      | some other => .error (.runtime (.noItemAssignment other.kind))

/-- The machine after an assignment. -/
def assign (m : Machine) (target : Target) (op : Option ArithOp) (value : Text) :
    Except Fault Machine :=
  match m.assignedValue target op value with
  | .error fault => .error fault
  | .ok v => m.store target v

/-- The machine after appending to a list. -/
def append (m : Machine) (list : String) (value : Text) : Except Fault Machine :=
  match m.scope.get? list with
  | none => .error (.runtime (.unbound list))
  | some (.list elements) =>
    .ok (m.bind list (.list (elements ++ [(evaluate m.scope value).toValue])))
  | some other => .error (.runtime (.noAppend other.kind))

/-- The values a loop runs over. -/
def elements (m : Machine) (iterable : Text) : Except RuntimeFault (List Value) :=
  match evaluate m.scope iterable with
  | .value (.list vs) => .ok vs
  | .value (.text content) => .ok (content.toList.map fun c => .text (String.ofList [c]))
  | .value other => .error (.notIterable other.kind)
  | .fallback t => .error (.textNotIterable (String.ofList t))

end Machine

end Offside
