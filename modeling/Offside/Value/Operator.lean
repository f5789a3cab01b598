import Offside.Fault
import Offside.Number.Rounding
import Offside.Text.Blank
import Offside.Value.Order

/-!
# What operators do to values

Arithmetic is that of doubles. A sum also joins two texts or two lists, and a
product repeats a text or a list as often as a number says, up to a bound on the
length. Comparisons give a truth or a fault, never anything else.
-/

namespace Offside

/-- The greatest length of a text, in bytes, or of a list that is built by
repetition or as a range. -/
def maxSequenceLength : Nat := 1 <<< 24

/-- What a unary operator makes of a value. -/
def UnaryOp.apply (op : UnaryOp) (v : Value) : Except RuntimeFault Value :=
  match op, v.toNumber? with
  | .not, _ => .ok (.truth !v.isTrue)
  | .minus, some x => .ok (.number (-x))
  | .plus, some x => .ok (.number x)
  | op, none => .error (.badOperand op v.kind)

/-- What an arithmetic operator makes of two numbers. A quotient for `//` and `%`
is rounded down. -/
def ArithOp.compute (op : ArithOp) (x y : Float) : Except RuntimeFault Float :=
  match op with
  | add => .ok (x + y)
  | sub => .ok (x - y)
  | mul => .ok (x * y)
  | pow => .ok (Float.pow x y)
  | div => if y == 0 then .error .divisionByZero else .ok (x / y)
  | floorDiv => if y == 0 then .error .moduloByZero else .ok (Rounding.floor (x / y))
  | mod => if y == 0 then .error .moduloByZero else .ok (x - y * Rounding.floor (x / y))

/-- How often a sequence of some length is repeated by a count: never for a
negative one, and an empty sequence never whatever the count. -/
def repetitions (count : Value) (length : Nat) (x : Float) : Except RuntimeFault Nat :=
  if length = 0 then .ok 0
  else
    match integer? x with
    | none => .error (.repeatedByNonInteger count.kind)
    | some k =>
      if length * k.toNat ≤ maxSequenceLength then .ok k.toNat else .error .repeatedTooOften

/-- A text or a list repeated by a number; nothing for other operands. -/
def repeated? (sequence count : Value) : Option (Except RuntimeFault Value) :=
  match count.toNumber?, sequence with
  | some x, .text content => some <|
    match repetitions count content.utf8ByteSize x with
    | .ok n => .ok (.text (n.repeat (· ++ content) ""))
    | .error fault => .error fault
  | some x, .list elements => some <|
    match repetitions count elements.length x with
    | .ok n => .ok (.list (n.repeat (elements ++ ·) []))
    | .error fault => .error fault
  | _, _ => none

/-- What an arithmetic operator makes of the numbers that two values count as. -/
def ArithOp.numeric (op : ArithOp) (left right : Value) : Except RuntimeFault Value :=
  match left.toNumber?, right.toNumber? with
  | some x, some y =>
    match op.compute x y with
    | .ok z => .ok (.number z)
    | .error fault => .error fault
  | _, _ => .error (.badOperands op left.kind right.kind)

/-- What an arithmetic operator makes of two values. -/
def ArithOp.apply (op : ArithOp) (left right : Value) : Except RuntimeFault Value :=
  match op with
  | add =>
    match left, right with
    | .text s, .text t => .ok (.text (s ++ t))
    | .list vs, .list ws => .ok (.list (vs ++ ws))
    | _, _ => add.numeric left right
  | mul =>
    match repeated? left right, repeated? right left with
    | some result, _ => result
    | none, some result => result
    | none, none => mul.numeric left right
  | op => op.numeric left right

/-- Whether a text occurs in another as one part. -/
def Text.hasPart (part : Text) : Text → Bool
  | [] => part.isEmpty
  | c :: cs => part.isPrefixOf (c :: cs) || hasPart part cs

/-- Whether a container has an item: a list an equal element, a text a part. -/
def Value.has (container item : Value) : Except RuntimeFault Bool :=
  match container, item with
  | .list elements, _ => .ok (elements.any fun element => element.equals item)
  | .text content, .text part => .ok (Text.hasPart part.toList content.toList)
  | .text _, _ => .error (.noPartOfText item.kind)
  | _, _ => .error (.noContainer container.kind)

/-- Whether the order of two values is a wanted one. -/
def Relation.ordered (op : Relation) (wanted : Ordering → Bool) (left right : Value) :
    Except RuntimeFault Bool :=
  match left.compare? right with
  | some order => .ok (wanted order)
  | none => .error (.notComparable op.symbol left.kind right.kind)

/-- Whether a comparison holds between two values. -/
def Relation.holds (op : Relation) (left right : Value) : Except RuntimeFault Bool :=
  match op with
  | eq => .ok (left.equals right)
  | ne => .ok (!left.equals right)
  | lt => lt.ordered Ordering.isLT left right
  | le => le.ordered Ordering.isLE left right
  | gt => gt.ordered Ordering.isGT left right
  | ge => ge.ordered Ordering.isGE left right
  | isIn => right.has left
  | notIn =>
    match right.has left with
    | .ok found => .ok !found
    | .error fault => .error fault

namespace Operator

/-- What an operator makes of two values. -/
def apply (op : Operator) (left right : Value) : Except RuntimeFault Value :=
  match op with
  | arith op => op.apply left right
  | relation op =>
    match op.holds left right with
    | .ok b => .ok (.truth b)
    | .error fault => .error fault

/-- Whether an operator holds between two values; only a comparison does. -/
def test (op : Operator) (left right : Value) : Except RuntimeFault Bool :=
  match op with
  | arith op => .error (.notAComparison op)
  | relation op => op.holds left right

end Operator

end Offside
