import Offside.Number.Binary

/-!
# Values

The values of programs, their kinds, and what every value offers whatever its
kind: a truth, and for numbers and truths a number.
-/

namespace Offside

/-- A value of a program. A function value names an entry of the function table;
it is not the function itself. -/
inductive Value where
  | text (content : String)
  | number (x : Float)
  | truth (b : Bool)
  | list (elements : List Value)
  | nothing
  | function (name : String)
  deriving Repr, Inhabited

/-- What kind of value a value is. A number is an `int` when it is integral. -/
inductive Kind where
  | str
  | int
  | float
  | bool
  | list
  | noneType
  | function
  deriving Repr, DecidableEq

/-- The name of a kind, as messages give it. -/
def Kind.label : Kind → String
  | str => "str"
  | int => "int"
  | float => "float"
  | bool => "bool"
  | list => "list"
  | noneType => "NoneType"
  | function => "function"

namespace Value

/-- The kind of a value. -/
def kind : Value → Kind
  | text _ => .str
  | number x => if isInteger x then .int else .float
  | truth _ => .bool
  | list _ => .list
  | nothing => .noneType
  | function _ => .function

/-- What a condition makes of a value: zero and whatever is empty do not hold. -/
def isTrue : Value → Bool
  | text content => !content.isEmpty
  | number x => !(x == 0)
  | truth b => b
  | list elements => !elements.isEmpty
  | nothing => false
  | function _ => true

/-- The number a value counts as; truths count as zero and one. -/
def toNumber? : Value → Option Float
  | number x => some x
  | truth b => some (if b then 1 else 0)
  | _ => none

mutual

/-- Whether two values are the same, kind and content. NaN is not the same as
anything, and both zeros are the same. -/
def same : Value → Value → Bool
  | text s, text t => s == t
  | number x, number y => x == y
  | truth a, truth b => a == b
  | list vs, list ws => sameAll vs ws
  | nothing, nothing => true
  | function f, function g => f == g
  | _, _ => false

/-- Whether two lists have the same values in the same places. -/
def sameAll : List Value → List Value → Bool
  | [], [] => true
  | v :: vs, w :: ws => same v w && sameAll vs ws
  | _, _ => false

end

end Value

end Offside
