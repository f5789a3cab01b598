import Offside.Value.Basic

/-!
# Equality and order of values

Equality compares content: truths equal the numbers they count as, lists are
equal element by element, and values of other kinds never equal each other.
The order is partial: texts are ordered by code points, numbers and truths as
numbers, lists by their first difference; anything else is not comparable.
-/

namespace Offside.Value

mutual

/-- Whether two values are equal as far as a program can tell. -/
def equals : Value → Value → Bool
  | text s, text t => s == t
  | list vs, list ws => equalsAll vs ws
  | nothing, nothing => true
  | function f, function g => f == g
  | v, w =>
    match v.toNumber?, w.toNumber? with
    | some x, some y => x == y
    | _, _ => false

/-- Whether two lists have equal elements in equal number. -/
def equalsAll : List Value → List Value → Bool
  | [], [] => true
  | v :: vs, w :: ws => equals v w && equalsAll vs ws
  | _, _ => false

end

/-- The order of two numbers; NaN is not comparable. -/
def compareNumbers (x y : Float) : Option Ordering :=
  if x < y then some .lt
  else if x == y then some .eq
  else if y < x then some .gt
  else none

mutual

/-- The order of two values, if they are comparable. -/
def compare? : Value → Value → Option Ordering
  | text s, text t => some (compare s t)
  | list vs, list ws => compareAll? vs ws
  | v, w =>
    match v.toNumber?, w.toNumber? with
    | some x, some y => compareNumbers x y
    | _, _ => none

/-- The order of two lists: that of the first elements that are not equal, or of
the lengths. An earlier pair that is not comparable leaves the lists so. -/
def compareAll? : List Value → List Value → Option Ordering
  | [], [] => some .eq
  | [], _ :: _ => some .lt
  | _ :: _, [] => some .gt
  | v :: vs, w :: ws =>
    match compare? v w with
    | some .eq => compareAll? vs ws
    | other => other

end

end Offside.Value
