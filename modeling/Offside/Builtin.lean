import Offside.Number.Rounding
import Offside.Number.Text
import Offside.Value.Operator
import Offside.Value.Printer

/-!
# Builtin functions

The functions that need no definition. What a function takes is part of its
form, so each one is a Lean function of just its arguments, and a call with too
few or too many is refused before it.
-/

namespace Offside

/-- What a builtin function takes, and what it does. -/
inductive Form where
  | one (f : Value → Except RuntimeFault Value)
  | upToOne (f : Option Value → Except RuntimeFault Value)
  | oneOrTwo (f : Value → Option Value → Except RuntimeFault Value)
  | upToThree (f : Value → Option Value → Option Value → Except RuntimeFault Value)
  | oneOrMore (f : Value → List Value → Except RuntimeFault Value)

namespace Form

/-- How many arguments a form takes. -/
def arity : Form → Arity
  | one _ => .exactly 1
  | upToOne _ => .between 0 1
  | oneOrTwo _ => .between 1 2
  | upToThree _ => .between 1 3
  | oneOrMore _ => .atLeast 1

/-- What a form does with some arguments; nothing if it does not take so many. -/
def applyTo? : Form → List Value → Option (Except RuntimeFault Value)
  | one f, [v] => some (f v)
  | upToOne f, [] => some (f none)
  | upToOne f, [v] => some (f (some v))
  | oneOrTwo f, [v] => some (f v none)
  | oneOrTwo f, [v, w] => some (f v (some w))
  | upToThree f, [v] => some (f v none none)
  | upToThree f, [v, w] => some (f v (some w) none)
  | upToThree f, [v, w, u] => some (f v (some w) (some u))
  | oneOrMore f, v :: vs => some (f v vs)
  | _, _ => none

end Form

/-- The builtin functions. -/
inductive Builtin where
  | len
  | str
  | int
  | float
  | bool
  | abs
  | min
  | max
  | sum
  | round
  | range
  deriving Repr, DecidableEq

namespace Builtin

/-- Every builtin function. -/
def all : List Builtin :=
  [len, str, int, float, bool, abs, min, max, sum, round, range]

/-- The name a builtin function is called by. -/
def name : Builtin → String
  | len => "len"
  | str => "str"
  | int => "int"
  | float => "float"
  | bool => "bool"
  | abs => "abs"
  | min => "min"
  | max => "max"
  | sum => "sum"
  | round => "round"
  | range => "range"

/-- The builtin function of a name. -/
def ofName? (s : String) : Option Builtin :=
  all.find? (·.name == s)

/-- The number that an argument counts as. -/
def number (b : Builtin) (v : Value) : Except RuntimeFault Float :=
  match v.toNumber? with
  | some x => .ok x
  | none => .error (.notNumber b.name v.kind)

/-- The integer that an argument is, brought into the range of 64 bits. -/
def integer (b : Builtin) (v : Value) : Except RuntimeFault Int :=
  match b.number v with
  | .error fault => .error fault
  | .ok x =>
    match integer? x with
    | some k => .ok (saturate k)
    | none => .error (.notInteger b.name)

/-- The number of characters of a text, or of elements of a list. -/
def length : Value → Except RuntimeFault Value
  | .text content => .ok (.number (Float.ofNat content.length))
  | .list elements => .ok (.number (Float.ofNat elements.length))
  | v => .error (.noLength v.kind)

/-- The text of a value; the empty one without a value. -/
def toText : Option Value → Except RuntimeFault Value
  | none => .ok (.text "")
  | some v => .ok (.text v.display)

/-- The integer that a text is, or the integer part of a number; zero without a
value. -/
def toInteger : Option Value → Except RuntimeFault Value
  | none => .ok (.number 0)
  | some (.text content) =>
    match readInteger? (Text.trim content.toList) with
    | some k => .ok (.number (Float.ofInt k))
    | none => .error (.badIntegerText content)
  | some v =>
    match int.number v with
    | .ok x => .ok (.number (Rounding.truncate x))
    | .error fault => .error fault

/-- The number that a text is, or that a value counts as; zero without a value. -/
def toFloat : Option Value → Except RuntimeFault Value
  | none => .ok (.number 0)
  | some (.text content) =>
    match readNumber? (Text.trim content.toList) with
    | some x => .ok (.number x)
    | none => .error (.badNumberText content)
  | some v =>
    match float.number v with
    | .ok x => .ok (.number x)
    | .error fault => .error fault

/-- The truth of a value; false without a value. -/
def toTruth : Option Value → Except RuntimeFault Value
  | none => .ok (.truth false)
  | some v => .ok (.truth v.isTrue)

/-- The magnitude of a number. -/
def magnitude (v : Value) : Except RuntimeFault Value :=
  match abs.number v with
  | .ok x => .ok (.number x.abs)
  | .error fault => .error fault

/-- The first of `best` and the candidates after it that none of them beats:
each candidate is compared with the best so far, and takes its place if it is in
the wanted order to it. -/
def extremeFrom (b : Builtin) (wanted : Ordering) (best : Value) :
    List Value → Except RuntimeFault Value
  | [] => .ok best
  | v :: vs =>
    match v.compare? best with
    | none => .error (.notComparable b.name v.kind best.kind)
    | some order => extremeFrom b wanted (if order = wanted then v else best) vs

/-- The extreme of the elements of one list, or of the arguments. -/
def extreme (b : Builtin) (wanted : Ordering) (first : Value) (others : List Value) :
    Except RuntimeFault Value :=
  match first, others with
  | .list [], [] => .error (.emptySequence b.name)
  | .list (v :: vs), [] => extremeFrom b wanted v vs
  | v, vs => extremeFrom b wanted v vs

/-- The sum so far and the numbers after it, added up from the front. -/
def sumFrom (total : Float) : List Value → Except RuntimeFault Float
  | [] => .ok total
  | v :: vs =>
    match sum.number v with
    | .error fault => .error fault
    | .ok x => sumFrom (total + x) vs

/-- The sum of the elements of a list. -/
def total : Value → Except RuntimeFault Value
  | .list elements =>
    match sumFrom 0 elements with
    | .ok x => .ok (.number x)
    | .error fault => .error fault
  | v => .error (.notIterable v.kind)

/-- A number rounded to an integer, or to a number of places: scaled by a power
of ten, rounded, and scaled back. The number of places is taken modulo two to
the thirty-second. -/
def roundTo (v : Value) (places : Option Value) : Except RuntimeFault Value :=
  match round.number v with
  | .error fault => .error fault
  | .ok x =>
    match places with
    | none => .ok (.number (Rounding.halfToEven x))
    | some .nothing => .ok (.number (Rounding.halfToEven x))
    | some p =>
      match round.integer p with
      | .error fault => .error fault
      | .ok n =>
        let factor := powerOfTen (n.bmod (1 <<< 32))
        .ok (.number (Rounding.halfToEven (x * factor) / factor))

/-- How many steps lead from `start` to before `stop`. -/
def stepCount (start stop step : Int) : Nat :=
  let span := if 0 < step then stop - start else start - stop
  if 0 < span then ((span - 1) / step.natAbs + 1).toNat else 0

/-- The first `n` members of an arithmetic progression, in front of a list. -/
def progressionOnto (start step : Int) : (n : Nat) → List Value → List Value
  | 0, rest => rest
  | n + 1, rest =>
    progressionOnto start step n (.number (Float.ofInt (start + n * step)) :: rest)

/-- The members of a progression are its values at zero, one and so on. -/
theorem progressionOnto_eq (start step : Int) (n : Nat) (rest : List Value) :
    progressionOnto start step n rest =
      (List.range n).map (fun k : Nat => Value.number (Float.ofInt (start + k * step))) ++ rest := by
  induction n generalizing rest with
  | zero => rfl
  | succ n ih => rw [progressionOnto, ih, List.range_succ]; simp

/-- The progression from `start` to before `stop`. -/
def progression (start stop step : Int) : Except RuntimeFault Value :=
  if step = 0 then .error .zeroStep
  else
    let count := stepCount start stop step
    if count ≤ maxSequenceLength then .ok (.list (progressionOnto start step count []))
    else .error (.rangeTooLong count)

/-- The progression that the arguments give: one bounds it from zero, two from
the first of them, and the third is the step. -/
def rangeOf (first : Value) (second third : Option Value) : Except RuntimeFault Value :=
  match range.integer first, second.map range.integer, third.map range.integer with
  | .error fault, _, _ => .error fault
  | _, some (.error fault), _ => .error fault
  | _, _, some (.error fault) => .error fault
  | .ok stop, none, _ => progression 0 stop 1
  | .ok start, some (.ok stop), none => progression start stop 1
  | .ok start, some (.ok stop), some (.ok step) => progression start stop step

/-- The form of a builtin function. -/
def form : Builtin → Form
  | len => .one length
  | str => .upToOne toText
  | int => .upToOne toInteger
  | float => .upToOne toFloat
  | bool => .upToOne toTruth
  | abs => .one magnitude
  | min => .oneOrMore (extreme min .lt)
  | max => .oneOrMore (extreme max .gt)
  | sum => .one total
  | round => .oneOrTwo roundTo
  | range => .upToThree rangeOf

/-- What a builtin function gives for some arguments. -/
def call (b : Builtin) (arguments : List Value) : Except RuntimeFault Value :=
  match b.form.applyTo? arguments with
  | some result => result
  | none => .error (.arity b.name b.form.arity arguments.length)

end Builtin

end Offside
