import Offside.Number.Shortest
import Offside.Text.Blank

/-!
# Numbers as text

How a number is written, and how numbers are read from text.

An integer of fewer than seventeen digits is written as one, without a sign if
it is zero; every other finite number is written as its shortest decimal, always
without an exponent. A decimal is read correctly rounded, and an integer only if
it fits into 64 bits.
-/

namespace Offside

/-- The text of a number. -/
def numberText (x : Float) : String :=
  match Binary.ofFloat x with
  | .nan => "nan"
  | .infinite negative => if negative then "-inf" else "inf"
  | .finite negative mantissa exponent =>
    match (Binary.finite negative mantissa exponent).toInt? with
    | some k =>
      if k.natAbs < Nat.pow 10 16 then toString k
      else sign negative ++ (Neighbourhood.shortest ⟨mantissa, exponent⟩).positional
    | none => sign negative ++ (Neighbourhood.shortest ⟨mantissa, exponent⟩).positional
where
  /-- The mark in front of a negative number. -/
  sign (negative : Bool) : String :=
    if negative then "-" else ""

/-- The natural number that decimal digits stand for. -/
def digitsToNat (digits : Text) : Nat :=
  digits.foldl (fun n c => 10 * n + (c.toNat - '0'.toNat)) 0

/-- An optional sign: whether it is a minus, and the text after it. -/
def Text.takeSign : Text → Bool × Text
  | '+' :: cs => (false, cs)
  | '-' :: cs => (true, cs)
  | cs => (false, cs)

/-- The exponent of a decimal numeral: absent, or a mark and an integer that
reach to the end of the text. -/
def exponentPart? : Text → Option Int
  | [] => some 0
  | c :: cs =>
    if c == 'e' || c == 'E' then
      let (negative, digits) := Text.takeSign cs
      if !digits.isEmpty && digits.all Char.isDigit then
        some (Binary.signed negative (digitsToNat digits))
      else none
    else none

/-- A decimal numeral without a sign: digits with an optional point among, before
or after them, and an optional exponent. -/
def decimal? (t : Text) : Option Decimal :=
  let whole := t.takeWhile Char.isDigit
  let rest := t.dropWhile Char.isDigit
  let (fraction, rest) :=
    match rest with
    | '.' :: cs => (cs.takeWhile Char.isDigit, cs.dropWhile Char.isDigit)
    | cs => ([], cs)
  if whole.isEmpty && fraction.isEmpty then none
  else
    (exponentPart? rest).map fun exponent =>
      ⟨digitsToNat (whole ++ fraction), exponent - fraction.length⟩

/-- The double nearest to a decimal. -/
def Decimal.toFloat (d : Decimal) : Float :=
  Float.ofScientific d.digits (d.exponent < 0) d.exponent.natAbs

/-- A number: an optional sign and a decimal numeral, or a name of infinity or
NaN in letters of either case. -/
def readNumber? (t : Text) : Option Float :=
  let (negative, body) := Text.takeSign t
  let lower := body.map Char.toLower
  let magnitude :=
    if lower == "inf".toList || lower == "infinity".toList then some (1 / 0)
    else if lower == "nan".toList then some (0 / 0)
    else (decimal? body).map Decimal.toFloat
  magnitude.map fun x => if negative then -x else x

/-- An integer: an optional sign and digits, within the range of 64-bit signed
integers. -/
def readInteger? (t : Text) : Option Int :=
  let (negative, digits) := Text.takeSign t
  if !digits.isEmpty && digits.all Char.isDigit then
    let k := Binary.signed negative (digitsToNat digits)
    let bound : Int := (1 <<< 63 : Nat)
    if -bound ≤ k && k < bound then some k else none
  else none

end Offside
