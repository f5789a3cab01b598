import Offside.Number.Binary

/-!
# Rounding

Doubles rounded to integers, and naturals rounded to the precision of a double.
Rounding to an integer goes by the exact quotient of magnitudes; the sign stays,
also where the result is zero. The factor for rounding to a number of places is a
power of ten computed by repeated squaring in doubles, and its reciprocal where the
exponent is negative.
-/

namespace Offside

/-- The quotient rounded to the nearest integer, a half to the even neighbour. -/
def nearestQuotient (numerator denominator : Nat) : Nat :=
  let quotient := numerator / denominator
  let remainder := numerator % denominator
  if 2 * remainder < denominator then quotient
  else if denominator < 2 * remainder then quotient + 1
  else if quotient % 2 = 0 then quotient
  else quotient + 1

namespace Rounding

/-- Rounds a double to an integer. `choose` is told the sign and the magnitude
as a quotient, and gives the magnitude of the result. -/
def toIntegral (choose : Bool → Nat → Nat → Nat) (x : Float) : Float :=
  match Binary.ofFloat x with
  | .nan => x
  | .infinite _ => x
  | .finite negative mantissa exponent =>
    if 0 ≤ exponent then x
    else
      let magnitude := Float.ofNat (choose negative mantissa (1 <<< (-exponent).toNat))
      if negative then -magnitude else magnitude

/-- The greatest integer that is not above. -/
def floor (x : Float) : Float :=
  toIntegral (fun negative n d => if negative then (n + d - 1) / d else n / d) x

/-- The integer part. -/
def truncate (x : Float) : Float :=
  toIntegral (fun _ n d => n / d) x

/-- The nearest integer, a half to the even neighbour. -/
def halfToEven (x : Float) : Float :=
  toIntegral (fun _ n d => nearestQuotient n d) x

end Rounding

/-- `factor` times `base` to the `n`, by repeated squaring. -/
def squarePower (factor base : Float) (n : Nat) : Float :=
  if n < 2 then
    if n = 1 then factor * base else factor
  else squarePower (if n % 2 = 1 then factor * base else factor) (base * base) (n / 2)

/-- Ten to an integer exponent. -/
def powerOfTen (n : Int) : Float :=
  let power := squarePower 1 10 n.natAbs
  if n < 0 then 1 / power else power

/-- The natural number with 53 binary digits that is nearest, a half to the
even neighbour: what is left of a count that is kept as a double. -/
def toDoublePrecision (n : Nat) : Nat :=
  if n ≤ 1 <<< 53 then n
  else
    let unit : Nat := 1 <<< (n.log2 - 52)
    nearestQuotient n unit * unit

/-- Up to two to the fifty-third every count is kept exactly. -/
theorem toDoublePrecision_of_le {n : Nat} (h : n ≤ 1 <<< 53) : toDoublePrecision n = n := by
  rw [toDoublePrecision, if_pos h]

/-- An integer brought into the range of 64-bit signed integers. -/
def saturate (k : Int) : Int :=
  let bound : Int := (1 <<< 63 : Nat)
  max (-bound) (min k (bound - 1))

end Offside
