/-!
# Doubles taken apart

A finite double is a sign, a natural mantissa and a power of two. Whether it is
an integer, which one, and how it is rounded to an integer are then questions of
exact integer arithmetic.
-/

namespace Offside

/-- A double taken apart: a finite one stands for its mantissa times two to its
exponent, negated where `negative` holds. -/
inductive Binary where
  | nan
  | infinite (negative : Bool)
  | finite (negative : Bool) (mantissa : Nat) (exponent : Int)
  deriving Repr, DecidableEq

namespace Binary

/-- The parts that the bits of a double stand for. -/
def ofFloat (x : Float) : Binary :=
  let bits := x.toBits.toNat
  let negative := decide (1 <<< 63 ≤ bits)
  let biased : Nat := (bits >>> 52) % (1 <<< 11)
  let fraction : Nat := bits % (1 <<< 52)
  if biased = 0x7ff then
    if fraction = 0 then infinite negative else nan
  else if biased = 0 then finite negative fraction (-1074)
  else finite negative (1 <<< 52 + fraction) ((biased : Int) - 1075)

/-- The integer with this sign and magnitude. -/
def signed (negative : Bool) (magnitude : Nat) : Int :=
  if negative then -(magnitude : Int) else magnitude

/-- The value, if it is an integer. -/
def toInt? : Binary → Option Int
  | nan => none
  | infinite _ => none
  | finite negative mantissa exponent =>
    if 0 ≤ exponent then some (signed negative (mantissa <<< exponent.toNat))
    else
      let unit : Nat := 1 <<< (-exponent).toNat
      if mantissa % unit = 0 then some (signed negative (mantissa / unit)) else none

end Binary

/-- The integer that a double is, if it is one; neither NaN nor an infinity is. -/
def integer? (x : Float) : Option Int :=
  (Binary.ofFloat x).toInt?

/-- Whether a double is an integer. -/
def isInteger (x : Float) : Bool :=
  (integer? x).isSome

end Offside
