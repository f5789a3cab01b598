import Offside.Number.Binary

/-!
# The shortest decimal that reads back

A double is written with the fewest decimal digits that identify it: among the
decimals that are nearer to it than to any other double, one with as few digits
as possible, and of those the one nearest to it. Candidates are the two
neighbours of the value on the grids of powers of ten, from coarse to fine; the
first grid with a neighbour that reads back decides.
-/

namespace Offside

/-- A decimal stands for its digits times ten to its exponent. -/
structure Decimal where
  digits : Nat
  exponent : Int
  deriving Repr, DecidableEq

/-- The reals that a double stands for, in quarters of its last place: they lie
around `4 * mantissa`, the ends belong to them iff the mantissa is even, and
below a power of two the gap is half as wide. -/
structure Neighbourhood where
  mantissa : Nat
  exponent : Int
  deriving Repr, DecidableEq

namespace Neighbourhood

/-- The value in quarters of the last place. -/
def centre (v : Neighbourhood) : Nat := 4 * v.mantissa

/-- The lower end in quarters of the last place. -/
def lower (v : Neighbourhood) : Nat :=
  if v.mantissa = 1 <<< 52 ∧ -1074 < v.exponent then 4 * v.mantissa - 1 else 4 * v.mantissa - 2

/-- The upper end in quarters of the last place. -/
def upper (v : Neighbourhood) : Nat := 4 * v.mantissa + 2

/-- A grid of decimals brought to one scale with the value: a grid point `n` is
`n * point`, and a quarter of the last place is `quarter`. -/
structure Scale where
  point : Nat
  quarter : Nat

/-- The scale for the grid of the multiples of ten to the `grid`. -/
def scale (v : Neighbourhood) (grid : Int) : Scale where
  point := Nat.pow 10 grid.toNat <<< (2 - v.exponent).toNat
  quarter := Nat.pow 10 (-grid).toNat <<< (v.exponent - 2).toNat

/-- Whether a grid point is among the reals that the double stands for. -/
def readsBack (v : Neighbourhood) (s : Scale) (n : Nat) : Bool :=
  if v.mantissa % 2 = 0 then v.lower * s.quarter ≤ n * s.point && n * s.point ≤ v.upper * s.quarter
  else v.lower * s.quarter < n * s.point && n * s.point < v.upper * s.quarter

/-- The neighbour on the grid that reads back, the nearer one of two; the upper
one where both are equally near. -/
def onGrid? (v : Neighbourhood) (grid : Int) : Option Decimal :=
  let s := v.scale grid
  let below := v.centre * s.quarter / s.point
  match v.readsBack s below, v.readsBack s (below + 1) with
  | true, false => some ⟨below, grid⟩
  | false, true => some ⟨below + 1, grid⟩
  | true, true =>
    if 2 * (v.centre * s.quarter) < (2 * below + 1) * s.point then some ⟨below, grid⟩
    else some ⟨below + 1, grid⟩
  | false, false => none

/-- The exact value, which reads back whatever the grid. -/
def exact (v : Neighbourhood) : Decimal :=
  if 0 ≤ v.exponent then ⟨v.mantissa <<< v.exponent.toNat, 0⟩
  else ⟨v.mantissa * Nat.pow 5 (-v.exponent).toNat, v.exponent⟩

/-- An exponent of ten for a power that is not below the value: 0.30103 bounds
the decimal logarithm of two from above. -/
def ceiling (v : Neighbourhood) : Int :=
  (v.mantissa.log2 + 1 + v.exponent) * 30103 / 100000 + 1

/-- The shortest decimal on `count` grids, of which the coarsest is `grid`. -/
def search (v : Neighbourhood) : (count : Nat) → (grid : Int) → Decimal
  | 0, _ => v.exact
  | count + 1, grid =>
    match v.onGrid? grid with
    | some decimal => decimal
    | none => v.search count (grid - 1)

/-- The shortest decimal of a value that is not zero. Seventeen digits tell any
two doubles apart, and the ceiling is less than three grids too coarse. -/
def shortest (v : Neighbourhood) : Decimal :=
  v.search 20 v.ceiling

end Neighbourhood

namespace Decimal

/-- A decimal written out without an exponent. -/
def positional (d : Decimal) : String :=
  let digits := Nat.toDigits 10 d.digits
  if 0 ≤ d.exponent then String.ofList (digits ++ List.replicate d.exponent.toNat '0')
  else
    let places := (-d.exponent).toNat
    let padded := List.replicate (places + 1 - digits.length) '0' ++ digits
    let whole := padded.length - places
    String.ofList (padded.take whole ++ '.' :: padded.drop whole)

end Decimal

end Offside
