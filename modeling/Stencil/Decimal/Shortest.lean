import Stencil.Decimal.Double

/-!
# The shortest decimal

A finite double is written with the fewest digits that read back as it; of several such decimals
the nearest is taken, and of two equally near ones the larger. Decimals are written in positional
notation, whatever their size, and whole numbers without a point.
-/

namespace Stencil.Double

/-- The numbers that round to `mantissa · 2 ^ exponent` lie between two bounds, and the number
itself between them. All three share a denominator; `closed` says whether the bounds round to it
too. -/
structure Neighbourhood where
  low : Nat
  centre : Nat
  high : Nat
  denominator : Nat
  closed : Bool

def neighbourhood (x : Double) : Neighbourhood :=
  let narrow := x.fraction == 0 && 1 < x.exponentField
  let scale := Nat.pow 2 x.exponent.toNat
  { low := (4 * x.mantissa - if narrow then 1 else 2) * scale
    centre := 4 * x.mantissa * scale
    high := (4 * x.mantissa + 2) * scale
    denominator := 4 * Nat.pow 2 (-x.exponent).toNat
    closed := x.mantissa % 2 == 0 }

namespace Neighbourhood

def admits (n : Neighbourhood) (digits : Nat) (power : Int) : Bool :=
  let value := digits * Nat.pow 10 power.toNat * n.denominator
  let scale := Nat.pow 10 (-power).toNat
  if n.closed then n.low * scale ≤ value && value ≤ n.high * scale
  else n.low * scale < value && value < n.high * scale

/-- The multiple of `10 ^ power` just below the centre, and the distance to it and to the next one,
in a common unit. -/
def straddle (n : Neighbourhood) (power : Int) : Nat × Nat × Nat :=
  let value := n.centre * Nat.pow 10 (-power).toNat
  let unit := n.denominator * Nat.pow 10 power.toNat
  (value / unit, value % unit, unit - value % unit)

def nearest? (n : Neighbourhood) (power : Int) : Option Nat :=
  let (below, down, up) := n.straddle power
  match n.admits below power, n.admits (below + 1) power with
  | true, true => some (if down < up then below else below + 1)
  | true, false => some below
  | false, true => some (below + 1)
  | false, false => none

def magnitude (n : Neighbourhood) : Int :=
  if n.denominator ≤ n.centre then ((Nat.toDigits 10 (n.centre / n.denominator)).length : Int)
  else -(((List.range 400).takeWhile fun k => n.centre * Nat.pow 10 (k + 1) < n.denominator).length : Int)

end Neighbourhood

def shortest (x : Double) : Nat × Int :=
  let n := x.neighbourhood
  let powers := (List.range 17).map fun (k : Nat) => n.magnitude - 1 - k
  (powers.findSome? fun power => (n.nearest? power).map (·, power)).getD (0, 0)

def positional (digits : Nat) (power : Int) : List Char :=
  let written := Nat.toDigits 10 digits
  if 0 ≤ power then written ++ List.replicate power.toNat '0'
  else
    let places := (-power).toNat
    let padded := List.replicate (places + 1 - written.length) '0' ++ written
    let whole := padded.take (padded.length - places)
    let decimals := ((padded.drop (padded.length - places)).reverse.dropWhile (· == '0')).reverse
    if decimals.isEmpty then whole else whole ++ '.' :: decimals

def text (x : Double) : String :=
  if x.isNaN then "NaN"
  else
    let size :=
      if x.isInfinite then "inf".toList
      else if x.isZero then ['0']
      else
        let (digits, power) := x.shortest
        positional digits power
    String.ofList (if x.isNegative then '-' :: size else size)

end Stencil.Double
