import ContentSpace.Number.Double

/-!
# Shortest decimals

A decimal is a whole number of units, each a power of ten. The shortest decimal of a double has
the fewest digits among those that read back as the double, and among decimals of that length it
is the nearest one; of two that are equally near it is the greater.
-/

namespace ContentSpace

/-- A number of decimal units. -/
structure Decimal where
  /-- How many units there are. -/
  units : Nat
  /-- The power of ten that one unit is. -/
  exponent : Int
  deriving DecidableEq

namespace Decimal

/-- The same number in the greatest unit that measures it; zero is counted in ones. -/
def normal (units : Nat) (exponent : Int) : Decimal :=
  if units = 0 then ⟨0, 0⟩
  else if units % 10 = 0 then normal (units / 10) (exponent + 1)
  else ⟨units, exponent⟩
termination_by units

/-- The magnitude of the double nearest to a decimal. Beyond the range of doubles the answer is
known from the position of the first digit alone. -/
def nearestMagnitude (decimal : Decimal) : Nat :=
  let point : Int := (Numeral.digits decimal.units).length + decimal.exponent
  if decimal.units = 0 ∨ point < -330 then 0
  else if 310 < point then Double.infiniteMagnitude
  else
    Double.nearestMagnitude (decimal.units * Nat.pow 10 decimal.exponent.toNat)
      (Nat.pow 10 (-decimal.exponent).toNat)

/-- The position of the decimal point: the least power of ten above the quotient. -/
def point (numerator denominator : Nat) : Int :=
  if denominator ≤ numerator then (Numeral.digits (numerator / denominator)).length
  else 1 - ((Numeral.digits ((denominator - 1) / numerator)).length : Int)

/-- The decimal in the given unit that reads back as the magnitude and is nearest to it, if any
does. Only the two neighbours of the number in that unit have to be tried. -/
def inUnit? (magnitude : Nat) (exponent : Int) : Option Decimal :=
  let (numerator, denominator) := Double.ratio magnitude
  let scaled := numerator * Nat.pow 10 (-exponent).toNat
  let unit := denominator * Nat.pow 10 exponent.toNat
  let lower := normal (scaled / unit) exponent
  let upper := normal (scaled / unit + 1) exponent
  match lower.nearestMagnitude == magnitude, upper.nearestMagnitude == magnitude with
  | true, true => some (if 2 * (scaled % unit) < unit then lower else upper)
  | true, false => some lower
  | false, true => some upper
  | false, false => none

/-- All digits of a finite magnitude. -/
def exact (magnitude : Nat) : Decimal :=
  let weight := Double.weight magnitude
  normal (Double.significand magnitude <<< weight.toNat * Nat.pow 5 (-weight).toNat) (min weight 0)

/-- The shortest decimal of a finite magnitude. Seventeen digits always suffice. -/
def shortest (magnitude : Nat) : Decimal :=
  let (numerator, denominator) := Double.ratio magnitude
  let start := point numerator denominator
  ((List.range 17).findSome? fun (digits : Nat) => inUnit? magnitude (start - (digits + 1))).getD
    (exact magnitude)

end Decimal

end ContentSpace
