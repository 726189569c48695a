import ContentSpace.Number.Numeral

/-!
# Double-precision numbers

A double is its word of 64 bits: a sign bit, eleven bits of exponent and 52 bits of fraction.
Arithmetic on the word is exact arithmetic on natural numbers, so that rounding a quotient to the
nearest double is a definition and not a machine operation. The magnitude of a double is its word
without the sign bit; magnitudes of finite doubles are ordered as the numbers they stand for.
-/

namespace ContentSpace

/-- A double-precision number, given by its bits. -/
structure Double where
  /-- Sign, exponent and fraction in one word. -/
  bits : UInt64
  deriving DecidableEq

namespace Double

/-- The weight of the sign bit. -/
def signWeight : Nat := 0x8000000000000000

/-- How many fractions there are for one exponent. -/
def fractionCount : Nat := 0x10000000000000

/-- The bits below the sign. -/
def magnitude (x : Double) : Nat := x.bits.toNat % signWeight

/-- Whether the sign bit is set, also for a zero or for no number. -/
def isNegative (x : Double) : Bool := signWeight ≤ x.bits.toNat

/-- The magnitude of an infinity: all exponent bits and no fraction. -/
def infiniteMagnitude : Nat := 0x7ff * fractionCount

/-- Whether the word stands for no number. -/
def isNaN (x : Double) : Bool := infiniteMagnitude < x.magnitude

/-- The double with the given sign and magnitude. -/
def ofMagnitude (negative : Bool) (magnitude : Nat) : Double :=
  ⟨UInt64.ofNat (if negative then signWeight + magnitude else magnitude)⟩

/-- The one word chosen among those that stand for no number. -/
def nan : Double := ⟨0x7ff8000000000000⟩

/-- The double with every word for no number replaced by the chosen one. -/
def unified (x : Double) : Double := if x.isNaN then nan else x

/-- The double with the other sign. -/
def negated (x : Double) : Double := ⟨x.bits ^^^ 0x8000000000000000⟩

/-- Whether two doubles are equal as numbers: zeros of either sign are equal, and a word for no
number equals nothing. -/
def sameNumber (x y : Double) : Bool :=
  !x.isNaN && !y.isNaN && (x == y || (x.magnitude == 0 && y.magnitude == 0))

/-- A quotient rounded to the nearest natural number, a half to the even one. -/
def roundedQuotient (numerator denominator : Nat) : Nat :=
  let quotient := numerator / denominator
  let twice := 2 * (numerator % denominator)
  if twice < denominator ∨ (twice = denominator ∧ quotient % 2 = 0) then quotient
  else quotient + 1

/-- The greatest exponent whose power of two is at most the quotient. -/
def binaryLogarithm (numerator denominator : Nat) : Int :=
  let guess : Int := (numerator.log2 : Int) - denominator.log2
  if denominator <<< guess.toNat ≤ numerator <<< (-guess).toNat then guess else guess - 1

/-- The magnitude nearest to a quotient, a tie going to the even fraction. The last bit kept has
the weight of 53 significant bits, but never less than the smallest magnitude; a fraction that
rounds up to the next power of two carries into the exponent by itself. -/
def nearestMagnitude (numerator denominator : Nat) : Nat :=
  if numerator = 0 then 0
  else
    let weight := max (-1074) (binaryLogarithm numerator denominator - 52)
    let significand :=
      roundedQuotient (numerator <<< (-weight).toNat) (denominator <<< weight.toNat)
    min infiniteMagnitude ((weight + 1074).toNat * fractionCount + significand)

/-- The significant bits of a finite magnitude as a whole number. -/
def significand (magnitude : Nat) : Nat :=
  if magnitude < fractionCount then magnitude else fractionCount + magnitude % fractionCount

/-- The binary weight of the last significant bit of a finite magnitude. -/
def weight (magnitude : Nat) : Int :=
  if magnitude < fractionCount then -1074 else (magnitude / fractionCount : Nat) - 1075

/-- The number a finite magnitude stands for, as numerator and denominator. -/
def ratio (magnitude : Nat) : Nat × Nat :=
  (significand magnitude <<< (weight magnitude).toNat, 1 <<< (-weight magnitude).toNat)

/-- The double nearest to an integer. -/
def ofInt (n : Int) : Double :=
  ofMagnitude (n < 0) (nearestMagnitude n.natAbs 1)

/-- The double that stands for a single-precision word. A word for no number keeps its sign and
fraction and is marked as quiet. -/
def ofSingle (word : UInt32) : Double :=
  let negative := decide (0x80000000 ≤ word.toNat)
  let exponent := word.toNat / 0x800000 % 0x100
  let fraction := word.toNat % 0x800000
  if exponent = 255 then
    let quiet := if fraction = 0 then 0 else fraction <<< 29 ||| 0x8000000000000
    ofMagnitude negative (infiniteMagnitude + quiet)
  else if exponent = 0 then
    ofMagnitude negative (nearestMagnitude fraction (1 <<< 149))
  else
    ofMagnitude negative
      (nearestMagnitude ((0x800000 + fraction) <<< exponent) (1 <<< 150))

end Double

end ContentSpace
