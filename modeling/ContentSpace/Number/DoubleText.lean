import ContentSpace.Number.Shortest

/-!
# Text of double-precision numbers

A double is written with the digits of its shortest decimal. Numbers from a ten-thousandth up to
ten to the sixteenth are written by position with at least one digit after the point, all others
with one digit before the point and a power of ten. Reading accepts both forms, signs, missing
digits on one side of the point, and the words for infinity and for no number.
-/

namespace ContentSpace.Double

/-- Digits written by position, the point standing after the given number of them. -/
def positional (digits : List Char) (point : Int) : List Char :=
  let padded := List.replicate (1 - point).toNat '0' ++ digits ++
    List.replicate (point + 1 - digits.length).toNat '0'
  let whole := (max point 1).toNat
  padded.take whole ++ '.' :: padded.drop whole

/-- Digits written with one of them before the point and a power of ten. -/
def scientific (digits : List Char) (point : Int) : List Char :=
  digits.take 1 ++ (if digits.length ≤ 1 then [] else '.' :: digits.drop 1) ++
    'e' :: Numeral.ofInt (point - 1)

/-- A positive decimal, by position where its size allows it. -/
def decimalText (decimal : Decimal) : List Char :=
  let digits := Numeral.digits decimal.units
  let point := digits.length + decimal.exponent
  if -3 ≤ point ∧ point ≤ 16 then positional digits point else scientific digits point

/-- The text of a double. All words for no number have one text. -/
def text (x : Double) : List Char :=
  if x.isNaN then "NaN".toList
  else
    (if x.isNegative then ['-'] else []) ++
      (if x.magnitude = infiniteMagnitude then "inf".toList
      else if x.magnitude = 0 then "0.0".toList
      else decimalText (Decimal.shortest x.magnitude))

/-- The power of ten after the exponent mark, or none when no mark follows. -/
def exponent? : List Char → Option Int
  | [] => some 0
  | mark :: rest =>
    if mark = 'e' ∨ mark = 'E' then
      match rest with
      | '-' :: digits => if Numeral.isNumeral digits then some (-(Numeral.value digits)) else none
      | '+' :: digits => if Numeral.isNumeral digits then some (Numeral.value digits) else none
      | digits => if Numeral.isNumeral digits then some (Numeral.value digits) else none
    else none

/-- The decimal that unsigned text writes, at least one digit standing beside the point. -/
def decimal? (text : List Char) : Option Decimal :=
  let whole := text.takeWhile Char.isDigit
  let rest := text.dropWhile Char.isDigit
  let (fraction, rest) :=
    match rest with
    | '.' :: rest => (rest.takeWhile Char.isDigit, rest.dropWhile Char.isDigit)
    | rest => ([], rest)
  if whole.isEmpty && fraction.isEmpty then none
  else (exponent? rest).map fun exponent =>
    Decimal.normal (Numeral.value (whole ++ fraction)) (exponent - fraction.length)

/-- The magnitude that unsigned text writes. -/
def magnitude? (text : List Char) : Option Nat :=
  let word := text.map Char.toLower
  if word = "inf".toList ∨ word = "infinity".toList then some infiniteMagnitude
  else if word = "nan".toList then some nan.magnitude
  else (decimal? text).map Decimal.nearestMagnitude

/-- The double that text writes, correctly rounded. -/
def ofText? : List Char → Option Double
  | '-' :: rest => (magnitude? rest).map (ofMagnitude true)
  | '+' :: rest => (magnitude? rest).map (ofMagnitude false)
  | rest => (magnitude? rest).map (ofMagnitude false)

end ContentSpace.Double
