import Phrasebook.Text.Basic

/-!
# Binary numbers and their shortest decimals

The 64-bit binary number nearest to a fraction, and the decimal with the fewest
digits that is nearer to it than to any other. All arithmetic is exact.
-/

namespace Phrasebook.Number

/-- A positive binary number `significand * 2 ^ exponent`. -/
structure Binary where
  significand : Nat
  exponent : Int
  deriving Repr, DecidableEq

/-- A positive decimal: its digits, and the power of ten of the first one. -/
structure Decimal where
  digits : Nat
  count : Nat
  leading : Int
  deriving Repr, DecidableEq

/-- A positive fraction. -/
structure Fraction where
  numerator : Nat
  denominator : Nat
  deriving Repr, DecidableEq

namespace Fraction

/-- A fraction times a power of a base. -/
def scale (fraction : Fraction) (base : Nat) : Int → Fraction
  | .ofNat power => ⟨fraction.numerator * base.pow power, fraction.denominator⟩
  | .negSucc power => ⟨fraction.numerator, fraction.denominator * base.pow (power + 1)⟩

/-- Whether a fraction is below another one. -/
def below (left right : Fraction) : Bool :=
  left.numerator * right.denominator < right.numerator * left.denominator

/-- The nearest whole number, the even one of two. -/
def round (fraction : Fraction) : Nat :=
  let floor := fraction.numerator / fraction.denominator
  let twice := 2 * (fraction.numerator % fraction.denominator)
  if twice < fraction.denominator then floor
  else if fraction.denominator < twice then floor + 1
  else floor + floor % 2

end Fraction

/-- The number of bits of a significand. -/
def precision : Nat := 53

/-- The least number that is too large for a significand. -/
def significandEnd : Nat := Nat.pow 2 precision

/-- The least significand that needs all its bits. -/
def significandStart : Nat := Nat.pow 2 (precision - 1)

/-- The least exponent. -/
def leastExponent : Int := -1074

/-- The largest exponent. -/
def largestExponent : Int := 971

/-- The binary number nearest to a fraction; `none` when it is zero, and an infinite
number is `some none`. -/
def nearest (fraction : Fraction) : Option (Option Binary) :=
  let size : Int := (fraction.numerator.log2 : Int) - fraction.denominator.log2
  let first := max leastExponent (size - precision)
  let finer := (fraction.scale 2 (-first)).round
  -- A first guess may leave one bit too many.
  let exponent := if significandEnd ≤ finer then first + 1 else first
  let significand := if exponent == first then finer else (fraction.scale 2 (-exponent)).round
  let number : Binary :=
    if significand == significandEnd then ⟨significandStart, exponent + 1⟩
    else ⟨significand, exponent⟩
  if number.significand == 0 then none
  else if largestExponent < number.exponent then some none
  else some (some number)

namespace Binary

/-- A binary number as a fraction. -/
def fraction (number : Binary) : Fraction :=
  Fraction.scale ⟨number.significand, 1⟩ 2 number.exponent

/-- Whether a fraction rounds to a binary number. The ends of its interval belong to
an even significand; below a power of two the interval is half as wide. -/
def holds (number : Binary) (fraction : Fraction) : Bool :=
  let narrow := number.significand == significandStart && number.exponent != leastExponent
  let low := Fraction.scale
    ⟨if narrow then 4 * number.significand - 1 else 4 * number.significand - 2, 4⟩ 2 number.exponent
  let high := Fraction.scale ⟨4 * number.significand + 2, 4⟩ 2 number.exponent
  if number.significand % 2 == 0 then !fraction.below low && !high.below fraction
  else low.below fraction && fraction.below high

/-- The largest power of ten, at most `guess`, that is not above a fraction. -/
def powerBelow (fraction : Fraction) : (fuel : Nat) → (guess : Int) → Int
  | 0, guess => guess
  | fuel + 1, guess =>
    if fraction.below (Fraction.scale ⟨1, 1⟩ 10 guess) then powerBelow fraction fuel (guess - 1)
    else guess

/-- The power of ten of the first digit. -/
def leading (number : Binary) : Int :=
  let bits : Int := (number.significand.log2 : Int) + number.exponent
  powerBelow number.fraction 4 ((bits + 1) * 30103 / 100000 + 1)

/-- The decimal of some digits that is nearest to a binary number, if it rounds to
it. -/
def decimal? (number : Binary) (count : Nat) : Option Decimal :=
  let unit : Int := number.leading + 1 - count
  let scaled := number.fraction.scale 10 (-unit)
  let floor := scaled.numerator / scaled.denominator
  let fits (digits : Nat) : Bool := number.holds (Fraction.scale ⟨digits, 1⟩ 10 unit)
  let near := scaled.round
  let found := if fits near then some near else [floor, floor + 1].find? fits
  found.map fun digits =>
    if digits == Nat.pow 10 count then ⟨Nat.pow 10 (count - 1), count, number.leading + 1⟩
    else ⟨digits, count, number.leading⟩

/-- The shortest decimal of a binary number. Seventeen digits always suffice. -/
def shortest (number : Binary) : Decimal :=
  ((List.range 17).findSome? fun count => number.decimal? (count + 1)).getD ⟨0, 1, 0⟩

end Binary

/-- The digits of a decimal. -/
def Decimal.text (decimal : Decimal) : Text :=
  let digits := Text.ofNat decimal.digits
  List.replicate (decimal.count - digits.length) '0' ++ digits

/-- A number as texts show it: with a point from a ten-thousandth up to sixteen
places, else with an exponent of at least two digits. -/
def Decimal.shown (decimal : Decimal) : Text :=
  let digits := decimal.text
  if -4 ≤ decimal.leading && decimal.leading < 16 then
    if decimal.leading < 0 then
      '0' :: '.' :: List.replicate (-decimal.leading - 1).toNat '0' ++ digits
    else
      let places := decimal.leading.toNat + 1
      let whole := digits.take places ++ List.replicate (places - digits.length) '0'
      let fraction := digits.drop places
      whole ++ '.' :: (if fraction.isEmpty then ['0'] else fraction)
  else
    let rest := digits.drop 1
    let power := Text.ofNat decimal.leading.natAbs
    digits.take 1 ++ (if rest.isEmpty then [] else '.' :: rest) ++ ['e'] ++
      [if decimal.leading < 0 then '-' else '+'] ++ List.replicate (2 - power.length) '0' ++ power

end Phrasebook.Number
