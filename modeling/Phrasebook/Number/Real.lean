import Phrasebook.Number.Numeral
import Phrasebook.Number.Shortest

/-!
# Real numbers

The 64-bit numbers with their signs, zeros and infinities, how a text writes them,
and their sums and products. A result is the number nearest to the exact one.
-/

namespace Phrasebook.Number

/-- The size of a number without its sign. -/
inductive Magnitude where
  | zero
  | finite (number : Binary)
  | infinite
  deriving Repr, DecidableEq

/-- A number, or the mark of none. -/
inductive Real where
  | signed (negative : Bool) (magnitude : Magnitude)
  | undefined
  deriving Repr, DecidableEq

/-- The magnitude nearest to a fraction. -/
def Magnitude.ofFraction (fraction : Fraction) : Magnitude :=
  if fraction.numerator == 0 then .zero
  else match nearest fraction with
    | none => .zero
    | some none => .infinite
    | some (some number) => .finite number

/-- The value of a magnitude, unless it is infinite. -/
def Magnitude.fraction? : Magnitude → Option Fraction
  | zero => some ⟨0, 1⟩
  | finite number => some number.fraction
  | infinite => none

namespace Real

/-- The number zero. -/
def zero : Real :=
  .signed false .zero

/-- A number with the other sign. -/
def negate : Real → Real
  | signed negative magnitude => .signed (!negative) magnitude
  | undefined => .undefined

/-- The number nearest to a whole number. -/
def ofNat (number : Nat) : Real :=
  .signed false (.ofFraction ⟨number, 1⟩)

/-- Whether a number is infinite. -/
def isInfinite : Real → Bool
  | signed _ .infinite => true
  | _ => false

/-- The product of two numbers. -/
def times : Real → Real → Real
  | signed leftSign left, signed rightSign right =>
    let negative := leftSign != rightSign
    match left.fraction?, right.fraction? with
    | some one, some other =>
      .signed negative
        (.ofFraction ⟨one.numerator * other.numerator, one.denominator * other.denominator⟩)
    | _, _ => if left == .zero || right == .zero then .undefined else .signed negative .infinite
  | _, _ => .undefined

/-- The exact sum of two signed fractions, as a numerator over the product of their
denominators. -/
def exactSum (leftSign : Bool) (left : Fraction) (rightSign : Bool) (right : Fraction) : Int :=
  let signed (negative : Bool) (number : Nat) : Int := if negative then -(number : Int) else number
  signed leftSign (left.numerator * right.denominator) +
    signed rightSign (right.numerator * left.denominator)

/-- The sum of two numbers. A sum of zero is negative only if both numbers are. -/
def plus : Real → Real → Real
  | signed leftSign left, signed rightSign right =>
    match left.fraction?, right.fraction? with
    | some one, some other =>
      let sum := exactSum leftSign one rightSign other
      let negative := if sum == 0 then leftSign && rightSign else sum < 0
      .signed negative (.ofFraction ⟨sum.natAbs, one.denominator * other.denominator⟩)
    | none, some _ => .signed leftSign left
    | some _, none => .signed rightSign right
    | none, none => if leftSign == rightSign then .signed leftSign left else .undefined
  | _, _ => .undefined

/-- A number as texts show it. -/
def shown : Real → Text
  | undefined => "nan".toList
  | signed negative magnitude =>
    let body := match magnitude with
      | .zero => "0.0".toList
      | .finite number => number.shortest.shown
      | .infinite => "inf".toList
    if negative then '-' :: body else body

/-- Whether a number is zero. -/
def isZero : Real → Bool
  | signed _ .zero => true
  | _ => false

end Real

/-- The power of ten that an exponent writes, with its letter and an optional sign. -/
def exponent? : Text → Option Int
  | [] => some 0
  | mark :: rest =>
    let (negative, digits) := afterSign rest
    if (mark == 'e' || mark == 'E') && !digits.isEmpty && digits.all Char.isDigit then
      let power : Int := Text.numberOf digits
      some (if negative then -power else power)
    else none

/-- The digits before and after the point of an unsigned decimal, and its power of
ten. -/
def parts? (text : Text) : Option (Text × Text × Int) :=
  let (whole, rest) := text.span Char.isDigit
  let (fraction, last) := match rest with
    | '.' :: behind => behind.span Char.isDigit
    | _ => ([], rest)
  if whole.isEmpty && fraction.isEmpty then none
  else (exponent? last).map fun power => (whole, fraction, power)

/-- The largest power of ten that matters: beyond it every number is zero or
infinite. -/
def powerLimit (digits : Text) : Int :=
  digits.length + 400

/-- The fraction that an unsigned decimal writes. -/
def fraction? (text : Text) : Option Fraction := do
  let (whole, fraction, power) ← parts? text
  let digits := whole ++ fraction
  let limit := powerLimit digits
  let shift := max (-limit) (min limit power) - fraction.length
  return Fraction.scale ⟨Text.numberOf digits, 1⟩ 10 shift

/-- The magnitude that an unsigned text writes, `none` for the mark of no number. -/
def magnitude? (text : Text) : Option (Option Magnitude) :=
  let word := text.map Char.toLower
  if word == "inf".toList || word == "infinity".toList then some (some .infinite)
  else if word == "nan".toList then some none
  else (fraction? text).map fun value => some (.ofFraction value)

/-- The number that a text writes. -/
def readReal? (text : Text) : Option Real :=
  let (negative, unsigned) := afterSign (withoutSpaces (asciiForm text))
  (magnitude? unsigned).map fun found =>
    match found with
    | some magnitude => .signed negative magnitude
    | none => .undefined

end Phrasebook.Number
