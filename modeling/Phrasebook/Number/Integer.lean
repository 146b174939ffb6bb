import Phrasebook.Number.Numeral
import Phrasebook.Text.Quoted

/-!
# Whole numbers in texts

A whole number as a text writes it: blanks around it, a sign, in some bases the
mark of the base, and digits with single underscores between them. Decimal numbers
have a largest length, both where they are read and where they are shown.
-/

namespace Phrasebook.Number

/-- The largest number of decimal digits. -/
def digitLimit : Nat := 4300

/-- Why a text writes no whole number. -/
inductive IntegerFault where
  | malformed
  /-- It has more decimal digits than are read. -/
  | tooLong (digits : Nat)
  deriving Repr, DecidableEq

/-- What to do about a number that is too long. -/
def limitAdvice : Text :=
  "; use sys.set_int_max_str_digits() to increase the limit".toList

/-- What a number that is too long exceeds. -/
def limitName : Text :=
  "Exceeds the limit (".toList ++ Text.ofNat digitLimit ++
    " digits) for integer string conversion".toList

/-- A fault of a text in words. Of the text at most 200 characters are shown. -/
def IntegerFault.message (base : Nat) (text : Text) : IntegerFault → Text
  | malformed =>
    "invalid literal for int() with base ".toList ++ Text.ofNat base ++ ": ".toList ++
      (Text.quoted text).take 200
  | tooLong digits =>
    limitName ++ ": value has ".toList ++ Text.ofNat digits ++ " digits".toList ++ limitAdvice

/-- The value of a digit in a base up to sixteen. -/
def digitIn? (base : Nat) (digit : Char) : Option Nat :=
  (Text.hexValue? digit).filter (· < base)

/-- The letter that marks a base. -/
def baseLetter? : Nat → Option Char
  | 2 => some 'b'
  | 8 => some 'o'
  | 16 => some 'x'
  | _ => none

/-- A text behind the mark of its base, if it has one. An underscore may follow the
mark. -/
def afterBase (base : Nat) (text : Text) : Text :=
  match text, baseLetter? base with
  | '0' :: mark :: rest, some letter =>
    if mark.toLower == letter then
      match rest with
      | '_' :: digits => digits
      | digits => digits
    else text
  | _, _ => text

/-- Whether every underscore of a text stands between two other characters. -/
def joins : Text → Bool
  | [] => true
  | ['_'] => false
  | '_' :: '_' :: _ => false
  | _ :: rest => joins rest

/-- The number that digits write. -/
def digitsValue (base : Nat) (digits : Text) : Nat :=
  digits.foldl (fun value digit => value * base + (digitIn? base digit).getD 0) 0

/-- The whole number that a text writes in a base. -/
def readInteger (base : Nat) (text : Text) : Except IntegerFault Int :=
  let (negative, unsigned) := afterSign (afterSpaces (asciiForm text))
  let (run, rest) := (afterBase base unsigned).span fun char =>
    (digitIn? base char).isSome || char == '_'
  let digits := run.filter (· != '_')
  if run.head? == some '_' || !joins run || digits.isEmpty then .error .malformed
  else if (baseLetter? base).isNone && digitLimit < digits.length then
    .error (.tooLong digits.length)
  else if !rest.all isSpace then .error .malformed
  else
    let value : Int := digitsValue base digits
    .ok (if negative then -value else value)

/-- A whole number as texts show it, unless it is too long. -/
def shownInteger? (number : Int) : Option Text :=
  if Nat.pow 10 digitLimit ≤ number.natAbs then none else some (Text.ofInt number)

end Phrasebook.Number
