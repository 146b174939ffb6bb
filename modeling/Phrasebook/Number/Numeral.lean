import Phrasebook.Text.Blank
import Phrasebook.Text.Digit

/-!
# Numerals

A text as numbers are read from it: the digits and blanks of every script count as
those of ASCII, and blanks around a number do not count at all.
-/

namespace Phrasebook.Number

/-- A text with the digits and blanks of every script written in ASCII. Any other
character beyond ASCII ends it, with a mark that no number holds. -/
def asciiForm : Text → Text
  | [] => []
  | char :: rest =>
    if char.toNat < 127 then char :: asciiForm rest
    else if Text.isBlank char then ' ' :: asciiForm rest
    else
      match Text.digitValue? char with
      | some value => Char.ofNat ('0'.toNat + value) :: asciiForm rest
      | none => ['?']

/-- A blank of ASCII. -/
def isSpace (char : Char) : Bool :=
  char == ' ' || (9 ≤ char.toNat && char.toNat ≤ 13)

/-- A text without the spaces at its start. -/
def afterSpaces (text : Text) : Text :=
  text.dropWhile isSpace

/-- A text without the spaces at either end. -/
def withoutSpaces (text : Text) : Text :=
  (afterSpaces (afterSpaces text).reverse).reverse

/-- Whether a sign says that a number is negative, and the text behind the sign. -/
def afterSign : Text → Bool × Text
  | '-' :: rest => (true, rest)
  | '+' :: rest => (false, rest)
  | text => (false, text)

end Phrasebook.Number
