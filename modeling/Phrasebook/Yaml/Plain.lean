import Phrasebook.Text.Basic

/-!
# Forms of plain scalars

Which plain scalars write numbers and times. Digits are those of ASCII.
-/

namespace Phrasebook.Yaml.Plain

/-- A digit or an underscore. -/
def isLooseDigit (char : Char) : Bool :=
  char.isDigit || char == '_'

/-- A text without one sign in front. -/
def unsigned : Text → Text
  | '+' :: rest => rest
  | '-' :: rest => rest
  | text => text

/-- Whether a text is a digit of a kind and then digits and underscores. -/
def isLooseNumber (first : Char → Bool) : Text → Bool
  | [] => false
  | head :: tail => first head && tail.all isLooseDigit

/-- Whether a text is a number below sixty of one or two digits. -/
def isSixtieth : Text → Bool
  | [ones] => ones.isDigit
  | [tens, ones] => tens.isDigit && tens.toNat < '6'.toNat && ones.isDigit
  | _ => false

/-- Whether a text is a number and then sixtieths, each behind a colon. -/
def isSexagesimal (first : Char → Bool) (text : Text) : Bool :=
  match Text.splitOn ':' text with
  | whole :: part :: parts => isLooseNumber first whole && (part :: parts).all isSixtieth
  | _ => false

/-- Whether a text is an exponent with its sign, or nothing. -/
def isExponent : Text → Bool
  | [] => true
  | mark :: sign :: digits =>
    (mark == 'e' || mark == 'E') && (sign == '+' || sign == '-') && !digits.isEmpty &&
      digits.all Char.isDigit
  | _ => false

/-- A digit that is not zero. -/
def isNonzeroDigit (char : Char) : Bool :=
  char.isDigit && char != '0'

/-- Whether a text writes a whole number. -/
def isInteger (text : Text) : Bool :=
  let digits := unsigned text
  let based := match digits with
    | '0' :: 'b' :: body =>
      !body.isEmpty && body.all fun digit => digit == '0' || digit == '1' || digit == '_'
    | '0' :: 'x' :: body =>
      !body.isEmpty && body.all fun digit =>
        isLooseDigit digit || ('a' ≤ digit && digit ≤ 'f') || ('A' ≤ digit && digit ≤ 'F')
    | '0' :: body => body.all fun digit => ('0' ≤ digit && digit ≤ '7') || digit == '_'
    | _ => false
  based || isLooseNumber isNonzeroDigit digits || isSexagesimal isNonzeroDigit digits

/-- Whether a text is a fraction behind its point, and an exponent. -/
def isFraction (text : Text) : Bool :=
  isExponent (text.dropWhile isLooseDigit)

/-- Whether a text writes a number with a point. -/
def isDecimal (text : Text) : Bool :=
  let digits := unsigned text
  let (whole, rest) := (digits.takeWhile (· != '.'), digits.dropWhile (· != '.'))
  match rest with
  | [] => false
  | _ :: fraction =>
    (isLooseNumber Char.isDigit whole && isFraction fraction) ||
      (isSexagesimal Char.isDigit whole && fraction.all isLooseDigit) ||
      (text.head? == some '.' && fraction.head?.any Char.isDigit && isFraction fraction) ||
      (whole.isEmpty && ["inf", "Inf", "INF"].any (·.toList == fraction)) ||
      [".nan", ".NaN", ".NAN"].any (·.toList == text)

/-- A truth value in words. -/
def truth? (text : Text) : Option Bool :=
  if ["yes", "Yes", "YES", "true", "True", "TRUE", "on", "On", "ON"].any (·.toList == text) then
    some true
  else if ["no", "No", "NO", "false", "False", "FALSE", "off", "Off", "OFF"].any (·.toList == text)
  then some false
  else none

/-- Whether a text writes that there is nothing. -/
def isNull (text : Text) : Bool :=
  ["", "~", "null", "Null", "NULL"].any (·.toList == text)

end Phrasebook.Yaml.Plain
