import Phrasebook.Literal.Cooked
import Phrasebook.Text.Quoted

/-!
# YAML

What YAML tells apart among characters, and what can be wrong with a text. Where
exactly a malformed text goes wrong is not kept.
-/

namespace Phrasebook.Yaml

/-- Why a scalar of a known kind has no value. -/
inductive ScalarFault where
  /-- It writes no value of its kind. -/
  | value (reason : Text)
  /-- It is no word for a truth value. -/
  | unknownTruth (word : Text)
  /-- A number is empty. -/
  | emptyNumber
  /-- It is not written like a day or a time. -/
  | notMoment
  /-- A collection stands for a day or a time. -/
  | momentOfCollection
  /-- A place in base sixty is beyond the largest number. -/
  | placeTooLarge
  deriving Repr, DecidableEq

/-- A fault of a scalar in words. -/
def ScalarFault.message : ScalarFault → Text
  | value reason => reason
  | unknownTruth word => Text.quoted word
  | emptyNumber => "string index out of range".toList
  | notMoment => "'NoneType' object has no attribute 'groupdict'".toList
  | momentOfCollection => "expected string or bytes-like object, got 'list'".toList
  | placeTooLarge => "int too large to convert to float".toList

/-- Why a text has no value. -/
inductive Fault where
  /-- The text is not YAML, or a node has no value of its kind. -/
  | malformed
  /-- A scalar has no value. -/
  | scalar (fault : ScalarFault)
  /-- An escape names no character. -/
  | escape (fault : Literal.EscapeFault)
  deriving Repr, DecidableEq

/-- A character that ends a line. -/
def isBreak (char : Char) : Bool :=
  char == '\n' || char == '\r' || char.toNat == 0x85 ||
    char.toNat == 0x2028 || char.toNat == 0x2029

/-- The end of a line, or of the text. -/
def breakOrEnd (next : Option Char) : Bool :=
  next.all isBreak

/-- A space, or the end of a line or of the text. -/
def spaceOrEnd (next : Option Char) : Bool :=
  next.all fun char => char == ' ' || isBreak char

/-- A space or a tab, or the end of a line or of the text. -/
def blankOrEnd (next : Option Char) : Bool :=
  next.all fun char => char == ' ' || char == '\t' || isBreak char

/-- A character that a text may hold at all. -/
def isAllowed (char : Char) : Bool :=
  let code := char.toNat
  code == 9 || code == 10 || code == 13 || (0x20 ≤ code && code ≤ 0x7E) || code == 0x85 ||
    (0xA0 ≤ code && code != 0xFFFE && code != 0xFFFF)

/-- A character of the name of an anchor or a directive. -/
def isNamePart (char : Char) : Bool :=
  char.isAlphanum || char == '-' || char == '_'

end Phrasebook.Yaml
