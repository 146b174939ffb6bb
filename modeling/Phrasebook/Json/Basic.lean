import Phrasebook.Text.CodePoint

/-!
# JSON

The values of JSON, and what can be wrong with a text that should write one.
-/

namespace Phrasebook.Json

/-- A value. A number is kept as it is written. Strings may hold surrogates, since
escapes can name them. -/
inductive Value where
  | null
  | bool (value : Bool)
  | number (literal : Text)
  | string (text : CodePoints)
  | array (items : List Value)
  | object (members : List (CodePoints × Value))

/-- What is wrong at some place. -/
inductive Problem where
  | value
  | propertyName
  | colon
  | comma
  | unterminated
  | control
  | escape
  | unicodeEscape
  | extra
  | byteOrderMark
  /-- A whole number has more digits than are read. -/
  | longNumber (digits : Nat)
  deriving Repr, DecidableEq

/-- A problem in words. -/
def Problem.message : Problem → String
  | value => "Expecting value"
  | propertyName => "Expecting property name enclosed in double quotes"
  | colon => "Expecting ':' delimiter"
  | comma => "Expecting ',' delimiter"
  | unterminated => "Unterminated string starting at"
  | control => "Invalid control character at"
  | escape => "Invalid \\escape: "
  | unicodeEscape => "Invalid \\uXXXX escape"
  | extra => "Extra data"
  | byteOrderMark => "Unexpected UTF-8 BOM (decode using utf-8-sig)"
  | longNumber digits => s!"Number of {digits} digits"

/-- A problem and the offset at which it shows. -/
structure Fault where
  problem : Problem
  offset : Nat
  deriving Repr, DecidableEq

/-- The message about a fault names its line, its column and its offset. -/
def Fault.message (fault : Fault) (text : Text) : Text :=
  let before := text.take fault.offset
  let line := before.count '\n' + 1
  let column := (before.reverse.takeWhile (· != '\n')).length + 1
  fault.problem.message.toList ++ ": line ".toList ++ Text.ofNat line ++ " column ".toList ++
    Text.ofNat column ++ " (char ".toList ++ Text.ofNat fault.offset ++ [')']

end Phrasebook.Json
