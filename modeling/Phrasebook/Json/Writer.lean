import Phrasebook.Text.CodePoint

/-!
# Writing JSON

Strings, and objects whose values are strings. Only what must be escaped is, so a
surrogate stands in the result as it is.
-/

namespace Phrasebook.Json

/-- A character inside a string. -/
def escaped (char : Char) : Text :=
  if char == '"' then ['\\', '"']
  else if char == '\\' then ['\\', '\\']
  else if char == '\n' then ['\\', 'n']
  else if char == '\r' then ['\\', 'r']
  else if char == '\t' then ['\\', 't']
  else if char.toNat == 8 then ['\\', 'b']
  else if char.toNat == 12 then ['\\', 'f']
  else if char.toNat < 0x20 then '\\' :: 'u' :: Text.hexPadded 4 char.toNat
  else [char]

/-- A code point inside a string. -/
def escapedPoint : CodePoint → CodePoints
  | .scalar char => CodePoint.ofText (escaped char)
  | point => [point]

/-- A string. -/
def string (text : CodePoints) : CodePoints :=
  .scalar '"' :: text.flatMap escapedPoint ++ [.scalar '"']

/-- A member of an object on a line of its own. -/
def member (entry : CodePoints × CodePoints) : CodePoints :=
  CodePoint.ofText [' ', ' '] ++ string entry.1 ++ CodePoint.ofText [':', ' '] ++ string entry.2

/-- An object with one member on each line. -/
def object (entries : List (CodePoints × CodePoints)) : CodePoints :=
  if entries.isEmpty then CodePoint.ofText ['{', '}']
  else
    CodePoint.ofText ['{', '\n'] ++
      (CodePoint.ofText [',', '\n']).intercalate (entries.map member) ++
      CodePoint.ofText ['\n', '}']

end Phrasebook.Json
