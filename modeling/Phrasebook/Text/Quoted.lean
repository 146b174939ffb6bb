import Phrasebook.Text.Class
import Phrasebook.Text.CodePoint

/-!
# Quoted texts

A text between quotes, as messages show it. The quote is an apostrophe, unless
the text holds apostrophes and no double quote. Characters that do not print
are escaped, and so are surrogates.
-/

namespace Phrasebook

namespace Text

/-- One character inside quotes. -/
def quoteCharacter (mark char : Char) : Text :=
  let code := char.toNat
  if char == mark || char == '\\' then ['\\', char]
  else if code == 9 then ['\\', 't']
  else if code == 10 then ['\\', 'n']
  else if code == 13 then ['\\', 'r']
  else if isPrintable char then [char]
  else if code < 0x100 then ['\\', 'x'] ++ hexPadded 2 code
  else if code < 0x10000 then ['\\', 'u'] ++ hexPadded 4 code
  else ['\\', 'U'] ++ hexPadded 8 code

end Text

namespace CodePoint

/-- One code point inside quotes. -/
def quotedInside (mark : Char) : CodePoint → Text
  | scalar char => Text.quoteCharacter mark char
  | point => point.shown

/-- Code points between quotes. -/
def quoted (points : CodePoints) : Text :=
  let mark := if points.contains (scalar '\'') && !points.contains (scalar '"') then '"' else '\''
  [mark] ++ points.flatMap (quotedInside mark) ++ [mark]

end CodePoint

/-- A text between quotes. -/
def Text.quoted (text : Text) : Text :=
  CodePoint.quoted (CodePoint.ofText text)

end Phrasebook
