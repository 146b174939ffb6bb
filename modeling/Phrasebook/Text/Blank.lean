import Phrasebook.Text.Basic

/-!
# Blanks and ideographs

Blanks separate words: the Unicode white space characters and the four information
separators. Text is worth extracting when it holds a CJK unified ideograph of the base
block; punctuation, kana and the extension blocks do not count.
-/

namespace Phrasebook

/-- The code points of the base block of CJK unified ideographs. -/
def isIdeographCode (code : Nat) : Bool :=
  0x4E00 ≤ code && code ≤ 0x9FFF

namespace Text

/-- White space, including the information separators U+001C to U+001F. -/
def isBlank (char : Char) : Bool :=
  let code := char.toNat
  (9 ≤ code && code ≤ 13) || (28 ≤ code && code ≤ 32) || code == 0x85 || code == 0xA0 ||
    code == 0x1680 || (0x2000 ≤ code && code ≤ 0x200A) || code == 0x2028 || code == 0x2029 ||
    code == 0x202F || code == 0x205F || code == 0x3000

/-- A text without the blanks at its start. -/
def trimStart (text : Text) : Text :=
  text.dropWhile isBlank

/-- A text without the blanks at its end. -/
def trimEnd (text : Text) : Text :=
  (text.reverse.dropWhile isBlank).reverse

/-- A text without the blanks at either end. -/
def trim (text : Text) : Text :=
  trimEnd (trimStart text)

/-- The blanks before a text's first other character, the part between, and the
blanks after its last other character. A text of blanks only is all lead. -/
def cutBlanks (text : Text) : Text × Text × Text :=
  let lead := text.takeWhile isBlank
  let core := trim text
  (lead, core, text.drop (lead.length + core.length))

/-- The number of blanks that start a text. -/
def blanks (text : Text) : Nat :=
  (text.takeWhile isBlank).length

/-- A character of the base block of CJK unified ideographs. -/
def isIdeograph (char : Char) : Bool :=
  isIdeographCode char.toNat

/-- Whether a text holds an ideograph. -/
def hasIdeograph (text : Text) : Bool :=
  text.any isIdeograph

end Text

end Phrasebook
