import Phrasebook.Grammar.Blueprint

/-!
# Looking at characters

What scanners share. A null character is like the end of a text.
-/

namespace Phrasebook.Grammar

namespace Scan

/-- The character that stands for the end of a text. -/
def ended : Char :=
  Char.ofNat 0

/-- The character at a place. -/
def look (text : Array Char) (pos : Nat) : Char :=
  text[pos]?.getD ended

/-- Whether nothing comes at a place. -/
def isOver (text : Array Char) (pos : Nat) : Bool :=
  look text pos == ended

/-- A blank of any script that a line can be broken at. -/
def isBlank (char : Char) : Bool :=
  let code := char.toNat
  (9 ≤ code && code ≤ 13) || code == 32 || code == 0x1680 ||
    (0x2000 ≤ code && code ≤ 0x2006) || (0x2008 ≤ code && code ≤ 0x200A) || code == 0x2028 ||
    code == 0x2029 || code == 0x205F || code == 0x3000

/-- The place behind the characters of a kind, which the end is never of; `fuel` bounds
their number. -/
def passFrom (isKind : Char → Bool) (text : Array Char) : (fuel pos : Nat) → Nat
  | 0, pos => pos
  | fuel + 1, pos =>
    let next := look text pos
    if next != ended && isKind next then passFrom isKind text fuel (pos + 1) else pos

/-- The place behind the characters of a kind. -/
def pass (isKind : Char → Bool) (text : Array Char) (pos : Nat) : Nat :=
  passFrom isKind text (text.size - pos) pos

/-- The place behind some characters, if they stand at a place. -/
def passText? (text : Array Char) : (pos : Nat) → List Char → Option Nat
  | pos, [] => some pos
  | pos, first :: rest =>
    if look text pos == first then passText? text (pos + 1) rest else none

end Scan

namespace Blueprint

variable {ν φ : Type}

/-- The terminal of a construct that has no rows; there is no terminal of that number
if there is no such construct. -/
def terminalOf (plan : Blueprint ν φ) (name : ν) : Nat :=
  match plan.symbol? name with
  | some (.terminal index) => index
  | _ => plan.terminals

/-- The terminal of a token; there is no terminal of that number if there is no such
token. -/
def tokenNumber (plan : Blueprint ν φ) (token : Token) : Nat :=
  (plan.tokens.findIdx? (· == token)).getD plan.terminals

end Blueprint

end Phrasebook.Grammar
