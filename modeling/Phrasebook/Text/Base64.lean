import Phrasebook.Text.Utf8

/-!
# Base 64

Bytes written with sixty-four characters. Other characters are passed over, and
padding that completes a group of four ends the text.
-/

namespace Phrasebook.Base64

/-- The value of a character of the alphabet. -/
def value? (char : Char) : Option Nat :=
  if char.isUpper then some (char.toNat - 'A'.toNat)
  else if char.isLower then some (char.toNat - 'a'.toNat + 26)
  else if char.isDigit then some (char.toNat - '0'.toNat + 52)
  else if char == '+' then some 62
  else if char == '/' then some 63
  else none

/-- The values of a text up to its padding, with `filled` values of the last group
and `pads` padding signs in a row behind them. The flag says that padding ended it. -/
def valuesFrom : (filled pads : Nat) → Text → List Nat × Bool
  | _, _, [] => ([], false)
  | filled, pads, '=' :: rest =>
    if 2 ≤ filled && 4 ≤ filled + pads + 1 then ([], true) else valuesFrom filled (pads + 1) rest
  | filled, pads, char :: rest =>
    match value? char with
    | none => valuesFrom filled pads rest
    | some value =>
      let (values, ended) := valuesFrom ((filled + 1) % 4) 0 rest
      (value :: values, ended)

/-- The bytes of groups of four values; a last group may be short. -/
def group : List Nat → Bytes
  | one :: two :: three :: four :: rest =>
    UInt8.ofNat (one * 4 + two / 16) :: UInt8.ofNat (two % 16 * 16 + three / 4) ::
      UInt8.ofNat (three % 4 * 64 + four) :: group rest
  | [one, two, three] => [UInt8.ofNat (one * 4 + two / 16), UInt8.ofNat (two % 16 * 16 + three / 4)]
  | [one, two] => [UInt8.ofNat (one * 4 + two / 16)]
  | _ => []

/-- The bytes that a text writes; `none` where its last group is not complete. -/
def decode? (text : Text) : Option Bytes :=
  let (values, ended) := valuesFrom 0 0 text
  if ended || values.length % 4 == 0 then some (group values) else none

end Phrasebook.Base64
