import Phrasebook.Text.Basic

/-!
# Decimal digits

The decimal digits of every script and the numbers they write. Each script's
digits stand in a row of ten, so a table of the zeros gives every value.
-/

namespace Phrasebook.Text

/-- The code points of the digits zero. -/
def zeros : List Nat :=
  [
    0x30, 0x660, 0x6F0, 0x7C0, 0x966, 0x9E6, 0xA66, 0xAE6, 0xB66, 0xBE6,
    0xC66, 0xCE6, 0xD66, 0xDE6, 0xE50, 0xED0, 0xF20, 0x1040, 0x1090, 0x17E0,
    0x1810, 0x1946, 0x19D0, 0x1A80, 0x1A90, 0x1B50, 0x1BB0, 0x1C40, 0x1C50, 0xA620,
    0xA8D0, 0xA900, 0xA9D0, 0xA9F0, 0xAA50, 0xABF0, 0xFF10, 0x104A0, 0x10D30, 0x11066,
    0x110F0, 0x11136, 0x111D0, 0x112F0, 0x11450, 0x114D0, 0x11650, 0x116C0, 0x11730, 0x118E0,
    0x11950, 0x11C50, 0x11D50, 0x11DA0, 0x16A60, 0x16AC0, 0x16B50, 0x1D7CE, 0x1D7D8, 0x1D7E2,
    0x1D7EC, 0x1D7F6, 0x1E140, 0x1E2F0, 0x1E950, 0x1FBF0
  ]

/-- The value of a decimal digit of any script. -/
def digitValue? (char : Char) : Option Nat :=
  let code := char.toNat
  (zeros.find? fun first => first ≤ code && code < first + 10).map (code - ·)

/-- A decimal digit of any script. -/
def isDigit (char : Char) : Bool :=
  (digitValue? char).isSome

/-- The number that a row of digits writes, most significant first. -/
def numberOf (digits : Text) : Nat :=
  digits.foldl (fun number digit => number * 10 + (digitValue? digit).getD 0) 0

/-- The value of a hexadecimal digit, in either case. -/
def hexValue? (char : Char) : Option Nat :=
  let code := char.toNat
  if 48 ≤ code && code ≤ 57 then some (code - 48)
  else if 97 ≤ code && code ≤ 102 then some (code - 87)
  else if 65 ≤ code && code ≤ 70 then some (code - 55)
  else none

/-- A hexadecimal digit, in either case. -/
def isHex (char : Char) : Bool :=
  (hexValue? char).isSome

/-- The number that a row of hexadecimal digits writes. -/
def hexNumberOf (digits : Text) : Nat :=
  digits.foldl (fun number digit => number * 16 + (hexValue? digit).getD 0) 0

/-- A number in lower-case hexadecimal, padded with zeros to a width. -/
def hexPadded (width number : Nat) : Text :=
  let digits := Nat.toDigits 16 number
  List.replicate (width - digits.length) '0' ++ digits

end Phrasebook.Text
