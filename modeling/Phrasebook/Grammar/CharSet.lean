import Phrasebook.Text.Basic

/-!
# Sets of characters

Sets of characters by ranges of code points. No set holds the null character, so
that a null character stops every token.
-/

namespace Phrasebook.Grammar

/-- A set of characters: those in some ranges, or all others. -/
structure CharSet where
  /-- The first and the last code point of each range. -/
  ranges : List (Nat × Nat)
  negated : Bool := false
  deriving Repr, DecidableEq, Hashable

namespace CharSet

/-- Whether a code point is in a set. -/
def holds (set : CharSet) (code : Nat) : Bool :=
  code != 0 && ((set.ranges.any fun (first, last) => first ≤ code && code ≤ last) != set.negated)

/-- Whether a character is in a set. -/
def contains (set : CharSet) (char : Char) : Bool :=
  set.holds char.toNat

/-- The set of some characters. -/
def of (characters : String) : CharSet :=
  ⟨characters.toList.map fun char => (char.toNat, char.toNat), false⟩

/-- The set of the characters from one to another. -/
def range (first last : Char) : CharSet :=
  ⟨[(first.toNat, last.toNat)], false⟩

/-- All characters that are not in a set. -/
def others (set : CharSet) : CharSet :=
  { set with negated := !set.negated }

/-- The characters of two sets of ranges. -/
def or (left right : CharSet) : CharSet :=
  ⟨left.ranges ++ right.ranges, false⟩

/-- Code points at which membership in a set can change. -/
def bounds (set : CharSet) : List Nat :=
  1 :: set.ranges.flatMap fun (first, last) => [first, last + 1]

/-- Whether two sets have a character in common. Between two bounds membership does
not change, so the bounds decide. -/
def meets (left right : CharSet) : Bool :=
  (left.bounds ++ right.bounds).any fun code => left.holds code && right.holds code

/-- The digits of ASCII. -/
def digits : CharSet :=
  range '0' '9'

/-- The hexadecimal digits. -/
def hexDigits : CharSet :=
  digits.or ((range 'a' 'f').or (range 'A' 'F'))

/-- The letters of ASCII. -/
def letters : CharSet :=
  (range 'a' 'z').or (range 'A' 'Z')

/-- The blanks of ASCII. -/
def blanks : CharSet :=
  ⟨[(9, 13), (32, 32)], false⟩

end CharSet

end Phrasebook.Grammar
