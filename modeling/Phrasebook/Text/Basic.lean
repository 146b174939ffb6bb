/-!
# Text

A text is a list of Unicode scalar values, so that offsets count characters and
every operation is a function on lists. This module holds the cutting and
searching operations that the rest of the library shares. It knows nothing about
character classes.
-/

namespace Phrasebook

/-- A sequence of Unicode scalar values. Every offset into a text counts them. -/
abbrev Text := List Char

namespace Text

/-- The characters from offset `start` up to, and not including, offset `stop`. -/
def slice (text : Text) (start stop : Nat) : Text :=
  (text.take stop).drop start

/-- Whether `needle` stands somewhere in a text. The empty needle always does. -/
def occursIn (needle : Text) : Text → Bool
  | [] => needle.isEmpty
  | head :: tail => needle.isPrefixOf (head :: tail) || occursIn needle tail

/-- The text before the first occurrence of `needle` and the text after it. -/
def cutAt? (needle : Text) : Text → Option (Text × Text)
  | [] => if needle.isEmpty then some ([], []) else none
  | head :: tail =>
    if needle.isPrefixOf (head :: tail) then
      some ([], (head :: tail).drop needle.length)
    else
      (cutAt? needle tail).map fun (before, after) => (head :: before, after)

/-- The rest of a text that starts with `lead`. -/
def strip? (lead : Text) (text : Text) : Option Text :=
  if lead.isPrefixOf text then some (text.drop lead.length) else none

/-- The texts with `separator` between every two neighbours. -/
def join (separator : Text) (texts : List Text) : Text :=
  separator.intercalate texts

/-- The decimal digits of a number. -/
def ofNat (number : Nat) : Text :=
  Nat.toDigits 10 number

/-- The decimal digits of a number, behind a minus sign when it is negative. -/
def ofInt : Int → Text
  | .ofNat number => ofNat number
  | .negSucc number => '-' :: ofNat (number + 1)

/-- The pieces between the occurrences of one character; a text without it is
one piece. -/
def splitOn (separator : Char) : Text → List Text
  | [] => [[]]
  | head :: tail =>
    match splitOn separator tail with
    | [] => [[head]]
    | piece :: pieces =>
      if head = separator then [] :: piece :: pieces else (head :: piece) :: pieces

/-- The order of texts is the lexicographic order of their scalar values. -/
def precedes : Text → Text → Bool
  | [], _ => true
  | _ :: _, [] => false
  | left :: lefts, right :: rights =>
    left.toNat < right.toNat || (left == right && precedes lefts rights)

/-- A text in which every line ends with a line feed alone: one of a file may also end
with a carriage return, or with both. -/
def unifyLineEnds : Text → Text
  | [] => []
  | '\r' :: '\n' :: tail => '\n' :: unifyLineEnds tail
  | head :: tail => (if head == '\r' then '\n' else head) :: unifyLineEnds tail

end Text

end Phrasebook
