import Phrasebook.Text.Digit
import Phrasebook.Text.Blank

/-!
# Code points

An escape in a literal may name a surrogate, which no `Char` can hold. The value
of a literal is therefore a list of code points, and it is a text exactly when
none of them is a surrogate.
-/

namespace Phrasebook

/-- Whether a number is that of a surrogate. -/
abbrev IsSurrogate (code : Nat) : Prop :=
  0xD800 ≤ code ∧ code ≤ 0xDFFF

/-- A Unicode code point: a scalar value or a surrogate. -/
inductive CodePoint where
  | scalar (char : Char)
  | surrogate (code : Nat) (range : IsSurrogate code)
  deriving Repr, DecidableEq

/-- A text as escapes can write it: it may hold surrogates. -/
abbrev CodePoints := List CodePoint

namespace CodePoint

/-- The number of a code point. -/
def code : CodePoint → Nat
  | scalar char => char.toNat
  | surrogate code _ => code

/-- The code point with a number below 0x110000. -/
def ofNat (number : Nat) : CodePoint :=
  if range : IsSurrogate number then surrogate number range else scalar (Char.ofNat number)

/-- Whether a code point is white space. -/
def isBlank : CodePoint → Bool
  | scalar char => Text.isBlank char
  | surrogate _ _ => false

/-- Whether a list of code points holds an ideograph. -/
def hasIdeograph (points : CodePoints) : Bool :=
  points.any fun point => isIdeographCode point.code

/-- Code points without the blanks at either end. -/
def trim (points : CodePoints) : CodePoints :=
  ((points.dropWhile isBlank).reverse.dropWhile isBlank).reverse

/-- The code points of a text. -/
def ofText (text : Text) : CodePoints :=
  text.map scalar

/-- The text that code points make up, when none is a surrogate. -/
def toText? : CodePoints → Option Text
  | [] => some []
  | scalar char :: points => (toText? points).map (char :: ·)
  | surrogate _ _ :: _ => none

/-- A code point in a message: a surrogate shows as its escape. -/
def shown : CodePoint → Text
  | scalar char => [char]
  | surrogate code _ => ['\\', 'u'] ++ Text.hexPadded 4 code

/-- The order of lists of code points is the lexicographic order of their numbers. -/
def precedes : CodePoints → CodePoints → Bool
  | [], _ => true
  | _ :: _, [] => false
  | left :: lefts, right :: rights =>
    left.code < right.code || (left == right && precedes lefts rights)

end CodePoint

/-- Surrogates that keep code points from being written in UTF-8: where the first
run of them starts, and its codes. -/
structure SurrogateRun where
  start : Nat
  codes : List Nat
  deriving Repr, DecidableEq

namespace SurrogateRun

/-- The codes of the surrogates that start a list of code points. -/
def leading : CodePoints → List Nat
  | .surrogate code _ :: points => code :: leading points
  | _ => []

/-- The first run of surrogates among code points that start at `offset`. -/
def find? (offset : Nat) : CodePoints → Option SurrogateRun
  | [] => none
  | .scalar _ :: points => find? (offset + 1) points
  | .surrogate code _ :: points => some ⟨offset, code :: leading points⟩

/-- The message about a run names its one code, or the offsets of its ends. -/
def message (run : SurrogateRun) : String :=
  match run.codes with
  | [code] =>
    "'utf-8' codec can't encode character '\\u" ++ String.ofList (Text.hexPadded 4 code) ++
      s!"' in position {run.start}: surrogates not allowed"
  | codes =>
    "'utf-8' codec can't encode characters in position " ++
      s!"{run.start}-{run.start + codes.length - 1}: surrogates not allowed"

end SurrogateRun

/-- The text that code points make up, or the surrogates that keep them from being
one. -/
def CodePoint.written (points : CodePoints) : Except SurrogateRun Text :=
  match SurrogateRun.find? 0 points with
  | some run => .error run
  | none => .ok ((toText? points).getD [])

end Phrasebook
