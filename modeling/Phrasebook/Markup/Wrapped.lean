import Phrasebook.Session

/-!
# Wrapped literals

A literal that is already the first argument of a lookup call must not be
extracted again. The test looks back from the literal over a window of a fixed
width; the character before the window only tells whether a name starts there.
-/

namespace Phrasebook.Markup

/-- How far back a call may open. -/
def window : Nat := 64

/-- A character that can belong to the name of a function. -/
def isNamePart (char : Char) : Bool :=
  Text.isWord char || char == '$'

/-- Whether a name may start behind a character. -/
def startsName : Option Char → Bool
  | none => true
  | some char => !isNamePart char

/-- Whether a text is exactly the opening of a call: a name, a parenthesis, and
blanks around the latter. -/
def opensCall (names : List Text) (text : Text) : Bool :=
  names.any fun name =>
    match Text.strip? name text with
    | none => false
    | some rest =>
      match Text.trimStart rest with
      | '(' :: inside => inside.all Text.isBlank
      | _ => false

/-- Whether some end of a text, whose first character stands behind `prev`,
opens a call with a name of its own. -/
def endsInCall (names : List Text) : (prev : Option Char) → Text → Bool
  | prev, [] => startsName prev && opensCall names []
  | prev, head :: tail =>
    (startsName prev && opensCall names (head :: tail)) || endsInCall names (some head) tail

/-- The names that open a lookup call. Without any name, a bare parenthesis
does. -/
def callNames (functions : Functions) : List Text :=
  let names := [functions.markup, functions.script].filter (· != [])
  if names.isEmpty then [[]] else names

/-- Whether the literal at `pos` is already an argument of a lookup
call. -/
def isWrapped (functions : Functions) (buffer : Text) (pos : Int) : Bool :=
  let stop := min pos.toNat buffer.length
  let start := min (pos - window).toNat buffer.length
  let prev := if start == 0 then none else buffer[start - 1]?
  endsInCall (callNames functions) prev (buffer.slice start stop)

end Phrasebook.Markup
