import Phrasebook.Grammar.CharSet

/-!
# Patterns

The texts that a token may have. A pattern is matched by its residuals: what is left
to match behind a character.
-/

namespace Phrasebook.Grammar

/-- A set of texts. -/
inductive Pattern where
  /-- The empty text. -/
  | empty
  /-- A text as it stands. -/
  | text (characters : Text)
  /-- A single character. -/
  | set (characters : CharSet)
  | seq (first rest : Pattern)
  | choice (one other : Pattern)
  /-- Any number of texts in a row. -/
  | many (body : Pattern)
  deriving Repr, DecidableEq, Hashable

namespace Pattern

/-- A text as it stands. -/
def literal (characters : String) : Pattern :=
  .text characters.toList

/-- Patterns in a row. -/
def row : List Pattern → Pattern
  | [] => .empty
  | [last] => last
  | first :: rest => .seq first (row rest)

/-- One of some patterns. -/
def oneOf : List Pattern → Pattern
  | [] => .empty
  | [last] => last
  | one :: others => .choice one (oneOf others)

/-- A pattern or nothing. -/
def optional (body : Pattern) : Pattern :=
  .choice body .empty

/-- One or more texts in a row. -/
def some (body : Pattern) : Pattern :=
  .seq body (.many body)

/-- From `least` to `most` texts in a row. -/
def times (body : Pattern) (least most : Nat) : Pattern :=
  row (List.replicate least body ++ List.replicate (most - least) (optional body))

/-- Whether a pattern holds the empty text. -/
def isNullable : Pattern → Bool
  | empty => true
  | text characters => characters.isEmpty
  | set _ => false
  | seq first rest => first.isNullable && rest.isNullable
  | choice one other => one.isNullable || other.isNullable
  | many _ => true

/-- A pattern behind another one, of which nothing may be left. -/
def followedBy : Pattern → Pattern → Pattern
  | empty, rest => rest
  | text [], rest => rest
  | first, rest => .seq first rest

/-- What can be left to match behind a character. -/
def residuals (char : Char) : Pattern → List Pattern
  | empty => []
  | text [] => []
  | text (first :: rest) => if first == char then [.text rest] else []
  | set characters => if characters.contains char then [.empty] else []
  | seq first rest =>
    (first.residuals char).map (·.followedBy rest) ++
      if first.isNullable then rest.residuals char else []
  | choice one other => one.residuals char ++ other.residuals char
  | many body => (body.residuals char).map (·.followedBy (.many body))

/-- The characters that a text of a pattern can start with. -/
def starts : Pattern → List CharSet
  | empty => []
  | text [] => []
  | text (first :: _) => [.range first first]
  | set characters => [characters]
  | seq first rest => first.starts ++ if first.isNullable then rest.starts else []
  | choice one other => one.starts ++ other.starts
  | many body => body.starts

/-- Whether texts of two patterns can start alike. -/
def meets (left right : Pattern) : Bool :=
  left.starts.any fun one => right.starts.any one.meets

end Pattern

end Phrasebook.Grammar
