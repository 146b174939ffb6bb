import Phrasebook.Text.Scan

/-!
# Interpolations

An expression inside double braces, and an expression inside a template literal.
Both end at the nearest closing.
-/

namespace Phrasebook.Markup.Interpolation

/-- What opens an interpolation. -/
def opening : Text := ['{', '{']

/-- What closes an interpolation. -/
def closing : Text := ['}', '}']

/-- Recognises an interpolation and reads its expression. -/
def recognise (text : Text) : Option (Nat × Text) := do
  let inside ← Text.strip? opening text
  let (expr, _) ← Text.cutAt? closing inside
  return (opening.length + expr.length + closing.length, expr)

/-- Recognises a substitution of a template literal and reads its expression. -/
def recogniseSubstitution (text : Text) : Option (Nat × Text) := do
  let inside ← Text.strip? ['$', '{'] text
  let (expr, _) ← Text.cutAt? ['}'] inside
  return (expr.length + 3, expr)

end Phrasebook.Markup.Interpolation
