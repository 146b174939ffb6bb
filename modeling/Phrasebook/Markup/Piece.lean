import Phrasebook.Call
import Phrasebook.Session
import Phrasebook.Text.Scan

/-!
# Pieces

What a markup stage puts in the place of something it found: fixed text and calls
for phrases. The phrases get their keys when the pieces are rendered, in the order
in which they stand.
-/

namespace Phrasebook.Markup

/-- A phrase that a stage found, with what its call needs. -/
structure Candidate where
  start : Nat
  stop : Nat
  /-- The text to store, as the value of a literal. -/
  value : Except Literal.EscapeFault (List CodePoint)
  /-- The quote around the key. -/
  quote : Char
  /-- The expressions that the call passes on. -/
  exprs : List Text := []

/-- A part of a replacement. -/
inductive Piece where
  | fixed (text : Text)
  | call (candidate : Candidate)

/-- A stored text that is written as it stands. -/
def literally (text : Text) : Except Literal.EscapeFault (List CodePoint) :=
  .ok (CodePoint.ofText text)

namespace Piece

/-- The text of pieces. Every phrase among them is registered on the way. -/
def render (scope : Scope) (setting : Setting) : List Piece → Pass Text
  | [] => pure []
  | fixed text :: pieces => do
    let later ← render scope setting pieces
    return text ++ later
  | call candidate :: pieces => do
    let key ← Pass.register scope ⟨candidate.start, candidate.stop⟩ setting candidate.value
    let later ← render scope setting pieces
    return Call.render scope.functions.markup key candidate.quote candidate.exprs ++ later

/-- The phrases among pieces. -/
def candidates : List Piece → List Candidate
  | [] => []
  | fixed _ :: pieces => candidates pieces
  | call candidate :: pieces => candidate :: candidates pieces

/-- A text with some of its ranges taken by candidates: the candidates with the
text between them. The ranges are in order and count from `offset`. -/
def interleave (offset : Nat) : Text → List (Nat × Nat × Candidate) → List Piece
  | text, [] => [fixed text]
  | text, (start, stop, candidate) :: later =>
    fixed (text.take (start - offset)) :: call candidate ::
      interleave stop (text.drop (stop - offset)) later

end Piece

end Phrasebook.Markup
