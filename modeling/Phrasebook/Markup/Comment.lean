import Phrasebook.Session
import Phrasebook.Text.Scan

/-!
# Comments

Comments are taken out of a template before the stages run and put back behind
them. In the meantime a numbered mark, itself of the form of a comment, stands in
the place of each.
-/

namespace Phrasebook.Markup.Comment

/-- What opens a comment. -/
def opening : Text := ['<', '!', '-', '-']

/-- What closes a comment. -/
def closing : Text := ['-', '-', '>']

/-- Recognises a comment: from its opening to the nearest closing. -/
def recognise (text : Text) : Option (Nat × Text) := do
  let inside ← Text.strip? opening text
  let (body, _) ← Text.cutAt? closing inside
  let length := opening.length + body.length + closing.length
  return (length, text.take length)

/-- The mark of a comment by its number. -/
def mark (index : Nat) : Text :=
  opening ++ '@' :: Text.ofNat index ++ closing

/-- Recognises a mark and reads its number. -/
def recogniseMark (text : Text) : Option (Nat × Nat) := do
  let inside ← Text.strip? (opening ++ ['@']) text
  let digits := inside.takeWhile Text.isDigit
  if digits.isEmpty then none
  let _ ← Text.strip? closing (inside.drop digits.length)
  return (opening.length + 1 + digits.length + closing.length, Text.numberOf digits)

/-- The comments of a template in order. -/
def all (template : Text) : List Text :=
  (Text.cutAll recognise template).2.map Prod.fst

/-- Marks, numbered from `index`, with the text behind each. -/
def marked : (index : Nat) → List (Text × Text) → Text
  | _, [] => []
  | index, (_, gap) :: later => mark index ++ gap ++ marked (index + 1) later

/-- A template with a mark in the place of every comment. -/
def mask (template : Text) : Text :=
  let (gap, cuts) := Text.cutAll recognise template
  gap ++ marked 0 cuts

/-- Comments in the place of marks, with the text behind each. -/
def unmarked (comments : List Text) : List (Nat × Text) → Except Failure Text
  | [] => .ok []
  | (index, gap) :: later => do
    let comment ← (comments[index]?).elim (.error .missingComment) .ok
    let rest ← unmarked comments later
    return comment ++ gap ++ rest

/-- A buffer with every mark replaced by the comment that it stands for. -/
def restore (comments : List Text) (buffer : Text) : Except Failure Text := do
  let (gap, cuts) := Text.cutAll recogniseMark buffer
  let rest ← unmarked comments cuts
  return gap ++ rest

end Phrasebook.Markup.Comment
