import Phrasebook.Text.Basic

/-!
# Calls

The text of a call of the lookup function, which finds a text by its key. A phrase with
expressions in it takes them as named arguments, numbered in the order in which they stand.
-/

namespace Phrasebook.Call

/-- The name of an argument by its number. -/
def argument (index : Nat) : Text :=
  ['a', 'r', 'g'] ++ Text.ofNat index

/-- The placeholder for an argument in the stored text. -/
def placeholder (index : Nat) : Text :=
  '{' :: argument index ++ ['}']

/-- The arguments as properties, numbered from `index`. -/
def properties : (index : Nat) → List Text → List Text
  | _, [] => []
  | index, expr :: exprs =>
    (argument index ++ ':' :: ' ' :: expr) :: properties (index + 1) exprs

/-- A call with a quoted key, and an object of arguments when there are any. -/
def render (function key : Text) (quote : Char) (exprs : List Text) : Text :=
  let quotedKey := quote :: key ++ [quote]
  if exprs.isEmpty then function ++ '(' :: quotedKey ++ [')']
  else
    function ++ '(' :: quotedKey ++ [',', ' ', '{', ' '] ++
      Text.join [',', ' '] (properties 0 exprs) ++ [' ', '}', ')']

/-- The fixed parts of a phrase with marks, numbered from `index`, between them. -/
def weave {α : Type} (mark : Nat → List α) : (index : Nat) → List (List α) → List α
  | _, [] => []
  | _, [part] => part
  | index, part :: parts => part ++ mark index ++ weave mark (index + 1) parts

end Phrasebook.Call
