import Phrasebook.Text.Basic

/-!
# Scanning

A recogniser looks at the start of a text and says how many characters it takes
and what they mean. Scanning tries a recogniser at every offset from left to
right and goes on behind each success, so what it finds is leftmost and does not
overlap. Both walks are by recursion on the text: `skip` counts the characters
that still belong to the last success.
-/

namespace Phrasebook

/-- What a recogniser took, with its offsets in the scanned text. -/
structure Found (α : Type) where
  start : Nat
  stop : Nat
  value : α
  deriving Repr, DecidableEq

namespace Text

/-- The successes of a recogniser in a text that starts at `offset`. The
recogniser also sees the character before the place it is tried at. -/
def scanFrom {α : Type} (recognise : Option Char → Text → Option (Nat × α)) :
    (offset skip : Nat) → (prev : Option Char) → Text → List (Found α)
  | _, _, _, [] => []
  | offset, skip + 1, _, head :: tail =>
    scanFrom recognise (offset + 1) skip (some head) tail
  | offset, 0, prev, head :: tail =>
    match recognise prev (head :: tail) with
    | some (length, value) =>
      ⟨offset, offset + length, value⟩ ::
        scanFrom recognise (offset + 1) (length - 1) (some head) tail
    | none => scanFrom recognise (offset + 1) 0 (some head) tail

/-- The leftmost successes of a recogniser that do not overlap. -/
def scan {α : Type} (recognise : Option Char → Text → Option (Nat × α))
    (text : Text) : List (Found α) :=
  scanFrom recognise 0 0 none text

/-- A text cut at the successes of a recogniser: the characters before the first
one, and every success with the characters between it and the next. -/
def cutFrom {α : Type} (recognise : Text → Option (Nat × α)) :
    (skip : Nat) → Text → Text × List (α × Text)
  | _, [] => ([], [])
  | skip + 1, _ :: tail => cutFrom recognise skip tail
  | 0, head :: tail =>
    match recognise (head :: tail) with
    | some (length, value) =>
      let (gap, later) := cutFrom recognise (length - 1) tail
      ([], (value, gap) :: later)
    | none =>
      let (gap, later) := cutFrom recognise 0 tail
      (head :: gap, later)

/-- A text cut at every success of a recogniser. -/
def cutAll {α : Type} (recognise : Text → Option (Nat × α)) (text : Text) :
    Text × List (α × Text) :=
  cutFrom recognise 0 text

end Text

end Phrasebook
