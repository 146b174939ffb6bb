import Phrasebook.Text.Basic

/-!
# Edits

An edit replaces a range of a sequence. Edits located in the same sequence are
applied from the last to the first, so that each one finds the part before its
own range untouched. The elements may be characters or bytes.
-/

namespace Phrasebook

/-- Replace the elements from `start` up to `stop` by `content`. A negative
offset counts from the end, and an offset beyond an end means that end. -/
structure Edit (α : Type) where
  start : Int
  stop : Int
  content : List α
  deriving Repr, DecidableEq

namespace Edit

variable {α : Type}

/-- The place in a sequence of `length` elements that an offset means. -/
def place (length : Nat) (offset : Int) : Nat :=
  if offset < 0 then (offset + length).toNat else min offset.toNat length

/-- A sequence after one edit. -/
def splice (buffer : List α) (edit : Edit α) : List α :=
  buffer.take (place buffer.length edit.start) ++ edit.content ++
    buffer.drop (place buffer.length edit.stop)

/-- Whether `left` is applied no later than `right`: edits go by descending
start, and then by descending stop. -/
def appliedFirst (left right : Edit α) : Bool :=
  right.start < left.start || (right.start == left.start && right.stop ≤ left.stop)

/-- A sequence after all edits. Edits with equal ranges keep their order. -/
def applyAll (buffer : List α) (edits : List (Edit α)) : List α :=
  (edits.mergeSort appliedFirst).foldl splice buffer

end Edit

end Phrasebook
