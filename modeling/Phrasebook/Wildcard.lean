import Phrasebook.Text.Basic

/-!
# Wildcards

Patterns for names: `*` stands for any characters, `?` for any one, and brackets
for one of a set. A pattern matches a whole text or not at all. A bracket that is
never closed stands for itself.
-/

namespace Phrasebook.Wildcard

/-- A member of a set: a character, or all characters between two. -/
inductive Member where
  | single (char : Char)
  | range (low high : Char)
  deriving Repr, DecidableEq

/-- A part of a pattern. -/
inductive Part where
  /-- Any characters. -/
  | star
  /-- Any one character. -/
  | any
  /-- One certain character. -/
  | exactly (char : Char)
  /-- One character of a set, or one that is not in it. -/
  | oneOf (negated : Bool) (members : List Member)
  deriving Repr, DecidableEq

/-- Whether a member of a set stands for a character. -/
def Member.admits (char : Char) : Member → Bool
  | single other => other == char
  | range low high => low.toNat ≤ char.toNat && char.toNat ≤ high.toNat

/-- How many characters stand between an opening bracket and its closing one. A
closing bracket at the very start of the set belongs to the set. -/
def setLength? (text : Text) : Option Nat :=
  let negation := if text.head? == some '!' then 1 else 0
  let first := if (text.drop negation).head? == some ']' then negation + 1 else negation
  let later := (text.drop first).takeWhile (· != ']')
  if first + later.length < text.length then some (first + later.length) else none

/-- The chunks of a set between the hyphens that make ranges. `wait` counts the
characters that come before a hyphen can make one, and `chunk` holds the
characters since the last one, the latest first. -/
def chunks : (wait : Nat) → (chunk : Text) → Text → List Text
  | _, chunk, [] => [chunk.reverse]
  | 0, chunk, head :: tail =>
    if head == '-' then chunk.reverse :: chunks 2 [] tail else chunks 0 (head :: chunk) tail
  | wait + 1, chunk, head :: tail => chunks wait (head :: chunk) tail

/-- A hyphen at the end of a set makes no range. -/
def joinLast : List Text → List Text
  | [] => []
  | [chunk] => [chunk]
  | [chunk, []] => [chunk ++ ['-']]
  | chunk :: later => chunk :: joinLast later

/-- Whether a range from the end of one chunk to the start of the next is empty. -/
def isEmptyRange (left right : Text) : Bool :=
  match left.getLast?, right.head? with
  | some low, some high => high.toNat < low.toNat
  | _, _ => false

/-- Chunks without the ranges that are empty. -/
def dropEmptyRanges : List Text → List Text
  | [] => []
  | chunk :: later =>
    match dropEmptyRanges later with
    | [] => [chunk]
    | next :: rest =>
      if isEmptyRange chunk next then (chunk.dropLast ++ next.tail) :: rest
      else chunk :: next :: rest

/-- The members of a set by its chunks; `low` is the start of a range that the
last chunk left open. -/
def membersFrom : (low : Option Char) → List Text → List Member
  | _, [] => []
  | low, chunk :: later =>
    let (range, rest) :=
      match low, chunk with
      | some low, high :: rest => ([Member.range low high], rest)
      | _, _ => ([], chunk)
    if later.isEmpty then range ++ rest.map .single
    else range ++ rest.dropLast.map .single ++ membersFrom rest.getLast? later

/-- The part that a set in brackets is. A set that excludes nothing stands for any
character. -/
def setPart (inside : Text) : Part :=
  let wait := if inside.head? == some '!' then 2 else 1
  match dropEmptyRanges (joinLast (chunks wait [] inside)) with
  | ['!'] :: [] => .any
  | ('!' :: chunk) :: later => .oneOf true (membersFrom none (chunk :: later))
  | others => .oneOf false (membersFrom none others)

/-- The parts of a pattern; `skip` counts the characters of the set just met. -/
def partsFrom : (skip : Nat) → Text → List Part
  | _, [] => []
  | skip + 1, _ :: tail => partsFrom skip tail
  | 0, head :: tail =>
    if head == '*' then .star :: partsFrom 0 tail
    else if head == '?' then .any :: partsFrom 0 tail
    else if head == '[' then
      match setLength? tail with
      | some length => setPart (tail.take length) :: partsFrom (length + 1) tail
      | none => .exactly '[' :: partsFrom 0 tail
    else .exactly head :: partsFrom 0 tail

/-- The parts of a pattern. -/
def parts (pattern : Text) : List Part :=
  partsFrom 0 pattern

/-- Whether a part stands for a character. -/
def Part.admits (char : Char) : Part → Bool
  | star => true
  | any => true
  | exactly other => other == char
  | oneOf negated members => members.any (·.admits char) != negated

/-- A text and all its ends. -/
def tails : Text → List Text
  | [] => [[]]
  | head :: tail => (head :: tail) :: tails tail

/-- Whether parts stand for a whole text. -/
def fits : List Part → Text → Bool
  | [], text => text.isEmpty
  | .star :: later, text => (tails text).any (fits later)
  | part :: later, text =>
    match text with
    | [] => false
    | head :: tail => part.admits head && fits later tail

/-- Whether a pattern matches a text. -/
def isMatch (pattern text : Text) : Bool :=
  fits (parts pattern) text

/-- Whether a text has a character that makes a pattern of it. -/
def isPattern (text : Text) : Bool :=
  text.any fun char => char == '*' || char == '?' || char == '['

end Phrasebook.Wildcard
