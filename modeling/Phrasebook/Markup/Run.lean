import Phrasebook.Text.Scan

/-!
# Runs

Between tags, text comes in runs: the longest stretches without an angle bracket
that start the buffer or follow a closing bracket, and that end the buffer or
precede an opening one.
-/

namespace Phrasebook.Markup.Run

/-- An angle bracket. -/
def isBracket (char : Char) : Bool :=
  char == '<' || char == '>'

/-- Recognises a run that satisfies a condition. -/
def recognise (eligible : Text → Bool) (prev : Option Char) (text : Text) :
    Option (Nat × Text) :=
  if prev.all (· == '>') then
    let run := text.takeWhile (!isBracket ·)
    let closed :=
      match text.drop run.length with
      | [] => true
      | next :: _ => next == '<'
    if !run.isEmpty && closed && eligible run then some (run.length, run) else none
  else none

/-- The runs of a buffer that satisfy a condition. -/
def all (eligible : Text → Bool) (buffer : Text) : List (Found Text) :=
  Text.scan (recognise eligible) buffer

end Phrasebook.Markup.Run
