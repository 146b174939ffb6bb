import Phrasebook.Grammar.Blueprint

/-!
# Tokens in a text

The token that a text has at a place, among those that are wanted there. The longest
token counts; blanks before it are skipped, unless it has to follow immediately.
-/

namespace Phrasebook.Grammar

/-- A token of which a part was found, and what is left of it. -/
structure Thread where
  token : Nat
  rest : Pattern
  deriving Repr, DecidableEq

/-- A terminal with its place in a text. -/
structure Lexeme where
  terminal : Nat
  start : Nat
  stop : Nat
  deriving Repr, DecidableEq

/-- How far a token is known. -/
structure Reading where
  /-- The place up to which the text was read. -/
  pos : Nat
  /-- The place behind the blanks. -/
  start : Nat
  /-- Whether there were only blanks so far. -/
  skipping : Bool := true
  threads : List Thread
  found : Option Lexeme := none
  deriving Repr, DecidableEq

namespace Blueprint

variable {ν φ : Type}

/-- The strength of a token. -/
def strength (plan : Blueprint ν φ) (token : Nat) : Int :=
  ((plan.tokens[token]?).map (·.strength)).getD 0

/-- Whether a token has to follow the last one without a blank. -/
def isImmediate (plan : Blueprint ν φ) (token : Nat) : Bool :=
  (plan.tokens[token]?).any (·.immediate)

/-- Whether a token counts before another one of the same length: the stronger one,
then the more precise one, then the first one. -/
def prefers (plan : Blueprint ν φ) (one other : Nat) : Bool :=
  let precision (token : Nat) : Nat := ((plan.tokens[token]?).map Token.precision).getD 0
  if plan.strength one != plan.strength other then
    plan.strength other < plan.strength one
  else if precision one != precision other then precision other < precision one
  else one < other

/-- The token that is complete and counts before all others. -/
def complete? (plan : Blueprint ν φ) (threads : List Thread) : Option Nat :=
  threads.foldl
    (fun best thread =>
      if !thread.rest.isNullable then best
      else match best with
        | none => some thread.token
        | some token =>
          if plan.prefers token thread.token then best else some thread.token)
    none

/-- The beginning of a token. -/
def thread (plan : Blueprint ν φ) (token : Nat) : Thread :=
  ⟨token, ((plan.tokens[token]?).map (·.pattern)).getD .empty⟩

/-- Whether a complete token ends before a character that others go on with: they
are weaker, or they only go on with blanks. -/
def endsBefore (plan : Blueprint ν φ) (token : Nat) (next : List Thread)
    (skipping skips : Bool) : Bool :=
  let strengths := next.map fun thread => plan.strength thread.token
  let strongest := match if skips then 0 :: strengths else strengths with
    | [] => 0
    | first :: rest => rest.foldl max first
  let own := plan.strength token
  strongest < own ||
    (strongest == own &&
      (next.isEmpty ||
        (skipping && !next.any (·.token == token) && !(skips && !plan.isImmediate token))))

/-- Reads a token to its end. The tokens of `fresh` may start behind blanks, `endFits`
says whether the text may end here, and `fuel` bounds the characters. -/
def readOn (plan : Blueprint ν φ) (text : Array Char) (fresh : List Thread) :
    (fuel : Nat) → (endFits : Bool) → Reading → Reading
  | 0, _, reading => reading
  | fuel + 1, endFits, reading =>
    let complete := plan.complete? reading.threads
    let found :=
      (complete.map fun token => ⟨token, reading.start, reading.pos⟩).or reading.found
    match text[reading.pos]? with
    | none =>
      if endFits then
        { reading with found := some ⟨plan.ending, reading.pos, reading.pos⟩ }
      else { reading with found }
    | some char =>
      let next := (reading.threads.flatMap fun thread =>
        (thread.rest.residuals char).map fun rest => ⟨thread.token, rest⟩).eraseDups
      let skipping := reading.skipping && !fresh.isEmpty
      let skips := skipping && plan.blanks.contains char
      if next.isEmpty && !skips then { reading with found }
      else if complete.any fun token => plan.endsBefore token next skipping skips then
        { reading with found }
      else
        readOn plan text fresh fuel (endFits && next.isEmpty)
          { pos := reading.pos + 1
            start := if next.isEmpty then reading.pos + 1 else reading.start
            skipping := skips
            threads := if skips then next ++ fresh else next
            found }

/-- Reads the token at a place, among some tokens. -/
def read (plan : Blueprint ν φ) (text : Array Char) (wanted : List Nat) (endFits : Bool)
    (pos : Nat) : Reading :=
  let threads := wanted.map plan.thread
  let fresh := threads.filter fun thread => !plan.isImmediate thread.token
  plan.readOn text fresh (text.size - pos + 1) endFits
    { pos, start := pos, threads }

end Blueprint

end Phrasebook.Grammar
