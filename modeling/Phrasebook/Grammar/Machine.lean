import Phrasebook.Grammar.Lexer
import Phrasebook.Grammar.Stack

/-!
# Machines

All that is needed to read a text of a language: what its states do, and how its
tokens are found. Some tokens no pattern describes; the scanner of the language
finds them, and may remember something from one of them to the next.
-/

namespace Phrasebook.Grammar

/-- What can be found at a place. -/
structure Mode where
  tokens : List Nat
  /-- Whether the text can end here. -/
  endFits : Bool
  /-- What the scanner may find, or wants to know about. -/
  scanned : TerminalSet
  deriving Repr, DecidableEq

/-- A terminal that a scanner found. -/
structure Scanned (τ : Type) where
  lexeme : Lexeme
  /-- What the scanner remembers from now on, if it remembers anything. -/
  memory : Option τ := none

/-- A language as it is read. -/
structure Machine (σ ν φ τ : Type) where
  plan : Blueprint ν φ
  initial : σ
  /-- The state in which text is skipped. Without one, a fault is the end. -/
  fault : Option σ := none
  actions : σ → Nat → List (Action σ ν φ)
  /-- The state behind a nonterminal. -/
  next : σ → Nat → σ
  mode : σ → Mode
  scan : Array Char → Nat → TerminalSet → Option τ → Option (Scanned τ)

/-- The terminal that a tree is. -/
def Tree.terminal? {ν φ τ : Type} (tree : Tree ν φ τ) : Option Nat :=
  match tree.shape with
  | .symbol (.terminal index) => some index
  | _ => none

namespace Machine

variable {σ ν φ τ : Type}

/-- What a state does with a token. -/
def actionsOn (machine : Machine σ ν φ τ) (state : σ) (token : Tree ν φ τ) :
    List (Action σ ν φ) :=
  match token.terminal? with
  | some terminal => machine.actions state terminal
  | none => []

/-- The state behind a terminal, if it can come next. -/
def behind? (machine : Machine σ ν φ τ) (state : σ) (terminal : Nat) : Option σ :=
  match (machine.actions state terminal).getLast? with
  | some (.shift target _) => some target
  | some .extra => some state
  | _ => none

/-- Whether a state is the one in which text is skipped. -/
def isFault [DecidableEq σ] (machine : Machine σ ν φ τ) (state : σ) : Bool :=
  machine.fault == some state

/-- All terminals but the end, in the order in which they are tried. -/
def trials (machine : Machine σ ν φ τ) : List Nat :=
  let all := List.range machine.plan.ending
  match machine.plan.word with
  | some word => word :: all.filter (· != word)
  | none => all

/-! ### The next token -/

/-- Whether something was found since the last fault. -/
def hasAdvanced (stack : Stack σ ν φ τ) (countAtFault : Nat) : (fuel : Nat) → Nat → Bool
  | 0, _ => false
  | fuel + 1, number =>
    match stack.entries[number]? with
    | none => false
    | some entry =>
      if entry.cost == 0 then true
      else match entry.links with
        | ⟨last, some tree⟩ :: _ =>
          if 0 < tree.size then true
          else if countAtFault < entry.count && tree.cost == 0 then
            hasAdvanced stack countAtFault fuel last
          else false
        | _ => false

/-- What the next token is read with. -/
structure Seeker (σ ν φ τ : Type) where
  source : Source
  stack : Stack σ ν φ τ
  head : Head σ ν φ τ
  entry : Entry σ ν φ τ

/-- Text that is skipped. -/
structure Skipped where
  start : Nat
  stop : Nat

/-- The tree of a terminal. -/
def Seeker.leafOf (seeker : Seeker σ ν φ τ) (lexeme : Lexeme) : Tree ν φ τ :=
  .leaf (.symbol (.terminal lexeme.terminal)) seeker.entry.pos lexeme.start lexeme.stop

/-- What the scanner finds at a place. What is empty has to change something. -/
def scanned? [DecidableEq σ] [BEq τ] (machine : Machine σ ν φ τ) (seeker : Seeker σ ν φ τ)
    (mode : Mode) (faulty : Bool) (pos : Nat) : Option (Tree ν φ τ) := do
  if mode.scanned == .empty then none
  let found ← machine.scan seeker.source.text pos mode.scanned seeker.head.memory
  let changed := found.memory.isSome && !(found.memory == seeker.head.memory)
  let lexeme := { found.lexeme with start := min found.lexeme.start found.lexeme.stop }
  let stays := machine.behind? seeker.entry.state lexeme.terminal == some seeker.entry.state
  if lexeme.stop ≤ pos && !changed &&
      (faulty || stays || !hasAdvanced seeker.stack seeker.head.countAtFault
        seeker.stack.entries.size seeker.head.entry) then none
  return (seeker.leafOf lexeme).change fun summary =>
    { summary with memory := found.memory, changed }

/-- The token of a lexeme; a word that is a keyword here is that keyword. -/
def recognised [DecidableEq σ] (machine : Machine σ ν φ τ) (seeker : Seeker σ ν φ τ)
    (lexeme : Lexeme) : Tree ν φ τ :=
  let word := (seeker.source.text.extract lexeme.start lexeme.stop).toList
  let keyword? :=
    if machine.plan.word == some lexeme.terminal then machine.plan.keywords[String.ofList word]?
    else none
  match keyword? with
  | some keyword =>
    if (machine.actions seeker.entry.state keyword).isEmpty then seeker.leafOf lexeme
    else (seeker.leafOf { lexeme with terminal := keyword }).change fun summary =>
      { summary with keyword := true }
  | none => seeker.leafOf lexeme

/-- Looks for a token at a place. If there is none, all tokens are looked for, and
then text is skipped until there is one. `faulty` says that all tokens are looked
for, and `fuel` bounds the characters that are skipped. -/
def seek [DecidableEq σ] [BEq τ] (machine : Machine σ ν φ τ) (seeker : Seeker σ ν φ τ) :
    (fuel : Nat) → (mode : Mode) → (faulty : Bool) → (pos : Nat) → Option Skipped →
      Tree ν φ τ
  | 0, _, _, pos, _ => .leaf .fault seeker.entry.pos pos pos
  | fuel + 1, mode, faulty, pos, skipped =>
    let fault (start stop : Nat) : Tree ν φ τ := .leaf .fault seeker.entry.pos start stop
    let reading := fun (_ : Unit) =>
      machine.plan.read seeker.source.text mode.tokens mode.endFits pos
    let found? := machine.scanned? seeker mode faulty pos
    match found?, skipped with
    | some token, none => token
    | some _, some skipped => fault skipped.start skipped.stop
    | none, _ =>
      let reading := reading ()
      match reading.found, skipped with
      | some lexeme, none => machine.recognised seeker lexeme
      | some _, some skipped => fault skipped.start skipped.stop
      | none, _ =>
        if !faulty then
          match machine.fault with
          | none => fault seeker.entry.pos seeker.entry.pos
          | some state =>
            seek machine seeker fuel (machine.mode state) true seeker.entry.pos none
        else
          let known := skipped.getD ⟨reading.start, reading.start⟩
          if reading.pos != known.stop then
            seek machine seeker fuel mode true reading.pos
              (some { known with stop := reading.pos })
          else if seeker.source.text.size ≤ reading.pos then fault known.start known.stop
          else
            seek machine seeker fuel mode true (reading.pos + 1)
              (some { known with stop := reading.pos + 1 })

/-- The next token of a reading. -/
def token [DecidableEq σ] [BEq τ] (machine : Machine σ ν φ τ) (seeker : Seeker σ ν φ τ) :
    Tree ν φ τ :=
  let entry := seeker.entry
  machine.seek seeker (seeker.source.text.size - entry.pos + 3) (machine.mode entry.state)
    (machine.isFault entry.state) entry.pos none

end Machine

end Phrasebook.Grammar
