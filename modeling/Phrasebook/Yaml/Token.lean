import Phrasebook.Yaml.Basic

/-!
# Tokens of YAML

The tokens of a text, with the starts and ends of block collections that
indentation stands for.
-/

namespace Phrasebook.Yaml

/-- An instruction before a document. -/
inductive Directive where
  | version (major : Nat)
  /-- A handle and the start of the tags that it stands for. -/
  | handle (name start : Text)
  | other
  deriving Repr, DecidableEq

/-- A token. -/
inductive Token where
  | streamEnd
  | documentStart
  | documentEnd
  | directive (directive : Directive)
  | blockSequenceStart
  | blockMappingStart
  | blockEnd
  | flowSequenceStart
  | flowSequenceEnd
  | flowMappingStart
  | flowMappingEnd
  | blockEntry
  | flowEntry
  | key
  | value
  | alias (name : Text)
  | anchor (name : Text)
  | tag (handle : Option Text) (suffix : Text)
  | scalar (text : Text) (plain : Bool)
  deriving Repr, DecidableEq

/-- A place in a text with what follows it. -/
structure Spot where
  rest : Text
  index : Nat := 0
  line : Nat := 0
  column : Nat := 0
  deriving Repr, DecidableEq

namespace Spot

/-- The spot some characters further on. -/
def forward : Nat → Spot → Spot
  | 0, spot => spot
  | count + 1, spot =>
    match spot.rest with
    | [] => spot
    | head :: tail =>
      let ends := isBreak head && !(head == '\r' && tail.head? == some '\n')
      forward count
        { rest := tail,
          index := spot.index + 1,
          line := if ends then spot.line + 1 else spot.line,
          column :=
            if ends then 0 else if head.toNat == 0xFEFF then spot.column else spot.column + 1 }

end Spot

/-- A token that may turn out to be a key. -/
structure PendingKey where
  /-- How many tokens come before it. -/
  place : Nat
  /-- Whether nothing but a key can stand here. -/
  required : Bool
  index : Nat
  line : Nat
  column : Nat
  deriving Repr, DecidableEq

/-- How far the tokens of a text are known. -/
structure Lexing where
  spot : Spot
  /-- How many flow collections are open. -/
  flow : Nat := 0
  /-- The column of the innermost block collection, or -1. -/
  indent : Int := -1
  outer : List Int := []
  tokens : Array Token := #[]
  /-- How many tokens have been used. -/
  taken : Nat := 0
  /-- Whether the last token is known. -/
  ended : Bool := false
  /-- Whether a key may start here. -/
  keyAllowed : Bool := true
  /-- The tokens that may be keys, by how many flow collections were open. -/
  pending : List (Nat × PendingKey) := []
  deriving Repr, DecidableEq

/-- Reads tokens or stops at a fault. -/
abbrev Lexer := StateT Lexing (Except Fault)

namespace Lexer

/-- What follows. -/
def rest : Lexer Text := do
  return (← get).spot.rest

/-- The character some places ahead. -/
def peek (count : Nat := 0) : Lexer (Option Char) := do
  return ((← rest).drop count).head?

/-- Whether a certain character comes next. -/
def sees (char : Char) : Lexer Bool := do
  return (← peek) == some char

/-- Passes characters. -/
def pass (count : Nat) : Lexer Unit :=
  modify fun state => { state with spot := state.spot.forward count }

/-- Passes the characters of a kind, and gives them. -/
def passWhile (kind : Char → Bool) : Lexer Text := do
  let characters := (← rest).takeWhile kind
  pass characters.length
  return characters

/-- Stops. -/
def fault {α : Type} : Lexer α :=
  throw .malformed

/-- Goes on only when a condition holds. -/
def require (condition : Bool) : Lexer Unit :=
  if condition then pure () else fault

/-- Adds a token. -/
def emit (token : Token) : Lexer Unit :=
  modify fun state => { state with tokens := state.tokens.push token }

/-- Says whether a key may start next. -/
def allowKey (allowed : Bool) : Lexer Unit :=
  modify fun state => { state with keyAllowed := allowed }

/-- Whether a flow collection is open. -/
def inFlow : Lexer Bool := do
  return (← get).flow != 0

/-- Passes the end of a line. The result is the line end as text keeps it, empty
where no line ends. -/
def lineBreak : Lexer Text := do
  match ← rest with
  | '\r' :: '\n' :: _ =>
    pass 2
    return ['\n']
  | head :: _ =>
    if isBreak head then
      pass 1
      return if head.toNat == 0x2028 || head.toNat == 0x2029 then [head] else ['\n']
    else return []
  | [] => return []

/-- Whether a line that separates documents comes next. -/
def separatorAhead : Lexer Bool := do
  let text ← rest
  return (['-', '-', '-'].isPrefixOf text || ['.', '.', '.'].isPrefixOf text) &&
    blankOrEnd (← peek 3)

/-! ### Keys and indentation -/

/-- Gives up the keys that did not come true on their line. -/
def dropStale : Lexer Unit := do
  let state ← get
  let stale (key : PendingKey) : Bool :=
    key.line != state.spot.line || 1024 < state.spot.index - key.index
  require (state.pending.all fun (_, key) => !(stale key && key.required))
  set { state with pending := state.pending.filter fun (_, key) => !stale key }

/-- Gives up the key that is pending among the open flow collections. -/
def dropPending : Lexer Unit := do
  let state ← get
  match state.pending.lookup state.flow with
  | none => pure ()
  | some key =>
    require !key.required
    set { state with pending := state.pending.filter fun (level, _) => level != state.flow }

/-- Remembers that the next token may be a key. -/
def markKey : Lexer Unit := do
  if (← get).keyAllowed then
    dropPending
    let state ← get
    let key : PendingKey :=
      { place := state.tokens.size,
        required := state.flow == 0 && state.indent == (state.spot.column : Int),
        index := state.spot.index,
        line := state.spot.line,
        column := state.spot.column }
    set { state with pending := (state.flow, key) :: state.pending }

/-- Ends block collections, at most `fuel`, that are indented more than a column. -/
def unwindFrom : (fuel : Nat) → Int → Lexer Unit
  | 0, _ => pure ()
  | fuel + 1, column => do
    let state ← get
    if state.indent > column then
      set { state with
        indent := state.outer.headD (-1),
        outer := state.outer.tail,
        tokens := state.tokens.push .blockEnd }
      unwindFrom fuel column

/-- Ends the block collections that are indented more than a column. -/
def unwind (column : Int) : Lexer Unit := do
  if !(← inFlow) then unwindFrom (← get).outer.length column

/-- Starts a block collection at a column, unless one is that far in. -/
def indentTo (column : Int) : Lexer Bool := do
  let state ← get
  if state.indent < column then
    set { state with indent := column, outer := state.indent :: state.outer }
    return true
  else return false

/-- Puts a token where another one stands. -/
def insertAt (place : Nat) (token : Token) : Lexer Unit :=
  modify fun state =>
    { state with
      tokens := (state.tokens.extract 0 place).push token ++ state.tokens.extract place }

/-- Passes blanks, comments and line ends; `fuel` bounds the lines. -/
def toNext : (fuel : Nat) → Lexer Unit
  | 0 => pure ()
  | fuel + 1 => do
    let _ ← passWhile (· == ' ')
    if ← sees '#' then let _ ← passWhile (!isBreak ·)
    if !(← lineBreak).isEmpty then
      if !(← inFlow) then allowKey true
      toNext fuel

end Lexer

end Phrasebook.Yaml
