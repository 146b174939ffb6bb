import Phrasebook.Yaml.Property
import Phrasebook.Yaml.Scalar

/-!
# The token stream of a YAML text

One token after the other, read only when it is asked for, with the keys that only
a later colon makes known put where they stand.
-/

namespace Phrasebook.Yaml

namespace Lexer

/-- Adds a token of some characters. -/
def mark (count : Nat) (token : Token) : Lexer Unit := do
  pass count
  emit token

/-- Adds a token that may be a key. -/
def keyable (token : Lexer Token) : Lexer Unit := do
  markKey
  allowKey false
  emit (← token)

/-- Ends every block collection before a line between documents. -/
def leaveDocument : Lexer Unit := do
  unwind (-1)
  dropPending
  allowKey false

/-- The start of a flow collection. -/
def openFlow (token : Token) : Lexer Unit := do
  markKey
  modify fun state => { state with flow := state.flow + 1 }
  allowKey true
  mark 1 token

/-- The end of a flow collection. -/
def closeFlow (token : Token) : Lexer Unit := do
  dropPending
  modify fun state => { state with flow := state.flow - 1 }
  allowKey false
  mark 1 token

/-- Starts a block collection here, where one may start. -/
def openBlock (token : Token) : Lexer Unit := do
  if !(← inFlow) then
    require (← get).keyAllowed
    if ← indentTo (← get).spot.column then emit token

/-- An entry of a sequence. -/
def entry : Lexer Unit := do
  openBlock .blockSequenceStart
  allowKey true
  dropPending
  mark 1 .blockEntry

/-- The sign of a key. -/
def explicitKey : Lexer Unit := do
  openBlock .blockMappingStart
  allowKey !(← inFlow)
  dropPending
  mark 1 .key

/-- The sign of a value. A pending key comes true. -/
def valueSign : Lexer Unit := do
  let state ← get
  match state.pending.lookup state.flow with
  | some key =>
    set { state with pending := state.pending.filter fun (level, _) => level != state.flow }
    insertAt key.place .key
    if !(← inFlow) then
      if ← indentTo key.column then insertAt key.place .blockMappingStart
    allowKey false
  | none =>
    openBlock .blockMappingStart
    allowKey !(← inFlow)
    dropPending
  mark 1 .value

/-- Whether a plain scalar starts with a character that another one follows. -/
def startsPlain (flow : Bool) (first : Char) (second : Option Char) : Bool :=
  !(blankOrEnd (some first) || "-?:,[]\x7b\x7d#&*!|>'\"%@".toList.contains first ||
      first == Char.ofNat 0x60) ||
    (!blankOrEnd second && (first == '-' || (!flow && (first == '?' || first == ':'))))

/-- Adds the tokens that start with a character. -/
def dispatch (first : Char) : Lexer Unit := do
  let second ← peek 1
  let flow ← inFlow
  let atMargin := (← get).spot.column == 0
  let separates := atMargin && (← separatorAhead)
  if first == '%' && atMargin then
    leaveDocument
    emit (← directive)
  else if first == '-' && separates then
    leaveDocument
    mark 3 .documentStart
  else if first == '.' && separates then
    leaveDocument
    mark 3 .documentEnd
  else if first == '[' then openFlow .flowSequenceStart
  else if first == '{' then openFlow .flowMappingStart
  else if first == ']' then closeFlow .flowSequenceEnd
  else if first == '}' then closeFlow .flowMappingEnd
  else if first == ',' then
    allowKey true
    dropPending
    mark 1 .flowEntry
  else if first == '-' && blankOrEnd second then entry
  else if first == '?' && (flow || blankOrEnd second) then explicitKey
  else if first == ':' && (flow || blankOrEnd second) then valueSign
  else if first == '*' then keyable (do return .alias (← anchorName))
  else if first == '&' then keyable (do return .anchor (← anchorName))
  else if first == '!' then keyable tag
  else if (first == '|' || first == '>') && !flow then
    allowKey true
    dropPending
    emit (← block (first == '>'))
  else if first == '\'' || first == '"' then keyable quoted
  else if startsPlain flow first second then keyable plain
  else fault

/-- Adds the next tokens of the text. -/
def fetch : Lexer Unit := do
  toNext ((← rest).length + 1)
  dropStale
  unwind (← get).spot.column
  match ← peek with
  | none =>
    leaveDocument
    emit .streamEnd
    modify fun state => { state with ended := true }
  | some first => dispatch first

/-- Whether more of the text has to be read before the next token is known: there
is none yet, or it may still turn out to be a key. -/
def needsMore : Lexer Bool := do
  if (← get).ended then return false
  if (← get).tokens.size == (← get).taken then return true
  dropStale
  let state ← get
  return state.pending.any fun (_, key) => key.place == state.taken

/-- Reads on until the next token is known. -/
def prepare : (fuel : Nat) → Lexer Unit
  | 0 => fault
  | fuel + 1 => do
    if ← needsMore then
      fetch
      prepare fuel

/-- The next token. No more of the text is read than it takes to know the token. -/
def next : Lexer (Option Token) := do
  prepare ((← rest).length + 3)
  let state ← get
  return state.tokens[state.taken]?

/-- Uses the next token. -/
def take : Lexer Unit :=
  modify fun state => { state with taken := state.taken + 1 }

end Lexer

/-- The tokens of a text, of which none is read. A mark of the byte order may come
first. -/
def Lexing.ofText (text : Text) : Except Fault Lexing :=
  if text.all isAllowed then
    let start : Spot := { rest := text }
    .ok { spot := if text.head? == some (Char.ofNat 0xFEFF) then start.forward 1 else start }
  else .error .malformed

end Phrasebook.Yaml
