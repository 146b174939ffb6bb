import Phrasebook.Grammar.Production
import Phrasebook.Grammar.TerminalSet
import Std.Data.HashMap
import Std.Data.HashSet

/-!
# Blueprints

A language with numbers for its symbols. Tokens come first among the terminals, then
the constructs of the scanner, then the end of the text. A construct that is nothing
but a token of its own is that token.
-/

namespace Phrasebook.Grammar

/-- A construct, or a repeated part, with its rows. -/
structure Nonterminal (ν φ : Type) where
  /-- The construct; a repeated part has no name. -/
  name : Option ν
  productions : List (Production ν φ)

/-- The number of a terminal. -/
def Symbol.terminal? : Symbol → Option Nat
  | .terminal index => some index
  | .nonterminal _ => none

/-- Whether a nonterminal is a repeated part. -/
def Nonterminal.isRepeated {ν φ : Type} (part : Nonterminal ν φ) : Bool :=
  part.name.isNone

/-- A nonterminal with other rows in the place of some symbols. -/
def Nonterminal.expand {ν φ : Type} (inlined? : Symbol → Option (List (Production ν φ)))
    (part : Nonterminal ν φ) : Nonterminal ν φ :=
  { part with productions := part.productions.flatMap (Production.expand inlined? 64) }

/-- The first nonterminal with the end of the text. -/
def Nonterminal.whole {ν φ : Type} : Nonterminal ν φ :=
  ⟨none, [⟨[{ symbol := .nonterminal 0 }], 0⟩]⟩

/-- A language with numbers for its symbols. -/
structure Blueprint (ν φ : Type) where
  tokens : Array Token
  /-- The constructs that are tokens, by token. -/
  tokenNames : Array (Option ν)
  scanned : Array ν
  /-- The nonterminals; the first is a whole text, and the last is the text with its
  end. -/
  nonterminals : Array (Nonterminal ν φ)
  /-- The symbol of a construct. -/
  symbol? : ν → Option Symbol
  isVisible : ν → Bool
  extras : TerminalSet
  blanks : CharSet
  orders : List (List (Rank ν))
  /-- The token that words are. -/
  word : Option Nat
  /-- The tokens that are words of their own, by their texts. -/
  keywords : Std.HashMap String Nat

namespace Blueprint

variable {ν φ : Type}

/-- The end of the text. -/
def ending (plan : Blueprint ν φ) : Nat :=
  plan.tokens.size + plan.scanned.size

/-- The number of terminals. -/
def terminals (plan : Blueprint ν φ) : Nat :=
  plan.ending + 1

/-- The construct that a terminal is. -/
def terminalName? (plan : Blueprint ν φ) (terminal : Nat) : Option ν :=
  match plan.tokenNames[terminal]? with
  | some name => name
  | none => plan.scanned[terminal - plan.tokens.size]?

/-- The construct that a symbol is. -/
def name? (plan : Blueprint ν φ) : Symbol → Option ν
  | .terminal index => plan.terminalName? index
  | .nonterminal index => (plan.nonterminals[index]?).bind (·.name)

/-- Whether the tree shows a symbol: a construct that is visible, or a literal. -/
def shows (plan : Blueprint ν φ) (symbol : Symbol) : Bool :=
  match plan.name? symbol with
  | some name => plan.isVisible name
  | none =>
    match symbol with
    | .terminal index => (plan.tokens[index]?).any (·.text?.isSome)
    | .nonterminal _ => false

/-- The terminal of a token as a text has it: a keyword is read as a word. -/
def lexical (plan : Blueprint ν φ) (token : Nat) : Nat :=
  match plan.word, (plan.tokens[token]?).bind Token.text? with
  | some word, some text => if plan.keywords.contains (String.ofList text) then word else token
  | _, _ => token

section Numbering

variable [DecidableEq ν] [Hashable ν] [DecidableEq φ] [Hashable φ]

/-- The constructs that some constructs need, directly or not; `fuel` bounds the
references that are followed. -/
def reach (rule : ν → Rule ν φ) : (fuel : Nat) → List ν → Std.HashSet ν → Std.HashSet ν
  | 0, _, seen => seen
  | _ + 1, [], seen => seen
  | fuel + 1, name :: names, seen =>
    if seen.contains name then reach rule fuel names seen
    else reach rule fuel ((rule name).constructs ++ names) (seen.insert name)

/-- The constructs of a grammar that a whole text can hold, in order. -/
def reachable (grammar : Grammar ν φ) : List ν :=
  match grammar.constructs with
  | [] => []
  | first :: others =>
    let references := grammar.constructs.foldl
      (fun count name => count + (grammar.rule name).constructs.length) 0
    let seen := reach grammar.rule (references + grammar.extras.length + 2)
      (first :: grammar.extras) {}
    first :: others.filter seen.contains

/-- Whether a text is a word that literals are. -/
def isKeyword (text : Text) : Bool :=
  text.all fun char => char.isAlpha || char == '_'

/-- The symbols of a grammar by number. -/
structure Numbers (ν φ : Type) [DecidableEq ν] [Hashable ν] [DecidableEq φ] [Hashable φ] where
  tokens : List Token
  /-- The constructs that have rows. -/
  owners : List ν
  /-- The repeated parts. -/
  bodies : List (Rule ν φ)
  /-- The token that a construct is. -/
  tokenOf? : ν → Option Nat
  tokenNumbers : Std.HashMap Token Nat := .ofList tokens.zipIdx
  bodyNumbers : Std.HashMap (Rule ν φ) Nat := .ofList bodies.zipIdx
  symbols : Std.HashMap ν Symbol

namespace Numbers

/-- The symbols of a grammar by number. -/
def ofGrammar (grammar : Grammar ν φ) : Numbers ν φ :=
  let names := reachable grammar
  let all := names.flatMap fun name => (grammar.rule name).tokens
  let tokens := all.eraseDups
  let tokenNumbers := Std.HashMap.ofList tokens.zipIdx
  let tokenOf? (name : ν) : Option Nat :=
    match grammar.rule name with
    | .token token =>
      if all.count token = 1 && grammar.constructs.head? != some name then tokenNumbers[token]?
      else none
    | _ => none
  let owners := names.filter fun name => (tokenOf? name).isNone
  let scanned := grammar.scanned.zipIdx.map fun (name, number) =>
    (name, Symbol.terminal (tokens.length + number))
  let named := names.filterMap fun name =>
    (tokenOf? name).map fun number => (name, Symbol.terminal number)
  let owned := owners.zipIdx.map fun (name, number) => (name, Symbol.nonterminal number)
  { tokens, owners, tokenOf?, tokenNumbers
    bodies := (owners.flatMap fun name => (grammar.rule name).repeated).eraseDups
    symbols := .ofList (scanned ++ named ++ owned) }

/-- The symbol of a part of a rule that has a number. -/
def symbol? (numbers : Numbers ν φ) : Rule ν φ → Option Symbol
  | .token token => (numbers.tokenNumbers[token]?).map .terminal
  | .construct name => numbers.symbols[name]?
  | .some body =>
    (numbers.bodyNumbers[body]?).map fun number => .nonterminal (numbers.owners.length + number)
  | _ => none

/-- The symbol of a part of a rule. What has no number is a nonterminal without rows. -/
def symbol (numbers : Numbers ν φ) (rule : Rule ν φ) : Symbol :=
  (numbers.symbol? rule).getD (.nonterminal (numbers.owners.length + numbers.bodies.length + 1))

/-- The rows of constructs and of repeated parts, as they are written. -/
def rows (numbers : Numbers ν φ) (grammar : Grammar ν φ) : List (Nonterminal ν φ) :=
  let constructs := numbers.owners.map fun name =>
    ⟨some name, (grammar.rule name).productions numbers.symbol⟩
  let repeats := numbers.bodies.zipIdx.map fun (body, number) =>
    let itself : Step ν φ := { symbol := .nonterminal (numbers.owners.length + number) }
    ⟨none, ⟨[itself, itself], 0⟩ :: body.productions numbers.symbol⟩
  constructs ++ repeats

/-- The number of a construct that is a terminal. -/
def terminal? (numbers : Numbers ν φ) (name : ν) : Option Nat :=
  (numbers.symbols[name]?).bind Symbol.terminal?

end Numbers

/-- The rows that stand in the place of a symbol, if it is `inlined`. -/
def inlinedRows? (rows : Array (Nonterminal ν φ)) (inlined : List Symbol) :
    Symbol → Option (List (Production ν φ))
  | .nonterminal number =>
    if inlined.contains (.nonterminal number) then (rows[number]?).map (·.productions) else none
  | .terminal _ => none

/-- The blueprint of a grammar. -/
def ofGrammar (grammar : Grammar ν φ) : Blueprint ν φ :=
  let numbers := Numbers.ofGrammar grammar
  let rows := numbers.rows grammar
  let inlined? := inlinedRows? rows.toArray (grammar.inlined.filterMap (numbers.symbols[·]?))
  let named := (reachable grammar).filterMap fun name =>
    (numbers.tokenOf? name).map fun number => (number, name)
  let word := grammar.word.bind numbers.terminal?
  { tokens := numbers.tokens.toArray
    tokenNames := (Array.range numbers.tokens.length).map fun number => named.lookup number
    scanned := grammar.scanned.toArray
    nonterminals := (rows.map (Nonterminal.expand inlined?) ++ [Nonterminal.whole]).toArray
    symbol? := (numbers.symbols[·]?)
    isVisible := grammar.isVisible
    extras := .ofList (grammar.extras.filterMap numbers.terminal?)
    blanks := grammar.blanks
    orders := grammar.orders
    word
    keywords :=
      if word.isNone then {}
      else Std.HashMap.ofList (numbers.tokens.zipIdx.filterMap fun (token, number) =>
        (token.text?.filter isKeyword).map fun text => (String.ofList text, number)) }

end Numbering

end Blueprint

end Phrasebook.Grammar
