import Phrasebook.Grammar.Pattern

/-!
# Rules

How a language is written down. Its constructs have names of a type `ν`, and the
fields of a construct have names of a type `φ`. A rule says what a construct is made
of, and its marks say how an ambiguity is decided and how the tree shows a part.
-/

namespace Phrasebook

namespace Grammar

/-- The smallest part of a text. -/
structure Token where
  pattern : Pattern
  /-- Whether it has to follow the last token without a blank. -/
  immediate : Bool := false
  /-- Of two tokens that fit, the stronger one counts. -/
  strength : Int := 0
  deriving Repr, DecidableEq, Hashable

namespace Token

/-- A token of one text. -/
def literal (text : String) : Token :=
  ⟨.literal text, false, 0⟩

/-- The only text of a token. -/
def text? (token : Token) : Option Text :=
  match token.pattern with
  | .text text => some text
  | _ => none

/-- How much a token says about its text; decides between tokens of one strength. -/
def precision (token : Token) : Nat :=
  (if token.text?.isSome then 2 else 0) + if token.immediate then 1 else 0

end Token

/-- The group that operators of two sides form. -/
inductive Side where
  | left
  | right
  deriving Repr, DecidableEq, Hashable

/-- How tightly a part holds together. -/
inductive Binding where
  | level (level : Int)
  | named (name : String)
  deriving Repr, DecidableEq, Hashable

/-- What the tree shows in the place of a part. -/
inductive Shown (ν : Type) where
  | construct (name : ν)
  | literal (text : String)
  deriving Repr, DecidableEq, Hashable

/-- What is said about a part of a rule. -/
inductive Mark (ν φ : Type) where
  | binding (binding : Binding) (side : Option Side)
  /-- Of two readings of a text, the heavier one counts. -/
  | weight (weight : Int)
  | shown (title : Shown ν)
  | field (name : φ)
  deriving Repr, DecidableEq, Hashable

/-- What a construct is made of. -/
inductive Rule (ν φ : Type) where
  | blank
  | token (token : Token)
  | construct (name : ν)
  | seq (first rest : Rule ν φ)
  | choice (one other : Rule ν φ)
  /-- One or more parts in a row. -/
  | some (body : Rule ν φ)
  | mark (mark : Mark ν φ) (body : Rule ν φ)
  deriving Repr, DecidableEq, Hashable

namespace Rule

variable {ν φ : Type}

/-- A token of one text. -/
def literal (text : String) : Rule ν φ :=
  .token (.literal text)

/-- Parts in a row. -/
def row : List (Rule ν φ) → Rule ν φ
  | [] => .blank
  | [last] => last
  | first :: rest => .seq first (row rest)

/-- One of some parts. -/
def oneOf : List (Rule ν φ) → Rule ν φ
  | [] => .blank
  | [last] => last
  | one :: others => .choice one (oneOf others)

/-- A part or nothing. -/
def optional (body : Rule ν φ) : Rule ν φ :=
  .choice body .blank

/-- Any number of parts in a row. -/
def many (body : Rule ν φ) : Rule ν φ :=
  optional (.some body)

/-- One or more parts with a separator between them. -/
def joined (separator body : Rule ν φ) : Rule ν φ :=
  .seq body (many (.seq separator body))

/-- A part that binds. -/
def bind (binding : Binding) (body : Rule ν φ) : Rule ν φ :=
  .mark (.binding binding none) body

/-- A part that groups to the left. -/
def left (body : Rule ν φ) (binding : Binding := .level 0) : Rule ν φ :=
  .mark (.binding binding (Option.some .left)) body

/-- A part that groups to the right. -/
def right (body : Rule ν φ) (binding : Binding := .level 0) : Rule ν φ :=
  .mark (.binding binding (Option.some .right)) body

/-- A part of some weight. -/
def weigh (weight : Int) (body : Rule ν φ) : Rule ν φ :=
  .mark (.weight weight) body

/-- A part in a field. -/
def field (name : φ) (body : Rule ν φ) : Rule ν φ :=
  .mark (.field name) body

/-- A part that the tree shows as a construct. -/
def shown (name : ν) (body : Rule ν φ) : Rule ν φ :=
  .mark (.shown (.construct name)) body

/-- A part that the tree shows as a text. -/
def shownText (text : String) (body : Rule ν φ) : Rule ν φ :=
  .mark (.shown (.literal text)) body

/-- The constructs that a rule names. -/
def constructs : Rule ν φ → List ν
  | blank => []
  | token _ => []
  | construct name => [name]
  | seq first rest => first.constructs ++ rest.constructs
  | choice one other => one.constructs ++ other.constructs
  | some body => body.constructs
  | mark _ body => body.constructs

/-- The tokens that a rule holds, from left to right. -/
def tokens : Rule ν φ → List Token
  | blank => []
  | token found => [found]
  | construct _ => []
  | seq first rest => first.tokens ++ rest.tokens
  | choice one other => one.tokens ++ other.tokens
  | some body => body.tokens
  | mark _ body => body.tokens

end Rule

/-- A place in an order of bindings. -/
inductive Rank (ν : Type) where
  | named (name : String)
  /-- Everything that ends a construct. -/
  | construct (name : ν)
  deriving Repr, DecidableEq, Hashable

end Grammar

open Grammar in
/-- A language by its rules. -/
structure Grammar (ν φ : Type) where
  /-- The constructs with rules; the first is a whole text. Earlier ones win where
  nothing else decides. -/
  constructs : List ν
  rule : ν → Rule ν φ
  /-- Whether the tree shows a construct as a node. -/
  isVisible : ν → Bool
  /-- The constructs whose rules stand where they are named. -/
  inlined : List ν := []
  /-- The constructs that the scanner of the language finds. -/
  scanned : List ν := []
  /-- The constructs that may stand between any two tokens. -/
  extras : List ν := []
  /-- The characters that may stand between any two tokens. -/
  blanks : CharSet
  /-- Orders of bindings, each from the tightest on. -/
  orders : List (List (Rank ν)) := []
  /-- The construct that words are, among which literals can be. -/
  word : Option ν := none

end Phrasebook
