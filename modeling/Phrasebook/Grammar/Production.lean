import Phrasebook.Grammar.Rule

/-!
# Productions

A rule as plain rows of symbols. Each choice of a rule becomes a row of its own, and
every symbol of a row carries the marks that stand around it.
-/

namespace Phrasebook.Grammar

/-- A part that rows are made of. -/
inductive Symbol where
  /-- A token, a construct of the scanner, or the end of the text. -/
  | terminal (index : Nat)
  /-- A construct with rows of its own. -/
  | nonterminal (index : Nat)
  deriving Repr, DecidableEq, Hashable

/-- How the tree shows a symbol, and the field it is in. -/
structure Label (ν φ : Type) where
  shown : Option (Shown ν) := none
  field : Option φ := none
  deriving Repr, DecidableEq, Hashable

/-- A symbol in a row with its marks. -/
structure Step (ν φ : Type) where
  symbol : Symbol
  binding : Option Binding := none
  side : Option Side := none
  label : Label ν φ := {}
  deriving Repr, DecidableEq, Hashable

/-- A row of symbols. -/
structure Production (ν φ : Type) where
  steps : List (Step ν φ)
  weight : Int := 0
  deriving Repr, DecidableEq, Hashable

/-- The one of two weights that is further from zero, and the first of equals. -/
def heavier (one other : Int) : Int :=
  if one.natAbs < other.natAbs then other else one

namespace Rule

variable {ν φ : Type}

/-- The rules without choices that a rule stands for. -/
def choices : Rule ν φ → List (Rule ν φ)
  | seq first rest =>
    first.choices.flatMap fun one => rest.choices.map fun other => .seq one other
  | choice one other => one.choices ++ other.choices
  | mark note body => body.choices.map (.mark note)
  | rule => [rule]

/-- The marks around a part of a rule. -/
structure Context (ν φ : Type) where
  binding : Option Binding := none
  side : Option Side := none
  label : Label ν φ := {}

/-- Changes the last step of a row. -/
def changeLast (change : Step ν φ → Step ν φ) (steps : List (Step ν φ)) : List (Step ν φ) :=
  match steps.getLast? with
  | Option.none => steps
  | Option.some last => steps.dropLast ++ [change last]

/-- The row of a rule without choices. A binding holds behind its last symbol only
at the end of the whole rule, so elsewhere that symbol takes the binding outside.
Other rows are the symbols of constructs and of repeated parts. -/
def flatten (symbol : Rule ν φ → Symbol) (ctx : Context ν φ) (atEnd : Bool) :
    Rule ν φ → Production ν φ
  | blank => ⟨[], 0⟩
  | seq first rest =>
    let head := first.flatten symbol ctx false
    let tail := rest.flatten symbol ctx atEnd
    ⟨head.steps ++ tail.steps, heavier head.weight tail.weight⟩
  | mark (.binding binding side) body =>
    let inside := { ctx with
      binding := Option.some binding, side := side.or ctx.side }
    let row := body.flatten symbol inside atEnd
    let reset (step : Step ν φ) : Step ν φ :=
      { step with
        binding := ctx.binding
        side := if side.isSome then ctx.side else step.side }
    if atEnd then row else { row with steps := changeLast reset row.steps }
  | mark (.weight weight) body =>
    let row := body.flatten symbol ctx atEnd
    { row with weight := heavier weight row.weight }
  | mark (.shown title) body =>
    body.flatten symbol
      { ctx with label := { ctx.label with shown := Option.some title } } atEnd
  | mark (.field name) body =>
    body.flatten symbol
      { ctx with label := { ctx.label with field := Option.some name } } atEnd
  | rule => ⟨[⟨symbol rule, ctx.binding, ctx.side, ctx.label⟩], 0⟩

/-- The rows of a rule. -/
def productions (symbol : Rule ν φ → Symbol) (rule : Rule ν φ) : List (Production ν φ) :=
  rule.choices.map fun choice => choice.flatten symbol {} true

/-- The bodies of the repeated parts of a rule, inner ones first. -/
def repeated : Rule ν φ → List (Rule ν φ)
  | seq first rest => first.repeated ++ rest.repeated
  | choice one other => one.repeated ++ other.repeated
  | some body => body.repeated ++ [body]
  | mark _ body => body.repeated
  | _ => []

end Rule

namespace Production

variable {ν φ : Type}

/-- A row with another row in the place of one of its steps. The marks of the step go
to what replaces it, as far as it has none of its own. -/
def splice (before : List (Step ν φ)) (step : Step ν φ) (after : List (Step ν φ)) (weight : Int)
    (inner : Production ν φ) : Production ν φ :=
  let relabel (part : Step ν φ) : Step ν φ :=
    { part with label := ⟨step.label.shown.or part.label.shown, step.label.field.or part.label.field⟩ }
  let bind (part : Step ν φ) : Step ν φ :=
    { part with binding := part.binding.or step.binding, side := part.side.or step.side }
  ⟨before ++ Rule.changeLast bind (inner.steps.map relabel) ++ after, heavier weight inner.weight⟩

/-- The rows that a row stands for once some symbols are replaced by their own rows;
`fuel` bounds the replacements. -/
def expand (rows? : Symbol → Option (List (Production ν φ))) :
    (fuel : Nat) → Production ν φ → List (Production ν φ)
  | 0, row => [row]
  | fuel + 1, row =>
    let (before, rest) := row.steps.span fun step => (rows? step.symbol).isNone
    match rest with
    | [] => [row]
    | step :: after =>
      ((rows? step.symbol).getD []).flatMap fun inner =>
        expand rows? fuel (splice before step after row.weight inner)

/-- The labels of a row. -/
def labels (row : Production ν φ) : List (Label ν φ) :=
  row.steps.map (·.label)

end Production

end Phrasebook.Grammar
