import Phrasebook.Grammar.Blueprint

/-!
# Items

A row of which a part was found. Rows that agree in what is still to come, and in
how the part behind is shown, share their items. Items are numbered so that those
with the shorter part come first, and among them those of earlier constructs.
-/

namespace Phrasebook.Grammar

/-- A row of which the first `dot` steps were found. -/
structure Item (ν φ : Type) where
  /-- The nonterminal that the row is one of. -/
  head : Nat
  dot : Nat
  weight : Int
  /-- The binding and the side of the step behind. -/
  binding : Option Binding
  side : Option Side
  /-- The steps ahead. -/
  rest : List (Step ν φ)
  /-- The labels of the row. -/
  labels : List (Label ν φ)
  deriving Repr, DecidableEq, Hashable

namespace Item

variable {ν φ : Type}

/-- The item of a row behind its first `dot` steps. -/
def ofRow (head : Nat) (row : Production ν φ) (dot : Nat) : Item ν φ :=
  let last := (row.steps.take dot).getLast?
  { head, dot, weight := row.weight
    binding := last.bind (·.binding), side := last.bind (·.side)
    rest := row.steps.drop dot, labels := row.labels }

/-- The item behind the step ahead. -/
def behind? (item : Item ν φ) : Option (Item ν φ) :=
  match item.rest with
  | [] => none
  | step :: rest =>
    some { item with dot := item.dot + 1, binding := step.binding, side := step.side, rest }

/-- The symbol ahead, unless the row is complete. -/
def next (item : Item ν φ) : Option Symbol :=
  item.rest.head?.map (·.symbol)

/-- The symbol after the one ahead. -/
def beyond (item : Item ν φ) : Option Symbol :=
  item.rest.tail.head?.map (·.symbol)

/-- The number of steps of the row. -/
def length (item : Item ν φ) : Nat :=
  item.dot + item.rest.length

end Item

/-- What a nonterminal can start with: an item behind its first step, and what can
follow the whole row. -/
structure Opening where
  item : Nat
  ahead : TerminalSet
  /-- Whether what follows the nonterminal can also follow the row. -/
  passes : Bool

/-- A nonterminal that a row starts with, and what can follow it there. -/
structure Lead where
  target : Nat
  ahead : TerminalSet
  /-- Whether what follows the row can also follow it. -/
  passes : Bool

/-- The items of a language with what can start and follow them. -/
structure Automaton (ν φ : Type) where
  plan : Blueprint ν φ
  items : Array (Item ν φ)
  /-- The number of the item behind the step ahead, by item. -/
  successors : Array (Option Nat)
  /-- The terminals that a nonterminal can start with. -/
  first : Array TerminalSet
  /-- What each nonterminal can start with, by the first symbol. -/
  openings : Array (Thunk (Std.HashMap Symbol (List Opening)))
  /-- The item in front of a whole text. -/
  start : Option Nat
  /-- Whether a whole text can be empty. -/
  canBeEmpty : Bool

namespace Automaton

variable {ν φ : Type}

/-- The terminals that a symbol can start with. -/
def firstOf (first : Array TerminalSet) : Symbol → TerminalSet
  | .terminal index => .single index
  | .nonterminal index => first[index]?.getD .empty

/-- The terminals that nonterminals can start with, as far as `fuel` rounds show. -/
def firstSets (leads : Array (List Symbol)) : (fuel : Nat) → Array TerminalSet → Array TerminalSet
  | 0, first => first
  | fuel + 1, first =>
    let more := leads.mapIdx fun index symbols =>
      symbols.foldl (fun set symbol => set.union (firstOf first symbol))
        (first[index]?.getD .empty)
    if more == first then first else firstSets leads fuel more

/-- The nonterminals that stand at the start of one, with what can follow them; `fuel`
bounds the steps. -/
def leading (leads : Array (List Lead)) :
    (fuel : Nat) → List Lead → Std.HashMap Nat (TerminalSet × Bool) →
      Std.HashMap Nat (TerminalSet × Bool)
  | 0, _, found => found
  | _ + 1, [], found => found
  | fuel + 1, lead :: waiting, found =>
    let known := found[lead.target]?
    let (oldAhead, oldPasses) := known.getD (.empty, false)
    let ahead := oldAhead.union lead.ahead
    let passes := oldPasses || lead.passes
    if known.isSome && ahead == oldAhead && passes == oldPasses then leading leads fuel waiting found
    else
      let further := (leads[lead.target]?.getD []).map fun inner =>
        if inner.passes then { inner with ahead := inner.ahead.union ahead, passes := passes }
        else inner
      leading leads fuel (further ++ waiting) (found.insert lead.target (ahead, passes))

/-- What a nonterminal can start with, by the first symbol; `starts` are the first symbols of the
rows of each nonterminal, with the items behind them. -/
def openingsOf (starts : Array (List (Symbol × Nat))) (leads : Array (List Lead)) (index : Nat) :
    Std.HashMap Symbol (List Opening) :=
  let found := leading leads (1000 * (leads.size + 1)) [⟨index, .empty, true⟩] {}
  let all := found.toList.flatMap fun (target, ahead, passes) =>
    (starts[target]?.getD []).map fun (symbol, item) => (symbol, (⟨item, ahead, passes⟩ : Opening))
  all.foldl (fun groups (symbol, opening) =>
    groups.insert symbol (opening :: groups.getD symbol [])) {}

/-- The nonterminals that rows start with. Of several rows that start alike, the sets
are joined. -/
def leadsOf (first : Array TerminalSet) (rows : List (Production ν φ)) : List Lead :=
  let found : Std.HashMap Nat (TerminalSet × Bool) := rows.foldl
    (fun found row =>
      match row.steps with
      | [] => found
      | head :: rest =>
        match head.symbol with
        | .terminal _ => found
        | .nonterminal target =>
          let (ahead, passes) := found.getD target (.empty, false)
          match rest with
          | [] => found.insert target (ahead, true)
          | step :: _ => found.insert target (ahead.union (firstOf first step.symbol), passes))
    {}
  found.toList.map fun (target, ahead, passes) => ⟨target, ahead, passes⟩

section Building

variable [DecidableEq ν] [Hashable ν] [DecidableEq φ] [Hashable φ]

/-- The items of rows by number: by how much was found, then by construct, weight and length. -/
def itemsOf (rows : List (List (Production ν φ))) : List (Item ν φ) :=
  let all := rows.zipIdx.flatMap fun (own, index) => own.flatMap fun row =>
    (List.range (row.steps.length + 1)).map (Item.ofRow index row)
  let before (one other : Item ν φ × Nat) : Bool :=
    let (one, first) := one
    let (other, second) := other
    if one.dot != other.dot then one.dot < other.dot
    else if one.head != other.head then one.head < other.head
    else if one.weight != other.weight then one.weight < other.weight
    else if one.length != other.length then one.length < other.length
    else first ≤ second
  ((Std.HashMap.ofList all.zipIdx.reverse).toList.mergeSort before).map Prod.fst

/-- The first symbols of rows, with the numbers of the items behind them. -/
def startsOf (numbers : Std.HashMap (Item ν φ) Nat) (index : Nat) (rows : List (Production ν φ)) :
    List (Symbol × Nat) :=
  rows.filterMap fun row => do
    let item := Item.ofRow index row 0
    return (← item.next, ← numbers[← item.behind?]?)

/-- The automaton of a blueprint. -/
def ofBlueprint (plan : Blueprint ν φ) : Automaton ν φ :=
  let rows := plan.nonterminals.toList.map (·.productions)
  let items := itemsOf rows
  let numbers := Std.HashMap.ofList items.zipIdx
  let symbols := rows.map fun own =>
    (own.filterMap fun row => row.steps.head?.map (·.symbol)).eraseDups
  let first := firstSets symbols.toArray (rows.length + 1)
    (Array.replicate rows.length .empty)
  let leads := (rows.map (leadsOf first)).toArray
  let starts := (rows.zipIdx.map fun (own, index) => startsOf numbers index own).toArray
  { plan
    items := items.toArray
    successors := (items.map fun item => item.behind?.bind (numbers[·]?)).toArray
    first
    openings := (Array.range rows.length).map fun index =>
      Thunk.mk fun _ => openingsOf starts leads index
    start := do numbers[Item.ofRow (rows.length - 1) (← (← rows.getLast?).head?) 0]?
    canBeEmpty := (rows.head?.getD []).any (·.steps.isEmpty) }

/-- The automaton of a grammar. -/
def ofGrammar (grammar : Grammar ν φ) : Automaton ν φ :=
  ofBlueprint (.ofGrammar grammar)

end Building

end Automaton

end Phrasebook.Grammar
