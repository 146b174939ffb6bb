import Phrasebook.Grammar.State
import Std.Data.HashMap

/-!
# Tables

All states of a language, with numbers. States that have the same items and differ in
what may follow them become one where that changes nothing for a text without faults.
What is tried at a fault depends on which states are one, so the joining is a part of
the language: states stay apart if one of them could take a token for another one.

State zero is the one in which text is skipped, and state one is in front of a whole
text.
-/

namespace Phrasebook.Grammar

/-- What a state does. -/
structure Row (ν φ : Type) where
  /-- The items of the state. -/
  core : List Nat
  /-- What is done with each terminal. -/
  actions : Array (List (Action Nat ν φ))
  /-- The state behind each nonterminal. -/
  targets : Array (Option Nat)

/-- What the states of a language do. -/
abbrev Table (ν φ : Type) := Array (Row ν φ)

namespace Action

variable {σ ρ ν φ : Type}

/-- An action with another target. -/
def retarget (change : σ → ρ) : Action σ ν φ → Action ρ ν φ
  | .shift target repeats => .shift (change target) repeats
  | .extra => .extra
  | .reduce reduction => .reduce reduction
  | .accept => .accept

/-- The state that an action goes to. -/
def target? : Action σ ν φ → Option σ
  | .shift target _ => some target
  | _ => none

end Action

namespace Row

variable {ν φ : Type}

/-- The row of the state in which text is skipped. -/
def fault (plan : Blueprint ν φ) : Row ν φ where
  core := []
  actions := Array.replicate plan.terminals []
  targets := Array.replicate plan.nonterminals.size none

/-- What is done with a terminal. -/
def on (row : Row ν φ) (terminal : Nat) : List (Action Nat ν φ) :=
  row.actions[terminal]?.getD []

/-- The state behind a nonterminal. -/
def behind? (row : Row ν φ) (nonterminal : Nat) : Option Nat :=
  (row.targets[nonterminal]?).join

/-- The terminals that something is done with. -/
def terminals (row : Row ν φ) : List Nat :=
  (List.range row.actions.size).filter fun terminal => !(row.on terminal).isEmpty

/-- A row with other targets. -/
def retarget (change : Nat → Nat) (row : Row ν φ) : Row ν φ :=
  { row with
    actions := row.actions.map fun actions => actions.map (Action.retarget change)
    targets := row.targets.map fun target => target.map change }

/-- What either of two rows does; where both do something, the second one counts. -/
def overlay (row other : Row ν φ) : Row ν φ :=
  { row with
    actions := row.actions.mapIdx fun terminal actions =>
      let more := other.on terminal
      if more.isEmpty then actions else more
    targets := row.targets.mapIdx fun nonterminal target => (other.behind? nonterminal).or target }

end Row

/-! ### All states -/

/-- The states that are known, and the rows of those that were looked at. -/
structure Survey (ν φ : Type) where
  states : Array State
  numbers : Std.HashMap State Nat
  rows : Table ν φ

namespace Survey

variable {ν φ : Type}

/-- The number of a state, which is added if it is new. -/
def number (state : State) (survey : Survey ν φ) : Nat × Survey ν φ :=
  match survey.numbers[state]? with
  | some number => (number, survey)
  | none =>
    (survey.states.size,
      { survey with
        states := survey.states.push state
        numbers := survey.numbers.insert state survey.states.size })

/-- Actions with numbers for their states. -/
def numberAll (actions : List (Action State ν φ)) (survey : Survey ν φ) :
    List (Action Nat ν φ) × Survey ν φ :=
  actions.foldl
    (fun (numbered, survey) action =>
      match action.target? with
      | none => (numbered ++ [action.retarget fun _ => 0], survey)
      | some target =>
        let (number, survey) := survey.number target
        (numbered ++ [action.retarget fun _ => number], survey))
    ([], survey)

/-- Adds the row of a state. -/
def addRow [DecidableEq ν] (automaton : Automaton ν φ) (state : State) (survey : Survey ν φ) :
    Survey ν φ :=
  let expected := automaton.expected state
  let (actions, survey) := (List.range automaton.plan.terminals).foldl
    (fun (found, survey) terminal =>
      let actions := if expected.has terminal then automaton.actions state terminal else []
      let (numbered, survey) := survey.numberAll actions
      (found.push numbered, survey))
    (#[], survey)
  let (targets, survey) := (List.range automaton.plan.nonterminals.size).foldl
    (fun (found, survey) nonterminal =>
      let target := automaton.next state (.nonterminal nonterminal)
      if target.kernel.isEmpty then (found.push none, survey)
      else
        let (number, survey) := survey.number target
        (found.push (some number), survey))
    (#[], survey)
  { survey with rows := survey.rows.push ⟨state.kernel.map Prod.fst, actions, targets⟩ }

/-- Looks at all states that are known and not looked at; `fuel` bounds their
number. -/
def complete [DecidableEq ν] (automaton : Automaton ν φ) :
    (fuel : Nat) → Survey ν φ → Survey ν φ
  | 0, survey => survey
  | fuel + 1, survey =>
    match survey.states[survey.rows.size]? with
    | none => survey
    | some state => complete automaton fuel (survey.addRow automaton state)

end Survey

namespace Table

variable {ν φ : Type}

/-- All states of an automaton of at most `most` states. -/
def complete [DecidableEq ν] (automaton : Automaton ν φ) (most : Nat) : Table ν φ :=
  let fault : State := ⟨[]⟩
  let start := automaton.initial
  (Survey.complete automaton most
    { states := #[fault, start]
      numbers := Std.HashMap.ofList [(fault, 0), (start, 1)]
      rows := #[Row.fault automaton.plan] }).rows

/-! ### Joining states -/

/-- The states in groups. -/
structure Groups where
  members : Array (List Nat)
  /-- The group of each state. -/
  groupOf : Array Nat

namespace Groups

/-- The group of a state. -/
def of (groups : Groups) (state : Nat) : Nat :=
  groups.groupOf[state]?.getD 0

/-- The states with the same items, in the order of the first ones. -/
def byCore (table : Table ν φ) : Groups :=
  let (members, groupOf, _) := table.toList.zipIdx.foldl
    (fun ((members : Array (List Nat)), (groupOf : Array Nat),
        (numbers : Std.HashMap (List Nat) Nat)) (row, state) =>
      match numbers[row.core]? with
      | some group => (members.modify group (· ++ [state]), groupOf.push group, numbers)
      | none =>
        (members.push [state], groupOf.push members.size, numbers.insert row.core members.size))
    (#[], #[], {})
  ⟨members, groupOf⟩

/-- The states of a group that differ from an earlier one that stays. -/
def leaving (differ : Nat → Nat → Bool) : List Nat → List Nat → List Nat
  | [], gone => gone
  | state :: states, gone =>
    if gone.contains state then leaving differ states gone
    else
      let more := states.filter fun other => !gone.contains other && differ state other
      leaving differ states (gone ++ more)

/-- Splits a group. -/
def splitAt (differ : Groups → Nat → Nat → Bool) (groups : Groups) (group : Nat) : Groups :=
  let members := groups.members[group]?.getD []
  let gone := leaving (differ groups) members []
  if gone.isEmpty then groups
  else
    { members :=
        (groups.members.set! group (members.filter fun state => !gone.contains state)).push
          (members.filter gone.contains)
      groupOf := gone.foldl (fun groupOf state => groupOf.set! state groups.members.size)
        groups.groupOf }

/-- Splits all groups from one on; `fuel` bounds their number. -/
def splitFrom (differ : Groups → Nat → Nat → Bool) :
    (fuel group : Nat) → Groups → Groups
  | 0, _, groups => groups
  | fuel + 1, group, groups =>
    if groups.members.size ≤ group then groups
    else splitFrom differ fuel (group + 1) (splitAt differ groups group)

/-- Splits all groups once. -/
def split (differ : Groups → Nat → Nat → Bool) (groups : Groups) : Groups :=
  splitFrom differ (groups.groupOf.size + 1) 0 groups

/-- Splits groups until nothing changes; `fuel` bounds the rounds. -/
def refine (differ : Groups → Nat → Nat → Bool) : (fuel : Nat) → Groups → Groups
  | 0, groups => groups
  | fuel + 1, groups =>
    let next := groups.split differ
    if next.members.size == groups.members.size then groups else refine differ fuel next

end Groups

/-- Whether a terminal could be taken for one of some others. What the scanner finds
depends on all that is possible. -/
def clashes (plan : Blueprint ν φ) (scanned : List Nat) (others : List Nat) (terminal : Nat) :
    Bool :=
  if terminal == plan.ending then false
  else if scanned.contains terminal then true
  else match plan.tokens[terminal]? with
    | none => true
    | some token =>
      others.any fun other =>
        match plan.tokens[other]? with
        | none => false
        | some known => token.pattern.meets known.pattern

/-- Whether two states differ in what they do with a terminal, or one of them could
take a terminal for another one. -/
def conflict [DecidableEq ν] [DecidableEq φ] (plan : Blueprint ν φ) (scanned : List Nat)
    (groups : Groups) (one other : Row ν φ) : Bool :=
  let grouped (actions : List (Action Nat ν φ)) := actions.map (Action.retarget groups.of)
  let left := one.terminals
  let right := other.terminals
  left.any (fun terminal =>
      if right.contains terminal then grouped (one.on terminal) != grouped (other.on terminal)
      else clashes plan scanned right terminal) ||
    right.any fun terminal =>
      !left.contains terminal && clashes plan scanned left terminal

/-- Whether two states go on to states of different groups. -/
def diverge (groups : Groups) (one other : Row ν φ) : Bool :=
  let apart (left right : Option Nat) : Bool :=
    match left, right with
    | some left, some right => groups.of left != groups.of right
    | _, _ => false
  let last (row : Row ν φ) (terminal : Nat) := ((row.on terminal).getLast?).bind Action.target?
  (List.range one.actions.size).any (fun terminal =>
      apart (last one terminal) (last other terminal)) ||
    (List.range one.targets.size).any fun nonterminal =>
      apart (one.behind? nonterminal) (other.behind? nonterminal)

/-- A relation of rows as one of states. -/
def onRows (table : Table ν φ) (differ : Row ν φ → Row ν φ → Bool) (one other : Nat) : Bool :=
  match table[one]?, table[other]? with
  | some one, some other => differ one other
  | _, _ => false

/-- Joins states. `scanned` are the tokens that the scanner can also find. -/
def join [DecidableEq ν] [DecidableEq φ] (plan : Blueprint ν φ) (scanned : List Nat)
    (table : Table ν φ) : Table ν φ :=
  let apart := (Groups.byCore table).split fun groups =>
    onRows table (conflict plan scanned groups)
  let groups := apart.refine (fun groups => onRows table (diverge groups)) (table.size + 1)
  groups.members.filterMap fun states =>
    match states.filterMap (table[·]?) with
    | [] => none
    | first :: rest => some ((rest.foldl Row.overlay first).retarget groups.of)

/-! ### Rows of one part -/

/-- Whether a nonterminal is shown as another one anywhere. -/
def isRenamed (plan : Blueprint ν φ) (nonterminal : Nat) : Bool :=
  plan.nonterminals.any fun part =>
    part.productions.any fun row =>
      row.steps.any fun step =>
        step.symbol == .nonterminal nonterminal && step.label.shown.isSome

/-- The nonterminal that a state only ends a row of one part of, if the tree shows
nothing of that. -/
def unit? [DecidableEq ν] [DecidableEq φ] (plan : Blueprint ν φ) (row : Row ν φ) :
    Option Nat :=
  let actions := row.actions.toList.flatten.filter (· != .extra)
  let heads := actions.map fun
    | .reduce reduction =>
      let plain := reduction.count == 1 && reduction.weight == 0 &&
        reduction.labels.all (· == {}) && !plan.shows (.nonterminal reduction.head) &&
        !isRenamed plan reduction.head
      if plain then some reduction.head else none
    | _ => none
  match heads with
  | some head :: rest => if rest.all (· == some head) then some head else none
  | _ => none

/-- A row in which states that only end a row of one part are passed over; `fuel` bounds
how many there are one after the other. -/
def passUnits (units : Array (Option Nat)) : (fuel : Nat) → Row ν φ → Row ν φ
  | 0, row => row
  | fuel + 1, row =>
    let beyond (state : Nat) : Nat :=
      match (units[state]?).join with
      | none => state
      | some head => (row.behind? head).getD state
    passUnits units fuel (row.retarget beyond)

/-- The table of an automaton of at most `most` states. `scanned` are the tokens that
the scanner can also find. -/
def ofAutomaton [DecidableEq ν] [DecidableEq φ] (automaton : Automaton ν φ)
    (scanned : List Nat) (most : Nat) : Table ν φ :=
  let joined := (complete automaton most).join automaton.plan scanned
  let units := joined.map (unit? automaton.plan)
  joined.map (passUnits units 16)

end Table

end Phrasebook.Grammar
