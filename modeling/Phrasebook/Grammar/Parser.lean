import Phrasebook.Grammar.Recovery

/-!
# Reading texts

All readings of a text go on side by side, token by token. After each round, those
that are worse than others are dropped, and those that agree become one. A text that
has a tree without faults has no other; what the tree of a faulty text is, the costs
decide.
-/

namespace Phrasebook.Grammar.Machine

variable {σ ν φ τ : Type} [DecidableEq σ] [BEq τ]

/-! ### One reading -/

/-- What is done with a token. -/
structure Turn (σ ν φ τ : Type) where
  parsing : Parsing σ ν φ τ
  /-- Whether the token is used. -/
  isOver : Bool := false
  /-- The first of the readings in which a row has ended. -/
  reduced : Option Branch := none

/-- Does with a token what a state does, in order. -/
def perform (machine : Machine σ ν φ τ) (source : Source) (branch : Branch) (state : σ)
    (token : Tree ν φ τ) : List (Action σ ν φ) → Turn σ ν φ τ → Turn σ ν φ τ
  | [], turn => turn
  | action :: actions, turn =>
    let used (token : Tree ν φ τ) (state : σ) (parsing : Parsing σ ν φ τ) : Turn σ ν φ τ :=
      let pushed := parsing.stack.push machine.plan branch token state
      let stack := match token.summary.memory with
        | none => pushed
        | some memory => pushed.changeHead branch.version fun head =>
          { head with memory := some memory }
      { parsing := { parsing with stack }, isOver := true }
    match action with
    | .shift target repeats => if repeats then turn else used token target turn.parsing
    | .extra => used (token.change fun summary => { summary with extra := true }) state turn.parsing
    | .accept => { parsing := machine.accept source branch token turn.parsing, isOver := true }
    | .reduce reduction =>
      let ⟨⟨stack, finished, accepted⟩, isOver, reduced⟩ := turn
      let (stack, new?) := machine.reduce source reduction branch stack
      perform machine source branch state token actions
        ⟨⟨stack, finished, accepted⟩, isOver, new?.or reduced⟩

/-- Goes on from an entry with a token until it is used; `fuel` bounds the rows that end. A keyword
that does not fit is read as a word. A token that does not fit makes the reading
wait. -/
def consume (machine : Machine σ ν φ τ) (source : Source) (version : Nat) :
    (fuel number : Nat) → Tree ν φ τ → Parsing σ ν φ τ → Parsing σ ν φ τ
  | 0, _, _, parsing => { parsing with stack := parsing.stack.halt version }
  | fuel + 1, number, token, parsing =>
    match parsing.stack.entries[number]? with
    | none => parsing
    | some entry =>
      let turn := machine.perform source ⟨version, number⟩ entry.state token
        (machine.actionsOn entry.state token) { parsing }
      if turn.isOver then turn.parsing
      else match turn.reduced with
        | some new =>
          let ⟨stack, finished, accepted⟩ := turn.parsing
          consume machine source version fuel new.entry token
            ⟨stack.replace new.version version, finished, accepted⟩
        | none =>
          let word? := machine.plan.word.filter fun word =>
            token.summary.keyword && !(machine.actions entry.state word).isEmpty
          match word?, machine.fault with
          | some word, _ =>
            let plain := token.change fun summary =>
              { summary with shape := .symbol (.terminal word), keyword := false }
            consume machine source version fuel number plain turn.parsing
          | none, some fault =>
            if entry.state = fault then machine.recover source fault version token turn.parsing
            else { turn.parsing with stack := wait entry.count turn.parsing.stack token }
          | none, none =>
            { turn.parsing with stack := wait entry.count turn.parsing.stack token }
where
  /-- Makes the reading wait at a token. -/
  wait (count : Nat) (stack : Stack σ ν φ τ) (token : Tree ν φ τ) : Stack σ ν φ τ :=
    stack.changeHead version fun head =>
      { head with status := .paused, waiting := some token, countAtFault := count }

/-- Reads a token. -/
def advance (machine : Machine σ ν φ τ) (source : Source) (version : Nat)
    (parsing : Parsing σ ν φ τ) : Parsing σ ν φ τ :=
  match parsing.stack.top? version with
  | none => parsing
  | some (head, entry) =>
    machine.consume source version (1000 + 64 * parsing.stack.entries.size) head.entry
      (machine.token ⟨source, parsing.stack, head, entry⟩) parsing

/-! ### All readings -/

/-- Lets a reading go on until it is ahead of the last place that was reached; `fuel`
bounds the tokens. -/
def catchUp (machine : Machine σ ν φ τ) (source : Source) (version : Nat) :
    (fuel : Nat) → (last : Nat) → Parsing σ ν φ τ → Parsing σ ν φ τ × Nat
  | 0, last, parsing => (parsing, last)
  | fuel + 1, last, parsing =>
    if !parsing.stack.hasStatus version .active then (parsing, last)
    else
      let parsing := machine.advance source version parsing
      let pos := parsing.stack.pos version
      if last < pos || (0 < version && pos == last) then (parsing, pos)
      else catchUp machine source version fuel last parsing

/-- Lets all readings from `version` on catch up; `fuel` bounds their number. -/
def catchUpAll (machine : Machine σ ν φ τ) (source : Source) :
    (fuel : Nat) → (version last : Nat) → Parsing σ ν φ τ → Parsing σ ν φ τ × Nat
  | 0, _, last, parsing => (parsing, last)
  | fuel + 1, version, last, parsing =>
    if parsing.stack.heads.size ≤ version then (parsing, last)
    else
      let (parsing, last) := machine.catchUp source version (64 * (source.text.size + 16)) last parsing
      catchUpAll machine source fuel (version + 1) last parsing

/-- What comes of the comparison of a reading with earlier ones: the readings, and
the number of those that are compared. -/
structure Compared (σ ν φ τ : Type) where
  stack : Stack σ ν φ τ
  next : Nat

/-- Compares the reading `version` with the earlier ones from `other` on. -/
def compareFrom (machine : Machine σ ν φ τ) (source : Source) (standing : Standing) :
    (fuel : Nat) → (other version : Nat) → Stack σ ν φ τ → Compared σ ν φ τ
  | 0, _, version, stack => ⟨stack, version + 1⟩
  | fuel + 1, other, version, stack =>
    if version ≤ other then ⟨stack, version + 1⟩
    else
      let stack := stack.settle other
      let goOn := compareFrom machine source standing fuel
      match (stack.standing machine.fault other).prefer standing with
      | .onlyFirst => ⟨stack.drop version, version⟩
      | .onlySecond => goOn other (version - 1) (stack.drop other)
      | .second =>
        match machine.merge? source stack other version with
        | some merged => ⟨merged, version⟩
        | none =>
          goOn (other + 1) version { stack with heads := stack.heads.swapIfInBounds other version }
      | _ =>
        match machine.merge? source stack other version with
        | some merged => ⟨merged, version⟩
        | none => goOn (other + 1) version stack

/-- Compares all readings from `version` on with those before them. The result has
the least cost of those that are at no fault; `fuel` bounds the readings. -/
def compareAll (machine : Machine σ ν φ τ) (source : Source) :
    (fuel : Nat) → (version : Nat) → (least : Option Nat) → Stack σ ν φ τ →
      Stack σ ν φ τ × Option Nat
  | 0, _, least, stack => (stack, least)
  | fuel + 1, version, least, stack =>
    if stack.heads.size ≤ version then (stack, least)
    else if stack.hasStatus version .halted then
      compareAll machine source fuel version least (stack.drop version)
    else
      let stack := stack.settle version
      let standing := stack.standing machine.fault version
      let least :=
        if standing.faulty then least
        else some (min (least.getD standing.cost) standing.cost)
      let compared := machine.compareFrom source standing (2 * stack.heads.size) 0 version stack
      compareAll machine source fuel compared.next least compared.stack

/-- Goes on with the readings that wait, unless an earlier one does not; `count` is
the number of readings that are left to look at. -/
def resume (machine : Machine σ ν φ τ) (source : Source) :
    (count version : Nat) → (goesOn : Bool) → (least : Option Nat) → Parsing σ ν φ τ →
      Parsing σ ν φ τ × Option Nat
  | 0, _, _, least, parsing => (parsing, least)
  | count + 1, version, goesOn, least, parsing =>
    match parsing.stack.heads[version]? with
    | none => (parsing, least)
    | some head =>
      match head.waiting, machine.fault with
      | none, _ => resume machine source count (version + 1) true least parsing
      | some token, some fault =>
        if goesOn || mostVersions ≤ parsing.accepted then
          resume machine source count version goesOn least
            { parsing with stack := parsing.stack.drop version }
        else
          let cost := parsing.stack.cost machine.fault version
          let woken := parsing.stack.changeHead version fun head =>
            { head with status := .active, waiting := none }
          resume machine source count (version + 1) true (some cost)
            (machine.handleFault source fault version token { parsing with stack := woken })
      | some _, none =>
        resume machine source count version goesOn least
          { parsing with stack := parsing.stack.drop version }

/-- Drops and joins readings after a round. The result has the least cost of those
that go on. -/
def condense (machine : Machine σ ν φ τ) (source : Source) (parsing : Parsing σ ν φ τ) :
    Parsing σ ν φ τ × Option Nat :=
  let (stack, least) :=
    machine.compareAll source (parsing.stack.heads.size + 1) 0 none parsing.stack
  let kept := stack.heads.extract 0 mostVersions
  machine.resume source kept.size 0 false least
    { parsing with stack := { stack with heads := kept } }

/-- Reads on, round by round, until no reading can become better than the finished
one; `fuel` bounds the rounds. -/
def run (machine : Machine σ ν φ τ) (source : Source) :
    (fuel : Nat) → (last : Nat) → Parsing σ ν φ τ → Option (Tree ν φ τ)
  | 0, _, parsing => parsing.finished
  | fuel + 1, last, parsing =>
    let (parsing, last) := machine.catchUpAll source 1000 0 last parsing
    let (parsing, least) := machine.condense source parsing
    let done := match parsing.finished, least with
      | some tree, some least => tree.cost < least
      | some _, none => true
      | none, _ => false
    if done || parsing.stack.heads.isEmpty then parsing.finished
    else run machine source fuel last parsing

/-- The tree of a text. A machine that does not skip anything gives none for a faulty
text. -/
def parse (machine : Machine σ ν φ τ) (source : Source) : Option (Tree ν φ τ) :=
  machine.run source (64 * (source.text.size + 16)) 0 { stack := .initial machine.initial }

end Phrasebook.Grammar.Machine
