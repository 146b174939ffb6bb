import Phrasebook.Grammar.Item

/-!
# States and actions

A state is the set of the items that are possible at a place in a text, each with the
terminals that may follow its row. Only the items behind a step are kept; those in
front of their rows follow from them. Nothing is tabulated: what a state does with a
terminal is read off its items.

Where a terminal can both end a row and continue another one, bindings decide, then
sides. What they leave open stays open, and every reading is tried.
-/

namespace Phrasebook.Grammar

/-- The items that are possible at a place, in order, with what may follow. -/
structure State where
  kernel : List (Nat × TerminalSet)
  deriving Repr, DecidableEq, Hashable

/-- A complete row. -/
structure Reduction (ν φ : Type) where
  head : Nat
  count : Nat
  weight : Int
  labels : List (Label ν φ)
  deriving Repr, DecidableEq

/-- What can be done with a terminal. -/
inductive Action (σ ν φ : Type) where
  /-- The terminal continues rows. It `repeats` if it would only regroup a repeated
  part. -/
  | shift (target : σ) (repeats : Bool)
  /-- The terminal stands between any two others. -/
  | extra
  /-- A row ends before the terminal. -/
  | reduce (reduction : Reduction ν φ)
  /-- The text ends. -/
  | accept
  deriving Repr, DecidableEq

namespace Automaton

variable {ν φ : Type}

/-- The terminals that a symbol can start with. -/
def starts (automaton : Automaton ν φ) (symbol : Symbol) : TerminalSet :=
  firstOf automaton.first symbol

/-- The state in front of a whole text. -/
def initial (automaton : Automaton ν φ) : State :=
  ⟨automaton.start.toList.map (·, .single automaton.plan.ending)⟩

/-- Joins neighbours of one number. -/
def joinEqual : List (Nat × TerminalSet) → List (Nat × TerminalSet)
  | (one, ahead) :: (other, more) :: rest =>
    if one == other then joinEqual ((one, ahead.union more) :: rest)
    else (one, ahead) :: joinEqual ((other, more) :: rest)
  | entries => entries
  termination_by entries => entries.length

/-- The entries that one entry of a state brings behind a symbol. -/
def advance (automaton : Automaton ν φ) (symbol : Symbol) (entry : Nat × TerminalSet) :
    List (Nat × TerminalSet) :=
  let (number, ahead) := entry
  match automaton.items[number]? with
  | none => []
  | some item =>
    let own :=
      if item.next = some symbol then (automaton.successors[number]?).join.toList.map (·, ahead)
      else []
    match item.next with
    | some (.nonterminal index) =>
      let found := ((automaton.openings[index]?).bind (·.get[symbol]?)).getD []
      let following := match item.beyond with
        | some beyond => automaton.starts beyond
        | none => ahead
      own ++ found.map fun opening =>
        (opening.item, if opening.passes then opening.ahead.union following else opening.ahead)
    | _ => own

/-- The state behind a symbol. -/
def next (automaton : Automaton ν φ) (state : State) (symbol : Symbol) : State :=
  let entries := state.kernel.flatMap (automaton.advance symbol)
  ⟨joinEqual (entries.mergeSort fun one other => one.1 ≤ other.1)⟩

/-- Whether a state is in front of a whole text that can be empty. -/
def allowsEmpty (automaton : Automaton ν φ) (state : State) : Bool :=
  automaton.canBeEmpty && state.kernel.any fun (number, _) => some number == automaton.start

/-- The terminals that a state can do something with. -/
def expected (automaton : Automaton ν φ) (state : State) : TerminalSet :=
  let found := state.kernel.foldl
    (fun set (number, ahead) =>
      match (automaton.items[number]?).bind Item.next with
      | some symbol => set.union (automaton.starts symbol)
      | none => set.union ahead)
    automaton.plan.extras
  if automaton.allowsEmpty state then found.union (.single automaton.plan.ending) else found

/-! ### Bindings -/

/-- Whether a rank is that of a binding, or of one of the nonterminals that end. -/
def matchesRank [DecidableEq ν] (automaton : Automaton ν φ) (rank : Rank ν)
    (binding : Option Binding) (heads : List Nat) : Bool :=
  match rank with
  | .named name => binding == some (.named name)
  | .construct name => heads.any fun head =>
      ((automaton.plan.nonterminals[head]?).bind (·.name)) == some name

/-- The order of two bindings in a list of ranks, the tightest of which comes first:
whether either side was seen is carried along. -/
def compareIn [DecidableEq ν] (automaton : Automaton ν φ)
    (left : Option Binding) (leftHeads : List Nat)
    (right : Option Binding) (rightHeads : List Nat) :
    (sawLeft sawRight : Bool) → List (Rank ν) → Ordering
  | _, _, [] => .eq
  | sawLeft, sawRight, rank :: ranks =>
    let isLeft := automaton.matchesRank rank left leftHeads
    let isRight := automaton.matchesRank rank right rightHeads
    if isLeft && (sawRight || isRight) && !isRight then .lt
    else if isRight && (sawLeft || isLeft) && !isLeft then .gt
    else compareIn automaton left leftHeads right rightHeads (sawLeft || isLeft)
      (sawRight || isRight) ranks

/-- The order of two bindings: by level if there is one, else by the first list of
ranks that tells them apart. -/
def compareBindings [DecidableEq ν] (automaton : Automaton ν φ)
    (left : Option Binding) (leftHeads : List Nat)
    (right : Option Binding) (rightHeads : List Nat) : Ordering :=
  let ranked : Ordering :=
    ((automaton.plan.orders.map
      (automaton.compareIn left leftHeads right rightHeads false false)).find? (· != .eq)).getD .eq
  match left, right with
  | some (.level one), some (.level other) =>
    if one != 0 || other != 0 then compare one other else ranked
  | some (.level one), none => if one != 0 then compare one 0 else ranked
  | none, some (.level other) => if other != 0 then compare 0 other else ranked
  | _, _ => ranked

/-! ### Actions -/

/-- The complete rows that win against the others, and how they bind. -/
structure Ended (ν φ : Type) where
  items : List (Item ν φ) := []
  binding : Option Binding := none
  heads : List Nat := []

/-- Adds a complete row to those that win. -/
def Ended.add [DecidableEq ν] (automaton : Automaton ν φ) (ended : Ended ν φ) (item : Item ν φ) :
    Ended ν φ :=
  let heads := if ended.heads.contains item.head then ended.heads else ended.heads ++ [item.head]
  if ended.items.isEmpty then ⟨[item], item.binding, heads⟩
  else match automaton.compareBindings item.binding [item.head] ended.binding ended.heads with
    | .gt => ⟨[item], item.binding, [item.head]⟩
    | .eq => ⟨ended.items ++ [item], item.binding, heads⟩
    | .lt => ended

/-- What is done at the end of a row. -/
def endAction {σ : Type} (automaton : Automaton ν φ) (item : Item ν φ) : Action σ ν φ :=
  if item.head + 1 == automaton.plan.nonterminals.size then .accept
  else .reduce ⟨item.head, item.length, item.weight, item.labels⟩

/-- What becomes of a terminal that both ends rows and continues others. -/
inductive Verdict where
  | shift
  | reduce
  /-- The terminal would only regroup a repeated part. -/
  | regroup
  | both
  deriving Repr, DecidableEq

/-- Decides between rows that end and rows that go on. -/
def decide [DecidableEq ν] (automaton : Automaton ν φ) (ended : Ended ν φ)
    (all going : List (Item ν φ)) : Verdict :=
  let inner := all.filter fun item => item.head + 1 != automaton.plan.nonterminals.size
  let regroups := match inner with
    | [] => false
    | first :: _ =>
      ((automaton.plan.nonterminals[first.head]?).any Nonterminal.isRepeated) &&
        inner.all fun item => item.head == first.head
  let orders := going.map fun item =>
    automaton.compareBindings item.binding [item.head] ended.binding ended.heads
  let tighter := orders.contains .gt
  let looser := orders.contains .lt
  let sides := ended.items.map (·.side)
  if regroups then .regroup
  else if tighter && !looser then .shift
  else if looser && !tighter then .reduce
  else if tighter && looser then .both
  else if sides.all (· == some .left) then .reduce
  else if sides.all (· == some .right) then .shift
  else .both

/-- What a state does with a terminal, in the order in which it is tried. -/
def actions [DecidableEq ν] (automaton : Automaton ν φ) (state : State) (terminal : Nat) :
    List (Action State ν φ) :=
  let relevant := state.kernel.filterMap fun (number, ahead) =>
    (automaton.items[number]?).filter fun item =>
      match item.next with
      | some symbol => (automaton.starts symbol).has terminal
      | none => ahead.has terminal
  let going := relevant.filter (·.next.isSome)
  let ended := (relevant.filter (·.next.isNone)).foldl (Ended.add automaton) {}
  let ends : List (Action State ν φ) := ended.items.map automaton.endAction
  let target := fun (_ : Unit) => automaton.next state (.terminal terminal)
  if relevant.isEmpty then
    if terminal == automaton.plan.ending && automaton.allowsEmpty state then
      [.reduce ⟨0, 0, 0, []⟩]
    else if automaton.plan.extras.has terminal then [.extra]
    else []
  else if going.isEmpty then ends
  else if ends.isEmpty then [.shift (target ()) false]
  else
    let passed := relevant.filter fun item => item.next.isNone || 0 < item.dot
    match automaton.decide ended passed (passed.filter (·.next.isSome)) with
    | .shift => [.shift (target ()) false]
    | .reduce => ends
    | .regroup => ends ++ [.shift (target ()) true]
    | .both => ends ++ [.shift (target ()) false]

end Automaton

end Phrasebook.Grammar
