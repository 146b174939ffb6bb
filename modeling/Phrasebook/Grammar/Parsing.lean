import Phrasebook.Grammar.Machine
import Phrasebook.Grammar.Standing

/-!
# Parsing

The readings of a text on their way, and what can be done with one of them: a row
that ends becomes a tree, and a text that ends becomes the result.
-/

namespace Phrasebook.Grammar

/-- A text that is being read. -/
structure Parsing (σ ν φ τ : Type) where
  stack : Stack σ ν φ τ
  /-- The best tree of the whole text so far. -/
  finished : Option (Tree ν φ τ) := none
  /-- How often the text was read to its end. -/
  accepted : Nat := 0

namespace Machine

variable {σ ν φ τ : Type} [DecidableEq σ] [BEq τ]

/-- The most readings between two tokens. -/
def mostVersions : Nat := 6

/-- How many readings there may be beyond that for a while. -/
def spareVersions : Nat := 4

/-- Goes on behind a tree. -/
def push (machine : Machine σ ν φ τ) (version : Nat) (tree : Tree ν φ τ) (state : σ)
    (stack : Stack σ ν φ τ) : Stack σ ν φ τ :=
  stack.push machine.plan ⟨version, stack.number version⟩ tree state

/-- Lets two readings go on as one, if they can. -/
def merge? (machine : Machine σ ν φ τ) (source : Source) (stack : Stack σ ν φ τ)
    (one other : Nat) : Option (Stack σ ν φ τ) :=
  stack.merge? machine.plan source machine.fault one other

/-- The tree of a row that ends, with the extras behind it. -/
def treeOf (machine : Machine σ ν φ τ) (source : Source) (reduction : Reduction ν φ)
    (row : List (Tree ν φ τ)) : Tree ν φ τ × List (Tree ν φ τ) :=
  let (parts, extras) := Tree.cutExtras row
  let tree := Tree.ofParts machine.plan source (.symbol (.nonterminal reduction.head))
    reduction.labels parts
  (tree.change fun summary => { summary with weight := summary.weight + reduction.weight }, extras)

/-- The tree that counts of some rows, with the extras behind it. -/
def best (machine : Machine σ ν φ τ) (source : Source) (reduction : Reduction ν φ)
    (rows : List (List (Tree ν φ τ))) : Option (Tree ν φ τ × List (Tree ν φ τ)) :=
  rows.foldl
    (fun best row =>
      let found := machine.treeOf source reduction row
      match best with
      | none => some found
      | some known => if known.1.yields machine.plan found.1 then some found else best)
    none

/-- Adds the entries behind some trees, one after the other, and gives the number of the last. -/
def growAll (machine : Machine σ ν φ τ) (state : σ) :
    (number : Nat) → List (Tree ν φ τ) → Stack σ ν φ τ → Stack σ ν φ τ × Nat
  | number, [], stack => (stack, number)
  | number, tree :: trees, stack =>
    growAll machine state stack.entries.size trees
      (stack.grow machine.plan number (some tree) state)

/-- Ends a row on the ways back to one entry, for a reading with the given head; `self` is the
reading that goes back. The result also has the reading that is new, if there is one. -/
def reduceWay (machine : Machine σ ν φ τ) (source : Source) (reduction : Reduction ν φ)
    (self : Nat) (head : Head σ ν φ τ) (way : Popped ν φ τ) (stack : Stack σ ν φ τ) :
    Stack σ ν φ τ × Option Branch :=
  match machine.best source reduction way.rows, stack.entries[way.entry]? with
  | some (tree, extras), some entry =>
    let state := machine.next entry.state reduction.head
    let (grown, number) := machine.growAll state way.entry (tree :: extras) stack
    let version := stack.heads.size
    let added := grown.add { head with entry := number }
    let others := (List.range version).filter (· != self)
    match added.mergeFirst? machine.plan source machine.fault others version with
    | some merged => (merged, none)
    | none => (added, some ⟨version, number⟩)
  | _, _ => (stack, none)

/-- Ends a row on all ways back, one after the other, as long as there are at most `most`
readings. The result has the first reading that is new. -/
def reduceWays (machine : Machine σ ν φ τ) (source : Source) (reduction : Reduction ν φ)
    (self most : Nat) (head : Head σ ν φ τ) :
    List (Popped ν φ τ) → Stack σ ν φ τ → Stack σ ν φ τ × Option Branch
  | [], stack => (stack, none)
  | way :: ways, stack =>
    if most < stack.heads.size then (stack, none)
    else
      let (reduced, first?) := machine.reduceWay source reduction self head way stack
      let (reduced, later?) := reduceWays machine source reduction self most head ways reduced
      (reduced, first?.or later?)

/-- Ends a row. The result has the first of the new readings, if there are any; the
reading that goes back stays as it is. -/
def reduce (machine : Machine σ ν φ τ) (source : Source) (reduction : Reduction ν φ)
    (branch : Branch) (stack : Stack σ ν φ τ) : Stack σ ν φ τ × Option Branch :=
  match stack.heads[branch.version]? with
  | none => (stack, none)
  | some last =>
    let ways := stack.pop branch.entry reduction.count
    let halted := (stack.heads.filter fun head => head.status == .halted).size
    machine.reduceWays source reduction branch.version (mostVersions + spareVersions + halted)
      { entry := 0, countAtFault := last.countAtFault, memory := last.memory } ways stack

/-- The tree of a whole text: extras at its ends belong to it, and so does the end of the text. -/
def wholeOf (machine : Machine σ ν φ τ) (source : Source) (ending : Tree ν φ τ)
    (trees : List (Tree ν φ τ)) : Option (Tree ν φ τ) :=
  let (front, behind) := Tree.cutExtras trees
  front.getLast?.map fun root =>
    .ofParts machine.plan source root.shape root.summary.labels
      (front.dropLast ++ root.parts ++ behind ++ [ending])

/-- Takes a tree of the whole text as the result if it counts. -/
def finish (machine : Machine σ ν φ τ) (parsing : Parsing σ ν φ τ) (tree : Tree ν φ τ) :
    Parsing σ ν φ τ :=
  let yields := match parsing.finished with
    | none => true
    | some known => known.yields machine.plan tree
  { parsing with
    finished := if yields then some tree else parsing.finished
    accepted := parsing.accepted + 1 }

/-- Ends a reading with the end of the text. -/
def accept (machine : Machine σ ν φ τ) (source : Source) (branch : Branch) (ending : Tree ν φ τ)
    (parsing : Parsing σ ν φ τ) : Parsing σ ν φ τ :=
  let rows := (parsing.stack.popAll branch.entry).flatMap (·.rows)
  let stack := parsing.stack.push machine.plan branch ending machine.initial
  (rows.filterMap (machine.wholeOf source ending)).foldl machine.finish
    { parsing with stack := stack.halt branch.version }

end Machine

end Phrasebook.Grammar
