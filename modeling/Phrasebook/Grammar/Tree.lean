import Phrasebook.Grammar.State
import Phrasebook.Text.Utf8

/-!
# Trees

What was found in a text. A tree knows what its faults cost: the cheapest reading of
a faulty text is the one that counts. Skipped text costs by bytes and by lines.
-/

namespace Phrasebook.Grammar

/-- A text with the sizes of its parts. -/
structure Source where
  text : Array Char
  /-- How many bytes stand before each character and before the end. -/
  bytes : Array Nat
  /-- How many lines end before each character and before the end. -/
  lines : Array Nat

namespace Source

/-- Sums of a measure over the characters before each place. -/
def sums (measure : Char → Nat) (text : Text) : Array Nat :=
  (text.foldl (fun (sums, total) char =>
    let more := total + measure char
    (sums.push more, more)) (#[0], 0)).1

/-- The source of a text. -/
def ofText (text : Text) : Source where
  text := text.toArray
  bytes := sums (fun char => Utf8.width char) text
  lines := sums (fun char => if char == '\n' then 1 else 0) text

/-- The number of bytes between two places. -/
def bytesIn (source : Source) (start stop : Nat) : Nat :=
  source.bytes[stop]?.getD 0 - source.bytes[start]?.getD 0

/-- The number of line ends between two places. -/
def linesIn (source : Source) (start stop : Nat) : Nat :=
  source.lines[stop]?.getD 0 - source.lines[start]?.getD 0

end Source

/-! ### Costs -/

/-- The cost of every recovery from a fault. -/
def recoveryCost : Nat := 500

/-- The cost of a token that had to be added. -/
def missingCost : Nat := 110

/-- The cost of a skipped tree. -/
def treeCost : Nat := 100

/-- The cost of a skipped byte. -/
def byteCost : Nat := 1

/-- The cost of a skipped line. -/
def lineCost : Nat := 30

/-! ### Trees -/

/-- What a tree is. -/
inductive Shape where
  | symbol (symbol : Symbol)
  /-- Text that fits nowhere. -/
  | fault
  /-- A part of a fault. -/
  | faultPart
  deriving Repr, DecidableEq

/-- What is known about a tree apart from its parts. The scanner of the language
remembers something of a type `τ`. -/
structure Summary (ν φ τ : Type) where
  shape : Shape
  /-- Where the blanks before the tree start. -/
  before : Nat
  start : Nat
  stop : Nat
  labels : List (Label ν φ) := []
  /-- Whether it stands between any two tokens. -/
  extra : Bool := false
  /-- Whether it is not in the text. -/
  missing : Bool := false
  /-- Whether it is a keyword. -/
  keyword : Bool := false
  cost : Nat := 0
  weight : Int := 0
  /-- The number of visible trees below it. -/
  below : Nat := 0
  /-- The number of visible trees right below it, or below its hidden parts. -/
  children : Nat := 0
  /-- What the scanner remembers behind it. -/
  memory : Option τ := none
  /-- Whether the scanner remembered something else before it. -/
  changed : Bool := false
  deriving Repr

/-- A tree with its parts. -/
inductive Tree (ν φ τ : Type) where
  | node (summary : Summary ν φ τ) (parts : List (Tree ν φ τ))

namespace Tree

variable {ν φ τ : Type}

/-- What is known about a tree apart from its parts. -/
def summary : Tree ν φ τ → Summary ν φ τ
  | node summary _ => summary

/-- The parts of a tree. -/
def parts : Tree ν φ τ → List (Tree ν φ τ)
  | node _ parts => parts

/-- A tree with another summary. -/
def change (change : Summary ν φ τ → Summary ν φ τ) : Tree ν φ τ → Tree ν φ τ
  | node summary parts => .node (change summary) parts

/-- What a tree is. -/
def shape (tree : Tree ν φ τ) : Shape :=
  tree.summary.shape

/-- Whether a tree is a fault. -/
def isFault (tree : Tree ν φ τ) : Bool :=
  tree.shape == .fault

/-- Whether a tree is an extra. -/
def isExtra (tree : Tree ν φ τ) : Bool :=
  tree.summary.extra

mutual

/-- The number of characters of a tree with the blanks before it. -/
def size : Tree ν φ τ → Nat
  | node summary [] => (summary.start - summary.before) + (summary.stop - summary.start)
  | node _ (part :: parts) => sizeOfAll (part :: parts)

/-- The number of characters of trees in a row. -/
def sizeOfAll : List (Tree ν φ τ) → Nat
  | [] => 0
  | part :: parts => size part + sizeOfAll parts

end

/-- The cost of the faults of a tree. -/
def cost (tree : Tree ν φ τ) : Nat :=
  if tree.summary.missing then missingCost + recoveryCost else tree.summary.cost

/-- Whether a tree is shown. -/
def isShown (plan : Blueprint ν φ) (tree : Tree ν φ τ) : Bool :=
  match tree.shape with
  | .symbol symbol => plan.shows symbol
  | .fault => true
  | .faultPart => false

/-- How many trees of a tree are shown; a part of a fault counts as one. -/
def count (plan : Blueprint ν φ) (tree : Tree ν φ τ) : Nat :=
  tree.summary.below + (if tree.isShown plan then 1 else 0) +
    if tree.shape == .faultPart then 1 else 0

/-- A token. -/
def leaf (shape : Shape) (before start stop : Nat) : Tree ν φ τ :=
  .node { shape, before, start, stop } []

/-- Parts with the labels that they have; extras have none. -/
def labelled (labels : List (Label ν φ)) : List (Tree ν φ τ) → List (Tree ν φ τ × Label ν φ)
  | [] => []
  | part :: parts =>
    if part.isExtra then (part, {}) :: labelled labels parts
    else (part, labels.headD {}) :: labelled labels.tail parts

/-- What skipping a part of a fault costs beyond its bytes. -/
def skippedCost (plan : Blueprint ν φ) (part : Tree ν φ τ) : Nat :=
  if part.isExtra || (part.isFault && part.parts.isEmpty) then 0
  else if part.isShown plan then treeCost
  else if part.parts.isEmpty then 0
  else treeCost * part.summary.children

/-- Adds what a part says about the whole. -/
def absorb (plan : Blueprint ν φ) (faulty : Bool) (whole : Summary ν φ τ)
    (entry : Tree ν φ τ × Label ν φ) : Summary ν φ τ :=
  let (part, label) := entry
  let shown := label.shown.isSome || part.isShown plan
  { whole with
    stop := part.summary.stop
    cost := whole.cost + (if part.shape == .faultPart then 0 else part.cost) +
      if faulty then part.skippedCost plan else 0
    weight := whole.weight + part.summary.weight
    below := whole.below + part.summary.below + if shown then 1 else 0
    children := whole.children +
      if shown then 1 else if part.parts.isEmpty then 0 else part.summary.children
    memory := part.summary.memory.or whole.memory }

/-- The tree of some parts. -/
def ofParts (plan : Blueprint ν φ) (source : Source) (shape : Shape)
    (labels : List (Label ν φ)) (parts : List (Tree ν φ τ)) : Tree ν φ τ :=
  let faulty := match shape with
    | .symbol _ => false
    | _ => true
  let empty : Summary ν φ τ :=
    { shape, labels
      before := (parts.head?.map fun part => part.summary.before).getD 0
      start := (parts.head?.map fun part => part.summary.start).getD 0
      stop := 0 }
  let whole := (labelled labels parts).foldl (absorb plan faulty) empty
  let skipped :=
    if faulty then
      recoveryCost + byteCost * source.bytesIn whole.start whole.stop +
        lineCost * source.linesIn whole.start whole.stop
    else 0
  .node
    { empty with
      stop := whole.stop
      cost := whole.cost + skipped
      weight := whole.weight
      below := whole.below
      children := whole.children
      memory := whole.memory }
    parts

/-- Parts without the extras at their end, and these. -/
def cutExtras (parts : List (Tree ν φ τ)) : List (Tree ν φ τ) × List (Tree ν φ τ) :=
  ((parts.reverse.dropWhile (·.isExtra)).reverse, (parts.reverse.takeWhile (·.isExtra)).reverse)

/-! ### Comparing trees -/

/-- The place of a symbol in the order that decides between trees. -/
def rank (plan : Blueprint ν φ) : Shape → Nat
  | .symbol (.terminal index) =>
    if index == plan.ending then 0
    else if plan.word == some index then 1
    else index + 2
  | .symbol (.nonterminal index) => plan.terminals + 2 + index
  | .faultPart => plan.terminals + plan.nonterminals.size + 3
  | .fault => plan.terminals + plan.nonterminals.size + 4

mutual

/-- The order of two trees: by what they are, then by the number of their parts,
then by their parts. -/
def compare (plan : Blueprint ν φ) : Tree ν φ τ → Tree ν φ τ → Ordering
  | node one ones, node other others =>
    (Ord.compare (rank plan one.shape) (rank plan other.shape)).then
      ((Ord.compare ones.length others.length).then (compareAll plan ones others))

/-- The order of the first pair of trees that differ. -/
def compareAll (plan : Blueprint ν φ) :
    List (Tree ν φ τ) → List (Tree ν φ τ) → Ordering
  | one :: ones, other :: others =>
    (compare plan one other).then (compareAll plan ones others)
  | _, _ => .eq

end

/-- Whether a tree yields to another one of the same text: to a cheaper one, then to a
heavier one. Of two faulty trees that are alike, the later one counts; else the
smaller one does. -/
def yields (plan : Blueprint ν φ) (tree other : Tree ν φ τ) : Bool :=
  if tree.cost != other.cost then other.cost < tree.cost
  else if tree.summary.weight != other.summary.weight then
    tree.summary.weight < other.summary.weight
  else if 0 < tree.cost then true
  else tree.compare plan other == .gt

/-- Whether two trees can stand for each other: they are alike outside, or both are
faulty. -/
def isLike [BEq τ] (source : Source) (one other : Tree ν φ τ) : Bool :=
  let (left, right) := (one.summary, other.summary)
  left.shape == right.shape &&
    ((0 < one.cost && 0 < other.cost) ||
      (source.bytesIn left.before left.start == source.bytesIn right.before right.start &&
        source.bytesIn left.start left.stop == source.bytesIn right.start right.stop &&
        one.parts.length == other.parts.length && left.extra == right.extra &&
        left.memory == right.memory))

end Tree

end Phrasebook.Grammar
