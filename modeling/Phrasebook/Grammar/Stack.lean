import Phrasebook.Grammar.Tree

/-!
# Stacks with several tops

All readings of a text that are still possible, with shared parts. An entry is a
state with the trees that lead to it from earlier entries; a head is the top of one
reading. Entries live in one array and refer to each other by number, so that what
one reading learns about a shared entry holds for all of them.
-/

namespace Phrasebook.Grammar

/-- A way from an entry back to an earlier one. Without a tree, it leads over the
beginning of a fault. -/
structure Link (ν φ τ : Type) where
  entry : Nat
  tree : Option (Tree ν φ τ)

/-- A state with what led to it. -/
structure Entry (σ ν φ τ : Type) where
  state : σ
  pos : Nat
  /-- The cost of all faults so far. -/
  cost : Nat
  weight : Int
  /-- The number of trees so far. -/
  count : Nat
  links : List (Link ν φ τ)

/-- Whether a reading goes on. -/
inductive Status where
  | active
  /-- It waits at a token that does not fit. -/
  | paused
  | halted
  deriving Repr, DecidableEq

/-- An earlier state that a reading can go back to. -/
structure Retreat (σ : Type) where
  pos : Nat
  depth : Nat
  state : σ

/-- The top of a reading. -/
structure Head (σ ν φ τ : Type) where
  entry : Nat
  status : Status := .active
  /-- The number of trees at the last fault. -/
  countAtFault : Nat := 0
  /-- What the scanner remembers. -/
  memory : Option τ := none
  /-- The token that a paused reading waits at. -/
  waiting : Option (Tree ν φ τ) := none
  retreats : List (Retreat σ) := []

/-- All readings that are still possible. Earlier heads come first where nothing
else decides. -/
structure Stack (σ ν φ τ : Type) where
  entries : Array (Entry σ ν φ τ)
  heads : Array (Head σ ν φ τ)

/-- A reading with the entry that it is at. -/
structure Branch where
  version : Nat
  entry : Nat

/-- The ways back to one entry: the rows of trees above it. -/
structure Popped (ν φ τ : Type) where
  entry : Nat
  rows : List (List (Tree ν φ τ))

/-- A walk from a head towards the start. -/
structure Walker (ν φ τ : Type) where
  entry : Nat
  /-- The trees on the way, in the order of the text. -/
  trees : List (Tree ν φ τ) := []
  /-- The number of steps; trees between any two tokens do not count. -/
  depth : Nat := 0

/-- What becomes of a walker at an entry. -/
structure Visit where
  /-- Whether its way is wanted. -/
  wanted : Bool
  /-- Whether it ends here. -/
  ends : Bool

namespace Walker

variable {ν φ τ : Type}

/-- A walker one step further. -/
def follow (walker : Walker ν φ τ) (link : Link ν φ τ) : Walker ν φ τ :=
  match link.tree with
  | none => { walker with entry := link.entry, depth := walker.depth + 1 }
  | some tree =>
    { entry := link.entry
      trees := tree :: walker.trees
      depth := if tree.isExtra then walker.depth else walker.depth + 1 }

end Walker

namespace Entry

variable {σ ν φ τ : Type}

/-- The entry behind a tree, or behind the beginning of a fault. -/
def behind (plan : Blueprint ν φ) (last : Entry σ ν φ τ) (number : Nat)
    (tree : Option (Tree ν φ τ)) (state : σ) : Entry σ ν φ τ :=
  let entry := { last with state, links := [⟨number, tree⟩] }
  match tree with
  | none => entry
  | some tree =>
    { entry with
      pos := last.pos + tree.size
      cost := last.cost + tree.cost
      weight := last.weight + tree.summary.weight
      count := last.count + tree.count plan }

end Entry

namespace Stack

variable {σ ν φ τ : Type}

/-- The most links that an entry has. -/
def mostLinks : Nat := 8

/-- The most walkers at a time. -/
def mostWalkers : Nat := 64

/-- The stack in front of a text. -/
def initial (state : σ) : Stack σ ν φ τ where
  entries := #[⟨state, 0, 0, 0, 0, []⟩]
  heads := #[{ entry := 0 }]

/-- A head with its entry. -/
def top? (stack : Stack σ ν φ τ) (version : Nat) : Option (Head σ ν φ τ × Entry σ ν φ τ) := do
  let head ← stack.heads[version]?
  let entry ← stack.entries[head.entry]?
  return (head, entry)

/-- The entry of a head. -/
def entry? (stack : Stack σ ν φ τ) (version : Nat) : Option (Entry σ ν φ τ) :=
  (stack.top? version).map Prod.snd

/-- The number of the entry of a head, if there is such a head. -/
def number (stack : Stack σ ν φ τ) (version : Nat) : Nat :=
  ((stack.heads[version]?).map (·.entry)).getD stack.entries.size

/-- Where a reading is. -/
def pos (stack : Stack σ ν φ τ) (version : Nat) : Nat :=
  ((stack.entry? version).map (·.pos)).getD 0

/-- Whether a reading has a status. -/
def hasStatus (stack : Stack σ ν φ τ) (version : Nat) (status : Status) : Bool :=
  (stack.heads[version]?).any (·.status == status)

/-- Changes a head. -/
def changeHead (stack : Stack σ ν φ τ) (version : Nat)
    (change : Head σ ν φ τ → Head σ ν φ τ) : Stack σ ν φ τ :=
  { stack with heads := stack.heads.modify version change }

/-- Ends a reading. -/
def halt (stack : Stack σ ν φ τ) (version : Nat) : Stack σ ν φ τ :=
  stack.changeHead version fun head => { head with status := .halted }

/-- Drops a reading. -/
def drop (stack : Stack σ ν φ τ) (version : Nat) : Stack σ ν φ τ :=
  { stack with heads := stack.heads.eraseIdxIfInBounds version }

/-- Adds a reading. -/
def add (stack : Stack σ ν φ τ) (head : Head σ ν φ τ) : Stack σ ν φ τ :=
  { stack with heads := stack.heads.push head }

/-- Adds the readings that some ways back lead to. -/
def addPopped (stack : Stack σ ν φ τ) (version : Nat) (popped : List (Popped ν φ τ)) :
    Stack σ ν φ τ :=
  match stack.heads[version]? with
  | none => stack
  | some head =>
    popped.foldl
      (fun stack way =>
        stack.add
          { entry := way.entry, countAtFault := head.countAtFault, memory := head.memory })
      stack

/-- Puts a reading in the place of an earlier one. -/
def replace (stack : Stack σ ν φ τ) (version target : Nat) : Stack σ ν φ τ :=
  match stack.heads[version]? with
  | none => stack
  | some head =>
    let placed := stack.changeHead target fun last =>
      { head with retreats := if head.retreats.isEmpty then last.retreats else head.retreats }
    placed.drop version

/-- Adds the entry behind a tree, or behind the beginning of a fault. -/
def grow (plan : Blueprint ν φ) (stack : Stack σ ν φ τ) (number : Nat)
    (tree : Option (Tree ν φ τ)) (state : σ) : Stack σ ν φ τ :=
  match stack.entries[number]? with
  | none => stack
  | some entry =>
    { stack with entries := stack.entries.push (.behind plan entry number tree state) }

/-- Goes on behind a tree. -/
def push (plan : Blueprint ν φ) (stack : Stack σ ν φ τ) (branch : Branch)
    (tree : Tree ν φ τ) (state : σ) : Stack σ ν φ τ :=
  (stack.grow plan branch.entry (some tree) state).changeHead branch.version fun head =>
    { head with entry := stack.entries.size }

/-- Goes on behind the beginning of a fault. -/
def pushFault (plan : Blueprint ν φ) (stack : Stack σ ν φ τ) (version : Nat) (state : σ) :
    Stack σ ν φ τ :=
  match stack.top? version with
  | none => stack
  | some (head, entry) =>
    (stack.grow plan head.entry none state).changeHead version fun head =>
      { head with entry := stack.entries.size, countAtFault := entry.count }

/-! ### Joining readings -/

section Joining

variable [DecidableEq σ] [BEq τ]

/-- Whether two ways go over trees that can stand for each other. -/
def alike (source : Source) : Option (Tree ν φ τ) → Option (Tree ν φ τ) → Bool
  | some one, some other => one.isLike source other
  | none, none => true
  | _, _ => false

/-- The weight of a tree, if there is one. -/
def weightOf (tree : Option (Tree ν φ τ)) : Int :=
  (tree.map (·.summary.weight)).getD 0

/-- The number of trees of a tree, if there is one. -/
def countOf (plan : Blueprint ν φ) (tree : Option (Tree ν φ τ)) : Nat :=
  (tree.map (·.count plan)).getD 0

/-- What an added way changes. -/
inductive Addition where
  /-- The tree of the link at an index is replaced by a heavier one. -/
  | heavier (index : Nat)
  /-- The way goes on from an entry that a link leads to. -/
  | shared (number : Nat)
  | nothing
  | separate

/-- How a way fits to the links of an entry. -/
def addition (source : Source) (stack : Stack σ ν φ τ) (link : Link ν φ τ)
    (target : Entry σ ν φ τ) : (index : Nat) → List (Link ν φ τ) → Addition
  | _, [] => .separate
  | index, known :: rest =>
    if !alike source known.tree link.tree then addition source stack link target (index + 1) rest
    else if known.entry == link.entry then
      if weightOf known.tree < weightOf link.tree then .heavier index else .nothing
    else
      let same := match stack.entries[known.entry]? with
        | none => false
        | some entry =>
          entry.state = target.state && entry.pos == target.pos &&
            entry.cost == target.cost
      if same then .shared known.entry else addition source stack link target (index + 1) rest

/-- Adds a way to an entry; `fuel` bounds the depth of shared entries. -/
def addLink (plan : Blueprint ν φ) (source : Source) :
    (fuel : Nat) → (number : Nat) → (link : Link ν φ τ) → Stack σ ν φ τ → Stack σ ν φ τ
  | 0, _, _, stack => stack
  | fuel + 1, number, link, stack =>
    if link.entry == number then stack
    else match stack.entries[number]?, stack.entries[link.entry]? with
      | some entry, some target =>
        let weight := target.weight + weightOf link.tree
        let change (stack : Stack σ ν φ τ) (changed : Entry σ ν φ τ → Entry σ ν φ τ) :=
          { stack with entries := stack.entries.modify number changed }
        match addition source stack link target 0 entry.links with
        | .nothing => stack
        | .heavier index =>
          change stack fun entry =>
            { entry with weight, links := entry.links.set index link }
        | .shared shared =>
          let joined := target.links.foldl
            (fun stack further => addLink plan source fuel shared further stack) stack
          change joined fun entry => { entry with weight := max entry.weight weight }
        | .separate =>
          if entry.links.length == mostLinks then stack
          else change stack fun entry =>
            { entry with
              links := entry.links ++ [link]
              count := max entry.count (target.count + countOf plan link.tree)
              weight := max entry.weight weight }
      | _, _ => stack

/-- Whether two readings can go on as one. -/
def canMerge (stack : Stack σ ν φ τ) (one other : Nat) : Bool :=
  match stack.top? one, stack.top? other with
  | some (head, entry), some (second, further) =>
    head.status == .active && second.status == .active && entry.state = further.state &&
      entry.pos == further.pos && entry.cost == further.cost &&
      head.memory == second.memory
  | _, _ => false

/-- Lets two readings go on as one, if they can. -/
def merge? (plan : Blueprint ν φ) (source : Source) (fault : Option σ)
    (stack : Stack σ ν φ τ) (one other : Nat) : Option (Stack σ ν φ τ) :=
  if !stack.canMerge one other then none
  else match stack.top? one, stack.top? other with
    | some (head, entry), some (_, further) =>
      let joined := further.links.foldl
        (fun stack link => addLink plan source stack.entries.size head.entry link stack)
        stack
      let count := ((joined.entries[head.entry]?).map (·.count)).getD 0
      let counted :=
        if some entry.state = fault then
          joined.changeHead one fun head => { head with countAtFault := count }
        else joined
      some (counted.drop other)
    | _, _ => none

/-- Lets a reading go on as the first of some others that it can be joined with. -/
def mergeFirst? (plan : Blueprint ν φ) (source : Source) (fault : Option σ)
    (stack : Stack σ ν φ τ) (others : List Nat) (version : Nat) : Option (Stack σ ν φ τ) :=
  (others.find? fun other => stack.canMerge other version).bind fun other =>
    stack.merge? plan source fault other version

end Joining

/-! ### Going back -/

/-- Adds a way to those known. -/
def record (entry : Nat) (row : List (Tree ν φ τ)) : List (Popped ν φ τ) → List (Popped ν φ τ)
  | [] => [⟨entry, [row]⟩]
  | way :: ways =>
    if way.entry == entry then { way with rows := way.rows ++ [row] } :: ways
    else way :: record entry row ways

/-- A round of a walk. -/
structure Round (α ν φ τ : Type) where
  note : α
  popped : List (Popped ν φ τ) := []
  /-- The walkers that went on, the last one first. -/
  moved : List (Walker ν φ τ) := []
  /-- The walkers that a fork added, the last one first. -/
  added : List (Walker ν φ τ) := []

/-- Lets all walkers take a step. The walk takes notes of a type `α`. -/
def walkRound {α : Type} (stack : Stack σ ν φ τ)
    (visit : α → Walker ν φ τ → Entry σ ν φ τ → α × Visit) :
    List (Walker ν φ τ) → Round α ν φ τ → Round α ν φ τ
  | [], round => round
  | walker :: walkers, round =>
    match stack.entries[walker.entry]? with
    | none => walkRound stack visit walkers round
    | some entry =>
      let (note, outcome) := visit round.note walker entry
      let popped :=
        if outcome.wanted then record walker.entry walker.trees round.popped else round.popped
      match entry.links, outcome.ends with
      | first :: others, false =>
        let before := round.moved.length + walkers.length + 1
        let room := mostWalkers - (before + round.added.length)
        walkRound stack visit walkers
          { note, popped
            moved := walker.follow first :: round.moved
            added := ((others.take room).map walker.follow).reverse ++ round.added }
      | _, _ => walkRound stack visit walkers { round with note, popped }

/-- Walks on until all walkers have ended; `fuel` bounds the rounds. -/
def walkOn {α : Type} (stack : Stack σ ν φ τ)
    (visit : α → Walker ν φ τ → Entry σ ν φ τ → α × Visit) :
    (fuel : Nat) → List (Walker ν φ τ) → α → List (Popped ν φ τ) → α × List (Popped ν φ τ)
  | 0, _, note, popped => (note, popped)
  | _ + 1, [], note, popped => (note, popped)
  | fuel + 1, walkers, note, popped =>
    let round := walkRound stack visit walkers { note, popped }
    walkOn stack visit fuel (round.moved.reverse ++ round.added.reverse) round.note round.popped

/-- Walks from an entry over all ways towards the start. -/
def walk {α : Type} (stack : Stack σ ν φ τ) (number : Nat)
    (visit : α → Walker ν φ τ → Entry σ ν φ τ → α × Visit) (note : α) :
    α × List (Popped ν φ τ) :=
  walkOn stack visit (stack.entries.size + 1) [{ entry := number }] note []

/-- The ways back over a number of steps. -/
def pop (stack : Stack σ ν φ τ) (number count : Nat) : List (Popped ν φ τ) :=
  (stack.walk number
    (fun _ walker _ => ((), ⟨walker.depth == count, walker.depth == count⟩)) ()).2

/-- The ways back to the start. -/
def popAll (stack : Stack σ ν φ τ) (number : Nat) : List (Popped ν φ τ) :=
  (stack.walk number (fun _ walker _ => ((), ⟨walker.entry == 0, false⟩)) ()).2

/-- The trees of a fault right below a head. -/
def popFault (stack : Stack σ ν φ τ) (version : Nat) : List (Popped ν φ τ) :=
  (stack.walk (stack.number version)
    (fun found walker _ =>
      match walker.trees with
      | [] => (found, ⟨false, false⟩)
      | tree :: _ =>
        if !found && tree.isFault then (true, ⟨true, true⟩) else (found, ⟨false, true⟩))
    false).2

/-- Whether a state is among the last retreats of a depth. -/
def isKnown [DecidableEq σ] (depth : Nat) (state : σ) (retreats : List (Retreat σ)) : Bool :=
  (retreats.takeWhile fun retreat => depth ≤ retreat.depth).any fun retreat =>
    retreat.depth == depth && retreat.state = state

/-- The states within a number of steps, the nearest ones first. -/
def retreats [DecidableEq σ] (stack : Stack σ ν φ τ) (version most : Nat) : List (Retreat σ) :=
  (stack.walk (stack.number version)
    (fun found walker entry =>
      if most < walker.depth then (found, ⟨false, true⟩)
      else if isKnown walker.depth entry.state found then (found, ⟨false, false⟩)
      else (⟨entry.pos, walker.depth, entry.state⟩ :: found, ⟨false, false⟩))
    []).1.reverse

end Stack

end Phrasebook.Grammar
