import Mathlib.Data.List.Basic
import Mathlib.Data.List.TakeWhile
import Phrasebook.Grammar.Parser
import Phrasebook.Proofs.Grammar.Automaton
import Phrasebook.Proofs.Grammar.Stack

/-!
# Readings follow the grammar

A machine that does not skip text only finds trees that follow its grammar. Each link of its stack
carries such a tree, and the symbol of the tree leads from the state of one entry to that of the
other. A row that ends therefore has the symbols of a production, and what is left of a text that
ends is a tree of the whole text.
-/

namespace Phrasebook.Grammar

open List Option

variable {ν φ τ : Type} {automaton : Automaton ν φ} {leaf : Nat → Nat → Prop}

/-- Whether a tree follows the grammar behind one place, ends at the other one, and leads from the
state of one to that of the other. -/
structure Automaton.Joins (automaton : Automaton ν φ) (leaf : Nat → Nat → Prop) (there : State × Nat)
    (tree : Tree ν φ τ) (here : State × Nat) : Prop where
  follows : tree.Follows automaton.plan leaf there.2
  pos : there.2 + tree.size = here.2
  extra : tree.isExtra = true → there.1 = here.1
  leads : tree.isExtra = false →
    ∃ symbol, tree.shape = .symbol symbol ∧ automaton.Leads there.1 symbol here.1

/-! ## Ways back -/

namespace Stack

variable {stack : Stack State ν φ τ} {number : Nat} {here : State × Nat}

/-- A way back over a row that ends has the symbols of the row. -/
theorem pop_all (joined : Joined (automaton.Joins leaf) stack.entries)
    (isHere : place? stack.entries number = some here) {item : Item ν φ}
    (allows : automaton.Allows here.1 item) (complete : item.symbols = []) :
    AllRows (fun base row => ∃ there, place? stack.entries base = some there ∧
      Tree.FollowAll automaton.plan leaf there.2 row ∧ there.2 + Tree.sizeOfAll row = here.2 ∧
      Tree.HasRow automaton.plan item.head item.labels row) (stack.pop number item.dot) := by
  refine walk_all (fun walker => ∃ there, place? stack.entries walker.entry = some there ∧
    Tree.FollowAll automaton.plan leaf there.2 walker.trees ∧
    there.2 + Tree.sizeOfAll walker.trees = here.2 ∧ ∃ last, automaton.Allows there.1 last ∧
      last.head = item.head ∧ last.labels = item.labels ∧ last.dot + walker.depth = item.dot ∧
      last.symbols.map Shape.symbol = Tree.shapes walker.trees ∧ (last.dot = 0 →
        ∀ first, walker.trees.head? = some first → first.isExtra = false)) ?_ ?_ ?_ ()
  · rintro walker entry note link ⟨there, isThere, follow, pos, last, allows, head, labels, dot,
      symbols, -⟩ isEntry ends member
    obtain ⟨tree, before, isTree, isBefore, joins⟩ := joined _ entry isEntry link member
    obtain rfl := some.inj ((place?_of_entry isEntry).symm.trans isThere)
    have behind : last.dot ≠ 0 := by
      have apart : walker.depth ≠ item.dot := by simpa using ends
      omega
    rw [Walker.follow, isTree]
    refine ⟨before, isBefore, ⟨joins.follows, joins.pos ▸ follow⟩, ?_, ?_⟩
    · rw [← pos, ← joins.pos, Tree.sizeOfAll, Nat.add_assoc]
    · dsimp only
      cases extra : tree.isExtra with
      | true =>
        rw [Tree.shapes_cons, if_pos extra, joins.extra extra]
        exact ⟨last, allows, head, labels, dot, symbols, fun front => absurd front behind⟩
      | false =>
        obtain ⟨symbol, shape, leads⟩ := joins.leads extra
        obtain ⟨first, isAllowed, sameHead, sameLabels, next, ahead⟩ := leads.back allows behind
        refine ⟨first, isAllowed, sameHead.trans head, sameLabels.trans labels, ?_, ?_, ?_⟩
        · simp only [Bool.false_eq_true, if_false]
          omega
        · simp [Tree.shapes_cons, extra, ahead, shape, symbols]
        · intro _ part isPart
          cases isPart
          exact extra
  · rintro walker entry note ⟨there, isThere, follow, pos, last, allows, head, labels, dot,
      symbols, first⟩ isEntry isWanted
    have front : last.dot = 0 := by
      have all : walker.depth = item.dot := by simpa using isWanted
      omega
    obtain ⟨row, isRow, sameLabels, ahead⟩ := allows.1.labels
    rw [front, drop_zero] at ahead
    rw [head] at isRow
    exact ⟨there, isThere, follow, pos, ⟨row, isRow, sameLabels.trans labels, ahead ▸ symbols⟩,
      first front⟩
  · exact ⟨here, isHere, trivial, rfl, item, allows, rfl, rfl, rfl, by rw [complete]; rfl,
      fun _ first isFirst => by cases isFirst⟩

/-- A way back over a text that ends goes over the tree of a whole text, and extras behind it. -/
theorem popAll_all (joined : Joined (automaton.Joins leaf) stack.entries)
    (isHere : place? stack.entries number = some here)
    (root : ∀ state symbol, automaton.Leads state symbol here.1 → symbol = .nonterminal 0) :
    AllRows (fun base row => base = 0 ∧ ∃ there, place? stack.entries base = some there ∧
      Tree.FollowAll automaton.plan leaf there.2 row ∧ there.2 + Tree.sizeOfAll row = here.2 ∧
      ∀ last, (Tree.cutExtras row).1.getLast? = some last → last.shape = .symbol (.nonterminal 0))
      (stack.popAll number) := by
  refine walk_all (fun walker => ∃ there, place? stack.entries walker.entry = some there ∧
    Tree.FollowAll automaton.plan leaf there.2 walker.trees ∧
    there.2 + Tree.sizeOfAll walker.trees = here.2 ∧
    (walker.trees.reverse.dropWhile (·.isExtra)).head?.elim (there.1 = here.1)
      (·.shape = .symbol (.nonterminal 0))) ?_ ?_ ?_ ()
  · rintro walker entry note link ⟨there, isThere, follow, pos, last⟩ isEntry - member
    obtain ⟨tree, before, isTree, isBefore, joins⟩ := joined _ entry isEntry link member
    obtain rfl := some.inj ((place?_of_entry isEntry).symm.trans isThere)
    rw [Walker.follow, isTree]
    refine ⟨before, isBefore, ⟨joins.follows, joins.pos ▸ follow⟩, ?_, ?_⟩
    · rw [← pos, ← joins.pos, Tree.sizeOfAll, Nat.add_assoc]
    · dsimp only
      rw [reverse_cons, dropWhile_append]
      cases rest : walker.trees.reverse.dropWhile (·.isExtra) with
      | nil =>
        rw [rest] at last
        cases extra : tree.isExtra with
        | true => simpa [extra] using (joins.extra extra).trans last
        | false =>
          obtain ⟨symbol, shape, leads⟩ := joins.leads extra
          rw [show entry.state = here.1 from last] at leads
          simpa [extra, shape] using root _ _ leads
      | cons found others =>
        rw [rest] at last
        simpa using last
  · rintro walker entry note ⟨there, isThere, follow, pos, last⟩ isEntry isWanted
    refine ⟨by simpa using isWanted, there, isThere, follow, pos, fun found isFound => ?_⟩
    rw [Tree.cutExtras, getLast?_reverse] at isFound
    rwa [isFound] at last
  · exact ⟨here, isHere, trivial, rfl, rfl⟩

end Stack

/-! ## Trees of rows -/

namespace Tree

private theorem shapes_append (left right : List (Tree ν φ τ)) :
    shapes (left ++ right) = shapes left ++ shapes right := by
  simp [shapes]

private theorem cutExtras_append (row : List (Tree ν φ τ)) : (cutExtras row).1 ++
    (cutExtras row).2 = row := by
  rw [cutExtras, ← reverse_append, takeWhile_append_dropWhile, reverse_reverse]

private theorem isExtra_of_mem_cutExtras {row : List (Tree ν φ τ)} {tree : Tree ν φ τ}
    (member : tree ∈ (cutExtras row).2) : tree.isExtra = true :=
  mem_takeWhile_imp (mem_reverse.1 member)

/-- The parts of a row are those before the extras at its end. -/
theorem HasRow.cutExtras {plan : Blueprint ν φ} {head : Nat} {labels : List (Label ν φ)}
    {row : List (Tree ν φ τ)} (has : HasRow plan head labels row) :
    HasRow plan head labels (Tree.cutExtras row).1 := by
  have split := cutExtras_append row
  have extras : shapes (Tree.cutExtras row).2 = [] := by
    rw [shapes, filter_eq_nil_iff.2 fun tree member => by simp [isExtra_of_mem_cutExtras member]]
    rfl
  have same : shapes (Tree.cutExtras row).1 = shapes row := by
    rw [← split, shapes_append, split, extras, append_nil]
  refine ⟨same ▸ has.row, fun part isPart => has.first part ?_⟩
  rw [← split, head?_append, isPart]
  rfl

end Tree

/-! ## Machines -/

/-- Whether a machine does what an automaton says, and stops at a fault. -/
structure Machine.Runs (machine : Machine State ν φ τ) (automaton : Automaton ν φ) [DecidableEq ν] :
    Prop where
  plan : machine.plan = automaton.plan
  initial : machine.initial = automaton.initial
  fault : machine.fault = none
  actions : machine.actions = automaton.actions
  next : ∀ state head, machine.next state head = automaton.next state (.nonterminal head)

/-- Whether a tree is a token behind a position. It is a `leaf` if it is a terminal. -/
structure Tree.IsToken (leaf : Nat → Nat → Prop) (pos : Nat) (token : Tree ν φ τ) : Prop where
  parts : token.parts = []
  extra : token.isExtra = false
  leaf : ∀ terminal, token.terminal? = some terminal →
    leaf terminal (pos + (token.summary.start - token.summary.before))

private theorem Tree.IsToken.follows (plan : Blueprint ν φ) {pos terminal : Nat}
    {token : Tree ν φ τ} (isToken : token.IsToken leaf pos)
    (isTerminal : token.terminal? = some terminal) :
    token.Follows plan leaf pos ∧ token.shape = .symbol (.terminal terminal) := by
  have shape : token.shape = .symbol (.terminal terminal) := by
    rw [Tree.terminal?] at isTerminal
    split at isTerminal
    · rename_i isShape
      rw [isShape, some.inj isTerminal]
    · cases isTerminal
  have isLeaf := isToken.leaf terminal isTerminal
  obtain ⟨summary, parts⟩ := token
  rw [Tree.Follows, show summary.shape = _ from shape]
  exact ⟨⟨isToken.parts, isLeaf⟩, shape⟩

/-- Whether a machine follows the grammar of its automaton on a text. -/
structure Machine.Reads (machine : Machine State ν φ τ) (automaton : Automaton ν φ)
    (leaf : Nat → Nat → Prop) (source : Source) [DecidableEq ν] [BEq τ] : Prop extends
    machine.Runs automaton where
  sound : automaton.Sound
  whole : ∀ row ∈ automaton.plan.rowsOf (automaton.plan.nonterminals.size - 1),
    row.symbols = [.nonterminal 0]
  word : ∀ word, machine.plan.word = some word → ∀ start, leaf word start
  token : ∀ seeker, seeker.source = source → (machine.token seeker).IsToken leaf seeker.entry.pos

namespace Machine

open Stack

variable {machine : Machine State ν φ τ} {source : Source}
  {stack : Stack State ν φ τ} {number pos : Nat} {here : State × Nat}
  {reduction : Reduction ν φ} {branch : Branch} {terminal : Nat} {tree token : Tree ν φ τ}
  {parsing : Parsing State ν φ τ} {plan : Blueprint ν φ} {row : List (Tree ν φ τ)}
  {state : State} {fuel : Nat}

/-! ### Rows that end -/

private theorem exists_of_best {rows : List (List (Tree ν φ τ))}
    {found : Tree ν φ τ × List (Tree ν φ τ)}
    (isBest : machine.best source reduction rows = some found) :
    ∃ row ∈ rows, found = machine.treeOf source reduction row := by
  rw [best] at isBest
  refine foldlRecOn (motive := fun best => ∀ found, best = some found → ∃ row ∈ rows,
    found = machine.treeOf source reduction row) rows _
    (fun _ nothing => by cases nothing) ?_ found isBest
  intro best known row isRow found isFound
  grind

/-- The tree of a row that ends follows the grammar, and so do the extras behind it. -/
theorem follows_treeOf (machine : Machine State ν φ τ) (source : Source) {offset : Nat}
    (has : Tree.HasRow plan reduction.head reduction.labels row)
    (follow : Tree.FollowAll plan leaf offset row) :
    let (tree, extras) := machine.treeOf source reduction row
    tree.Follows plan leaf offset ∧ tree.isExtra = false ∧
      tree.shape = .symbol (.nonterminal reduction.head) ∧
      Tree.FollowAll plan leaf (offset + tree.size) extras ∧
      (∀ extra ∈ extras, extra.isExtra = true) ∧
      tree.size + Tree.sizeOfAll extras = Tree.sizeOfAll row := by
  rw [← Tree.cutExtras_append row, Tree.followAll_append] at follow
  have size : (machine.treeOf source reduction row).1.size =
    Tree.sizeOfAll (Tree.cutExtras row).1 := by
    rw [treeOf]
    dsimp only
    cases (Tree.cutExtras row).1 with
    | nil => rfl
    | cons part parts => rfl
  refine ⟨⟨has.cutExtras, size, follow.1⟩, rfl, rfl, size ▸ follow.2,
    fun extra => Tree.isExtra_of_mem_cutExtras, ?_⟩
  refine (congrArg (· + Tree.sizeOfAll (Tree.cutExtras row).2) size).trans ?_
  rw [← Tree.sizeOfAll_append, Tree.cutExtras_append]

variable (automaton leaf) in
/-- Whether entries come from others, and a branch that is new is at a position. -/
structure Lands (before : Array (Entry State ν φ τ)) (pos : Nat)
    (result : Stack State ν φ τ × Option Branch) : Prop where
  grows : Grows (automaton.Joins leaf) before result.1.entries
  branch : ∀ branch, result.2 = some branch →
    ∃ state, place? result.1.entries branch.entry = some (state, pos)

private theorem Lands.none {before : Array (Entry State ν φ τ)}
    (grows : Grows (automaton.Joins leaf) before stack.entries) :
    Lands automaton leaf before pos (stack, none) :=
  ⟨grows, fun _ nothing => by cases nothing⟩

private theorem growAll_extras (machine : Machine State ν φ τ) {extras : List (Tree ν φ τ)}
    (joined : Joined (automaton.Joins leaf) stack.entries)
    (isHere : place? stack.entries number = some here)
    (follow : Tree.FollowAll automaton.plan leaf here.2 extras)
    (extra : ∀ tree ∈ extras, tree.isExtra = true) :
    Grows (automaton.Joins leaf) stack.entries (machine.growAll here.1 number extras stack).1.entries ∧
      place? (machine.growAll here.1 number extras stack).1.entries
        (machine.growAll here.1 number extras stack).2 =
        some (here.1, here.2 + Tree.sizeOfAll extras) := by
  induction extras generalizing stack number here with
  | nil => exact ⟨joined.grows, isHere⟩
  | cons tree trees ih =>
    obtain ⟨isExtra, later⟩ := forall_mem_cons.1 extra
    have joins : automaton.Joins leaf here tree (here.1, here.2 + tree.size) :=
      ⟨follow.1, rfl, fun _ => rfl, fun plain => by simp [isExtra] at plain⟩
    obtain ⟨grows, isNext⟩ := joined.grow machine.plan isHere joins
    obtain ⟨more, isLast⟩ := ih grows.joined isNext follow.2 later
    refine ⟨grows.trans more, ?_⟩
    rw [Tree.sizeOfAll, ← Nat.add_assoc]
    exact isLast

variable (automaton leaf) in
/-- Whether a row of trees leads to a position, and is one of a reduction. -/
def Ends (entries : Array (Entry State ν φ τ)) (pos : Nat) (reduction : Reduction ν φ) (base : Nat)
    (row : List (Tree ν φ τ)) : Prop :=
  ∃ there, place? entries base = some there ∧
    Tree.FollowAll automaton.plan leaf there.2 row ∧ there.2 + Tree.sizeOfAll row = pos ∧
    Tree.HasRow automaton.plan reduction.head reduction.labels row

/-! ### Texts that end -/

/-- Whether all links of readings follow the grammar, and the tree that they found does. -/
structure Follows (automaton : Automaton ν φ) (leaf : Nat → Nat → Prop)
    (parsing : Parsing State ν φ τ) :
    Prop where
  grows : Grows (automaton.Joins leaf) (Stack.initial automaton.initial).entries parsing.stack.entries
  finished : ∀ tree, parsing.finished = some tree → tree.IsWhole automaton.plan leaf

/-- The tree of a text that ends is one of a whole text. -/
theorem isWhole_of_wholeOf {ending : Tree ν φ τ}
    (isTree : machine.wholeOf source ending row = some tree)
    (follow : Tree.FollowAll plan leaf 0 row)
    (root : ∀ last, (Tree.cutExtras row).1.getLast? = some last →
      last.shape = .symbol (.nonterminal 0))
    (ends : ending.Follows plan leaf (Tree.sizeOfAll row)) : tree.IsWhole plan leaf := by
  have split := Tree.cutExtras_append row
  rw [wholeOf] at isTree
  generalize Tree.cutExtras row = cut at isTree root split
  obtain ⟨core, behind⟩ := cut
  obtain ⟨last, isLast, rfl⟩ := map_eq_some_iff.1 isTree
  have shape := root last isLast
  rw [← dropLast_append_getLast? last isLast] at split
  rw [← split] at follow ends
  generalize core.dropLast = front at follow ends ⊢
  obtain ⟨summary, parts⟩ := last
  simp only [Tree.followAll_append, Tree.FollowAll, Tree.sizeOfAll_append, Tree.sizeOfAll, and_true,
    Nat.zero_add, Nat.add_zero] at follow ends
  obtain ⟨⟨earlier, own⟩, later⟩ := follow
  rw [Tree.Follows, show summary.shape = _ from shape] at own
  obtain ⟨⟨has, -⟩, size, inner⟩ := own
  rw [size] at later ends
  refine ⟨shape, has.imp fun _ isRow => ⟨isRow.1, isRow.2.1⟩, ?_⟩
  show Tree.FollowAll plan leaf 0 (front ++ parts ++ behind ++ [ending])
  simp only [Tree.followAll_append, Tree.FollowAll, Tree.sizeOfAll_append, and_true, Nat.zero_add]
  exact ⟨⟨⟨earlier, inner⟩, later⟩, ends⟩

private theorem Follows.finish (follows : Follows automaton leaf parsing)
    {trees : List (Tree ν φ τ)} (whole : ∀ tree ∈ trees, tree.IsWhole automaton.plan leaf) :
    Follows automaton leaf (trees.foldl machine.finish parsing) := by
  refine foldlRecOn (motive := Follows automaton leaf) _ _ follows fun after known tree member => ?_
  refine ⟨known.grows, fun other isOther => ?_⟩
  rcases show tree = other ∨ after.finished = some other by grind [Machine.finish] with rfl | isOld
  · exact whole tree member
  · exact known.finished other isOld

variable (automaton leaf) in
/-- What is known while something is done with a token at a place. -/
structure Turn.Follows (number : Nat) (state : State) (pos : Nat) (turn : Turn State ν φ τ) :
    Prop where
  parsing : Machine.Follows automaton leaf turn.parsing
  going : turn.isOver = false → place? turn.parsing.stack.entries number = some (state, pos) ∧
    ∀ branch, turn.reduced = some branch →
      ∃ state, place? turn.parsing.stack.entries branch.entry = some (state, pos)

section Comparing

variable {σ : Type} [DecidableEq σ] [BEq τ] {joins : σ × Nat → Tree ν φ τ → σ × Nat → Prop}
  {machine : Machine σ ν φ τ} {first : Array (Entry σ ν φ τ)} {stack : Stack σ ν φ τ}

private theorem grows_compareFrom {standing : Standing} {fuel other version : Nat}
    (grows : Grows joins first stack.entries) :
    Grows joins first
    (machine.compareFrom source standing fuel other version stack).stack.entries := by
  induction fuel generalizing other version stack with
  | zero => exact grows
  | succ fuel ih =>
    rw [compareFrom]
    split
    · exact grows
    · rw [← entries_settle stack other] at grows
      dsimp only
      split
      · exact grows
      · exact ih grows
      · split
        · rename_i merged isMerged
          exact grows.trans (grows.joined.merge? isMerged)
        · exact ih grows
      · split
        · rename_i merged isMerged
          exact grows.trans (grows.joined.merge? isMerged)
        · exact ih grows

private theorem grows_compareAll (machine : Machine σ ν φ τ) (source : Source) (fuel version : Nat)
    (least : Option Nat) (grows : Grows joins first stack.entries) :
    Grows joins first (machine.compareAll source fuel version least stack).1.entries := by
  induction fuel generalizing version least stack with
  | zero => exact grows
  | succ fuel ih =>
    rw [compareAll]
    split
    · exact grows
    · split
      · exact ih _ _ grows
      · rw [← entries_settle stack version] at grows
        exact ih _ _ (grows_compareFrom grows)

end Comparing

/-! ### What a machine does -/

variable [DecidableEq ν] [BEq τ] (reads : machine.Reads automaton leaf source)

include reads

/-- A row that ends goes on behind a tree that follows the grammar, to the same position. -/
theorem Reads.reduceWay (joined : Joined (automaton.Joins leaf) stack.entries) (self : Nat)
    (head : Head State ν φ τ) {way : Popped ν φ τ}
    (rows : ∀ row ∈ way.rows, Ends automaton leaf stack.entries pos reduction way.entry row) :
    Lands automaton leaf stack.entries pos
      (machine.reduceWay source reduction self head way stack) := by
  unfold Machine.reduceWay
  split
  · rename_i tree extras entry isBest isEntry
    obtain ⟨row, isRow, same⟩ := exists_of_best isBest
    obtain ⟨there, isThere, follow, size, has⟩ := rows row isRow
    obtain rfl := some.inj ((place?_of_entry isEntry).symm.trans isThere)
    have spec := follows_treeOf machine source has follow
    rw [← same] at spec
    obtain ⟨follows, plain, shape, behind, extra, sizes⟩ := spec
    dsimp only
    rw [growAll, reads.next]
    have leads := reads.sound.leads_next entry.state (.nonterminal reduction.head)
    generalize automaton.next entry.state _ = state at leads
    obtain ⟨grows, isNext⟩ := joined.grow machine.plan isThere
      ⟨follows, rfl, fun isExtra => (by simp [plain] at isExtra), fun _ => ⟨_, shape, leads⟩⟩
    obtain ⟨more, isLast⟩ := growAll_extras machine grows.joined isNext behind extra
    split
    · rename_i merged isMerged
      have merges := Joined.mergeFirst? (by exact more.joined) isMerged
      exact .none (grows.trans (more.trans merges))
    · refine ⟨grows.trans more, fun branch isBranch => ⟨state, ?_⟩⟩
      cases isBranch
      rw [← size, ← sizes, ← Nat.add_assoc]
      exact isLast
  · exact .none joined.grows

private theorem Reads.reduceWays {self most : Nat} {head : Head State ν φ τ}
    {ways : List (Popped ν φ τ)} (joined : Joined (automaton.Joins leaf) stack.entries)
    (rows : AllRows (Ends automaton leaf stack.entries pos reduction) ways) :
    Lands automaton leaf stack.entries pos
      (machine.reduceWays source reduction self most head ways stack) := by
  induction ways generalizing stack with
  | nil => exact .none joined.grows
  | cons way ways ih =>
    obtain ⟨own, later⟩ := forall_mem_cons.1 rows
    rw [Machine.reduceWays]
    split
    · exact .none joined.grows
    · have first := reads.reduceWay joined self head own
      have rest := ih first.grows.joined fun way member row isRow => by
        obtain ⟨there, isThere, ends⟩ := later way member row isRow
        exact ⟨there, first.grows.places _ _ isThere, ends⟩
      refine ⟨first.grows.trans rest.grows, fun branch isBranch => ?_⟩
      rcases or_eq_some_iff.1 isBranch with isFirst | ⟨-, isLater⟩
      · obtain ⟨state, isPlace⟩ := first.branch branch isFirst
        exact ⟨state, rest.grows.places _ _ isPlace⟩
      · exact rest.branch branch isLater

/-- A row that ends leads to readings at the same position. -/
theorem Reads.reduce (joined : Joined (automaton.Joins leaf) stack.entries)
    (isHere : place? stack.entries branch.entry = some here)
    (member : .reduce reduction ∈ automaton.actions here.1 terminal) :
    Lands automaton leaf stack.entries here.2 (machine.reduce source reduction branch stack) := by
  rw [Machine.reduce]
  split
  · exact .none joined.grows
  · obtain ⟨item, allows, complete, head, labels, dot⟩ := reads.sound.of_reduce member
    refine reads.reduceWays joined ?_
    rw [← dot]
    intro way isWay row isRow
    obtain ⟨there, isThere, follow, size, has⟩ :=
      pop_all joined isHere allows complete way isWay row isRow
    exact ⟨there, isThere, follow, size, by rwa [← head, ← labels]⟩

/-- A text that ends leaves trees of the whole text. -/
theorem Reads.accept (follows : Follows automaton leaf parsing)
    (isHere : place? parsing.stack.entries branch.entry = some here)
    (isToken : token.IsToken leaf here.2) (isTerminal : token.terminal? = some terminal)
    (member : .accept ∈ automaton.actions here.1 terminal) :
    Follows automaton leaf (machine.accept source branch token parsing) := by
  obtain ⟨ends, shape⟩ := isToken.follows automaton.plan isTerminal
  have leads := reads.sound.leads_initial here.1 (.terminal terminal)
  rw [← reads.initial] at leads
  obtain ⟨grows, -⟩ := follows.grows.joined.grow machine.plan isHere
    ⟨ends, rfl, fun extra => (by simp [isToken.extra] at extra), fun _ => ⟨_, shape, leads⟩⟩
  have pushed : Follows automaton leaf { parsing with
      stack := (parsing.stack.push machine.plan branch token machine.initial).halt branch.version } :=
    ⟨follows.grows.trans grows, follows.finished⟩
  refine pushed.finish fun tree isTree => ?_
  obtain ⟨row, isRow, isTree⟩ := mem_filterMap.1 isTree
  obtain ⟨way, isWay, isRow⟩ := mem_flatMap.1 isRow
  obtain ⟨isBase, there, isThere, follow, size, root⟩ := popAll_all follows.grows.joined isHere
    (fun state symbol => reads.sound.of_accept reads.whole member) way isWay row isRow
  rw [isBase] at isThere
  obtain rfl : there = (automaton.initial, 0) :=
    some.inj (isThere.symm.trans (follows.grows.places 0 _ rfl))
  rw [Nat.zero_add] at size
  exact isWhole_of_wholeOf isTree follow root (size ▸ ends)

/-- What is done with a token follows the grammar. -/
theorem Reads.perform (isToken : token.IsToken leaf pos)
    (isTerminal : token.terminal? = some terminal) {actions : List (Action State ν φ)}
    (member : ∀ action ∈ actions, action ∈ automaton.actions state terminal)
    {turn : Turn State ν φ τ} (follows : turn.Follows automaton leaf branch.entry state pos)
    (going : turn.isOver = false) :
    (machine.perform source branch state token actions turn).Follows automaton leaf branch.entry state
      pos := by
  induction actions generalizing turn with
  | nil => exact follows
  | cons action actions ih =>
    obtain ⟨own, later⟩ := forall_mem_cons.1 member
    obtain ⟨isLeaf, shape⟩ := isToken.follows automaton.plan isTerminal
    obtain ⟨⟨grows, finished⟩, place⟩ := follows
    obtain ⟨isHere, reduced⟩ := place going
    have used (other : Tree ν φ τ) (target : State) (joins : automaton.Joins leaf (state, pos) other
        (target, pos + other.size)) {stack : Stack State ν φ τ}
        (same : stack.entries = (turn.parsing.stack.push machine.plan branch other target).entries) :
        Turn.Follows automaton leaf branch.entry state pos
          { parsing := { turn.parsing with stack }, isOver := true } := by
      have more := (grows.joined.grow machine.plan isHere joins).1
      exact ⟨⟨grows.trans (same ▸ more), finished⟩, fun nothing => by cases nothing⟩
    unfold Machine.perform
    cases action with
    | shift target repeats =>
      dsimp only
      split
      · exact ⟨⟨grows, finished⟩, place⟩
      · refine used token target
          ⟨isLeaf, rfl, fun extra => (by simp [isToken.extra] at extra), fun _ => ⟨_, shape, ?_⟩⟩ ?_
        · cases Automaton.does_of_mem_actions own with
          | shift => exact reads.sound.leads_next _ _
        · split <;> rfl
    | extra =>
      obtain ⟨summary, parts⟩ := token
      obtain rfl : parts = [] := isToken.parts
      rw [Tree.Follows] at isLeaf
      refine used (.node { summary with extra := true } []) state
        ⟨?_, rfl, fun _ => rfl, fun plain => ?_⟩ ?_
      · rw [Tree.Follows]
        exact isLeaf
      · cases plain
      · split <;> rfl
    | accept =>
      exact ⟨reads.accept ⟨grows, finished⟩ isHere isToken isTerminal own,
        fun nothing => by cases nothing⟩
    | reduce reduction =>
      obtain ⟨⟨stack, _, _⟩, _, _⟩ := turn
      have lands := reads.reduce grows.joined isHere own
      refine ih later ⟨⟨grows.trans lands.grows, finished⟩, fun _ => ⟨lands.grows.places _ _ isHere,
        fun other isOther => ?_⟩⟩ going
      rcases or_eq_some_iff.1 isOther with isNew | ⟨-, isOld⟩
      · exact lands.branch other isNew
      · obtain ⟨state, isPlace⟩ := reduced other isOld
        exact ⟨state, lands.grows.places _ _ isPlace⟩

/-- Going on with a token follows the grammar. -/
theorem Reads.consume {version : Nat} (follows : Follows automaton leaf parsing)
    (isHere : place? parsing.stack.entries number = some (state, pos))
    (isToken : token.IsToken leaf pos) :
    Follows automaton leaf (machine.consume source version fuel number token parsing) := by
  induction fuel generalizing parsing state number token with
  | zero => exact ⟨follows.grows, follows.finished⟩
  | succ fuel ih =>
    rw [Machine.consume]
    split
    · exact follows
    · rename_i entry isEntry
      obtain ⟨rfl, rfl⟩ := Prod.mk.inj (some.inj ((place?_of_entry isEntry).symm.trans isHere))
      have turn : Turn.Follows automaton leaf number entry.state entry.pos
          (machine.perform source ⟨version, number⟩ entry.state token
            (machine.actionsOn entry.state token) { parsing }) := by
        have first : Turn.Follows automaton leaf number entry.state entry.pos { parsing } :=
          ⟨follows, fun _ => ⟨isHere, fun _ nothing => by cases nothing⟩⟩
        rw [actionsOn, reads.actions]
        split
        · rename_i terminal isTerminal
          have branch : Turn.Follows automaton leaf (Branch.mk version number).entry entry.state
              entry.pos { parsing } := first
          exact reads.perform isToken isTerminal (fun _ => id) branch rfl
        · exact first
      generalize machine.perform _ _ _ _ _ _ = result at turn
      obtain ⟨⟨stack, finished, accepted⟩, isOver, reduced⟩ := result
      obtain ⟨⟨grows, whole⟩, going⟩ := turn
      dsimp only at grows whole going ⊢
      split
      · exact ⟨grows, whole⟩
      · rename_i isGoing
        obtain ⟨place, new⟩ := going (by simpa using isGoing)
        split
        · rename_i branch
          obtain ⟨state, isPlace⟩ := new branch rfl
          rw [← entries_replace stack branch.version version] at grows isPlace
          exact ih ⟨grows, whole⟩ isPlace isToken
        · split
          · rename_i word isWord
            obtain ⟨summary, parts⟩ := token
            refine ih ⟨grows, whole⟩ place ⟨isToken.parts, isToken.extra,
              fun terminal isTerminal => ?_⟩
            obtain rfl := some.inj isTerminal
            exact reads.word _ (filter_eq_some_iff.1 isWord).1 _
          · rename_i fault isFault
            rw [reads.fault] at isFault
            cases isFault
          · exact ⟨grows, whole⟩

private theorem Reads.catchUp (version fuel last : Nat) (follows : Follows automaton leaf parsing) :
    Follows automaton leaf (machine.catchUp source version fuel last parsing).1 := by
  induction fuel generalizing last parsing with
  | zero => exact follows
  | succ fuel ih =>
    have next : Follows automaton leaf (machine.advance source version parsing) := by
      rw [advance]
      split
      · exact follows
      · rename_i head entry isTop
        simp only [top?, Option.pure_def, Option.bind_eq_bind, Option.bind_eq_some_iff,
          Option.some.injEq, Prod.mk.injEq] at isTop
        obtain ⟨_, -, _, isEntry, rfl, rfl⟩ := isTop
        exact reads.consume follows (place?_of_entry isEntry)
          (reads.token ⟨source, parsing.stack, _, _⟩ rfl)
    rw [Machine.catchUp]
    split
    · exact follows
    · dsimp only
      split
      · exact next
      · exact ih last next

private theorem Reads.catchUpAll (fuel version last : Nat)
    (follows : Follows automaton leaf parsing) :
    Follows automaton leaf (machine.catchUpAll source fuel version last parsing).1 := by
  induction fuel generalizing version last parsing with
  | zero => exact follows
  | succ fuel ih =>
    rw [Machine.catchUpAll]
    split
    · exact follows
    · have next := reads.catchUp version (64 * (source.text.size + 16)) last follows
      generalize machine.catchUp source version (64 * (source.text.size + 16)) last parsing =
        caught at next ⊢
      exact ih _ _ next

private theorem Reads.resume (count version : Nat)
    (goesOn : Bool) (least : Option Nat) (follows : Follows automaton leaf parsing) :
    Follows automaton leaf (machine.resume source count version goesOn least parsing).1 := by
  induction count generalizing version goesOn least parsing with
  | zero => exact follows
  | succ count ih =>
    rw [Machine.resume]
    split
    · exact follows
    · split
      · exact ih _ _ _ follows
      · rename_i fault _ isFault
        rw [reads.fault] at isFault
        cases isFault
      · exact ih _ _ _ ⟨follows.grows, follows.finished⟩

private theorem Reads.condense (follows : Follows automaton leaf parsing) :
    Follows automaton leaf (machine.condense source parsing).1 := by
  have grows := grows_compareAll machine source (parsing.stack.heads.size + 1) 0 none follows.grows
  rw [Machine.condense]
  generalize machine.compareAll _ _ _ _ _ = compared at grows ⊢
  exact reads.resume _ _ _ _ ⟨grows, follows.finished⟩

/-- What a run finds is a tree of the whole text. -/
private theorem Reads.run {last : Nat} (follows : Follows automaton leaf parsing)
    (isTree : machine.run source fuel last parsing = some tree) :
    tree.IsWhole automaton.plan leaf := by
  induction fuel generalizing last parsing with
  | zero => exact follows.finished tree isTree
  | succ fuel ih =>
    rw [Machine.run] at isTree
    have next := reads.condense (reads.catchUpAll 1000 0 last follows)
    generalize machine.catchUpAll source 1000 0 last parsing = caught at isTree next
    obtain ⟨caught, reached⟩ := caught
    dsimp only at isTree next
    generalize machine.condense source caught = condensed at isTree next
    obtain ⟨condensed, least⟩ := condensed
    dsimp only at isTree next
    rcases ite_eq_iff.1 isTree with ⟨-, isTree⟩ | ⟨-, isTree⟩
    · exact next.finished tree isTree
    · exact ih next isTree

/-- The trees that a machine finds follow its grammar. -/
theorem Reads.isWhole_of_parse
    (isTree : machine.parse source = some tree) : tree.IsWhole automaton.plan leaf := by
  refine reads.run ⟨?_, fun _ nothing => by cases nothing⟩ isTree
  rw [reads.initial]
  refine Joined.grows fun number entry isEntry link member => ?_
  obtain rfl : entry = ⟨automaton.initial, 0, 0, 0, 0, []⟩ := by
    simpa [Stack.initial] using Array.mem_of_getElem? isEntry
  cases member

end Machine

end Phrasebook.Grammar
