import Phrasebook.Proofs.Grammar.View

/-!
# Where constructs start

A tree follows a grammar if every nonterminal in it has the parts of one of its rows, with the
labels of that row. Extras may stand between any two parts, but not before the first one. If some
symbols are marked, and all their rows start with marked ones, then what such a tree shows of
them starts where one of the marked tokens does.
-/

namespace Phrasebook.Grammar

variable {ν φ τ : Type}

/-- The symbols of a row. -/
def Production.symbols (row : Production ν φ) : List Symbol :=
  row.steps.map (·.symbol)

/-- The rows of a nonterminal. -/
def Blueprint.rowsOf (plan : Blueprint ν φ) (head : Nat) : List (Production ν φ) :=
  ((plan.nonterminals[head]?).map (·.productions)).getD []

namespace Tree

/-- What those of some trees are that are no extras. -/
def shapes (trees : List (Tree ν φ τ)) : List Shape :=
  (trees.filter fun tree => !tree.isExtra).map shape

theorem shapes_cons {tree : Tree ν φ τ} {trees : List (Tree ν φ τ)} :
    shapes (tree :: trees) = if tree.isExtra then shapes trees else tree.shape :: shapes trees := by
  cases extra : tree.isExtra <;> simp [shapes, extra]

/-- Whether parts are those of a row with some labels. -/
structure HasRow (plan : Blueprint ν φ) (head : Nat) (labels : List (Label ν φ))
    (parts : List (Tree ν φ τ)) : Prop where
  row : ∃ row ∈ plan.rowsOf head,
    row.labels = labels ∧ row.symbols.map Shape.symbol = shapes parts
  first : ∀ part, parts.head? = some part → part.isExtra = false

section Follows

variable (plan : Blueprint ν φ) (leaf : Nat → Nat → Prop)

mutual

/-- Whether a tree behind `offset` follows the grammar. A token is a `leaf` at its start. -/
def Follows (offset : Nat) : Tree ν φ τ → Prop
  | node summary parts =>
    match summary.shape with
    | .symbol (.terminal terminal) =>
      parts = [] ∧ leaf terminal (offset + (summary.start - summary.before))
    | .symbol (.nonterminal head) =>
      HasRow plan head summary.labels parts ∧ (node summary parts).size = sizeOfAll parts ∧
        FollowAll offset parts
    | _ => False

/-- Whether trees behind `offset` follow the grammar, one behind the other. -/
def FollowAll (offset : Nat) : List (Tree ν φ τ) → Prop
  | [] => True
  | tree :: trees => tree.Follows offset ∧ FollowAll (offset + tree.size) trees

end

end Follows

variable {plan : Blueprint ν φ} {leaf : Nat → Nat → Prop} {offset : Nat}

theorem sizeOfAll_append (left right : List (Tree ν φ τ)) :
    sizeOfAll (left ++ right) = sizeOfAll left + sizeOfAll right := by
  induction left with
  | nil => simp [sizeOfAll]
  | cons tree trees ih => simp [sizeOfAll, ih, Nat.add_assoc]

/-- Trees follow a plan one after another. -/
theorem followAll_append {left right : List (Tree ν φ τ)} :
    FollowAll plan leaf offset (left ++ right) ↔ FollowAll plan leaf offset left ∧
        FollowAll plan leaf (offset + sizeOfAll left) right := by
  induction left generalizing offset with
  | nil => simp [FollowAll, sizeOfAll]
  | cons tree trees ih => simp [FollowAll, sizeOfAll, ih, Nat.add_assoc, and_assoc]

end Tree

/-! ## Marked symbols -/

/-- Whether symbols are marked so that tokens of them are openings, rows of them start with them,
and all that is shown under a special name is one of them. -/
structure Blueprint.Marks (plan : Blueprint ν φ) (leaf : Nat → Nat → Prop) (special : ν → Prop)
    (opening : Nat → Prop) (marked : Symbol → Prop) : Prop where
  leaf : ∀ terminal start, marked (.terminal terminal) → leaf terminal start → opening start
  row : ∀ head, marked (.nonterminal head) → ∀ row ∈ plan.rowsOf head,
    ∃ symbol, row.symbols.head? = some symbol ∧ marked symbol
  shown : ∀ head, ∀ row ∈ plan.rowsOf head, ∀ step ∈ row.steps, ∀ name,
    step.label.shown = some (.construct name) → special name → marked step.symbol
  named : ∀ symbol name, plan.name? symbol = some name → special name → marked symbol
  /-- Neither a whole text nor a part of its rows has a special name. -/
  plain : (∀ name, plan.name? (.nonterminal 0) = some name → ¬special name) ∧
    ∀ row ∈ plan.rowsOf 0, ∀ label ∈ row.labels, ∀ name,
      label.shown = some (.construct name) → ¬special name

section Views

variable {plan : Blueprint ν φ} {leaf : Nat → Nat → Prop} {special : ν → Prop}
  {opening : Nat → Prop} {marked : Symbol → Prop}

variable (special opening) in
mutual

/-- Whether all parts of a view with special names start with an opening. -/
def View.Opens : View ν φ → Prop
  | node title _ start _ _ _ parts =>
    (∀ name, title = .construct name → special name → opening start) ∧ AllOpen parts

/-- Whether all parts of views with special names start with an opening. -/
def View.AllOpen : List (View ν φ) → Prop
  | [] => True
  | view :: views => view.Opens ∧ AllOpen views

end

private theorem View.allOpen_append {left right : List (View ν φ)}
    (first : AllOpen special opening left) (second : AllOpen special opening right) :
    AllOpen special opening (left ++ right) := by
  induction left with
  | nil => exact second
  | cons view views ih =>
    rw [AllOpen] at first
    rw [List.cons_append, AllOpen]
    exact ⟨first.1, ih first.2⟩

variable (special opening) in
/-- What is known of what is seen behind `offset`: its size, that it starts with an opening if it is
marked, and that its parts do. -/
structure Sight.Opens (offset size : Nat) (isMarked : Prop) (sight : Sight ν φ) : Prop where
  stop : sight.stop = offset + size
  start : isMarked → opening sight.start
  views : View.AllOpen special opening sight.views

private theorem Sight.Opens.append {offset size more : Nat} {isMarked other : Prop}
    {first rest : Sight ν φ} (opens : first.Opens special opening offset size isMarked)
    (later : rest.Opens special opening first.stop more other) :
    Sight.Opens special opening offset (size + more) isMarked
      ⟨first.views ++ rest.views, first.start, rest.stop⟩ where
  stop := by rw [later.stop, opens.stop, Nat.add_assoc]
  start := opens.start
  views := View.allOpen_append opens.views later.views

namespace Tree

variable {parts : List (Tree ν φ τ)} {labels : List (Label ν φ)}

variable (marked) in
/-- Whether a tree is one of a marked symbol. -/
def IsMarked (tree : Tree ν φ τ) : Prop :=
  ∃ symbol, tree.shape = .symbol symbol ∧ marked symbol

/-- A tree that is shown stands where its parts do. -/
theorem opens_shownAs (marks : plan.Marks leaf special opening marked) {label : Label ν φ}
    {outer : Option φ} {summary : Summary ν φ τ} {offset size : Nat} {inside : Option φ → Sight ν φ}
    (titled : ∀ name, label.shown = some (.construct name) → special name →
      (node summary parts).IsMarked marked)
    (opens : ∀ field, (inside field).Opens special opening offset size
      ((node summary parts).IsMarked marked)) :
    (shownAs plan label outer summary inside).Opens special opening offset size
      ((node summary parts).IsMarked marked) := by
  rw [shownAs]
  cases isTitle : title? plan summary label.shown with
  | none => exact opens _
  | some title =>
    refine ⟨(opens none).stop, (opens none).start, ?_⟩
    rw [View.AllOpen, View.AllOpen, View.Opens]
    refine ⟨⟨fun name isName isSpecial => (opens none).start ?_, (opens none).views⟩, trivial⟩
    subst isName
    unfold title? at isTitle
    split at isTitle
    · rename_i isShown
      cases isTitle
      exact titled name isShown isSpecial
    · cases isTitle
    · split at isTitle
      · cases isTitle
      · cases isTitle
      · rename_i symbol isSymbol
        split at isTitle
        · cases isTitle
        · split at isTitle
          · rename_i isNamed
            cases isTitle
            exact ⟨symbol, isSymbol, marks.named symbol name isNamed isSpecial⟩
          · cases isTitle

variable (special marked) in
/-- Whether of some parts those are marked whose labels have special names. -/
def Titled (labels : List (Label ν φ)) (parts : List (Tree ν φ τ)) : Prop :=
  ∀ (index : Nat) label name, labels[index]? = some label → label.shown = some (.construct name) →
    special name → ∃ symbol, (shapes parts)[index]? = some (.symbol symbol) ∧ marked symbol

private theorem HasRow.titled {head : Nat} (marks : plan.Marks leaf special opening marked)
    (has : HasRow plan head labels parts) : Titled special marked labels parts := by
  intro index label name isLabel shown isSpecial
  obtain ⟨row, isRow, rfl, shapes⟩ := has.row
  rw [Production.labels, List.getElem?_map] at isLabel
  obtain ⟨step, isStep, rfl⟩ := Option.map_eq_some_iff.1 isLabel
  refine ⟨step.symbol, ?_, marks.shown head row isRow step (List.mem_of_getElem? isStep) name shown
    isSpecial⟩
  rw [← shapes, Production.symbols, List.getElem?_map, List.getElem?_map, isStep]
  rfl

/-- The label of the first part and those of the others, where extras have none. -/
theorem Titled.split {part : Tree ν φ τ} (titled : Titled special marked labels (part :: parts)) :
    let following := if part.isExtra then ({}, labels) else (labels.headD {}, labels.tail)
    (∀ name, following.1.shown = some (.construct name) → special name → part.IsMarked marked) ∧
      Titled special marked following.2 parts := by
  unfold Titled at *
  cases extra : part.isExtra with
  | true =>
    simp only [shapes_cons, extra, if_true] at titled ⊢
    exact ⟨fun _ shown => (by cases shown), titled⟩
  | false =>
    simp only [shapes_cons, extra] at titled ⊢
    refine ⟨fun name shown isSpecial => ?_, fun index label name isLabel => ?_⟩
    · cases labels with
      | nil => cases shown
      | cons label labels =>
        obtain ⟨symbol, isSymbol, isMarked⟩ := titled 0 label name rfl shown isSpecial
        exact ⟨symbol, Option.some.inj isSymbol, isMarked⟩
    · exact titled (index + 1) label name (by simpa using isLabel)

mutual

/-- What is seen of a tree that follows the grammar starts with an opening if it is marked. -/
theorem opens_sight (marks : plan.Marks leaf special opening marked) (outer : Option φ)
    {label : Label ν φ} {offset : Nat} {tree : Tree ν φ τ} (follows : tree.Follows plan leaf offset)
    (titled : ∀ name, label.shown = some (.construct name) → special name → tree.IsMarked marked) :
    (tree.sight plan label outer offset).Opens special opening offset tree.size
      (tree.IsMarked marked) := by
  match tree with
  | node summary [] =>
    rw [sight]
    refine opens_shownAs marks titled fun _ =>
      ⟨by simp [Summary.place, size, Nat.add_assoc], ?_, trivial⟩
    rintro ⟨symbol, isSymbol, isMarked⟩
    rw [Follows, show summary.shape = .symbol symbol from isSymbol] at follows
    cases symbol with
    | terminal terminal => exact marks.leaf terminal _ isMarked follows.2
    | nonterminal head =>
      obtain ⟨row, isRow, -, shapes⟩ := follows.1.row
      obtain ⟨symbol, first, -⟩ := marks.row head isMarked row isRow
      rw [List.map_eq_nil_iff.1 shapes] at first
      cases first
  | node summary (part :: parts) =>
    rw [sight, size]
    rw [Follows] at follows
    split at follows
    · cases follows.1
    · rename_i head isHead
      obtain ⟨has, -, all⟩ := follows
      refine opens_shownAs marks titled fun field => ?_
      obtain ⟨stop, start, views⟩ := opens_sightOfAll marks field all (has.titled marks)
      refine ⟨stop, ?_, views⟩
      rintro ⟨symbol, isSymbol, isMarked⟩
      obtain rfl : Symbol.nonterminal head = symbol := Shape.symbol.inj (isHead.symm.trans isSymbol)
      obtain ⟨row, isRow, -, isShapes⟩ := has.row
      obtain ⟨first, isFirst, firstMarked⟩ := marks.row head isMarked row isRow
      refine start ⟨part, rfl, first, ?_, firstMarked⟩
      have heads := congrArg List.head? isShapes
      rw [List.head?_map, isFirst, shapes_cons, has.first part rfl] at heads
      exact (Option.some.inj heads).symm
    · cases follows

/-- What is seen of trees in a row starts with an opening if the first one is marked. -/
theorem opens_sightOfAll (marks : plan.Marks leaf special opening marked) (outer : Option φ)
    {labels : List (Label ν φ)} {offset : Nat} {parts : List (Tree ν φ τ)}
    (follow : FollowAll plan leaf offset parts) (titled : Titled special marked labels parts) :
    (sightOfAll plan labels outer offset parts).Opens special opening offset (sizeOfAll parts)
      (∃ first, parts.head? = some first ∧ first.IsMarked marked) := by
  match parts with
  | [] =>
    rw [sightOfAll, sizeOfAll]
    exact ⟨rfl, fun ⟨_, isFirst, _⟩ => (by cases isFirst), trivial⟩
  | part :: parts =>
    rw [FollowAll] at follow
    rw [sightOfAll, sizeOfAll]
    obtain ⟨own, others⟩ := titled.split
    generalize (if part.isExtra then _ else _ : Label ν φ × List (Label ν φ)) = following at own others
    have first := opens_sight marks outer follow.1 own
    have rest := opens_sightOfAll marks outer follow.2 others
    rw [← first.stop] at rest
    obtain ⟨stop, start, views⟩ := first.append rest
    refine ⟨stop, ?_, views⟩
    rintro ⟨_, isPart, isMarked⟩
    cases isPart
    exact start isMarked

end

variable (plan leaf) in
/-- Whether a tree is one of a whole text. Extras may stand before its parts and behind them. -/
structure IsWhole (tree : Tree ν φ τ) : Prop where
  shape : tree.shape = .symbol (.nonterminal 0)
  row : ∃ row ∈ plan.rowsOf 0, row.labels = tree.summary.labels
  follow : FollowAll plan leaf 0 tree.parts

/-- In the tree of a whole text, all that is shown under special names starts with openings. -/
theorem IsWhole.opens_view (marks : plan.Marks leaf special opening marked) {tree : Tree ν φ τ}
    (whole : tree.IsWhole plan leaf) : (tree.view plan).Opens special opening := by
  rw [view, whole.shape]
  dsimp only
  rw [View.Opens]
  refine ⟨fun name isName isSpecial => ?_, ?_⟩
  · split at isName
    · rename_i isNamed
      cases isName
      exact absurd isSpecial (marks.plain.1 name isNamed)
    · cases isName
  · split
    · exact trivial
    · obtain ⟨row, isRow, same⟩ := whole.row
      refine (opens_sightOfAll marks none whole.follow ?_).views
      intro index label name isLabel shown isSpecial
      rw [← same] at isLabel
      exact absurd isSpecial (marks.plain.2 row isRow label (List.mem_of_getElem? isLabel) name shown)

end Tree

end Views

end Phrasebook.Grammar
