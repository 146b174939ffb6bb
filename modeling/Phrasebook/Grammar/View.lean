import Phrasebook.Grammar.Tree

/-!
# Views of trees

A tree as others see it. Parts that are not shown are replaced by their own parts,
and a part that stands for another construct has the name of that one. Tokens have a
width and blanks before them; where a part stands follows from what stands before it.
-/

namespace Phrasebook.Grammar

/-- What a part of a view is. -/
inductive Title (ν : Type) where
  | construct (name : ν)
  /-- A text as it stands. -/
  | text
  /-- Text that fits nowhere. -/
  | fault
  deriving Repr, DecidableEq

/-- A part of a text. -/
inductive View (ν φ : Type) where
  | node (title : Title ν) (field : Option φ) (start stop : Nat) (missing : Bool) (cost : Nat)
      (parts : List (View ν φ))

namespace View

variable {ν φ : Type}

/-- What a part is. -/
def title : View ν φ → Title ν
  | node title _ _ _ _ _ _ => title

/-- Where a part starts. -/
def start : View ν φ → Nat
  | node _ _ start _ _ _ _ => start

/-- Where a part ends. -/
def stop : View ν φ → Nat
  | node _ _ _ stop _ _ _ => stop

/-- Whether a part is not in the text. -/
def missing : View ν φ → Bool
  | node _ _ _ _ missing _ _ => missing

/-- What the faults of a part cost. -/
def cost : View ν φ → Nat
  | node _ _ _ _ _ cost _ => cost

/-- The parts of a part. -/
def parts : View ν φ → List (View ν φ)
  | node _ _ _ _ _ _ parts => parts

end View

/-- What is seen of a tree, or of trees in a row, with the place behind the blanks before
it and the place where it ends. -/
structure Sight (ν φ : Type) where
  views : List (View ν φ)
  start : Nat
  stop : Nat

/-- The place of a token behind `offset`, without what is seen of it. -/
def Summary.place {ν φ τ : Type} (summary : Summary ν φ τ) (offset : Nat) : Sight ν φ :=
  let start := offset + (summary.start - summary.before)
  ⟨[], start, start + (summary.stop - summary.start)⟩

namespace Tree

variable {ν φ τ : Type}

/-- What a tree is shown as, if it is shown. -/
def title? (plan : Blueprint ν φ) (summary : Summary ν φ τ) (shown : Option (Shown ν)) :
    Option (Title ν) :=
  match shown with
  | some (.construct name) => some (.construct name)
  | some (.literal _) => some .text
  | none =>
    match summary.shape with
    | .fault => some .fault
    | .faultPart => none
    | .symbol symbol =>
      if !plan.shows symbol then none
      else match plan.name? symbol with
        | some name => some (.construct name)
        | none => some .text

/-- What is seen of a tree with a label, by what is seen inside of it. Parts of a tree
that is not shown take its field if they have none. -/
def shownAs (plan : Blueprint ν φ) (label : Label ν φ) (outer : Option φ)
    (summary : Summary ν φ τ) (inside : Option φ → Sight ν φ) : Sight ν φ :=
  let field := label.field.or outer
  match title? plan summary label.shown with
  | some title =>
    let inner := inside none
    { inner with
      views := [.node title field inner.start inner.stop summary.missing
        (Tree.node summary []).cost inner.views] }
  | none => inside field

mutual

/-- What is seen of a tree with a label behind `offset`. -/
def sight (plan : Blueprint ν φ) (label : Label ν φ) (outer : Option φ) (offset : Nat) :
    Tree ν φ τ → Sight ν φ
  | node summary [] => shownAs plan label outer summary fun _ => summary.place offset
  | node summary (part :: parts) =>
    shownAs plan label outer summary fun field =>
      sightOfAll plan summary.labels field offset (part :: parts)

/-- What is seen of parts with labels behind `offset`. -/
def sightOfAll (plan : Blueprint ν φ) (labels : List (Label ν φ)) (outer : Option φ)
    (offset : Nat) : List (Tree ν φ τ) → Sight ν φ
  | [] => ⟨[], offset, offset⟩
  | part :: parts =>
    let (label, later) := if part.isExtra then ({}, labels) else (labels.headD {}, labels.tail)
    let first := sight plan label outer offset part
    let rest := sightOfAll plan later outer first.stop parts
    ⟨first.views ++ rest.views, first.start, rest.stop⟩

end

/-- The view of the tree of a whole text. -/
def view (plan : Blueprint ν φ) (tree : Tree ν φ τ) : View ν φ :=
  let title := match tree.shape with
    | .symbol symbol =>
      match plan.name? symbol with
      | some name => .construct name
      | none => .text
    | _ => .fault
  let inner := match tree.parts with
    | [] => tree.summary.place 0
    | parts => sightOfAll plan tree.summary.labels none 0 parts
  .node title none inner.start inner.stop tree.summary.missing tree.cost inner.views

end Tree

end Phrasebook.Grammar
