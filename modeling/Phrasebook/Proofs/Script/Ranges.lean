import Phrasebook.Proofs.Grammar.View
import Phrasebook.Script.Extract

/-!
# The ranges of literals

The children of a node stand one behind the other within the range of the node. Literals
are therefore listed in the order of their ranges, but for one case: a template literal
without text is listed before the literals inside of it.
-/

namespace Phrasebook.Script

open List

/-! ## Nested nodes -/

namespace Node

variable {lower upper : Nat} {nodes : List Node} {node : Node}

/-- Whether nodes stand one behind the other between two places. -/
def InOrder (lower upper : Nat) : List Node → Prop
  | [] => lower ≤ upper
  | node :: nodes => lower ≤ node.start ∧ node.start ≤ node.stop ∧ InOrder node.stop upper nodes

/-- Whether the children of a node stand in order within its range, and so do theirs. -/
inductive Nested : Node → Prop
  | mk {kind : Kind} {role : Role} {start stop : Nat} {children : List Node}
    (inOrder : InOrder start stop children) (inner : ∀ child ∈ children, Nested child) :
    Nested (.mk kind role start stop children)

theorem InOrder.le (inOrder : InOrder lower upper nodes) : lower ≤ upper := by
  induction nodes generalizing lower with
  | nil => exact inOrder
  | cons node nodes ih =>
    obtain ⟨above, proper, later⟩ := inOrder
    have rest := ih later
    omega

private theorem InOrder.mono {least : Nat} (below : least ≤ lower)
    (inOrder : InOrder lower upper nodes) :
    InOrder least upper nodes := by
  cases nodes with
  | nil => exact Nat.le_trans below inOrder
  | cons node nodes => exact ⟨Nat.le_trans below inOrder.1, inOrder.2⟩

theorem Nested.inOrder (nested : node.Nested) : InOrder node.start node.stop node.children := by
  cases nested with
  | mk inOrder => exact inOrder

theorem Nested.inner (nested : node.Nested) : ∀ child ∈ node.children, child.Nested := by
  cases nested with
  | mk _ inner => exact inner

instance decidableInOrder (upper : Nat) :
    (lower : Nat) → (nodes : List Node) → Decidable (InOrder lower upper nodes)
  | _, [] => inferInstanceAs (Decidable (_ ≤ _))
  | _, node :: nodes =>
    have := decidableInOrder upper node.stop nodes
    inferInstanceAs (Decidable (_ ∧ _ ∧ _))

mutual

/-- Tests whether a node is nested. -/
def nests : Node → Bool
  | .mk _ _ start stop children => decide (InOrder start stop children) && allNest children

/-- Tests whether all of some nodes are nested. -/
def allNest : List Node → Bool
  | [] => true
  | node :: nodes => node.nests && allNest nodes

end

mutual

/-- The test of nesting is right. -/
theorem nested_of_nests {node : Node} (tested : node.nests = true) : node.Nested := by
  cases node with
  | mk kind role start stop children =>
    rw [nests, Bool.and_eq_true, decide_eq_true_eq] at tested
    exact .mk tested.1 (nested_of_allNest tested.2)

private theorem nested_of_allNest {nodes : List Node} (tested : allNest nodes = true) :
    ∀ node ∈ nodes, node.Nested := by
  cases nodes with
  | nil => exact forall_mem_nil _
  | cons node nodes =>
    rw [allNest, Bool.and_eq_true] at tested
    exact forall_mem_cons.2 ⟨nested_of_nests tested.1, nested_of_allNest tested.2⟩

end

end Node

/-! ## Trees that are read -/

open Grammar (View) in
mutual

private theorem nested_of_nodeOf? {view : View Construct Field} {node : Node} (nested : view.Nested)
    (shown : nodeOf? view = some node) :
    node.Nested ∧ node.start = view.start ∧ node.stop = view.stop := by
  match view with
  | .node (.construct name) field start stop missing cost parts =>
    rw [nodeOf?] at shown
    obtain rfl := Option.some.inj shown
    rw [View.Nested] at nested
    obtain ⟨inOrder, inner⟩ := inOrder_nodesOf nested
    exact ⟨.mk inOrder inner, rfl, rfl⟩
  | .node .text field start stop missing cost parts => cases shown
  | .node .fault field start stop missing cost parts => cases shown

private theorem inOrder_nodesOf {lower upper : Nat} {views : List (View Construct Field)}
    (nested : View.NestedBetween lower upper views) :
    Node.InOrder lower upper (nodesOf views) ∧ ∀ node ∈ nodesOf views, node.Nested := by
  match views with
  | [] =>
    rw [View.NestedBetween] at nested
    exact ⟨nested, by simp [nodesOf]⟩
  | view :: views =>
    rw [View.NestedBetween] at nested
    obtain ⟨above, here, later⟩ := nested
    have proper := here.le
    obtain ⟨inOrder, inner⟩ := inOrder_nodesOf later
    rw [nodesOf]
    cases shown : nodeOf? view with
    | none => exact ⟨inOrder.mono (Nat.le_trans above proper), inner⟩
    | some node =>
      obtain ⟨isNested, start, stop⟩ := nested_of_nodeOf? here shown
      refine ⟨⟨start ▸ above, by omega, stop ▸ inOrder⟩, ?_⟩
      exact forall_mem_cons.2 ⟨isNested, inner⟩

end

/-- The tree of a script is nested. -/
theorem nested_of_parse? {lang : Language} {script : Text} {tree : Node}
    (parsed : parse? lang script = some tree) : tree.Nested := by
  unfold parse? at parsed
  generalize machine lang = reader at parsed
  obtain ⟨grown, -, shown⟩ := Option.bind_eq_some_iff.1 parsed
  exact (nested_of_nodeOf? (grown.nested_view reader.plan) shown).1

/-! ## Literals in a row -/

/-- Whether extraction looks for literals inside of a literal. -/
def IsOpen (script : Text) (literal : Node × Ancestors) : Prop :=
  literal.1.kind = .template ∧ holdsText script literal.1 = false

instance (script : Text) (literal : Node × Ancestors) : Decidable (IsOpen script literal) :=
  inferInstanceAs (Decidable (_ ∧ _))

/-- The literals inside of a literal. -/
def inside (script : Text) (literal : Node × Ancestors) : List (Node × Ancestors) :=
  literalsAll script (literal.1 :: literal.2) literal.1.children

/-- What literals lie in a node, by its kind. -/
theorem literals_cases (script : Text) (around : Ancestors) (node : Node) :
    (literals script around node = [] ∨
      literals script around node = literalsAll script (node :: around) node.children) ∨
    ¬ IsOpen script (node, around) ∧ literals script around node = [(node, around)] ∨
    IsOpen script (node, around) ∧
      literals script around node = (node, around) :: inside script (node, around) := by
  cases node with
  | mk kind role start stop children =>
    rw [literals.eq_def]
    dsimp only
    split
    · exact .inl (.inl rfl)
    · exact .inr (.inl ⟨fun opened => Kind.noConfusion opened.1, rfl⟩)
    · split
      · rename_i holds
        refine .inr (.inl ⟨fun opened => ?_, rfl⟩)
        rw [opened.2] at holds
        cases holds
      · rename_i empty
        exact .inr (.inr ⟨⟨rfl, by simpa using empty⟩, rfl⟩)
    · exact .inl (.inr rfl)

/-- Whether literals lie between two places, the one behind the other unless the one is
inside of the other, and with all that is inside of them. -/
structure Listed (script : Text) (lower upper : Nat) (listed : List (Node × Ancestors)) : Prop where
  within : ∀ literal ∈ listed, lower ≤ literal.1.start ∧ literal.1.stop ≤ upper ∧ literal.1.Nested
  follow : listed.Pairwise fun left right => left.1.stop ≤ right.1.start ∨
    IsOpen script left ∧ right ∈ inside script left
  whole : ∀ literal ∈ listed, IsOpen script literal → literal :: inside script literal <:+: listed

namespace Listed

variable {script : Text} {lower middle upper : Nat} {listed more : List (Node × Ancestors)}
  {node : Node} {around : Ancestors}

private theorem nil : Listed script lower upper [] :=
  ⟨by simp, .nil, by simp⟩

private theorem append (first : Listed script lower middle listed)
    (second : Listed script middle upper more) (above : lower ≤ middle) (below : middle ≤ upper) :
    Listed script lower upper (listed ++ more) := by
  refine ⟨fun literal member => ?_, ?_, fun literal member opened => ?_⟩
  · rcases mem_append.1 member with member | member
    · obtain ⟨start, stop, nested⟩ := first.within literal member
      exact ⟨start, by omega, nested⟩
    · obtain ⟨start, stop, nested⟩ := second.within literal member
      exact ⟨by omega, stop, nested⟩
  · refine pairwise_append.2 ⟨first.follow, second.follow, fun left isLeft right isRight => ?_⟩
    exact .inl (Nat.le_trans (first.within left isLeft).2.1 (second.within right isRight).1)
  · rcases mem_append.1 member with member | member
    · exact (first.whole literal member opened).trans (prefix_append _ _).isInfix
    · exact (second.whole literal member opened).trans (suffix_append _ _).isInfix

private theorem closed (nested : node.Nested) (shut : ¬ IsOpen script (node, around)) :
    Listed script node.start node.stop [(node, around)] := by
  refine ⟨?_, pairwise_singleton _ _, ?_⟩
  · rintro literal member
    obtain rfl := mem_singleton.1 member
    exact ⟨Nat.le_refl _, Nat.le_refl _, nested⟩
  · rintro literal member opened
    obtain rfl := mem_singleton.1 member
    exact absurd opened shut

private theorem opened (nested : node.Nested) (isOpen : IsOpen script (node, around))
    (later : Listed script node.start node.stop (inside script (node, around))) :
    Listed script node.start node.stop ((node, around) :: inside script (node, around)) := by
  refine ⟨?_, ?_, ?_⟩
  · exact forall_mem_cons.2 ⟨⟨Nat.le_refl _, Nat.le_refl _, nested⟩, later.within⟩
  · exact .cons (fun right isRight => .inr ⟨isOpen, isRight⟩) later.follow
  · refine forall_mem_cons.2 ⟨fun _ => infix_refl _, fun literal member itsOpen => ?_⟩
    exact (later.whole literal member itsOpen).trans (suffix_cons _ _).isInfix

end Listed

mutual

/-- The literals of a node lie within its range. -/
theorem listed_literals (script : Text) (around : Ancestors) {node : Node} (nested : node.Nested) :
    Listed script node.start node.stop (literals script around node) := by
  match node with
  | .mk kind role start stop children =>
    have below := listed_literalsAll script (.mk kind role start stop children :: around)
      nested.inOrder nested.inner
    rcases literals_cases script around (.mk kind role start stop children) with
      (none | all) | ⟨shut, alone⟩ | ⟨isOpen, both⟩
    · exact none ▸ .nil
    · exact all ▸ below
    · exact alone ▸ .closed nested shut
    · exact both ▸ .opened nested isOpen below

/-- The literals of nodes in order lie between the same places. -/
theorem listed_literalsAll (script : Text) (around : Ancestors) {lower upper : Nat}
    {nodes : List Node} (inOrder : Node.InOrder lower upper nodes)
    (inner : ∀ node ∈ nodes, node.Nested) :
    Listed script lower upper (literalsAll script around nodes) := by
  match nodes with
  | [] => exact .nil
  | node :: nodes =>
    obtain ⟨above, proper, later⟩ := inOrder
    obtain ⟨here, inner⟩ := forall_mem_cons.1 inner
    have first := listed_literals script around here
    have rest := listed_literalsAll script around later inner
    rw [literalsAll]
    refine .append ⟨fun literal member => ?_, first.follow, first.whole⟩ rest
      (Nat.le_trans above proper) later.le
    obtain ⟨start, stop, nested⟩ := first.within literal member
    exact ⟨Nat.le_trans above start, stop, nested⟩

end

end Phrasebook.Script
