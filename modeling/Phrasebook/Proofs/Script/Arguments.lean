import Phrasebook.Proofs.Script.Overlap

/-!
# Arguments of template literals

A template literal that is replaced is stored as its fixed parts with a placeholder for every
substitution, and the call in its place passes on one argument for every substitution, in the
same order. An argument is what stands first in its substitution. That is the expression,
where no comment stands before it; otherwise the comment is passed on and the expression is
lost.
-/

namespace Phrasebook.Script

open List Pass

variable {node : Node} {script : Text} {scope : Scope} {names : List Node}
  {values : List CodePoints} {added : List KeyedPhrase} {literal : Node × Ancestors}

/-! ## Chains of names -/

/-- A member that is reached by names alone, and these names from left to right. -/
inductive Chain : Node → List Node → Prop
  | name {node : Node} (isName : node.kind ∈ [.identifier, .this, .propertyName]) :
      Chain node [node]
  | member {node object property : Node} {left right : List Node} (isMember : node.kind = .member)
      (certain : ∀ child ∈ node.children, child.kind ≠ .optionalMark)
      (isObject : node.child? .object = some object)
      (isProperty : node.child? .property = some property) (before : Chain object left)
      (behind : Chain property right) : Chain node (left ++ right)

/-- The names of a chain with dots between them. -/
def dotted (script : Text) (names : List Node) : Text :=
  Text.join ['.'] (names.map (Node.textIn script))

private theorem dotted_append (script : Text) {left right : List Node} (leftNames : left ≠ [])
    (rightNames : right ≠ []) :
    dotted script (left ++ right) = dotted script left ++ '.' :: dotted script right := by
  induction left with
  | nil => exact absurd rfl leftNames
  | cons name names ih =>
    cases names with
    | nil => simp [dotted, Text.join, intercalate_cons_of_ne_nil, rightNames]
    | cons next names =>
      have later := ih (cons_ne_nil next names)
      simp only [dotted, Text.join, cons_append, map_cons, intercalate_cons_cons]
        at later ⊢
      rw [later]
      simp

private theorem Chain.ne_nil (chain : Chain node names) : names ≠ [] := by
  induction chain with
  | name => exact cons_ne_nil _ _
  | member _ _ _ _ _ _ nonempty _ => exact append_ne_nil_of_left_ne_nil nonempty _

/-- The path of a chain is its names with dots between them. -/
theorem Chain.memberPath?_eq (chain : Chain node names) :
    memberPath? script node = some (dotted script names) := by
  induction chain with
  | @name node isName =>
    obtain ⟨kind, role, start, stop, children⟩ := node
    have kinds : kind = .identifier ∨ kind = .this ∨ kind = .propertyName := by
      simpa [Node.kind] using isName
    rcases kinds with rfl | rfl | rfl <;> simp [memberPath?, dotted, Text.join]
  | @member node object property left right isMember certain isObject isProperty before behind
      objectPath propertyPath =>
    obtain ⟨kind, role, start, stop, children⟩ := node
    obtain rfl : kind = .member := isMember
    have unmarked : (children.any fun child => child.kind == .optionalMark) = false :=
      any_eq_false.2 fun child member => by simpa using certain child member
    rw [memberPath?]
    simp only [unmarked, Bool.false_eq_true, if_false, pathIn?_eq]
    rw [show children.find? (fun child => child.role == .object) = some object from isObject,
      show children.find? (fun child => child.role == .property) = some property from isProperty,
      Option.bind_some, Option.bind_some, objectPath, propertyPath,
      dotted_append script before.ne_nil behind.ne_nil]

/-- A member that has a path is a chain. -/
theorem exists_chain {script path : Text} {node : Node}
    (reached : memberPath? script node = some path) : ∃ names, Chain node names := by
  by_cases isMember : node.kind = .member
  · obtain ⟨unmarked, object, property, head, tail, isObject, isProperty, headPath, tailPath, -⟩ :=
      memberPath?_member isMember reached
    have objectMember := mem_of_find?_eq_some isObject
    have propertyMember := mem_of_find?_eq_some isProperty
    obtain ⟨left, before⟩ := exists_chain headPath
    obtain ⟨right, behind⟩ := exists_chain tailPath
    refine ⟨_, .member isMember (fun child member => ?_) isObject isProperty before behind⟩
    simpa using any_eq_false.1 unmarked child member
  · refine ⟨_, .name ?_⟩
    obtain ⟨kind, role, start, stop, children⟩ := node
    cases kind <;> simp_all [memberPath?, Node.kind]
termination_by sizeOf node
decreasing_by
  all_goals
    obtain ⟨kind, role, start, stop, children⟩ := node
    simp only [Node.children] at objectMember propertyMember
    simp only [Node.mk.sizeOf_spec]
    have := sizeOf_lt_of_mem objectMember
    have := sizeOf_lt_of_mem propertyMember
    omega

/-! ## What is passed on -/

/-- What an expression is passed on as: a chain as its names with dots between them, and any
other expression as it is written. -/
inductive Passed (script : Text) (expr : Node) : Text → Prop
  | chain {names : List Node} (reached : Chain expr names) :
      Passed script expr (dotted script names)
  | written (other : ∀ names, ¬ Chain expr names) :
      Passed script expr (expr.textIn script)

private theorem Passed.eq_textIn {argument : Text} (passed : Passed script node argument)
    (other : node.kind ≠ .member) : argument = node.textIn script := by
  cases passed with
  | chain reached => exact memberPath?_eq_textIn other reached.memberPath?_eq
  | written => rfl

/-- What stands first in a substitution is passed on. -/
theorem passed_argumentText (script : Text) {substitution first : Node} {others : List Node}
    (children : substitution.children = first :: others) :
    Passed script first (argumentText script substitution) := by
  rw [argumentText, children]
  dsimp only
  cases reached : memberPath? script first with
  | some path =>
    obtain ⟨names, chain⟩ := exists_chain reached
    obtain rfl := Option.some.inj (chain.memberPath?_eq.symm.trans reached)
    split
    · exact .chain chain
    · rename_i other
      rw [← memberPath?_eq_textIn (by simpa using other) reached]
      exact .chain chain
  | none =>
    rw [Option.getD_none, ite_self]
    refine .written fun names chain => ?_
    rw [chain.memberPath?_eq] at reached
    cases reached

/-- What the call gets for a substitution. Wherever the expression stands in it, the
expression is passed on if nothing stands before it, and else the first comment is. -/
structure Argument (script : Text) (substitution : Node) (argument : Text) : Prop where
  expr : ∀ expr others, substitution.children = expr :: others → Passed script expr argument
  comment : ∀ comment comments expr others,
    substitution.children = comment :: comments ++ expr :: others →
    comment.kind ≠ .member → argument = comment.textIn script
  nothing : substitution.children = [] → argument = "undefined".toList

private theorem argument_argumentText (script : Text) (substitution : Node) :
    Argument script substitution (argumentText script substitution) where
  expr _ _ children := passed_argumentText script children
  comment _ _ _ _ children other := (passed_argumentText script children).eq_textIn other
  nothing children := by rw [argumentText, children]

private theorem forall₂_argument (script : Text) (nodes : List Node) :
    List.Forall₂ (Argument script) nodes (nodes.map (argumentText script)) := by
  induction nodes with
  | nil => exact .nil
  | cons node nodes ih =>
    exact .cons (argument_argumentText script node) ih

/-! ## Parts and holes -/

/-- Fixed parts with holes between them. -/
def filled {α : Type} : List (List α) → List (List α) → List α
  | [], _ => []
  | part :: _, [] => part
  | part :: parts, hole :: holes => part ++ hole ++ filled parts holes

private theorem length_go (script : Text) (node : Node) (pos : Nat) (children : List Node) :
    (fixedParts.go script node pos children).length =
      (children.filter fun child => child.kind == .substitution).length + 1 := by
  induction children generalizing pos with
  | nil => rfl
  | cons child children ih =>
    rw [fixedParts.go, filter_cons]
    split <;> simp [ih]

/-- There is one fixed part more than there are substitutions. -/
theorem length_fixedParts (script : Text) (node : Node) :
    (fixedParts script node).length = (substitutions node).length + 1 :=
  length_go script node _ node.children

private theorem filled_go {pos lower : Nat} {children : List Node} (below : pos ≤ lower)
    (inOrder : Node.InOrder lower (node.stop - 1) children) :
    filled (fixedParts.go script node pos children)
        ((children.filter fun child => child.kind == .substitution).map (Node.textIn script)) =
      script.slice pos (node.stop - 1 : Nat) := by
  induction children generalizing pos lower with
  | nil => rfl
  | cons child children ih =>
    obtain ⟨above, proper, later⟩ := inOrder
    rw [fixedParts.go, filter_cons]
    split
    · have below : pos ≤ child.start := by omega
      rw [map_cons, filled, ih (Nat.le_refl _) later, Node.textIn,
        ← slice_append_slice script below proper,
        ← slice_append_slice script (by omega) later.le]
    · exact ih (by omega) later

/-- Whether the children of a literal stand between its marks. -/
def Marked (node : Node) : Prop :=
  Node.InOrder (node.start + 1) (node.stop - 1) node.children

/-- What stands between the marks of a template literal is its fixed parts with its
substitutions between them. -/
theorem filled_fixedParts (script : Text) (marked : Marked node) :
    filled (fixedParts script node) ((substitutions node).map (Node.textIn script)) =
      script.slice (node.start + 1 : Nat) (node.stop - 1 : Nat) :=
  filled_go (Nat.le_refl _) marked

/-- The placeholders for as many substitutions as there are. -/
def placeholders (count : Nat) : List CodePoints :=
  (range count).map fun index => CodePoint.ofText (Call.placeholder index)

private theorem weave_eq_filled {α : Type} (mark : Nat → List α) (index : Nat) (part : List α)
    (parts : List (List α)) :
    Call.weave mark index (part :: parts) =
      filled (part :: parts) ((range' index parts.length).map mark) := by
  induction parts generalizing index part with
  | nil => rfl
  | cons next parts ih =>
    rw [Call.weave, ih, length_cons, range'_succ, map_cons, filled]
    simp

private theorem length_of_mapM_cook {bodies : List Text}
    (cooked : bodies.mapM Literal.cook = .ok values) :
    values.length = bodies.length := by
  induction bodies generalizing values with
  | nil =>
    obtain rfl := Except.ok.inj cooked
    rfl
  | cons body bodies ih =>
    obtain ⟨value, later, -, rest, rfl⟩ := mapM_cook_cons_eq_ok cooked
    rw [length_cons, length_cons, ih rest]

/-! ## Calls -/

/-- A call with a quoted key, and with an object of numbered arguments if there are any. -/
def callText (function key : Text) (exprs : List Text) : Text :=
  function ++ "(\"".toList ++ key ++ "\"".toList ++
    (if exprs = [] then []
      else ", \x7b ".toList ++ Text.join ", ".toList (exprs.mapIdx fun index expr =>
        "arg".toList ++ Text.ofNat index ++ ": ".toList ++ expr) ++ " \x7d".toList) ++
    ")".toList

private theorem render_eq_callText (function key : Text) (exprs : List Text) :
    Call.render function key '"' exprs = callText function key exprs := by
  rw [Call.render, callText, Call.properties_eq_mapIdx]
  cases exprs <;> simp [Call.argument]

/-- What a template literal is stored as and replaced by, with the values of its fixed parts
and the arguments of its call. -/
structure Localised (scope : Scope) (script : Text) (node : Node) (values : List CodePoints)
    (passed : List Text) (phrase : KeyedPhrase) (edit : Edit Char) : Prop where
  cooked : (fixedParts script node).mapM Literal.cook = .ok values
  counted : values.length = (substitutions node).length + 1
  stored : CodePoint.ofText phrase.phrase.text =
    filled values (placeholders (substitutions node).length)
  placed : phrase.phrase.span = byteSpan script node ∧ phrase.phrase.setting = .scriptTemplate
  keyed : phrase.key = Key.ofText phrase.phrase.text scope.path scope.keyLength
  aligned : List.Forall₂ (Argument script) (substitutions node) passed
  replaced : edit = ⟨node.start, node.stop, callText scope.functions.script phrase.key passed⟩

/-- A template literal is registered once, under the text that its fixed parts make with
placeholders between them. -/
theorem emits_extractTemplate (cooked : (fixedParts script node).mapM Literal.cook = .ok values)
    (holds : values.any CodePoint.hasIdeograph = true) {result : Option (Edit Char)}
    (emits : Emits (extractTemplate script scope node) (.ok result) added) :
    ∃ phrase edit, result = some edit ∧ added = [phrase] ∧
      Localised scope script node values (arguments script node) phrase edit := by
  have count : values.length = (substitutions node).length + 1 := by
    rw [length_of_mapM_cook cooked, length_fixedParts]
  obtain ⟨value, later, rfl⟩ := exists_cons_of_length_eq_add_one count
  rw [extractTemplate, valuesOf_eq, cooked] at emits
  simp only [pure_bind, holds, Bool.not_true, Bool.false_eq_true, if_false] at emits
  obtain ⟨key, first, second, registers, rest, rfl⟩ :=
    emits.of_bind (.register _ _ _ _) fun _ => .pure _
  obtain ⟨rfl, rfl⟩ := Emits.pure_iff.1 rest
  cases readable : Pass.located (byteSpan script node) (.ok (Call.weave
      (fun index => CodePoint.ofText (Call.placeholder index)) 0 (value :: later))) with
  | error failure =>
    cases (registers.unique (.register_error scope _ _ readable)).1
  | ok stored =>
    obtain ⟨sameKey, rfl⟩ := registers.unique (.register scope _ _ readable)
    obtain rfl := Except.ok.inj sameKey
    refine ⟨_, _, rfl, rfl, cooked, count, ?_, ⟨rfl, rfl⟩, rfl, forall₂_argument script _, ?_⟩
    · obtain ⟨points, same, written⟩ := exists_of_readable (located_eq_ok_iff.1 readable).2
      obtain rfl := Except.ok.inj same
      rw [← CodePoint.eq_ofText_of_written written, weave_eq_filled, placeholders,
        range_eq_range', Nat.succ.inj count]
    · rw [callEdit, render_eq_callText]
      rfl

/-- What extraction makes of one literal is among what it makes of all. -/
theorem exists_emits_of_mem {literals : List (Node × Ancestors)} {found : List (Edit Char)}
    (emits : Emits (extractAll script scope literals) (.ok found) added)
    (member : literal ∈ literals) :
    ∃ result phrases, Emits (extractLiteral script scope literal.1 literal.2) (.ok result) phrases ∧
      result.toList ⊆ found ∧ phrases ⊆ added := by
  induction literals generalizing found added with
  | nil => cases member
  | cons head literals ih =>
    rw [extractAll] at emits
    obtain ⟨result, first, second, here, rest, rfl⟩ :=
      emits.of_bind (registers_extractLiteral _ _ _ _) fun _ =>
        .bind (registers_extractAll _ _ _) fun _ => .pure _
    obtain ⟨edits, third, fourth, later, last, rfl⟩ :=
      rest.of_bind (registers_extractAll _ _ _) fun _ => .pure _
    obtain ⟨rfl, rfl⟩ := Emits.pure_iff.1 last
    rcases mem_cons.1 member with rfl | member
    · exact ⟨result, first, here, subset_append_left _ _, subset_append_left _ _⟩
    · obtain ⟨itsResult, phrases, itsEmits, edited, registered⟩ := ih later member
      refine ⟨itsResult, phrases, itsEmits, subset_append_of_subset_right _ edited, ?_⟩
      rw [append_nil]
      exact subset_append_of_subset_right _ registered

private theorem Replaced.exists_values (replaced : Replaced scope script literal)
    (isTemplate : literal.1.kind = .template) :
    ∃ values, (fixedParts script literal.1).mapM Literal.cook = .ok values ∧
      values.any CodePoint.hasIdeograph = true := by
  obtain ⟨-, points, value, holds⟩ := replaced
  rw [literalValue, if_neg (by simp [isTemplate]), templateValue] at value
  cases cooked : (fixedParts script literal.1).mapM Literal.cook with
  | error fault =>
    rw [cooked] at value
    cases value
  | ok values =>
    rw [cooked] at value
    obtain rfl := Except.ok.inj value
    exact ⟨values, rfl, by rwa [hasIdeograph_weave] at holds⟩

/-- A template literal that is replaced is stored as the values of its fixed parts with
numbered placeholders for its substitutions, and its call passes on what stands first in each
substitution, in the same order. Between its marks, the literal is these parts and
substitutions. -/
theorem template_arguments_aligned (scope : Scope) (script : Text) (tree : Node)
    (session : Session) (found : List (Edit Char))
    (read : ((edits scope script tree).run session).1 = .ok found) :
    ∀ literal ∈ literals script [] tree, literal.1.kind = .template → Replaced scope script literal →
      (∃ values passed phrase edit,
        Localised scope script literal.1 values passed phrase edit ∧
        phrase ∈ ((edits scope script tree).run session).2.phrases ∧ edit ∈ found) ∧
      (Marked literal.1 →
        filled (fixedParts script literal.1)
            ((substitutions literal.1).map (Node.textIn script)) =
          script.slice (literal.1.start + 1 : Nat) (literal.1.stop - 1 : Nat)) := by
  intro literal member isTemplate replaced
  refine ⟨?_, filled_fixedParts script⟩
  obtain ⟨result, added, emits⟩ := registers_edits scope script tree
  obtain rfl : result = .ok found := (emits.result session).symm.trans read
  obtain ⟨values, cooked, holds⟩ := replaced.exists_values isTemplate
  obtain ⟨result, phrases, itsEmits, edited, registered⟩ := exists_emits_of_mem emits member
  rw [extractLiteral, if_neg (by simp [replaced.1]), if_neg (by simp [isTemplate])] at itsEmits
  obtain ⟨phrase, edit, rfl, rfl, localised⟩ := emits_extractTemplate cooked holds itsEmits
  refine ⟨values, _, phrase, edit, localised, ?_, edited (by simp)⟩
  rw [emits.phrases session]
  exact mem_append_right _ (registered (by simp))

/-- A template literal with a comment before the expression of its first substitution, and
with blanks in the chain that is its second. -/
def commentedTemplate : Node :=
  .mk .template .none 0 22 [.mk .other .none 1 2 [],
    .mk .substitution .none 2 11 [.mk .comment .none 4 9 [], .mk .identifier .none 9 10 []],
    .mk .other .none 11 13 [], .mk .substitution .none 13 21 [.mk .member .none 15 20
      [.mk .identifier .object 15 16 [], .mk .propertyName .property 19 20 []]]]

/-- The script that is a statement with that literal. -/
def commentedTree : Node :=
  .mk .other .none 0 22 [.mk .other .none 0 22 [commentedTemplate]]

/-- The comment is passed on in the place of the expression behind it, and the chain without
its blanks. -/
theorem template_arguments_aligned_commented :
    let scope : Scope := { path := .ofText "src/a.ts".toList, shown := "src/a.ts".toList }
    let script : Text :=
      Char.ofNat 0x60 :: "共$\x7b/*数*/n\x7d条,$\x7ba . b\x7d".toList ++ [Char.ofNat 0x60]
    let call : Edit Char :=
      ⟨0, 22, callText ['t'] "a_019eb9".toList ["/*数*/".toList, "a.b".toList]⟩
    Marked commentedTemplate ∧
      Replaced scope script (commentedTemplate, commentedTree.children ++ [commentedTree]) ∧
      ((edits scope script commentedTree).run {}).1 = .ok [call] ∧
      (∃ values passed phrase, Localised scope script commentedTemplate values passed phrase call) ∧
      filled (fixedParts script commentedTemplate)
        ((substitutions commentedTemplate).map (Node.textIn script)) = script.slice 1 21 := by
  intro scope script call
  let literal := (commentedTemplate, commentedTree.children ++ [commentedTree])
  have replaced : Replaced scope script literal := by decide +kernel
  have read : ((edits scope script commentedTree).run {}).1 = .ok [call] :=
    eq_ok_of_toOption (by decide +kernel)
  have listed : literal ∈ literals script [] commentedTree := by
    change literal ∈ (if holdsText script commentedTemplate then [literal]
      else literal :: inside script literal) ++ [] ++ []
    rw [append_nil, append_nil]
    split <;> exact mem_cons_self
  have marked : Marked commentedTemplate :=
    show Node.InOrder 1 21 commentedTemplate.children by decide
  obtain ⟨⟨values, passed, phrase, edit, localised, -, made⟩, body⟩ :=
    template_arguments_aligned scope script commentedTree {} _ read _ listed rfl replaced
  obtain rfl := mem_singleton.1 made
  exact ⟨marked, replaced, read, ⟨values, passed, phrase, localised⟩, body marked⟩

end Phrasebook.Script
