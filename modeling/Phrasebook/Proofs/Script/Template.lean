import Mathlib.Data.List.Forall2
import Phrasebook.Proofs.Call
import Phrasebook.Proofs.Literal.Cooked
import Phrasebook.Proofs.Markup.Substitution
import Phrasebook.Script.Extract

/-!
# Template literals of scripts

The tree of a script tells the fixed parts of a template literal from its substitutions.
Extraction cooks each part by itself and takes the expression of each substitution for an
argument. How a literal is written, part by part and hole by hole, is a relation between the
script and the nodes of the literal; the parser plays no role in it.
-/

namespace Phrasebook.Script

open List

variable {script path : Text} {node : Node} {hole : Text} {bodies : List Text}
  {values : List CodePoints}

/-! ## Arguments -/

/-- Whether a text becomes another by taking blanks away around dots. -/
inductive SameUpToDots : Text → Text → Prop
  | refl (text : Text) : SameUpToDots text text
  | dot {left right object property gap secondGap : Text} (gapBlank : Text.AllBlank gap)
      (secondBlank : Text.AllBlank secondGap) (before : SameUpToDots left object)
      (behind : SameUpToDots right property) :
      SameUpToDots (left ++ gap ++ '.' :: (secondGap ++ right)) (object ++ '.' :: property)

theorem unblanked_of_allBlank {gap : Text} (blank : Text.AllBlank gap) :
    Markup.unblanked gap = [] := by
  simpa [Markup.unblanked, Text.AllBlank] using blank

theorem unblanked_append (left right : Text) :
    Markup.unblanked (left ++ right) = Markup.unblanked left ++ Markup.unblanked right :=
  filter_append _ _

/-- Texts that differ in dots are equal without blanks. -/
theorem SameUpToDots.unblanked {text other : Text} (same : SameUpToDots text other) :
    Markup.unblanked text = Markup.unblanked other := by
  induction same with
  | refl => rfl
  | dot gapBlank secondBlank before behind beforeSame behindSame =>
    have dot (text : Text) : Markup.unblanked ('.' :: text) = '.' :: Markup.unblanked text := rfl
    simp only [unblanked_append, dot, unblanked_of_allBlank gapBlank,
      unblanked_of_allBlank secondBlank,
      beforeSame, behindSame, append_nil, nil_append]

/-- Whether members that are reached by names are written with nothing but blanks around
their dots. -/
inductive DotsBlank (script : Text) : Node → Prop
  | plain {node : Node} (other : node.kind ≠ .member) : DotsBlank script node
  | optional {node : Node}
      (marked : (node.children.any fun child => child.kind == .optionalMark) = true) :
      DotsBlank script node
  | member {node object property : Node} {gap secondGap : Text}
      (isObject : node.child? .object = some object)
      (isProperty : node.child? .property = some property)
      (spelled : node.textIn script =
        object.textIn script ++ gap ++ '.' :: (secondGap ++ property.textIn script))
      (gapBlank : Text.AllBlank gap) (secondBlank : Text.AllBlank secondGap)
      (before : DotsBlank script object) (behind : DotsBlank script property) :
      DotsBlank script node

theorem pathIn?_eq (script : Text) (role : Role) (nodes : List Node) :
    pathIn? script role nodes =
      (nodes.find? fun node => node.role == role).bind (memberPath? script) := by
  induction nodes with
  | nil => rfl
  | cons node nodes ih =>
    rw [pathIn?, find?_cons]
    cases node.role == role with
    | true => rfl
    | false => simpa using ih

theorem memberPath?_eq_textIn (other : node.kind ≠ .member)
    (reached : memberPath? script node = some path) : path = node.textIn script := by
  obtain ⟨kind, role, start, stop, children⟩ := node
  cases kind <;> simp_all [memberPath?, Node.kind]

/-- A member is reached by its object and property. -/
theorem memberPath?_member (isMember : node.kind = .member)
    (reached : memberPath? script node = some path) :
    (node.children.any fun child => child.kind == .optionalMark) = false ∧
      ∃ object property head tail, node.child? .object = some object ∧
        node.child? .property = some property ∧ memberPath? script object = some head ∧
        memberPath? script property = some tail ∧ path = head ++ '.' :: tail := by
  obtain ⟨kind, role, start, stop, children⟩ := node
  obtain rfl : kind = .member := isMember
  rw [memberPath?] at reached
  simp only [pathIn?_eq] at reached
  split at reached
  · cases reached
  · rename_i unmarked
    split at reached
    · rename_i head tail headPath tailPath
      obtain ⟨object, isObject, headPath⟩ := Option.bind_eq_some_iff.1 headPath
      obtain ⟨property, isProperty, tailPath⟩ := Option.bind_eq_some_iff.1 tailPath
      exact ⟨Bool.eq_false_iff.2 unmarked, object, property, head, tail, isObject, isProperty,
        headPath,
        tailPath, (Option.some.inj reached).symm⟩
    · cases reached

/-- The path of a member is its text up to blanks around dots. -/
theorem DotsBlank.sameUpToDots (blank : DotsBlank script node)
    (reached : memberPath? script node = some path) : SameUpToDots (node.textIn script) path := by
  induction blank generalizing path with
  | plain other => exact memberPath?_eq_textIn other reached ▸ .refl _
  | @optional node marked =>
    by_cases isMember : node.kind = .member
    · rw [(memberPath?_member isMember reached).1] at marked
      cases marked
    · exact memberPath?_eq_textIn isMember reached ▸ .refl _
  | @member node object property gap secondGap isObject isProperty spelled gapBlank secondBlank before
      behind beforeSame behindSame =>
    by_cases isMember : node.kind = .member
    · obtain ⟨-, _, _, head, tail, sameObject, sameProperty, headPath, tailPath, rfl⟩ :=
        memberPath?_member isMember reached
      obtain rfl := Option.some.inj (isObject.symm.trans sameObject)
      obtain rfl := Option.some.inj (isProperty.symm.trans sameProperty)
      rw [spelled]
      exact .dot gapBlank secondBlank (beforeSame headPath) (behindSame tailPath)
    · exact memberPath?_eq_textIn isMember reached ▸ .refl _

/-- The substitutions of a template literal. -/
def substitutions (node : Node) : List Node :=
  node.children.filter fun child => child.kind == .substitution

/-- The arguments of the call for a template literal. -/
def arguments (script : Text) (node : Node) : List Text :=
  (substitutions node).map (argumentText script)

/-- Whether a hole is the expression of its substitution with nothing but blanks around it
and, where the expression is a path, around the dots of it. A comment in a hole is more
than that. -/
def Uncommented (script hole : Text) (substitution : Node) : Prop :=
  ∃ expr others lead trail, substitution.children = expr :: others ∧
    hole = lead ++ expr.textIn script ++ trail ∧ Text.AllBlank lead ∧ Text.AllBlank trail ∧
    expr.textIn script ≠ [] ∧ Text.Trimmed (expr.textIn script) ∧
    DotsBlank script expr

private theorem Uncommented.sameUpToDots {substitution : Node}
    (uncommented : Uncommented script hole substitution) :
    SameUpToDots (Text.trim hole) (argumentText script substitution) := by
  obtain ⟨expr, others, lead, trail, children, rfl, leadBlank, trailBlank, nonempty, trimmed,
    dots⟩ := uncommented
  have trim : Text.trim (lead ++ expr.textIn script ++ trail) = expr.textIn script :=
    congrArg (fun cut => cut.2.1) (Text.cutBlanks_append leadBlank trailBlank nonempty trimmed)
  rw [trim, argumentText, children]
  dsimp only
  split
  · cases reached : memberPath? script expr with
    | none => exact .refl _
    | some path => exact dots.sameUpToDots reached
  · exact .refl _

/-- Holes without comments become arguments up to blanks. -/
theorem forall₂_sameUpToDots {holes : List Text} {nodes : List Node}
    (uncommented : List.Forall₂ (Uncommented script) holes nodes) :
    List.Forall₂ SameUpToDots (holes.map Text.trim) (nodes.map (argumentText script)) := by
  induction uncommented with
  | nil => exact .nil
  | cons here later ih => exact .cons here.sameUpToDots ih

/-! ## Fixed parts and holes -/

/-- How a template literal is written from `pos` up to `stop`: its first fixed part,
and every hole with the fixed part behind it. No part escapes the hole behind it. -/
inductive Row (script : Text) (stop : Nat) :
    (pos : Nat) → List Node → Text → List (Text × Text) → Prop
  | last {pos : Nat} (inside : pos ≤ stop) :
      Row script stop pos [] (script.slice pos stop) []
  | other {pos : Nat} {child : Node} {children : List Node} {first : Text}
      {cuts : List (Text × Text)} (isOther : child.kind ≠ .substitution)
      (later : Row script stop pos children first cuts) :
      Row script stop pos (child :: children) first cuts
  | hole {pos : Nat} {child : Node} {children : List Node} {hole first : Text}
      {cuts : List (Text × Text)} (isHole : child.kind = .substitution)
      (above : pos ≤ child.start)
      (spelled : child.textIn script = ['$', '{'] ++ hole ++ ['}'])
      (closed : Literal.escapesNext (script.slice pos child.start) = false)
      (later : Row script stop child.stop children first cuts) :
      Row script stop pos (child :: children) (script.slice pos child.start)
        ((hole, first) :: cuts)

private theorem start_lt_stop_of_spelled
    (spelled : node.textIn script = ['$', '{'] ++ hole ++ ['}']) :
    node.start < node.stop := by
  have lengths := congrArg List.length spelled
  simp only [Node.textIn, Text.slice, length_drop, length_take, length_append,
    length_cons, length_nil] at lengths
  omega

theorem slice_append_slice (script : Text) {start middle stop : Nat} (above : start ≤ middle)
    (below : middle ≤ stop) :
    script.slice start stop = script.slice start middle ++ script.slice middle stop := by
  simp only [Text.slice, drop_take]
  rw [show stop - start = (middle - start) + (stop - middle) by omega, take_add, drop_drop,
    show start + (middle - start) = middle by omega]

namespace Row

variable {first : Text} {stop pos : Nat} {children : List Node} {cuts : List (Text × Text)}

private theorem le (row : Row script stop pos children first cuts) : pos ≤ stop := by
  induction row with
  | last inside => exact inside
  | other isOther later ih => exact ih
  | hole isHole above spelled closed later ih =>
    have width := start_lt_stop_of_spelled spelled
    omega

/-- The literal is its parts with the holes between them. -/
theorem slice_eq (row : Row script stop pos children first cuts) :
    script.slice pos stop = first ++ Markup.substituted cuts := by
  induction row with
  | last inside => simp [Markup.substituted]
  | other isOther later ih => exact ih
  | hole isHole above spelled closed later ih =>
    have width := start_lt_stop_of_spelled spelled
    rw [slice_append_slice script above (by have := later.le; omega),
      slice_append_slice script (Nat.le_of_lt width) later.le, ih,
      Markup.substituted_cons, ← spelled]
    rfl

/-- Extraction finds the fixed parts. -/
theorem fixedParts_eq {node : Node} (row : Row script (node.stop - 1) pos children first cuts) :
    fixedParts.go script node pos children = first :: cuts.map Prod.snd := by
  generalize last : node.stop - 1 = stop at row
  induction row with
  | last inside => rw [fixedParts.go, last]; rfl
  | other isOther later ih =>
    rw [fixedParts.go, if_neg (by simpa using isOther), ih]
  | hole isHole above spelled closed later ih =>
    rw [fixedParts.go, if_pos (by simpa using isHole), ih]
    rfl

/-- Only the last part may leave an escape open. -/
theorem escapesNext_eq_false (row : Row script stop pos children first cuts) :
    ∀ part ∈ (first :: cuts.map Prod.snd).dropLast, Literal.escapesNext part = false := by
  induction row with
  | last inside => simp
  | other isOther later ih => exact ih
  | hole isHole above spelled closed later ih =>
    rw [map_cons, dropLast_cons_cons]
    exact forall_mem_cons.2 ⟨closed, ih⟩

end Row

/-! ## The phrase of a template literal -/

/-- The value of a template literal: each fixed part cooked, with placeholders between
them. -/
def templateValue (script : Text) (node : Node) : Except Literal.EscapeFault CodePoints :=
  ((fixedParts script node).mapM Literal.cook).map
    (Call.weave (fun index => CodePoint.ofText (Call.placeholder index)) 0)

theorem valuesOf_eq (bodies : List Text) :
    valuesOf bodies =
      match bodies.mapM Literal.cook with
      | .ok values => pure values
      | .error fault => throw (.escape fault) := by
  induction bodies with
  | nil => rfl
  | cons body bodies ih =>
    rw [valuesOf, valueOf, ih, mapM_cons]
    cases Literal.cook body with
    | error fault => rfl
    | ok value => cases bodies.mapM Literal.cook <;> rfl

private theorem mapM_cook_cons (body : Text) (bodies : List Text) :
    (body :: bodies).mapM Literal.cook =
      (Literal.cook body).bind fun value => (bodies.mapM Literal.cook).map (value :: ·) := by
  rw [mapM_cons]
  cases Literal.cook body with
  | error fault => rfl
  | ok value => cases bodies.mapM Literal.cook <;> rfl

theorem mapM_cook_cons_eq_ok {body : Text}
    (cooked : (body :: bodies).mapM Literal.cook = .ok values) :
    ∃ value later, Literal.cook body = .ok value ∧ bodies.mapM Literal.cook = .ok later ∧
      values = value :: later := by
  rw [mapM_cook_cons] at cooked
  cases here : Literal.cook body with
  | error fault =>
    rw [here] at cooked
    cases cooked
  | ok value =>
    cases rest : bodies.mapM Literal.cook with
    | error fault =>
      rw [here, rest] at cooked
      cases cooked
    | ok later =>
      rw [here, rest] at cooked
      exact ⟨value, later, rfl, rfl, (Except.ok.inj cooked).symm⟩

private theorem any_hasIdeograph_of_mapM (cooked : bodies.mapM Literal.cook = .ok values)
    (ideograph : Text.hasIdeograph bodies.flatten = true) :
    values.any CodePoint.hasIdeograph = true := by
  induction bodies generalizing values with
  | nil => cases ideograph
  | cons body bodies ih =>
    obtain ⟨value, later, here, rest, rfl⟩ := mapM_cook_cons_eq_ok cooked
    rw [any_cons, Bool.or_eq_true]
    rw [flatten_cons, Text.hasIdeograph, any_append, Bool.or_eq_true] at ideograph
    rcases ideograph with inBody | inLater
    · exact .inl (Literal.hasIdeograph_of_cook here inBody)
    · exact .inr (ih rest inLater)

/-- A template literal that holds text is registered under its value, and its call gets
its arguments. -/
theorem extractTemplate_eq (holds : holdsText script node = true) (scope : Scope) :
    extractTemplate script scope node = do
      let key ← Pass.register scope (byteSpan script node) .scriptTemplate (templateValue script node)
      return some (callEdit scope node key (arguments script node)) := by
  rw [extractTemplate, valuesOf_eq, templateValue]
  cases cooked : (fixedParts script node).mapM Literal.cook with
  | error fault => rfl
  | ok values =>
    have ideograph := any_hasIdeograph_of_mapM cooked holds
    simp only [pure_bind, ideograph, Bool.not_true, Bool.false_eq_true, if_false]
    rfl

private theorem sealed_placeholder (index : Nat) (rest : Text) :
    Literal.Sealed (Call.placeholder index ++ rest) :=
  ⟨by simp [Call.placeholder]; decide, rfl⟩

/-- Parts that leave no escape open are cooked together as they are cooked one by one. -/
theorem cook_weave {parts : List Text}
    (closed : ∀ part ∈ parts.dropLast, Literal.escapesNext part = false) (index : Nat) :
    Literal.cook (Call.weave Call.placeholder index parts) = (parts.mapM Literal.cook).map
        (Call.weave (fun index => CodePoint.ofText (Call.placeholder index)) index) := by
  induction parts generalizing index with
  | nil => rfl
  | cons part parts ih =>
    cases parts with
    | nil =>
      rw [Call.weave, mapM_cons, mapM_nil]
      cases Literal.cook part <;> rfl
    | cons next parts =>
      rw [dropLast_cons_cons] at closed
      obtain ⟨here, later⟩ := forall_mem_cons.1 closed
      have free : '\\' ∉ Call.placeholder index := by
        have name : '\\' ∉ Call.argument index := Call.not_mem_argument (by decide) (by decide) index
        simp [Call.placeholder, name]
      rw [Call.weave, append_assoc, Literal.cook_append here (sealed_placeholder index _),
        Literal.cook_append_of_not_mem free, ih later, mapM_cook_cons part]
      · cases Literal.cook part with
        | error fault => rfl
        | ok value =>
          cases cooked : (next :: parts).mapM Literal.cook with
          | error fault => rfl
          | ok values =>
            obtain ⟨second, rest, -, -, rfl⟩ := mapM_cook_cons_eq_ok cooked
            exact congrArg Except.ok (append_assoc _ _ _).symm
      · simp

end Phrasebook.Script
