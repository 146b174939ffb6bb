import Phrasebook.Proofs.Document.Registration
import Phrasebook.Proofs.Script.Template

/-!
# Calls in the place of literals

Which edits extraction makes in a script does not depend on the session. A literal that
does not stay, and whose value holds ideographs, becomes a call with its key. The first
value that cannot be read, in the order of the literals, is the failure of the script.
-/

namespace Phrasebook.Script

open CodePoint

open Pass

variable {scope : Scope} {failure : Failure} {script : Text}

/-- The value of a literal. -/
def literalValue (script : Text) (node : Node) : Except Literal.EscapeFault CodePoints :=
  if node.kind == .quoted then
    Literal.cook (script.slice (node.start + 1 : Nat) (node.stop - 1 : Nat))
  else templateValue script node

/-- The expressions that the call for a literal passes on. -/
def literalArguments (script : Text) (node : Node) : List Text :=
  if node.kind == .quoted then [] else arguments script node

/-- The edit that puts a call in the place of a literal, if its value holds ideographs. -/
def callFor? (scope : Scope) (script : Text) (node : Node)
    (value : Except Literal.EscapeFault CodePoints)
    (exprs : List Text) : Except Failure (Option (Edit Char)) :=
  match value with
  | .error fault => .error (.escape fault)
  | .ok points =>
    if hasIdeograph points then
      (Pass.located (byteSpan script node) (.ok points)).map fun text =>
        some (callEdit scope node (Key.ofText text scope.path scope.keyLength) exprs)
    else .ok none

/-- The edit for a literal, unless the literal stays where it is. -/
def literalCall? (scope : Scope) (script : Text) (literal : Node × Ancestors) :
    Except Failure (Option (Edit Char)) :=
  if stays script scope literal.1 literal.2 then .ok none
  else
    callFor? scope script literal.1 (literalValue script literal.1)
      (literalArguments script literal.1)

/-- The edits that put calls in the places of the literals of a script. -/
def calls (scope : Scope) (script : Text) (tree : Node) : Except Failure (List (Edit Char)) :=
  ((literals script [] tree).mapM (literalCall? scope script)).map fun edits => edits.filterMap id

/-! ## Values -/

private theorem hasIdeograph_placeholder (index : Nat) :
    hasIdeograph (ofText (Call.placeholder index)) = false := by
  have frame : Text.hasIdeograph ['{', 'a', 'r', 'g'] = false ∧ Text.hasIdeograph ['}'] = false := by
    decide
  rw [hasIdeograph_ofText, show Call.placeholder index =
      ['{', 'a', 'r', 'g'] ++ Text.ofNat index ++ ['}'] from rfl, Text.hasIdeograph_append,
    Text.hasIdeograph_append, Text.hasIdeograph_ofNat, frame.1, frame.2]
  rfl

/-- Placeholders hold no ideographs. -/
theorem hasIdeograph_weave (index : Nat) (values : List CodePoints) :
    hasIdeograph
        (Call.weave (fun index => ofText (Call.placeholder index)) index values) =
      values.any hasIdeograph := by
  have append (left right : CodePoints) : hasIdeograph (left ++ right) =
      (hasIdeograph left || hasIdeograph right) := List.any_append
  induction values generalizing index with
  | nil => rfl
  | cons value values ih =>
    cases values with
    | nil => simp [Call.weave]
    | cons next values =>
      rw [Call.weave, append, append, hasIdeograph_placeholder, ih, Bool.or_false]
      · rfl
      · exact List.cons_ne_nil next values

/-! ## Literals one by one -/

private theorem yield_valueOf (body : Text) :
    (valueOf body).yield = (Literal.cook body).mapError Failure.escape := by
  rw [valueOf]
  cases Literal.cook body <;> rfl

private theorem yield_valuesOf (bodies : List Text) :
    (valuesOf bodies).yield = (bodies.mapM Literal.cook).mapError Failure.escape := by
  rw [valuesOf_eq]
  cases bodies.mapM Literal.cook <;> rfl

/-- A literal is registered when its value holds ideographs. -/
theorem yield_guarded {α : Type} {reads : Pass α} {holds : α → Bool} {span : Span}
    {setting : Setting} {points : α → CodePoints} {edit : Text → Edit Char} (does : Registers reads) :
    Pass.yield (do
      let value ← reads
      if !holds value then return none
      let key ← Pass.register scope span setting (.ok (points value))
      return some (edit key)) =
    reads.yield >>= fun value =>
      if holds value then
        (Pass.located span (.ok (points value))).map fun text =>
          some (edit (Key.ofText text scope.path scope.keyLength))
      else .ok none := by
  rw [yield_bind does]
  · congr 1
    funext value
    cases holds value with
    | false => rfl
    | true =>
      refine (yield_bind (.register _ _ _ _) fun _ => .pure _).trans ?_
      rw [yield_register]
      cases Pass.located span (.ok (points value)) <;> rfl
  · intro value
    cases holds value with
    | false => exact .pure _
    | true => exact .bind (.register _ _ _ _) fun _ => .pure _

private theorem yield_extractQuoted (script : Text) (scope : Scope) (node : Node) :
    (extractQuoted script scope node).yield = callFor? scope script node
        (Literal.cook (script.slice (node.start + 1 : Nat) (node.stop - 1 : Nat))) [] := by
  refine (yield_guarded (registers_valueOf _)).trans ?_
  rw [yield_valueOf]
  cases Literal.cook (script.slice (node.start + 1 : Nat) (node.stop - 1 : Nat)) <;> rfl

private theorem yield_extractTemplate (script : Text) (scope : Scope) (node : Node) :
    (extractTemplate script scope node).yield =
      callFor? scope script node (templateValue script node) (arguments script node) := by
  refine (yield_guarded (registers_valuesOf _)).trans ?_
  rw [yield_valuesOf, templateValue]
  cases (fixedParts script node).mapM Literal.cook with
  | error fault => rfl
  | ok values =>
    change _ = callFor? scope script node (.ok _) _
    rw [callFor?, hasIdeograph_weave]
    rfl

private theorem yield_extractLiteral (script : Text) (scope : Scope) (literal : Node × Ancestors) :
    (extractLiteral script scope literal.1 literal.2).yield = literalCall? scope script literal := by
  rw [extractLiteral, literalCall?, literalValue, literalArguments]
  split
  · rfl
  · split
    · exact yield_extractQuoted script scope literal.1
    · exact yield_extractTemplate script scope literal.1

/-! ## All literals -/

private theorem yield_extractAll (script : Text) (scope : Scope)
    (literals : List (Node × Ancestors)) :
    (extractAll script scope literals).yield =
      (literals.mapM (literalCall? scope script)).map fun edits => edits.filterMap id := by
  induction literals with
  | nil => rfl
  | cons literal literals ih =>
    rw [extractAll, yield_bind (registers_extractLiteral _ _ _ _) fun _ =>
      .bind (registers_extractAll _ _ _) fun _ => .pure _, yield_extractLiteral, List.mapM_cons]
    cases literalCall? scope script literal with
    | error failure => rfl
    | ok edit =>
      refine (yield_bind (registers_extractAll _ _ _) fun _ => .pure _).trans ?_
      rw [ih]
      cases literals.mapM (literalCall? scope script) with
      | error failure => rfl
      | ok edits => cases edit <;> rfl

/-- The edits of a script are the calls for its literals. -/
theorem yield_edits (scope : Scope) (script : Text) (tree : Node) :
    (edits scope script tree).yield = calls scope script tree :=
  yield_extractAll script scope (literals script [] tree)

/-! ## Literals that are replaced -/

/-- Whether a literal becomes a call: it does not stay where it is, and its value can be read
and holds ideographs. -/
def Replaced (scope : Scope) (script : Text) (literal : Node × Ancestors) : Prop :=
  stays script scope literal.1 literal.2 = false ∧
    ∃ points, literalValue script literal.1 = .ok points ∧ hasIdeograph points = true

/-- A call is made for a literal that is replaced. For any other one there is none, or its value
is at fault. -/
theorem literalCall?_cases (scope : Scope) (script : Text) (literal : Node × Ancestors) :
    (∃ points, Replaced scope script literal ∧ literalCall? scope script literal =
      (Pass.located (byteSpan script literal.1) (.ok points)).map fun text =>
        some (callEdit scope literal.1 (Key.ofText text scope.path scope.keyLength)
          (literalArguments script literal.1))) ∨
    ¬ Replaced scope script literal ∧ (literalCall? scope script literal = .ok none ∨
      ∃ fault, literalCall? scope script literal = .error (.escape fault)) := by
  rw [literalCall?, Replaced]
  cases stays script scope literal.1 literal.2 with
  | true => exact .inr ⟨nofun, .inl rfl⟩
  | false =>
    cases literalValue script literal.1 with
    | error fault => exact .inr ⟨nofun, .inr ⟨fault, rfl⟩⟩
    | ok points =>
      rw [if_neg Bool.false_ne_true, callFor?]
      cases holds : hasIdeograph points with
      | true => exact .inl ⟨points, ⟨rfl, points, rfl, holds⟩, rfl⟩
      | false =>
        refine .inr ⟨?_, .inl rfl⟩
        rintro ⟨-, _, ⟨⟩, other⟩
        rw [holds] at other
        cases other

/-- A call stands in the place of a literal exactly when the literal is replaced. -/
theorem literalCall?_eq_ok {literal : Node × Ancestors} {call : Option (Edit Char)}
    (read : literalCall? scope script literal = .ok call) :
    (Replaced scope script literal ∧
      ∃ key, call = some (callEdit scope literal.1 key (literalArguments script literal.1))) ∨
    ¬ Replaced scope script literal ∧ call = none := by
  rcases literalCall?_cases scope script literal with
    ⟨points, replaced, made⟩ | ⟨kept, none | ⟨_, fails⟩⟩
  · cases located : Pass.located (byteSpan script literal.1) (.ok points) with
    | error failure =>
      rw [made, located] at read
      cases read
    | ok text =>
      rw [made, located] at read
      exact .inl ⟨replaced, _, (Except.ok.inj read).symm⟩
  · exact .inr ⟨kept, Except.ok.inj (read.symm.trans none)⟩
  · cases read.symm.trans fails

/-! ## Failures -/

theorem map_eq_error_iff {α β : Type} {result : Except Failure α} {change : α → β} :
    result.map change = .error failure ↔ result = .error failure := by
  cases result <;> simp [Except.map]

theorem exists_of_mapM_eq_error {α β : Type} {read : α → Except Failure β} {items : List α}
    (fails : items.mapM read = .error failure) : ∃ item ∈ items, read item = .error failure := by
  induction items with
  | nil => cases fails
  | cons item items ih =>
    rw [List.mapM_cons] at fails
    cases here : read item with
    | error reason =>
      rw [here] at fails
      cases fails
      exact ⟨item, List.mem_cons_self, here⟩
    | ok value =>
      rw [here] at fails
      cases later : items.mapM read with
      | error reason =>
        rw [later] at fails
        cases fails
        obtain ⟨other, member, itsFailure⟩ := ih later
        exact ⟨other, List.mem_cons_of_mem _ member, itsFailure⟩
      | ok values =>
        rw [later] at fails
        cases fails

/-- The calls of a script fail only on a value that cannot be read. -/
theorem isUnreadable_of_calls {tree : Node} (fails : calls scope script tree = .error failure) :
    IsUnreadable failure := by
  rw [calls] at fails
  cases all : (literals script [] tree).mapM (literalCall? scope script) with
  | ok edits =>
    rw [all] at fails
    cases fails
  | error reason =>
    rw [all] at fails
    cases fails
    obtain ⟨literal, -, here⟩ := exists_of_mapM_eq_error all
    rcases literalCall?_cases scope script literal with ⟨points, -, made⟩ | ⟨-, none | ⟨fault, fails⟩⟩
    · rw [made] at here
      exact ⟨_, _, map_eq_error_iff.1 here⟩
    · cases here.symm.trans none
    · obtain rfl := Except.error.inj (here.symm.trans fails)
      exact ⟨⟨0, 0⟩, .error fault, rfl⟩

/-- The edits of a script fail only by leaving bytes that are no text. -/
theorem exists_of_rewritten_eq_error {edits : List (Edit Char)}
    (fails : rewritten script edits = .error failure) : ∃ fault, failure = .unreadable fault := by
  rw [rewritten] at fails
  split at fails
  · cases fails
  · split at fails
    · cases fails
    · rename_i fault _
      exact ⟨fault, (Except.error.inj fails).symm⟩

/-- Extraction from a script fails as its calls do, or by leaving bytes that are no text. -/
theorem of_extract_eq_error {tree : Node}
    (fails : (extract scope script tree).yield = .error failure) :
    calls scope script tree = .error failure ∨ ∃ fault, failure = .unreadable fault := by
  rw [extract, yield_bind (registers_edits _ _ _) fun _ => .known _, yield_edits] at fails
  cases made : calls scope script tree with
  | error reason =>
    rw [made] at fails
    cases fails
    exact .inl rfl
  | ok edits =>
    rw [made] at fails
    exact .inr (exists_of_rewritten_eq_error fails)

end Phrasebook.Script
