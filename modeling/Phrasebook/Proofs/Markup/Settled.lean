import Phrasebook.Proofs.Edit
import Phrasebook.Proofs.Markup.Places

/-!
# Settled markup

A buffer is settled when the stages have nothing to do in it. This module says what
that means for the attributes, the interpolations and the runs of the buffer, and
shows that the stages find a place exactly where something of it fails. Every place
that a stage finds holds a phrase.
-/

namespace Phrasebook.Markup

open Option

open Text

/-! ## What keeps a stage from acting -/

/-- The fixed text of a template literal or a run that holds expressions. -/
def fixedText (recognise : Text → Option (Nat × Text)) (text : Text) : Text :=
  let (first, cuts) := cutAll recognise text
  (first :: cuts.map Prod.snd).flatten

/-- The bound attributes of a buffer whose value is one template literal. -/
def boundTemplates (buffer : Text) : List (Found Attribute) :=
  (scan (fun _ => Stage.recogniseTemplate) buffer).filter fun found =>
    Attribute.inOpenTag (buffer.take found.start)

/-- Whether every quoted literal with ideographs in an expression is wrapped in a
call, those that are not eligible apart. -/
def AllWrapped (functions : Functions) (quotes : List Char) (eligible : Text → Bool)
    (expr : Text) : Prop :=
  ∀ literal ∈ scan (fun _ => Quotation.recognise quotes) expr,
    eligible literal.value.2 = true → hasIdeograph literal.value.2 = true →
      isWrapped functions expr literal.start = true

/-- Whether a run mixes interpolations with ideographs, and no brace pair stands
outside the interpolations. -/
def IsMixed (run : Text) : Prop :=
  let body := (cutBlanks run).2.1
  let fixed := fixedText Interpolation.recognise body
  (cutAll Interpolation.recognise body).2 ≠ [] ∧ hasIdeograph fixed = true ∧
    ¬ Interpolation.closing <:+: fixed ∧ ¬ Interpolation.opening <:+: fixed

/-- Whether a run is text alone: it holds no brace pair and no call. -/
def IsPlain (functions : Functions) (run : Text) : Prop :=
  ¬ Interpolation.opening <:+: run ∧ ¬ Interpolation.closing <:+: run ∧
    ¬ functions.markup ++ ['('] <:+: run

/-- Whether nothing in a buffer is left to extract. -/
structure Settled (functions : Functions) (buffer : Text) : Prop where
  attributes : ∀ found ∈ Attribute.all Attribute.plainName buffer,
    hasIdeograph found.value.value = false
  templates : ∀ found ∈ boundTemplates buffer,
    hasIdeograph (fixedText Interpolation.recogniseSubstitution found.value.value) = false
  /-- A literal with braces in a directive is never extracted. -/
  directives : ∀ found ∈ Attribute.all (Attribute.directiveName Attribute.bindingsAndEvents) buffer,
    AllWrapped functions [Stage.otherQuote found.value.quote, Char.ofNat 0x60]
      (fun body => !body.contains '{' && !body.contains '}') found.value.value
  interpolations : ∀ found ∈ scan (fun _ => Interpolation.recognise) buffer,
    AllWrapped functions ['\'', '"'] (fun _ => true) found.value
  mixed : ∀ found ∈ Run.all (occursIn Interpolation.opening) buffer, ¬ IsMixed found.value
  plain : ∀ found ∈ Run.all hasIdeograph buffer, ¬ IsPlain functions found.value

/-! ## Phrases among pieces -/

namespace Piece

@[simp] theorem candidates_append (left right : List Piece) :
    candidates (left ++ right) = candidates left ++ candidates right := by
  induction left with
  | nil => rfl
  | cons piece left ih => cases piece <;> simp [candidates, ih]

/-- The phrases among the pieces of a text are those of its ranges. -/
@[simp] theorem candidates_interleave (offset : Nat) (text : Text)
    (ranges : List (Nat × Nat × Candidate)) :
    candidates (interleave offset text ranges) = ranges.map fun range => range.2.2 := by
  induction ranges generalizing offset text with
  | nil => rfl
  | cons range ranges ih =>
    simp [interleave, candidates, ih]

end Piece

/-! ## Literals of an expression -/

namespace Quotation

variable {functions : Functions} {quotes : List Char} {keyQuote : Char → Char}
  {eligible : Text → Bool} {offset : Nat} {expr : Text}

/-- An expression has no literals for calls exactly when all are wrapped. -/
theorem candidates_eq_nil_iff :
    candidates functions quotes keyQuote eligible offset expr = [] ↔
      AllWrapped functions quotes eligible expr := by
  rw [candidates, List.filterMap_eq_nil_iff]
  refine forall_congr' fun literal => imp_congr_right fun _ => ?_
  simp

/-- Only an expression with ideographs has literals for calls. -/
theorem allWrapped_of_hasIdeograph_eq_false (none : hasIdeograph expr = false) :
    AllWrapped functions quotes eligible expr := by
  intro literal member _ holds
  obtain ⟨before, rest, _, length, rfl, recognised, _⟩ := exists_of_mem_scan member
  obtain ⟨behind, rfl, -⟩ := recognise_spelled recognised
  rw [hasIdeograph, List.any_eq_true] at holds
  obtain ⟨char, inside, ideograph⟩ := holds
  rw [hasIdeograph, List.any_eq_false] at none
  exact absurd ideograph (none char (by simp [inside]))

end Quotation

/-! ## What the stages find -/

namespace Stage

variable {found : Found Attribute} {functions : Functions} {buffer : Text}

/-- Nothing is placed where nothing is found. -/
theorem placed_eq_nil_iff {α : Type} {pieces : Found α → Option (List Piece)}
    {places : List (Found α)} :
    placed pieces places = [] ↔ ∀ found ∈ places, pieces found = none := by
  rw [placed, List.filterMap_eq_nil_iff]
  refine forall_congr' fun found => imp_congr_right fun _ => ?_
  rw [map_eq_none_iff]

private theorem findPlainAttribute_eq_none_iff :
    findPlainAttribute found = none ↔ hasIdeograph found.value.value = false := by
  simp [findPlainAttribute]

private theorem findTemplateAttribute_eq_none_iff :
    findTemplateAttribute found = none ↔
      hasIdeograph (fixedText Interpolation.recogniseSubstitution found.value.value) = false := by
  simp [findTemplateAttribute, fixedText]

private theorem findDirectiveLiteral_eq_none_iff :
    findDirectiveLiteral functions found = none ↔
      AllWrapped functions [otherQuote found.value.quote, Char.ofNat 0x60]
        (fun body => !body.contains '{' && !body.contains '}') found.value.value := by
  rw [findDirectiveLiteral]
  split
  · simp [Quotation.candidates_eq_nil_iff]
  · rename_i none
    exact iff_of_true rfl
      (Quotation.allWrapped_of_hasIdeograph_eq_false (Bool.not_eq_true _ ▸ none))

/-- An interpolation stays when all its literals are wrapped. -/
theorem findInterpolationLiteral_eq_none_iff {found : Found Text} :
    findInterpolationLiteral functions found = none ↔
      AllWrapped functions ['\'', '"'] (fun _ => true) found.value := by
  rw [findInterpolationLiteral]
  split
  · simp [Quotation.candidates_eq_nil_iff]
  · rename_i none
    exact iff_of_true rfl
      (Quotation.allWrapped_of_hasIdeograph_eq_false (Bool.not_eq_true _ ▸ none))

/-- A run stays when it is not mixed. -/
theorem findMixedContent_eq_none_iff {found : Found Text} :
    findMixedContent found = none ↔ ¬ IsMixed found.value := by
  simp only [findMixedContent, IsMixed, fixedText, ← occursIn_iff]
  split <;> grind

/-- A run stays when it is not plain. -/
theorem findText_eq_none_iff {found : Found Text} :
    findText functions found = none ↔ ¬ IsPlain functions found.value := by
  simp only [findText, IsPlain, ← occursIn_iff]
  split <;> grind

/-- The stages find nothing exactly in a settled buffer. -/
theorem find_eq_nil_iff :
    (∀ stage ∈ all, find functions buffer stage = []) ↔ Settled functions buffer := by
  simp only [all, List.forall_mem_cons, find, placed_eq_nil_iff, findPlainAttribute_eq_none_iff,
    findTemplateAttribute_eq_none_iff, findDirectiveLiteral_eq_none_iff,
    findInterpolationLiteral_eq_none_iff, findMixedContent_eq_none_iff, findText_eq_none_iff]
  constructor
  · rintro ⟨attributes, templates, directives, interpolations, mixed, plain, -⟩
    exact ⟨attributes, templates, directives, interpolations, mixed, plain⟩
  · rintro ⟨attributes, templates, directives, interpolations, mixed, plain⟩
    exact ⟨attributes, templates, directives, interpolations, mixed, plain, by simp⟩

/-- A stage that finds nothing does nothing at all. -/
theorem apply_of_find_eq_nil {scope : Scope} {stage : Stage}
    (nothing : find scope.functions buffer stage = []) :
    apply scope stage buffer = pure buffer := by
  rw [apply, nothing, edits, pure_bind]
  exact congrArg pure (Edit.applyAll_nil buffer)

/-! ## Every place holds a phrase -/

private theorem exists_of_mem_placed {α : Type} {pieces : Found α → Option (List Piece)}
    {places : List (Found α)} {place : Found (List Piece)} (member : place ∈ placed pieces places) :
    ∃ found ∈ places, pieces found = some place.value := by
  obtain ⟨found, there, kept⟩ := List.mem_filterMap.1 member
  obtain ⟨value, value_eq, rfl⟩ := map_eq_some_iff.1 kept
  exact ⟨found, there, value_eq⟩

/-- Every place of a stage has a candidate. -/
theorem candidates_ne_nil_of_mem_find {stage : Stage} {place : Found (List Piece)}
    (member : place ∈ find functions buffer stage) : Piece.candidates place.value ≠ [] := by
  cases stage <;> obtain ⟨found, -, pieces⟩ := exists_of_mem_placed member
  case plainAttribute =>
    simp only [findPlainAttribute, ite_none_right_eq_some, some.injEq] at pieces
    simp [← pieces.2, Piece.candidates]
  case templateAttribute =>
    simp only [findTemplateAttribute, ite_none_right_eq_some, some.injEq] at pieces
    simp [← pieces.2, Piece.candidates]
  case directiveLiteral =>
    simp only [findDirectiveLiteral, ite_none_right_eq_some, ite_none_left_eq_some,
      some.injEq, List.isEmpty_iff] at pieces
    obtain ⟨-, nonempty, pieces⟩ := pieces
    simpa [← pieces, Piece.candidates] using nonempty
  case interpolationLiteral =>
    simp only [findInterpolationLiteral, ite_none_right_eq_some,
      ite_none_left_eq_some, some.injEq, List.isEmpty_iff] at pieces
    obtain ⟨-, nonempty, pieces⟩ := pieces
    simpa [← pieces, Piece.candidates] using nonempty
  case mixedContent =>
    simp only [findMixedContent, ite_none_left_eq_some, some.injEq] at pieces
    simp [← pieces.2, runPieces, Piece.candidates]
  case plainText =>
    simp only [findText, ite_none_left_eq_some, some.injEq] at pieces
    simp [← pieces.2, runPieces, Piece.candidates]

end Stage

end Phrasebook.Markup
