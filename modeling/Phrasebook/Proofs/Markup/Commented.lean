import Phrasebook.Proofs.Markup.Comment
import Phrasebook.Proofs.Markup.Settled

/-!
# Ideographs in comments

Every stage acts on ideographs alone, and none is left in a template whose ideographs all
stand in comments once these are masked. Extraction then leaves the template and the
session as they are. What the stages do to other templates is not described here.
-/

namespace Phrasebook

open List Text

namespace Text

/-- A text without ideographs has no part with ideographs. -/
theorem hasIdeograph_eq_false_of_subset {part text : Text} (inside : part ⊆ text)
    (none : hasIdeograph text = false) : hasIdeograph part = false := by
  rw [hasIdeograph, any_eq_false] at none ⊢
  exact fun char member => none char (inside member)

/-- What stands between the successes of a recogniser stands in the text. -/
theorem subset_of_cutFrom {α : Type} {recognise : Text → Option (Nat × α)} {skip : Nat}
    {text : Text} :
    (cutFrom recognise skip text).1 ⊆ text ∧
      ∀ cut ∈ (cutFrom recognise skip text).2, cut.2 ⊆ text := by
  induction text generalizing skip with
  | nil => cases skip <;> simp [cutFrom]
  | cons head tail ih =>
    have later (skip : Nat) : (cutFrom recognise skip tail).1 ⊆ head :: tail ∧
        ∀ cut ∈ (cutFrom recognise skip tail).2, cut.2 ⊆ head :: tail :=
      ⟨subset_cons_of_subset _ ih.1, fun cut member => subset_cons_of_subset _ (ih.2 cut member)⟩
    cases skip with
    | succ skip => exact later skip
    | zero =>
      rw [cutFrom]
      split
      · rename_i length value _
        refine ⟨nil_subset _, ?_⟩
        rw [forall_mem_cons]
        exact later (length - 1)
      · refine ⟨?_, (later 0).2⟩
        rw [cons_subset]
        exact ⟨mem_cons_self, (later 0).1⟩

end Text

namespace Markup

variable {buffer : Text} {found : Found Attribute}

/-! ## Places hold what the buffer holds -/

/-- The fixed text of a literal or a run is a part of it. -/
theorem fixedText_subset (recognise : Text → Option (Nat × Text)) (text : Text) :
    fixedText recognise text ⊆ text := by
  obtain ⟨first, cuts⟩ := @Text.subset_of_cutFrom _ recognise 0 text
  intro char member
  obtain ⟨part, among, inside⟩ := mem_flatten.mp member
  rcases mem_cons.mp among with rfl | among
  · exact first inside
  · obtain ⟨cut, found, rfl⟩ := mem_map.mp among
    exact cuts cut found inside

private theorem value_subset_of_mem_attributes {nameLength : Text → Option Nat}
    (member : found ∈ Attribute.all nameLength buffer) : found.value.value ⊆ buffer := by
  obtain ⟨before, rest, _, length, rfl, recognised, -⟩ :=
    exists_of_mem_scan (mem_filter.mp member).1
  obtain ⟨gap, secondGap, behind, rfl, -⟩ := Attribute.recognise_spelled recognised
  intro char inside
  simp [inside]

private theorem value_subset_of_mem_boundTemplates (member : found ∈ boundTemplates buffer) :
    found.value.value ⊆ buffer := by
  obtain ⟨before, rest, _, length, rfl, recognised, -⟩ :=
    exists_of_mem_scan (mem_filter.mp member).1
  obtain ⟨gap, secondGap, front, back, behind, rfl, -⟩ :=
    Attribute.recogniseTemplate_spelled recognised
  intro char inside
  simp [inside]

private theorem value_subset_of_mem_interpolations {found : Found Text}
    (member : found ∈ scan (fun _ => Interpolation.recognise) buffer) :
    found.value ⊆ buffer := by
  obtain ⟨before, rest, _, length, rfl, recognised, -⟩ := exists_of_mem_scan member
  obtain ⟨-, -, behind, rfl⟩ := Interpolation.recognise_eq_some_iff.mp recognised
  intro char inside
  simp [inside]

private theorem value_subset_of_mem_runs {eligible : Text → Bool} {found : Found Text}
    (member : found ∈ Run.all eligible buffer) :
    found.value ⊆ buffer ∧ eligible found.value = true := by
  obtain ⟨before, rest, prev, length, rfl, recognised, -⟩ := exists_of_mem_scan member
  simp only [Run.recognise] at recognised
  split at recognised
  · simp only [Option.ite_none_right_eq_some, Option.some.injEq, Prod.mk.injEq,
      Bool.and_eq_true] at recognised
    obtain ⟨⟨-, holds⟩, -, run⟩ := recognised
    rw [← run]
    refine ⟨fun char inside => ?_, holds⟩
    exact mem_append_right _ (takeWhile_subset _ inside)
  · cases recognised

/-! ## Stages act on ideographs -/

/-- A buffer without ideographs is settled. -/
theorem settled_of_hasIdeograph_eq_false {functions : Functions}
    (none : hasIdeograph buffer = false) : Settled functions buffer where
  attributes found member :=
    hasIdeograph_eq_false_of_subset (value_subset_of_mem_attributes member) none
  templates found member :=
    hasIdeograph_eq_false_of_subset
      (List.Subset.trans (fixedText_subset _ _) (value_subset_of_mem_boundTemplates member)) none
  directives found member :=
    Quotation.allWrapped_of_hasIdeograph_eq_false
      (hasIdeograph_eq_false_of_subset (value_subset_of_mem_attributes member) none)
  interpolations found member :=
    Quotation.allWrapped_of_hasIdeograph_eq_false
      (hasIdeograph_eq_false_of_subset (value_subset_of_mem_interpolations member) none)
  mixed found member isMixed := by
    have run := hasIdeograph_eq_false_of_subset (value_subset_of_mem_runs member).1 none
    have body : hasIdeograph (cutBlanks found.value).2.1 = false := by
      rw [cutBlanks, hasIdeograph_trim, run]
    have fixed := hasIdeograph_eq_false_of_subset
      (fixedText_subset Interpolation.recognise _) body
    rw [isMixed.2.1] at fixed
    cases fixed
  plain found member := by
    obtain ⟨inside, holds⟩ := value_subset_of_mem_runs member
    rw [hasIdeograph_eq_false_of_subset inside none] at holds
    cases holds

namespace Stage

/-- Stages do nothing to a buffer without ideographs. -/
theorem applyAll_of_hasIdeograph_eq_false (scope : Scope) (stages : List Stage) {buffer : Text}
    (none : hasIdeograph buffer = false) : applyAll scope stages buffer = pure buffer := by
  induction stages with
  | nil => rfl
  | cons stage stages ih =>
    have known : stage ∈ all := by cases stage <;> decide
    have settled : Settled scope.functions buffer := settled_of_hasIdeograph_eq_false none
    have nothing := find_eq_nil_iff.mpr settled stage known
    rw [applyAll, apply_of_find_eq_nil nothing, pure_bind, ih]

end Stage

/-! ## Masking takes ideographs away -/

namespace Comment

/-- Whether the character at an offset of a template stands in a comment. Comments are
found from left to right, each from its opening to the nearest closing. -/
def Covers (template : Text) (offset : Nat) : Prop :=
  ∃ found ∈ scan (fun _ => recognise) template, found.start ≤ offset ∧ offset < found.stop

instance (template : Text) (offset : Nat) : Decidable (Covers template offset) :=
  inferInstanceAs (Decidable (∃ found ∈ _, _))

/-- A mark holds no ideograph. -/
theorem hasIdeograph_mark (index : Nat) : hasIdeograph (mark index) = false := by
  have frame : hasIdeograph opening = false ∧ isIdeograph '@' = false ∧
      hasIdeograph closing = false := by decide
  rw [mark, append_assoc, hasIdeograph_append, cons_append, hasIdeograph_cons,
    hasIdeograph_append, hasIdeograph_ofNat, frame.1, frame.2.1, frame.2.2]
  rfl

/-- A template whose ideographs all stand in comments has none when it is masked. -/
theorem hasIdeograph_maskFrom {template : Text} {offset : Nat} {prev : Option Char}
    (covered : ∀ index (inside : index < template.length),
      isIdeograph template[index] = true →
        ∃ found ∈ scanFrom (fun _ => recognise) offset 0 prev template,
          found.start ≤ offset + index ∧ offset + index < found.stop)
    (number : Nat) : hasIdeograph (maskFrom number template) = false := by
  induction template using Comment.induction generalizing offset prev number with
  | nil => rfl
  | plain head tail plain ih =>
    rw [scanFrom_of_none plain] at covered
    have here : isIdeograph head = false := by
      refine Bool.eq_false_iff.mpr fun ideograph => ?_
      -- What is found later starts behind the first character.
      obtain ⟨found, member, starts, -⟩ := covered 0 (by simp) ideograph
      obtain ⟨before, -, -, -, -, -, start, -⟩ := exists_of_mem_scanFrom member
      omega
    have later : hasIdeograph (maskFrom number tail) = false := by
      apply @ih (offset + 1) (some head)
      intro index inside ideograph
      obtain ⟨found, member, starts, stops⟩ := covered (index + 1) (by simpa using inside) ideograph
      exact ⟨found, member, by omega, by omega⟩
    rw [maskFrom_plain _ plain, hasIdeograph_cons, here, later]
    rfl
  | comment comment rest isComment ih =>
    rw [scanFrom_of_some isComment.ne_nil (recognise_append isComment rest)] at covered
    have later : hasIdeograph (maskFrom (number + 1) rest) = false := by
      apply @ih (offset + comment.length) comment.getLast?
      intro index inside ideograph
      obtain ⟨found, member, starts, stops⟩ := covered (comment.length + index)
        (by rw [length_append]; omega) (by simpa using ideograph)
      rcases mem_cons.mp member with rfl | member
      · -- The comment itself ends before the rest starts.
        dsimp only at stops
        omega
      · exact ⟨found, member, by omega, by omega⟩
    rw [maskFrom_comment _ isComment, hasIdeograph_append, hasIdeograph_mark, later]
    rfl

end Comment

/-- Comments are never extracted. A masked template is restored to itself, whatever stands
in it. Where every ideograph stands in a comment, extraction by any stages gives the
template back, and the session stays as it is. -/
theorem extract_of_covered (scope : Scope) (stages : List Stage) (template : Text) :
    Comment.restore (Comment.all template) (Comment.mask template) = .ok template ∧
      ((∀ offset (inside : offset < template.length),
        isIdeograph template[offset] = true → Comment.Covers template offset) →
        ∀ session, (extract scope stages template).run session = (.ok template, session)) := by
  refine ⟨Comment.restore_mask template, fun covered session => ?_⟩
  have none : hasIdeograph (Comment.mask template) = false := by
    rw [Comment.mask_eq]
    apply @Comment.hasIdeograph_maskFrom template 0 none
    intro index inside ideograph
    rw [Nat.zero_add]
    exact covered index inside ideograph
  rw [extract, Stage.applyAll_of_hasIdeograph_eq_false scope stages none, pure_bind,
    Comment.restore_mask]
  rfl

/-- A template with a text of the form of a mark, a comment right behind it, and an opening
that nothing closes. -/
def oddTemplate : Text :=
  "<p title=\"x\"><!--@7--><!--好\x7b\x7b-->3<!--@".toList

/-- Nothing is extracted from `oddTemplate`. -/
theorem extract_of_covered_oddTemplate :
    let scope : Scope := { path := .ofText "src/a.vue".toList, shown := "src/a.vue".toList }
    (∀ offset (inside : offset < oddTemplate.length),
      isIdeograph oddTemplate[offset] = true → Comment.Covers oddTemplate offset) ∧
    (extract scope Stage.all oddTemplate).run {} = (.ok oddTemplate, {}) := by
  intro scope
  have covered : ∀ offset (inside : offset < oddTemplate.length),
      isIdeograph oddTemplate[offset] = true → Comment.Covers oddTemplate offset := by
    decide
  exact ⟨covered, (extract_of_covered scope Stage.all oddTemplate).2 covered {}⟩

end Markup

end Phrasebook
