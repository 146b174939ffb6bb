import Phrasebook.Proofs.Script.Openings

/-!
# Changes and phrases

A pass over a buffer changes it exactly when it registers a phrase. This holds for every stage of a
template and for every script, and a file that has no phrase stays as it is.
-/

namespace Phrasebook

open Pass

/-- Names that are identifiers bring no mark of their own into a template. -/
theorem Scope.discreet_of_isIdentifier {scope : Scope} (named : IsIdentifier scope.functions.markup)
    (unbracketed : Markup.Run.Unbracketed (Key.lead scope.path))
    (unclosed : '}' ∉ Key.lead scope.path) :
    scope.Discreet where
  unbracketed := ⟨fun char member =>
    @Markup.Run.isBracket_of_kind Markup.isNamePart (by decide) (by decide) char
      (named.2 char member), unbracketed⟩
  markup := fun member => absurd (named.2 '}' member) (by decide)
  lead := unclosed

/-- A file without phrases stays as it is. -/
theorem Document.changed_eq_false {settings : Settings} {cwd path : Path}
    {content : Text} {catalogue later : Catalogue} {outcome : Outcome} {journal : Journal}
    (processed : process settings cwd path content catalogue = (.ok outcome, later, journal))
    (nothing : outcome.phrases = []) : outcome.changed = false := by
  obtain ⟨emits, -, before, -⟩ := emits_of_process processed
  rw [nothing] at emits
  obtain ⟨⟨after, -⟩, -⟩ := emits_extract_iff.1 emits
  rw [Outcome.changed, before, after, bne_self_eq_false]

/-- A pass changes its buffer exactly when it registers a phrase: every stage of a template, and
extraction from a script whose literals open apart from names, as they do in every script that is
read. A file that has no phrase stays as it is. -/
theorem changes_iff_registers {scope : Scope} (markup : IsIdentifier scope.functions.markup)
    (script : IsIdentifier scope.functions.script)
    (unbracketed : Markup.Run.Unbracketed (Key.lead scope.path))
    (unclosed : '}' ∉ Key.lead scope.path) :
    (∀ stage buffer, ∃ result added,
      Emits (Markup.Stage.apply scope stage buffer) result added ∧
      ∀ after, result = .ok after → (after = buffer ↔ added = [])) ∧
    (∀ source tree, Script.OpensApart source tree → ∃ result added,
      Emits (Script.extract scope source tree) result added ∧
      ∀ after, result = .ok after → (after = source ↔ added = [])) ∧
    (∀ lang source tree, Script.parse? lang source = some tree → Script.OpensApart source tree) ∧
    ∀ settings cwd path content catalogue outcome later journal,
      Document.process settings cwd path content catalogue =
        (.ok outcome, later, journal) →
      outcome.phrases = [] → outcome.changed = false := by
  have discreet := Scope.discreet_of_isIdentifier markup unbracketed unclosed
  refine ⟨fun stage buffer => ?_, fun source tree opens => ?_,
    fun lang source tree => Script.opensApart_of_parse?, ?_⟩
  · obtain ⟨result, added, emits⟩ := Markup.registers_apply scope stage buffer
    refine ⟨result, added, emits, ?_⟩
    rintro after rfl
    exact Markup.Stage.apply_eq_self_iff markup discreet emits
  · obtain ⟨result, added, emits⟩ := Script.registers_extract scope source tree
    refine ⟨result, added, emits, ?_⟩
    rintro after rfl
    exact Script.extract_eq_self_iff script opens emits
  · intro settings cwd path content catalogue outcome later journal
    exact Document.changed_eq_false

/-- The title of a paragraph is registered, and the paragraph changes. So does a script with a
literal. -/
theorem changes_iff_registers_title :
    let scope : Scope := { path := .ofText "src/a.vue".toList, shown := "src/a.vue".toList }
    let buffer := "<p title=\"好\">".toList
    let after := "<p :title=\"$t('a_ac2c8f')\">".toList
    let source := "f(\"好\")".toList
    let tree : Script.Node := .mk .other .none 0 6 [.mk .other .none 0 6 [.mk .call .none 0 6
      [.mk .identifier .callee 0 1 [], .mk .arguments .none 1 6
        [.mk .quoted .none 2 5 [.mk .other .none 3 4 []]]]]]
    let later := "f(t(\"a_ac2c8f\"))".toList
    IsIdentifier scope.functions.markup ∧ IsIdentifier scope.functions.script ∧
    Markup.Run.Unbracketed (Key.lead scope.path) ∧ '}' ∉ Key.lead scope.path ∧
    (∃ added, Emits (Markup.Stage.apply scope .plainAttribute buffer) (.ok after) added ∧
      after ≠ buffer ∧ added ≠ []) ∧
    Script.OpensApart source tree ∧
    ∃ added, Emits (Script.extract scope source tree) (.ok later) added ∧
      later ≠ source ∧ added ≠ [] := by
  intro scope buffer after source tree later
  have markup : IsIdentifier scope.functions.markup := by decide +kernel
  have script : IsIdentifier scope.functions.script := by decide +kernel
  have unbracketed : Markup.Run.Unbracketed (Key.lead scope.path) := by decide +kernel
  have unclosed : '}' ∉ Key.lead scope.path := by decide +kernel
  have opens : Script.OpensApart source tree := by
    intro literal member
    obtain rfl := List.mem_singleton.1 member
    exact ⟨'"', rfl, by decide⟩
  obtain ⟨stages, scripts, -⟩ := changes_iff_registers markup script unbracketed unclosed
  refine ⟨markup, script, unbracketed, unclosed, ?_, opens, ?_⟩
  · obtain ⟨result, added, emits, same⟩ := stages .plainAttribute buffer
    have ran := eq_ok_of_toOption (show ((Markup.Stage.apply scope .plainAttribute buffer).run
      {}).1.toOption = some after by decide +kernel)
    obtain rfl : result = .ok after := (emits.result {}).symm.trans ran
    have differs : after ≠ buffer := by decide +kernel
    exact ⟨added, emits, differs, fun nothing => differs ((same after rfl).2 nothing)⟩
  · obtain ⟨result, added, emits, same⟩ := scripts source tree opens
    let edit : Edit Char := ⟨2, 5, "t(\"a_ac2c8f\")".toList⟩
    have made : Script.rewritten source [edit] = .ok later := by
      rw [Script.rewritten, Edit.applyAll, List.map_singleton, List.mergeSort_singleton]
      decide +kernel
    obtain ⟨found, first, finds⟩ := Script.registers_edits scope source tree
    obtain rfl : found = .ok [edit] := (finds.result {}).symm.trans
      (eq_ok_of_toOption (show ((Script.edits scope source tree).run {}).1.toOption = some [edit] by
        decide +kernel))
    obtain rfl : result = .ok later := (emits.unique (finds.bind (.known _))).1.trans made
    have differs : later ≠ source := by decide +kernel
    exact ⟨added, emits, differs, fun nothing => differs ((same later rfl).2 nothing)⟩

end Phrasebook
