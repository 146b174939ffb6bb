import Phrasebook.Document
import Phrasebook.Proofs.Session

/-!
# Extraction registers what it stores

Every pass over a file changes its session by registering phrases and reporting
alone. What a file stages for the catalogue is therefore exactly what its outcome
lists as phrases.
-/

namespace Phrasebook

open Pass

/-! ## Markup -/

namespace Markup

/-- Rendering only registers, and so do all passes below. -/
theorem registers_render (scope : Scope) (setting : Setting) (pieces : List Piece) :
    Registers (Piece.render scope setting pieces) := by
  induction pieces with
  | nil => exact .pure _
  | cons piece pieces ih =>
    cases piece with
    | fixed text => exact .bind ih fun _ => .pure _
    | call candidate =>
      exact .bind (.register _ _ _ _) fun _ => .bind ih fun _ => .pure _

theorem registers_edits (scope : Scope) (stage : Stage) (buffer : Text)
    (places : List (Found (List Piece))) : Registers (Stage.edits scope stage buffer places) := by
  induction places with
  | nil => exact .pure _
  | cons found places ih =>
    exact .bind (registers_render _ _ _) fun _ => .bind ih fun _ => .pure _

theorem registers_apply (scope : Scope) (stage : Stage) (buffer : Text) :
    Registers (Stage.apply scope stage buffer) := by
  refine .bind (registers_edits _ _ _ _) fun edits => ?_
  cases edits.isEmpty with
  | true => exact .pure _
  | false => exact .bind (.note _ _ _ _) fun _ => .pure _

theorem registers_applyAll (scope : Scope) (stages : List Stage) (buffer : Text) :
    Registers (Stage.applyAll scope stages buffer) := by
  induction stages generalizing buffer with
  | nil => exact .pure _
  | cons stage stages ih =>
    exact .bind (registers_apply _ _ _) fun next => ih next

theorem registers_extract (scope : Scope) (stages : List Stage) (template : Text) :
    Registers (extract scope stages template) :=
  .bind (registers_applyAll _ _ _) fun _ => .known _

end Markup

/-! ## Scripts -/

namespace Script

theorem registers_valueOf (body : Text) : Registers (valueOf body) := by
  rw [valueOf]
  cases Literal.cook body with
  | ok value => exact .pure _
  | error fault => exact .known (.error _)

theorem registers_valuesOf (bodies : List Text) : Registers (valuesOf bodies) := by
  induction bodies with
  | nil => exact .pure _
  | cons body bodies ih =>
    exact .bind (registers_valueOf body) fun _ => .bind ih fun _ => .pure _

private theorem registers_extractQuoted (script : Text) (scope : Scope) (node : Node) :
    Registers (extractQuoted script scope node) := by
  refine .bind (registers_valueOf _) fun value => ?_
  cases CodePoint.hasIdeograph value with
  | false => exact .pure _
  | true => exact .bind (.register _ _ _ _) fun _ => .pure _

private theorem registers_extractTemplate (script : Text) (scope : Scope) (node : Node) :
    Registers (extractTemplate script scope node) := by
  refine .bind (registers_valuesOf _) fun values => ?_
  cases values.any CodePoint.hasIdeograph with
  | false => exact .pure _
  | true => exact .bind (.register _ _ _ _) fun _ => .pure _

theorem registers_extractLiteral (script : Text) (scope : Scope) (node : Node)
    (around : Ancestors) : Registers (extractLiteral script scope node around) := by
  rw [extractLiteral]
  split
  · exact .pure _
  · split
    · exact registers_extractQuoted _ _ _
    · exact registers_extractTemplate _ _ _

theorem registers_extractAll (script : Text) (scope : Scope) (literals : List (Node × Ancestors)) :
    Registers (extractAll script scope literals) := by
  induction literals with
  | nil => exact .pure _
  | cons literal literals ih =>
    exact .bind (registers_extractLiteral _ _ _ _) fun _ => .bind ih fun _ => .pure _

theorem registers_edits (scope : Scope) (script : Text) (tree : Node) :
    Registers (edits scope script tree) :=
  registers_extractAll _ _ _

theorem registers_extract (scope : Scope) (script : Text) (tree : Node) :
    Registers (extract scope script tree) := by
  rw [extract]
  exact .bind (registers_edits _ _ _) fun _ => .known _

end Script

/-! ## Files -/

/-- The entries that a file adds to a catalogue. -/
def Outcome.entries (outcome : Outcome) : Catalogue.Entries :=
  outcome.phrases.map KeyedPhrase.entry

namespace Document

theorem registers_ofExcept {α : Type} (value : Except Failure α) : Registers (ofExcept value) :=
  .known value

private theorem registers_templateEdit (scope : Scope) (region : Region) :
    Registers (templateEdit scope region) := by
  rw [templateEdit]
  cases region.isHtml with
  | false => exact .bind (.note _ _ _ _) fun _ => .pure _
  | true =>
    exact .bind (Markup.registers_extract _ _ _) fun _ => .bind (.note _ _ _ _) fun _ => .pure _

theorem registers_reportSkipped (scope : Scope) (chosen : Region) (regions : List Region) :
    Registers (reportSkipped scope chosen regions) := by
  induction regions with
  | nil => exact .pure _
  | cons region regions ih =>
    rw [reportSkipped]
    cases Text.hasIdeograph region.content with
    | false => exact ih
    | true => exact .bind (.note _ _ _ _) fun _ => ih

theorem registers_scriptEdit (settings : Settings) (scope : Scope) (region : Region) :
    Registers (scriptEdit settings scope region) := by
  rw [scriptEdit]
  exact .bind (registers_ofExcept _) fun _ => .bind (Script.registers_edits _ _ _) fun _ =>
    .bind (registers_ofExcept _) fun _ => .bind (.note _ _ _ _) fun _ => .pure _

theorem registers_reportFaulty (scope : Scope) (soundness : Component.Soundness) :
    Registers (reportFaulty scope soundness) := by
  cases soundness with
  | sound => exact .pure _
  | faulty isShown => exact .note _ _ _ _

theorem registers_templateEdits (scope : Scope) (component : Component) :
    Registers (templateEdits scope component) := by
  rw [templateEdits]
  cases component.template with
  | none => exact .pure _
  | some region => exact registers_templateEdit scope region

theorem registers_scriptEdits (settings : Settings) (scope : Scope) (component : Component) :
    Registers (scriptEdits settings scope component) := by
  rw [scriptEdits]
  cases component.script with
  | none => exact .pure _
  | some region =>
    exact .bind (registers_reportSkipped _ _ _) fun _ => registers_scriptEdit settings scope region

theorem registers_extractComponent (settings : Settings) (scope : Scope) (content : Text)
    (component : Component) : Registers (extractComponent settings scope content component) := by
  unfold extractComponent
  exact .bind (registers_reportFaulty _ _) fun _ => .bind (registers_templateEdits _ _) fun _ =>
    .bind (registers_scriptEdits _ _ _) fun _ => .pure _

private theorem registers_extractScript (scope : Scope) (content : Text) :
    Registers (extractScript scope content) := by
  rw [extractScript]
  exact .bind (registers_ofExcept _) fun _ => .bind (Script.registers_extract _ _ _) fun _ =>
    .bind (.note _ _ _ _) fun _ => .pure _

/-- Extraction from a file registers, whether the file is a component or a script. -/
theorem registers_extractEither (settings : Settings) (scope : Scope) (content : Text) :
    Registers (if isComponent scope.path then
      extractComponent settings scope content (.ofText content) else extractScript scope content) := by
  split
  · exact registers_extractComponent settings scope content _
  · exact registers_extractScript scope content

theorem registers_extract (settings : Settings) (scope : Scope) (content : Text) :
    Registers (extract settings scope content) := by
  rw [extract]
  exact .bind (.note _ _ _ _) fun _ => registers_extractEither settings scope content

section Process

variable {settings : Settings} {cwd path : Path} {content : Text}
  {added : List KeyedPhrase} {outcome : Outcome} {later : Catalogue} {journal : Journal}

/-- The catalogue that a file stages for its phrases. -/
def staged (added : List KeyedPhrase) : Catalogue :=
  (Catalogue.insertAll {} (added.map KeyedPhrase.entry)).1

/-- A file whose extraction succeeds lists the phrases that it stages. -/
theorem process_of_emits (catalogue : Catalogue) {after : Text} {accessorAdded : Bool}
    (emits : Emits (extract settings (settings.scope cwd path) content)
      (.ok (after, accessorAdded)) added) :
    ∃ journal, process settings cwd path content catalogue =
      (.ok ⟨path, content, after, added, accessorAdded⟩, (catalogue.absorb (staged added)).1,
        journal) := by
  have result := emits.result {}
  have phrases : _ = added := emits.phrases {}
  have stages : _ = staged added := emits.catalogue {}
  rw [process]
  generalize (extract settings (settings.scope cwd path) content).run {} = ended
    at result phrases stages
  obtain ⟨outcome, session⟩ := ended
  dsimp only at result phrases stages
  subst result
  dsimp only
  rw [phrases, stages]
  exact ⟨_, rfl⟩

/-- A file whose extraction fails does so with the same failure, and leaves the
catalogue alone. -/
theorem process_of_emits_error (catalogue : Catalogue) {failure : Failure}
    (emits : Emits (extract settings (settings.scope cwd path) content) (.error failure) added) :
    ∃ journal, process settings cwd path content catalogue =
      (.error failure, catalogue, journal) := by
  have result := emits.result {}
  rw [process]
  generalize (extract settings (settings.scope cwd path) content).run {} = ended
    at result
  obtain ⟨outcome, session⟩ := ended
  dsimp only at result
  subst result
  exact ⟨_, rfl⟩

/-- A file fails and leaves the catalogue alone, or the catalogue takes over what the file
stages. -/
theorem process_cases (settings : Settings) (cwd path : Path) (content : Text)
    (catalogue : Catalogue) :
    (∃ failure journal, process settings cwd path content catalogue =
      (.error failure, catalogue, journal)) ∨
    ∃ outcome journal, process settings cwd path content catalogue =
      (.ok outcome, (catalogue.absorb (staged outcome.phrases)).1, journal) := by
  obtain ⟨result, added, emits⟩ :=
    registers_extract settings (settings.scope cwd path) content
  cases result with
  | error failure =>
    obtain ⟨journal, failed⟩ := process_of_emits_error catalogue emits
    exact .inl ⟨failure, journal, failed⟩
  | ok value =>
    obtain ⟨journal, made⟩ := process_of_emits catalogue emits
    exact .inr ⟨_, journal, made⟩

/-- The outcome of a file is what its extraction yields, and the catalogue takes over
what the file stages. -/
theorem emits_of_process {catalogue : Catalogue}
    (processed : process settings cwd path content catalogue = (.ok outcome, later, journal)) :
    Emits (extract settings (settings.scope cwd path) content)
        (.ok (outcome.after, outcome.accessorAdded)) outcome.phrases ∧
      outcome.path = path ∧ outcome.before = content ∧
      later = (catalogue.absorb (staged outcome.phrases)).1 := by
  obtain ⟨result, added, emits⟩ :=
    registers_extract settings (settings.scope cwd path) content
  cases result with
  | error failure =>
    obtain ⟨_, failed⟩ := process_of_emits_error catalogue emits
    rw [processed] at failed
    cases failed
  | ok value =>
    obtain ⟨_, same⟩ := process_of_emits catalogue emits
    rw [processed] at same
    cases same
    exact ⟨emits, rfl, rfl, rfl⟩

/-- What a file brings to an empty catalogue is what its outcome lists. -/
theorem process_ok (processed : process settings cwd path content {} =
      (.ok outcome, later, journal)) :
    outcome.path = path ∧ outcome.before = content ∧
      later.entries = Catalogue.joined [] (outcome.phrases.map KeyedPhrase.entry) := by
  obtain ⟨-, samePath, sameContent, rfl⟩ := emits_of_process processed
  refine ⟨samePath, sameContent, ?_⟩
  rw [Catalogue.entries_absorb, staged, Catalogue.entries_insertAll]
  exact Catalogue.joined_of_nodup (Catalogue.nodup_joined (by exact List.nodup_nil) _)

end Process

end Document

end Phrasebook
