import Phrasebook.Proofs.Document.Settled
import Phrasebook.Proofs.Markup.Rerun

/-!
# Running extraction again

What a second run over a file does is decided by the text that the first run left.
The second run changes nothing exactly when that text is settled. Extraction does not
always leave a settled text: a literal inside an argument of a call that it put in, for
one, is still there for the next run. The runs of a template, at least, are done with
after the first run.
-/

namespace Phrasebook.Document

open Pass

variable {settings : Settings} {content : Text} {scope : Scope} {added : List KeyedPhrase}
  {region : Region} {after : Text} {accessorAdded : Bool}

/-- A run changes nothing exactly over a settled file: the text stays as it is, no
phrase is registered, no line is put in, and the catalogue is the same afterwards. -/
theorem process_unchanged_iff {cwd path : Path} {catalogue : Catalogue} :
    (∃ journal, process settings cwd path content catalogue =
      (.ok ⟨path, content, content, [], false⟩, catalogue, journal)) ↔
    Settled (settings.scope cwd path) content := by
  constructor
  · rintro ⟨journal, processed⟩
    obtain ⟨emits, -⟩ := emits_of_process processed
    exact (emits_extract_iff.1 emits).2
  · intro settled
    obtain ⟨journal, processed⟩ :=
      process_of_emits catalogue (emits_extract_iff.2 ⟨⟨rfl, rfl⟩, settled⟩)
    have same : (catalogue.absorb (staged [])).1 = catalogue := by
      rw [show staged [] = {} from rfl, Catalogue.absorb_empty]
    rw [same] at processed
    exact ⟨journal, processed⟩

/-- The edits that put a text in the place of a template, if that changes anything. -/
def templateChange (region : Region) (template : Text) : List (Edit Char) :=
  if template == region.content then [] else [⟨region.start, region.stop, template⟩]

/-- A template of markup is replaced by what extraction makes of it. -/
theorem exists_of_emits_templateEdit {changes : List (Edit Char)} (isHtml : region.isHtml = true)
    (emits : Emits (templateEdit scope region) (.ok changes) added) :
    ∃ template registered, changes = templateChange region template ∧
      Emits (Markup.extract scope Markup.Stage.all region.content) (.ok template) registered := by
  rw [templateEdit, isHtml] at emits
  obtain ⟨template, first, second, extracts, rest, -⟩ := Emits.of_bind
    (Markup.registers_extract _ _ _) (fun _ => .bind (.note _ _ _ _) fun _ => .pure _) emits
  obtain ⟨_, third, fourth, -, yields, -⟩ := rest.of_bind (.note _ _ _ _) fun _ => .pure _
  exact ⟨template, first, (Emits.pure_iff.1 yields).1, extracts⟩

/-- Extraction from a file that is a component is extraction from its component. -/
theorem emits_extractComponent_of_emits_extract {result : Except Failure (Text × Bool)}
    (emits : Emits (extract settings scope content) result added)
    (isComponent : isComponent scope.path = true) :
    Emits (extractComponent settings scope content (.ofText content)) result added := by
  have body := (Emits.andThen_iff (.note _ _ _ _) fun _ =>
    registers_extractEither settings scope content).1 emits
  rwa [isComponent] at body

/-- A component becomes what the edits for its template and for its script make of it. -/
theorem exists_edits_of_emits_extractComponent {component : Component}
    (emits : Emits (extractComponent settings scope content component)
      (.ok (after, accessorAdded)) added) :
    ∃ inTemplate inScript first second,
      Emits (templateEdits scope component) (.ok inTemplate) first ∧
      Emits (scriptEdits settings scope component) (.ok (inScript, accessorAdded)) second ∧
      after = Edit.applyAll content (inTemplate ++ inScript) := by
  unfold extractComponent at emits
  obtain ⟨_, _, _, -, emits, -⟩ := Emits.of_bind (registers_reportFaulty _ _)
    (fun _ => .bind (registers_templateEdits _ _) fun _ =>
      .bind (registers_scriptEdits _ _ _) fun _ => .pure _) emits
  obtain ⟨inTemplate, first, _, templates, emits, -⟩ := Emits.of_bind (registers_templateEdits _ _)
    (fun _ => .bind (registers_scriptEdits _ _ _) fun _ => .pure _) emits
  obtain ⟨⟨inScript, _⟩, second, _, scripts, yields, -⟩ := Emits.of_bind
    (registers_scriptEdits _ _ _) (fun _ => .pure _) emits
  obtain ⟨same, -⟩ := Emits.pure_iff.1 yields
  cases same
  exact ⟨inTemplate, inScript, first, second, templates, scripts, rfl⟩

/-- A file that cannot be extracted leaves the catalogue alone. Otherwise a second run
over what the first one left changes nothing exactly when that is settled. A component
becomes what extraction makes of its template, beside the edits of its script. Where calls
have plain names, that template holds no run of text for a second run to take up. -/
theorem second_run_unchanged_iff (settings : Settings) (cwd path : Path)
    (content : Text) (catalogue : Catalogue) :
    match process settings cwd path content catalogue with
    | (.error _, later, _) => later = catalogue
    | (.ok outcome, later, _) =>
      ((∃ journal, process settings cwd path outcome.after later =
        (.ok ⟨path, outcome.after, outcome.after, [], false⟩, later, journal)) ↔
      Settled (settings.scope cwd path) outcome.after) ∧
      (isComponent path = true →
        ∀ region ∈ (Component.ofText content).template, region.isHtml = true →
          ∃ template inScript registered others,
            Emits (Markup.extract (settings.scope cwd path) Markup.Stage.all
              region.content) (.ok template) registered ∧
            Emits (scriptEdits settings (settings.scope cwd path)
              (Component.ofText content)) (.ok (inScript, outcome.accessorAdded)) others ∧
            outcome.after = Edit.applyAll content (templateChange region template ++ inScript) ∧
            ((settings.scope cwd path).Named →
              ∀ stage ∈ [Markup.Stage.mixedContent, Markup.Stage.plainText],
                Markup.Stage.find (settings.scope cwd path).functions
                  (Markup.Comment.mask template) stage = [])) := by
  split
  · rename_i failure later journal processed
    obtain ⟨result, added, emits⟩ :=
      registers_extract settings (settings.scope cwd path) content
    cases result with
    | error failure =>
      obtain ⟨_, failed⟩ := process_of_emits_error catalogue emits
      rw [processed] at failed
      cases failed
      rfl
    | ok value =>
      obtain ⟨_, made⟩ := process_of_emits catalogue emits
      rw [processed] at made
      cases made
  · rename_i outcome later journal processed
    refine ⟨process_unchanged_iff, fun isComponent region there isHtml => ?_⟩
    obtain ⟨emits, -⟩ := emits_of_process processed
    obtain ⟨inTemplate, inScript, _, others, edits, scripts, after⟩ :=
      exists_edits_of_emits_extractComponent
        (emits_extractComponent_of_emits_extract emits isComponent)
    rw [templateEdits, Option.mem_def.1 there] at edits
    obtain ⟨template, registered, rfl, extracts⟩ := exists_of_emits_templateEdit isHtml edits
    exact ⟨template, inScript, registered, others, extracts, scripts, after, fun named =>
      Markup.find_eq_nil_of_emits_extract named extracts⟩

end Phrasebook.Document
