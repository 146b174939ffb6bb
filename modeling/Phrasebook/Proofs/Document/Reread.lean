import Phrasebook.Proofs.Document.Settled
import Phrasebook.Proofs.Markup.Registered
import Phrasebook.Proofs.Script.Calls

/-!
# Scripts that are read again

The script of a component is read twice: as it stands in its file, and once more, with
calls in the places of its literals, to find out where the lines of the accessor go. The
second reading may fail where the first did not, for not every place of a literal may hold
a call. This module says exactly when extraction from a file fails with a syntax fault, and
which of the two readings it comes from.
-/

namespace Phrasebook

open Pass

variable {α : Type} {failure : Failure}

/-- Two steps in a row fail when one of them does. -/
theorem Failure.bind_eq_error_iff {β : Type} {first : Except Failure α}
    {next : α → Except Failure β} :
    (first >>= next) = .error failure ↔
      first = .error failure ∨ ∃ value, first = .ok value ∧ next value = .error failure := by
  cases first with
  | error reason => simp [bind, Except.bind]
  | ok value => simp [bind, Except.bind]

/-- A step behind a check fails when one of the two does. -/
theorem Failure.check_eq_error_iff {check : Except Failure Unit} {next : Except Failure α} :
    (check >>= fun _ => next) = .error failure ↔
      check = .error failure ∨ check = .ok () ∧ next = .error failure := by
  cases check <;> simp [bind, Except.bind]

open Failure (bind_eq_error_iff)

namespace Markup

/-- Only a mark without its comment stops the unmasking. -/
theorem Comment.eq_missingComment_of_unmarked {comments : List Text} {cuts : List (Nat × Text)}
    (fails : unmarked comments cuts = .error failure) : failure = .missingComment := by
  induction cuts with
  | nil => cases fails
  | cons cut cuts ih =>
    rw [unmarked, bind_eq_error_iff] at fails
    rcases fails with missing | ⟨comment, -, later⟩
    · cases found : comments[cut.1]? with
      | none =>
        rw [found] at missing
        exact (Except.error.inj missing).symm
      | some comment =>
        rw [found] at missing
        cases missing
    · rcases bind_eq_error_iff.1 later with fails | ⟨_, -, fails⟩
      · exact ih fails
      · cases fails

/-- Extraction from markup fails only on a text that cannot be read, or for a mark without a
comment. -/
theorem isUnreadable_or_missingComment_of_extract {scope : Scope} {stages : List Stage}
    {template : Text} (fails : (extract scope stages template).yield = .error failure) :
    IsUnreadable failure ∨ failure = .missingComment := by
  rw [extract, yield_bind (registers_applyAll _ _ _) fun _ => .known _, bind_eq_error_iff] at fails
  rcases fails with fails | ⟨buffer, -, fails⟩
  · obtain ⟨_, emits⟩ := (registers_applyAll scope stages (Comment.mask template)).emits
    exact .inl (((Stage.confined_applyAll scope stages _ fun _ _ _ _ =>
      Candidate.failFor_isUnreadable _).of_emits emits).2 _ fails)
  · rw [yield_known, Comment.restore, bind_eq_error_iff] at fails
    rcases fails with fails | ⟨_, -, fails⟩
    · exact .inr (Comment.eq_missingComment_of_unmarked fails)
    · cases fails

/-- Markup is not read by a grammar, so it has no syntax to be at fault. -/
theorem extract_ne_syntaxFault (scope : Scope) (stages : List Stage) (template : Text) (name : Text)
    (lang : Language) :
    (extract scope stages template).yield ≠ .error (.syntaxFault name lang) := by
  intro fails
  rcases isUnreadable_or_missingComment_of_extract fails with reason | missing
  · exact reason.ne_syntaxFault name lang rfl
  · cases missing

end Markup

namespace Script

variable {lang : Language} {name script : Text}

/-- Reading a script fails where it has no tree. -/
theorem parse_eq_error_iff :
    parse lang name script = .error failure ↔
      parse? lang script = none ∧ failure = .syntaxFault name lang := by
  unfold parse
  generalize parse? lang script = read
  cases read with
  | none => simp [eq_comm]
  | some tree => simp

theorem parse_eq_ok_iff {tree : Node} :
    parse lang name script = .ok tree ↔ parse? lang script = some tree := by
  unfold parse
  generalize parse? lang script = read
  cases read <;> simp

end Script

namespace Accessor

/-- Lines are put into every script that is in its language. -/
theorem inject_eq_error_iff {accessor : Accessor} {functions : Functions} {lang : Language}
    {script : Text} :
    accessor.inject functions lang script = .error failure ↔
      Script.parse? lang script = none ∧ failure = .syntaxFault scriptName lang := by
  rw [inject, bind_eq_error_iff, Script.parse_eq_error_iff]
  constructor
  · rintro (fails | ⟨_, -, fails⟩)
    · exact fails
    · cases fails
  · exact .inl

end Accessor

namespace Document

variable {settings : Settings} {lang : Language} {region : Region} {scope : Scope}
  {content : Text} {name : Text} {component : Component}

/-! ## The script of a component -/

/-- Whether a script is not in its language once calls stand in the places of its literals. -/
def Spoiled (lang : Language) (scope : Scope) (script : Text) (tree : Script.Node) : Prop :=
  ∃ edits after, Script.calls scope script tree = .ok edits ∧ edits ≠ [] ∧
    Script.rewritten script edits = .ok after ∧ Script.parse? lang after = none

/-- A region fails where its new script is not read again. -/
theorem regionEdit_eq_error_iff {edits : List (Edit Char)} :
    regionEdit settings lang region edits = .error failure ↔
      edits ≠ [] ∧ (Script.rewritten region.content edits = .error failure ∨
        ∃ after, Script.rewritten region.content edits = .ok after ∧
          Script.parse? lang after = none ∧ failure = .syntaxFault Accessor.scriptName lang) := by
  rw [regionEdit]
  cases edits with
  | nil => simp
  | cons edit edits =>
    rw [if_neg (by simp), bind_eq_error_iff, and_iff_right (List.cons_ne_nil _ _)]
    refine or_congr_right (exists_congr fun after => and_congr_right fun _ => ?_)
    rw [bind_eq_error_iff, Accessor.inject_eq_error_iff]
    constructor
    · rintro (fails | ⟨_, -, fails⟩)
      · exact fails
      · cases fails
    · exact .inl

/-- A known result is what a pass of it yields. -/
theorem yield_ofExcept (value : Except Failure α) : (ofExcept value).yield = value :=
  rfl

/-- What the script of a component yields. -/
theorem yield_scriptEdit (settings : Settings) (scope : Scope) (region : Region) :
    (scriptEdit settings scope region).yield =
      (Script.parse (Language.ofLabel (region.lang.getD [])) scope.path.toText region.content >>=
        fun tree => Script.calls scope region.content tree >>=
          regionEdit settings (Language.ofLabel (region.lang.getD [])) region) := by
  have noted (result : Except Failure (List (Edit Char) × Bool)) (message : Text) :
      Pass.yield (do
        let value ← ofExcept result
        Pass.note scope .debug .document message
        return value) = result := by
    cases result <;> rfl
  rw [scriptEdit, yield_bind (registers_ofExcept _) fun _ => .bind (Script.registers_edits _ _ _)
    fun _ => .bind (registers_ofExcept _) fun _ => .bind (.note _ _ _ _) fun _ => .pure _,
    yield_ofExcept]
  congr 1
  funext tree
  rw [yield_bind (Script.registers_edits _ _ _) fun _ => .bind (registers_ofExcept _) fun _ =>
    .bind (.note _ _ _ _) fun _ => .pure _, Script.yield_edits]
  congr 1
  funext edits
  exact noted _ _

/-- A script is at fault as it stands, or only once it holds calls. -/
theorem scriptEdit_syntaxFault_iff :
    (scriptEdit settings scope region).yield = .error (.syntaxFault name lang) ↔
      lang = Language.ofLabel (region.lang.getD []) ∧
        (Script.parse? lang region.content = none ∧ name = scope.path.toText ∨
          ∃ tree, Script.parse? lang region.content = some tree ∧
            Spoiled lang scope region.content tree ∧ name = Accessor.scriptName) := by
  rw [yield_scriptEdit, bind_eq_error_iff, Script.parse_eq_error_iff]
  simp only [Script.parse_eq_ok_iff, bind_eq_error_iff, regionEdit_eq_error_iff,
    Failure.syntaxFault.injEq]
  constructor
  · rintro (⟨unread, rfl, rfl⟩ | ⟨tree, read, fails | ⟨edits, calls, nonempty, torn |
      ⟨after, made, spoiled, rfl, rfl⟩⟩⟩)
    · exact ⟨rfl, .inl ⟨unread, rfl⟩⟩
    · exact absurd rfl ((Script.isUnreadable_of_calls fails).ne_syntaxFault name lang)
    · obtain ⟨_, fails⟩ := Script.exists_of_rewritten_eq_error torn
      cases fails
    · exact ⟨rfl, .inr ⟨tree, read, ⟨edits, after, calls, nonempty, made, spoiled⟩, rfl⟩⟩
  · rintro ⟨rfl, ⟨unread, rfl⟩ | ⟨tree, read, ⟨edits, after, calls, nonempty, made, spoiled⟩, rfl⟩⟩
    · exact .inl ⟨unread, rfl, rfl⟩
    · exact .inr ⟨tree, read, .inr ⟨edits, calls, nonempty, .inr ⟨after, made, spoiled, rfl, rfl⟩⟩⟩

/-- The script edits fail with the chosen region. -/
theorem scriptEdits_eq_error_iff :
    (scriptEdits settings scope component).yield = .error failure ↔
      ∃ region ∈ component.script, (scriptEdit settings scope region).yield = .error failure := by
  rw [scriptEdits]
  cases component.script with
  | none => simp
  | some region =>
    rw [(emits_reportSkipped scope region _).yield_bind (registers_scriptEdit _ _ _)]
    simp

/-! ## The template of a component -/

/-- A template yields an edit when extraction changes it. -/
theorem yield_templateEdit (isHtml : region.isHtml = true) :
    (templateEdit scope region).yield =
      (Markup.extract scope Markup.Stage.all region.content).yield.map fun text =>
        if text == region.content then [] else [⟨region.start, region.stop, text⟩] := by
  rw [templateEdit, isHtml]
  refine (yield_bind (Markup.registers_extract _ _ _) fun _ =>
    .bind (.note _ _ _ _) fun _ => .pure _).trans ?_
  cases (Markup.extract scope Markup.Stage.all region.content).yield <;> rfl

/-- A template yields edits unless it holds a text that cannot be read. -/
theorem templateEdits_eq_ok_iff :
    (∃ edits, (templateEdits scope component).yield = .ok edits) ↔
      ∀ region ∈ component.template, region.isHtml = true →
        ∃ text, (Markup.extract scope Markup.Stage.all region.content).yield = .ok text := by
  rw [templateEdits]
  cases component.template with
  | none => simp
  | some region =>
    simp only [Option.mem_some, forall_eq']
    cases isHtml : region.isHtml with
    | false =>
      rw [templateEdit, isHtml]
      exact iff_of_true ⟨[], rfl⟩ (by simp)
    | true =>
      rw [yield_templateEdit isHtml]
      cases (Markup.extract scope Markup.Stage.all region.content).yield <;> simp [Except.map]

private theorem templateEdits_ne_syntaxFault (scope : Scope) (component : Component) (name : Text)
    (lang : Language) :
    (templateEdits scope component).yield ≠ .error (.syntaxFault name lang) := by
  rw [templateEdits]
  cases component.template with
  | none => simp
  | some region =>
    cases isHtml : region.isHtml with
    | false =>
      dsimp only
      rw [templateEdit, isHtml]
      exact fun fails => by cases fails
    | true =>
      have never := Markup.extract_ne_syntaxFault scope Markup.Stage.all region.content name lang
      dsimp only
      rw [yield_templateEdit isHtml]
      generalize (Markup.extract scope Markup.Stage.all region.content).yield = result at never
      cases result with
      | ok text => exact fun fails => by cases fails
      | error failure =>
        intro fails
        cases fails
        exact never rfl

/-! ## The whole file -/

/-- A component fails when its template does or, behind that, its script. -/
theorem extractComponent_eq_error_iff {component : Component} :
    (extractComponent settings scope content component).yield = .error failure ↔
      (templateEdits scope component).yield = .error failure ∨
      (∃ edits, (templateEdits scope component).yield = .ok edits) ∧
        (scriptEdits settings scope component).yield = .error failure := by
  unfold extractComponent
  rw [(emits_reportFaulty scope _).yield_bind (.bind (registers_templateEdits _ _) fun _ =>
    .bind (registers_scriptEdits _ _ _) fun _ => .pure _),
    yield_bind (registers_templateEdits _ _) fun _ =>
      .bind (registers_scriptEdits _ _ _) fun _ => .pure _,
    bind_eq_error_iff]
  refine or_congr_right ?_
  constructor
  · rintro ⟨edits, templates, fails⟩
    rw [yield_bind (registers_scriptEdits _ _ _) fun _ => .pure _, bind_eq_error_iff] at fails
    rcases fails with fails | ⟨_, -, fails⟩
    · exact ⟨⟨edits, templates⟩, fails⟩
    · cases fails
  · rintro ⟨⟨edits, templates⟩, fails⟩
    refine ⟨edits, templates, ?_⟩
    rw [yield_bind (registers_scriptEdits _ _ _) fun _ => .pure _, bind_eq_error_iff]
    exact .inl fails

/-- A script that is a file of its own is read only once. -/
theorem extractScript_syntaxFault_iff :
    (extractScript scope content).yield = .error (.syntaxFault name lang) ↔
      lang = Language.ofLabel scope.path.suffix ∧ Script.parse? lang content = none ∧
        name = scope.path.toText := by
  rw [extractScript, yield_bind (registers_ofExcept _) fun _ =>
    .bind (Script.registers_extract _ _ _) fun _ => .bind (.note _ _ _ _) fun _ => .pure _,
    yield_ofExcept, bind_eq_error_iff, Script.parse_eq_error_iff, Failure.syntaxFault.injEq]
  constructor
  · rintro (⟨unread, rfl, rfl⟩ | ⟨tree, -, fails⟩)
    · exact ⟨rfl, unread, rfl⟩
    · rw [yield_bind (Script.registers_extract _ _ _) fun _ => .bind (.note _ _ _ _) fun _ => .pure _,
        bind_eq_error_iff] at fails
      rcases fails with fails | ⟨_, -, fails⟩
      · rcases Script.of_extract_eq_error fails with fails | ⟨_, reason⟩
        · exact absurd rfl ((Script.isUnreadable_of_calls fails).ne_syntaxFault name lang)
        · cases reason
      · cases fails
  · rintro ⟨rfl, unread, rfl⟩
    exact .inl ⟨unread, rfl, rfl⟩

/-- A file fails exactly when extraction from it does. -/
theorem process_eq_error_iff {cwd path : Path} {catalogue : Catalogue} :
    (process settings cwd path content catalogue).1 = .error failure ↔
      (extract settings (settings.scope cwd path) content).yield = .error failure := by
  obtain ⟨added, emits⟩ :=
    (registers_extract settings (settings.scope cwd path) content).emits
  generalize (extract settings (settings.scope cwd path) content).yield = result at emits
  cases result with
  | error reason =>
    obtain ⟨_, processed⟩ := process_of_emits_error catalogue emits
    rw [processed]
    simp
  | ok value =>
    obtain ⟨_, processed⟩ := process_of_emits catalogue emits
    rw [processed]
    simp

/-- Extraction from a script that is a file of its own fails with a syntax fault exactly
when the script is not in its language. Extraction from a component does so exactly when
every text of its template can be read, and its script is not in its language or has
literals that are replaced and is not in its language with calls in their places. The fault
names the file in the first case, and the script alone in the second. -/
theorem process_syntaxFault_iff (settings : Settings) (cwd path : Path)
    (content : Text) (catalogue : Catalogue) (name : Text) (lang : Language) :
    let scope := settings.scope cwd path
    (process settings cwd path content catalogue).1 =
        .error (.syntaxFault name lang) ↔
      if isComponent path then
        (∀ region ∈ (Component.ofText content).template, region.isHtml = true →
          ∃ text, (Markup.extract scope Markup.Stage.all region.content).yield = .ok text) ∧
        ∃ region ∈ (Component.ofText content).script,
          lang = Language.ofLabel (region.lang.getD []) ∧
          (Script.parse? lang region.content = none ∧ name = path.toText ∨
            ∃ tree, Script.parse? lang region.content = some tree ∧
              Spoiled lang scope region.content tree ∧ name = Accessor.scriptName)
      else
        lang = Language.ofLabel path.suffix ∧ Script.parse? lang content = none ∧
          name = path.toText := by
  intro scope
  rw [process_eq_error_iff, extract,
    (Emits.note _ _ _ _).yield_bind (registers_extractEither settings scope content)]
  change _ ↔ if isComponent scope.path = true then _ else _
  split
  · rw [extractComponent_eq_error_iff, templateEdits_eq_ok_iff, scriptEdits_eq_error_iff]
    simp only [scriptEdit_syntaxFault_iff]
    exact or_iff_right (templateEdits_ne_syntaxFault _ _ _ _)
  · exact extractScript_syntaxFault_iff

end Document

end Phrasebook
