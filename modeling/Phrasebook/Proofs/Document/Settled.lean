import Phrasebook.Proofs.Document.Registration
import Phrasebook.Proofs.Markup.Comment
import Phrasebook.Proofs.Markup.Settled

/-!
# Settled files

A file is settled when nothing in it is left to extract: its template holds nothing
for the stages, and every literal of its script stays or has a value without
ideographs. Extraction registers nothing exactly in a settled file, and then it gives
the file back as it was.
-/

namespace Phrasebook

open Pass

/-! ## Markup -/

namespace Markup

variable {scope : Scope} {buffer after : Text}

/-- A stage registers one phrase for each that its pieces hold. -/
theorem length_of_emits_render {setting : Setting} {pieces : List Piece} {text : Text}
    {added : List KeyedPhrase} (emits : Emits (Piece.render scope setting pieces) (.ok text) added) :
    added.length = (Piece.candidates pieces).length := by
  induction pieces generalizing text added with
  | nil =>
    obtain ⟨-, rfl⟩ := Emits.pure_iff.1 emits
    rfl
  | cons piece pieces ih =>
    cases piece with
    | fixed fixed =>
      obtain ⟨later, first, second, renders, yields, rfl⟩ :=
        emits.of_bind (registers_render _ _ _) fun _ => .pure _
      obtain ⟨-, rfl⟩ := Emits.pure_iff.1 yields
      simpa [Piece.candidates] using ih renders
    | call candidate =>
      obtain ⟨key, first, second, registers, rest, rfl⟩ :=
        emits.of_bind (.register _ _ _ _) fun _ =>
          .bind (registers_render _ _ _) fun _ => .pure _
      obtain ⟨phrase, rfl⟩ := registers.of_register
      obtain ⟨later, second, third, renders, yields, rfl⟩ :=
        rest.of_bind (registers_render _ _ _) fun _ => .pure _
      obtain ⟨-, rfl⟩ := Emits.pure_iff.1 yields
      simp [Piece.candidates, ih renders, Nat.add_comm]

/-- Places that hold phrases are not edited without registering one. -/
theorem eq_nil_of_emits_edits {stage : Stage} {places : List (Found (List Piece))}
    {edits : List (Edit Char)} (hold : ∀ place ∈ places, Piece.candidates place.value ≠ [])
    (emits : Emits (Stage.edits scope stage buffer places) (.ok edits) []) : places = [] := by
  cases places with
  | nil => rfl
  | cons place places =>
    obtain ⟨content, renders, -⟩ := (Emits.bind_nil_iff (registers_render _ _ _) fun _ =>
      .bind (registers_edits _ _ _ _) fun _ => .pure _).1 emits
    have size := length_of_emits_render renders
    exact absurd (List.eq_nil_of_length_eq_zero size.symm) (hold place (by simp))

/-- A stage registers nothing exactly where it finds nothing, and then the buffer
stays. -/
theorem emits_apply_iff {stage : Stage} :
    Emits (Stage.apply scope stage buffer) (.ok after) [] ↔
      after = buffer ∧ Stage.find scope.functions buffer stage = [] := by
  rw [Stage.apply]
  have idle : Emits (pure (Edit.applyAll buffer [])) (.ok after) [] ↔ after = buffer := by
    rw [Edit.applyAll_nil, Emits.pure_iff, and_iff_left rfl]
  constructor
  · intro emits
    obtain ⟨edits, finds, rest⟩ := (Emits.bind_nil_iff (registers_edits _ _ _ _) fun edits => by
      cases edits.isEmpty with
      | true => exact .pure _
      | false => exact .bind (.note _ _ _ _) fun _ => .pure _).1 emits
    have nothing := eq_nil_of_emits_edits (fun _ => Stage.candidates_ne_nil_of_mem_find) finds
    rw [nothing] at finds
    obtain ⟨rfl, -⟩ := Emits.pure_iff.1 finds
    exact ⟨idle.1 rest, nothing⟩
  · rintro ⟨same, nothing⟩
    rw [nothing]
    exact .andThen (.pure []) (idle.2 same)

/-- The stages register nothing exactly where none of them finds anything, and then
the buffer stays. -/
theorem emits_applyAll_iff {stages : List Stage} :
    Emits (Stage.applyAll scope stages buffer) (.ok after) [] ↔
      after = buffer ∧ ∀ stage ∈ stages, Stage.find scope.functions buffer stage = [] := by
  induction stages with
  | nil => simp [Stage.applyAll, Emits.pure_iff]
  | cons stage stages ih =>
    rw [Stage.applyAll, Emits.bind_nil_iff (registers_apply _ _ _) fun _ => registers_applyAll _ _ _,
      List.forall_mem_cons]
    constructor
    · rintro ⟨next, applies, rest⟩
      obtain ⟨rfl, nothing⟩ := emits_apply_iff.1 applies
      obtain ⟨rfl, others⟩ := ih.1 rest
      exact ⟨rfl, nothing, others⟩
    · rintro ⟨rfl, nothing, others⟩
      exact ⟨after, emits_apply_iff.2 ⟨rfl, nothing⟩, ih.2 ⟨rfl, others⟩⟩

/-- A template registers nothing exactly when it is settled behind its comments, and
then it stays. -/
theorem emits_extract_iff {template : Text} :
    Emits (extract scope Stage.all template) (.ok after) [] ↔
      after = template ∧ Settled scope.functions (Comment.mask template) := by
  have restores : Emits (ExceptT.mk (pure (Comment.restore (Comment.all template)
      (Comment.mask template)))) (.ok template) [] := by
    rw [Comment.restore_mask]
    exact .known _
  rw [← Stage.find_eq_nil_iff, extract,
    Emits.bind_nil_iff (registers_applyAll _ _ _) fun _ => .known _]
  constructor
  · rintro ⟨buffer, applies, rest⟩
    obtain ⟨rfl, nothing⟩ := emits_applyAll_iff.1 applies
    obtain ⟨same, -⟩ := rest.unique restores
    exact ⟨Except.ok.inj same, nothing⟩
  · rintro ⟨rfl, nothing⟩
    exact ⟨_, emits_applyAll_iff.2 ⟨rfl, nothing⟩, restores⟩

end Markup

/-! ## Scripts -/

namespace Script

variable {scope : Scope} {script : Text} {node : Node} {edit : Option (Edit Char)}

/-- The bodies of a literal as they are written: one for a quoted literal, the fixed
parts of a template literal. -/
def bodies (script : Text) (node : Node) : List Text :=
  if node.kind == .quoted then [script.slice (node.start + 1 : Nat) (node.stop - 1 : Nat)]
  else fixedParts script node

/-- Whether a body has a value, and no ideographs in it. -/
def IsIdle (body : Text) : Prop :=
  ∃ value, Literal.cook body = .ok value ∧ CodePoint.hasIdeograph value = false

/-- Whether every literal of a script stays where it is or has no text to extract. -/
def Settled (scope : Scope) (script : Text) (tree : Node) : Prop :=
  ∀ literal ∈ literals script [] tree, stays script scope literal.1 literal.2 = true ∨
    ∀ body ∈ bodies script literal.1, IsIdle body

/-- Whether a script can be read and is settled. -/
def ReadsSettled (lang : Language) (scope : Scope) (script : Text) : Prop :=
  ∃ tree, parse lang scope.path.toText script = .ok tree ∧ Settled scope script tree

private theorem emits_valueOf_iff {body : Text} {value : CodePoints} :
    Emits (valueOf body) (.ok value) [] ↔ Literal.cook body = .ok value := by
  rw [valueOf]
  cases Literal.cook body with
  | ok cooked => simp [Emits.pure_iff, eq_comm]
  | error fault =>
    constructor
    · intro emits
      cases (emits.unique (.known (.error (.escape fault)))).1
    · intro same
      cases same

private theorem emits_valuesOf_iff {bodies : List Text} {values : List CodePoints} :
    Emits (valuesOf bodies) (.ok values) [] ↔ bodies.map Literal.cook = values.map .ok := by
  induction bodies generalizing values with
  | nil => simp [valuesOf, Emits.pure_iff]
  | cons body bodies ih =>
    rw [valuesOf, Emits.bind_nil_iff (registers_valueOf _) fun _ =>
      .bind (registers_valuesOf _) fun _ => .pure _]
    simp only [emits_valueOf_iff, Emits.bind_nil_iff (registers_valuesOf _) fun _ => .pure _,
      ih, Emits.pure_iff, and_true]
    constructor
    · rintro ⟨value, cooked, values, allCooked, rfl⟩
      simp [cooked, allCooked]
    · intro same
      cases values with
      | nil => simp at same
      | cons value values =>
        obtain ⟨cooked, allCooked⟩ : Literal.cook body = .ok value ∧
            bodies.map Literal.cook = values.map .ok := by simpa using same
        exact ⟨value, cooked, values, allCooked, rfl⟩

/-- Bodies are idle exactly when they have values, none of them with ideographs. -/
theorem forall_isIdle_iff {bodies : List Text} :
    (∀ body ∈ bodies, IsIdle body) ↔ ∃ values : List CodePoints,
      bodies.map Literal.cook = values.map .ok ∧ values.any CodePoint.hasIdeograph = false := by
  induction bodies with
  | nil => exact iff_of_true (by simp) ⟨[], rfl, rfl⟩
  | cons body bodies ih =>
    rw [List.forall_mem_cons, ih]
    constructor
    · rintro ⟨⟨value, cooked, none⟩, values, allCooked, others⟩
      exact ⟨value :: values, by simp [cooked, allCooked], by simp [none, others]⟩
    · rintro ⟨values, allCooked, none⟩
      cases values with
      | nil => simp at allCooked
      | cons value values =>
        simp only [List.map_cons, List.cons.injEq] at allCooked
        simp only [List.any_cons, Bool.or_eq_false_iff] at none
        exact ⟨⟨value, allCooked.1, none.1⟩, values, allCooked.2, none.2⟩

/-- A literal whose value is registered when it holds ideographs is left alone exactly
when it has a value that holds none. -/
theorem emits_guarded_iff {α : Type} {reads : Pass α} {holds : α → Bool} {span : Span}
    {setting : Setting} {points : α → Except Literal.EscapeFault CodePoints}
    {edit : α → Text → Edit Char} {result : Option (Edit Char)} (does : Registers reads) :
    Emits (do
      let value ← reads
      if !holds value then return none
      let key ← Pass.register scope span setting (points value)
      return some (edit value key)) (.ok result) [] ↔
    result = none ∧ ∃ value, Emits reads (.ok value) [] ∧ holds value = false := by
  refine (Emits.bind_nil_iff does fun value => ?_).trans ?_
  · cases holds value with
    | false => exact .pure _
    | true => exact .bind (.register _ _ _ _) fun _ => .pure _
  · constructor
    · rintro ⟨value, reads, rest⟩
      cases held : holds value with
      | false =>
        rw [held] at rest
        obtain ⟨rfl, -⟩ := Emits.pure_iff.1 rest
        exact ⟨rfl, value, reads, held⟩
      | true =>
        rw [held] at rest
        obtain ⟨_, registers, -⟩ :=
          (Emits.bind_nil_iff (.register _ _ _ _) fun _ => .pure _).1 rest
        obtain ⟨phrase, none⟩ := registers.of_register
        cases none
    · rintro ⟨rfl, value, reads, none⟩
      refine ⟨value, reads, ?_⟩
      rw [none]
      exact .pure _

private theorem emits_extractQuoted_iff :
    Emits (extractQuoted script scope node) (.ok edit) [] ↔
      edit = none ∧ IsIdle (script.slice (node.start + 1 : Nat) (node.stop - 1 : Nat)) := by
  refine (emits_guarded_iff (registers_valueOf _)).trans ?_
  simp only [emits_valueOf_iff, IsIdle]

private theorem emits_extractTemplate_iff :
    Emits (extractTemplate script scope node) (.ok edit) [] ↔
      edit = none ∧ ∀ body ∈ fixedParts script node, IsIdle body := by
  refine (emits_guarded_iff (registers_valuesOf _)).trans ?_
  simp only [emits_valuesOf_iff, forall_isIdle_iff]

/-- A literal is left alone exactly when it stays or all its bodies are idle. -/
theorem emits_extractLiteral_iff {around : Ancestors} :
    Emits (extractLiteral script scope node around) (.ok edit) [] ↔
      edit = none ∧ (stays script scope node around = true ∨
        ∀ body ∈ bodies script node, IsIdle body) := by
  rw [extractLiteral, bodies]
  split
  · rename_i stays
    simp [stays, Emits.pure_iff]
  · rename_i moves
    simp only [Bool.not_eq_true _ ▸ moves, Bool.false_eq_true, false_or]
    split
    · simpa using emits_extractQuoted_iff
    · exact emits_extractTemplate_iff

/-- The literals of a script are left alone together exactly when each of them is. -/
theorem emits_extractAll_iff {literals : List (Node × Ancestors)} {edits : List (Edit Char)} :
    Emits (extractAll script scope literals) (.ok edits) [] ↔
      edits = [] ∧ ∀ literal ∈ literals, stays script scope literal.1 literal.2 = true ∨
        ∀ body ∈ bodies script literal.1, IsIdle body := by
  induction literals generalizing edits with
  | nil => simp [extractAll, Emits.pure_iff]
  | cons literal literals ih =>
    obtain ⟨node, around⟩ := literal
    rw [extractAll, Emits.bind_nil_iff (registers_extractLiteral _ _ _ _) fun _ =>
      .bind (registers_extractAll _ _ _) fun _ => .pure _, List.forall_mem_cons]
    simp only [emits_extractLiteral_iff, Emits.bind_nil_iff (registers_extractAll _ _ _) fun _ =>
      .pure _, ih, Emits.pure_iff]
    constructor
    · rintro ⟨_, ⟨rfl, alone⟩, _, ⟨rfl, allAlone⟩, same, -⟩
      exact ⟨same, alone, allAlone⟩
    · rintro ⟨rfl, alone, allAlone⟩
      exact ⟨none, ⟨rfl, alone⟩, [], ⟨rfl, allAlone⟩, rfl, trivial⟩

/-- The pass over a tree emits nothing where the tree is settled. -/
theorem emits_edits_iff {tree : Node} {changes : List (Edit Char)} :
    Emits (edits scope script tree) (.ok changes) [] ↔ changes = [] ∧ Settled scope script tree :=
  emits_extractAll_iff

/-- Extraction from a script emits nothing where its tree is settled. -/
theorem emits_extract_iff {after : Text} {tree : Node} :
    Emits (extract scope script tree) (.ok after) [] ↔
      after = script ∧ Settled scope script tree := by
  rw [extract, Emits.bind_nil_iff (registers_edits _ _ _) fun _ => .known _]
  constructor
  · rintro ⟨_, finds, yields⟩
    obtain ⟨rfl, settled⟩ := emits_edits_iff.1 finds
    exact ⟨Except.ok.inj (yields.unique (.known _)).1, settled⟩
  · rintro ⟨rfl, settled⟩
    exact ⟨[], emits_edits_iff.2 ⟨rfl, settled⟩, .known (.ok after)⟩

end Script

/-! ## Files -/

namespace Document

variable {scope : Scope} {settings : Settings} {content after : Text} {added : Bool}
  {region : Region} {changes : List (Edit Char)} {component : Component}

/-- Whether nothing in a file is left to extract. -/
def Settled (scope : Scope) (content : Text) : Prop :=
  if isComponent scope.path then
    (∀ region ∈ (Component.ofText content).template, region.isHtml = true →
      Markup.Settled scope.functions (Markup.Comment.mask region.content)) ∧
    ∀ region ∈ (Component.ofText content).script,
      Script.ReadsSettled (Language.ofLabel (region.lang.getD [])) scope region.content
  else Script.ReadsSettled (Language.ofLabel scope.path.suffix) scope content

theorem emits_ofExcept_iff {α : Type} {known : Except Failure α} {value : α}
    {added : List KeyedPhrase} :
    Emits (ofExcept known) (.ok value) added ↔ known = .ok value ∧ added = [] := by
  constructor
  · intro emits
    obtain ⟨same, rfl⟩ := emits.unique (.known known)
    exact ⟨same.symm, rfl⟩
  · rintro ⟨rfl, rfl⟩
    exact .known _

/-- A template registers nothing exactly when it is not looked at or is settled. -/
theorem emits_templateEdit_iff :
    Emits (templateEdit scope region) (.ok changes) [] ↔
      changes = [] ∧ (region.isHtml = true →
        Markup.Settled scope.functions (Markup.Comment.mask region.content)) := by
  rw [templateEdit]
  cases region.isHtml with
  | false =>
    refine (Emits.andThen_iff (.note _ _ _ _) fun _ => .pure _).trans ?_
    simp [Emits.pure_iff]
  | true =>
    refine (Emits.bind_nil_iff (Markup.registers_extract _ _ _) fun _ =>
      .bind (.note _ _ _ _) fun _ => .pure _).trans ?_
    simp only [Markup.emits_extract_iff, Emits.andThen_iff (.note _ _ _ _) fun _ => .pure _,
      Emits.pure_iff]
    constructor
    · rintro ⟨_, ⟨rfl, settled⟩, same, -⟩
      exact ⟨by simpa using same, fun _ => settled⟩
    · rintro ⟨rfl, settled⟩
      exact ⟨region.content, ⟨rfl, settled trivial⟩, by simp⟩

private theorem emits_templateEdits_iff :
    Emits (templateEdits scope component) (.ok changes) [] ↔
      changes = [] ∧ ∀ region ∈ component.template, region.isHtml = true →
        Markup.Settled scope.functions (Markup.Comment.mask region.content) := by
  rw [templateEdits]
  cases component.template with
  | some region => simpa using emits_templateEdit_iff
  | none => simp [Emits.pure_iff]

/-- Reports register nothing. -/
theorem emits_reportSkipped (scope : Scope) (chosen : Region) (regions : List Region) :
    Emits (reportSkipped scope chosen regions) (.ok ()) [] := by
  induction regions with
  | nil => exact .pure _
  | cons region regions ih =>
    rw [reportSkipped]
    cases Text.hasIdeograph region.content with
    | false => exact ih
    | true => exact .andThen (.note _ _ _ _) ih

theorem emits_reportFaulty (scope : Scope) (soundness : Component.Soundness) :
    Emits (reportFaulty scope soundness) (.ok ()) [] := by
  cases soundness with
  | sound => exact .pure _
  | faulty isShown => exact .note _ _ _ _

/-- The script of a component registers nothing exactly when it can be read and is
settled. No line is put in then. -/
theorem emits_scriptEdit_iff {changes : List (Edit Char) × Bool} :
    Emits (scriptEdit settings scope region) (.ok changes) [] ↔
      changes = ([], false) ∧ Script.ReadsSettled (Language.ofLabel (region.lang.getD [])) scope
        region.content := by
  have later (lang edits message) : Registers (do
      let result ← ofExcept (regionEdit settings lang region edits)
      Pass.note scope .debug .document message
      return result) :=
    .bind (registers_ofExcept _) fun _ => .bind (.note _ _ _ _) fun _ => .pure _
  rw [scriptEdit, Script.ReadsSettled, Emits.bind_nil_iff (registers_ofExcept _) fun _ =>
    .bind (Script.registers_edits _ _ _) fun _ => later _ _ _]
  simp only [emits_ofExcept_iff, Emits.bind_nil_iff (Script.registers_edits _ _ _) fun _ =>
    later _ _ _, Script.emits_edits_iff]
  have untouched (lang message) : Emits (do
      let result ← ofExcept (regionEdit settings lang region [])
      Pass.note scope .debug .document message
      return result) (.ok ([], false)) [] :=
    .andThen (.known _) (.andThen (.note _ _ _ _) (.pure _))
  constructor
  · rintro ⟨tree, ⟨reads, -⟩, _, ⟨rfl, settled⟩, rest⟩
    obtain ⟨same, -⟩ := rest.unique (untouched _ _)
    exact ⟨Except.ok.inj same, tree, reads, settled⟩
  · rintro ⟨rfl, tree, reads, settled⟩
    exact ⟨tree, ⟨reads, trivial⟩, [], ⟨rfl, settled⟩, untouched _ _⟩

private theorem emits_scriptEdits_iff {changes : List (Edit Char) × Bool} :
    Emits (scriptEdits settings scope component) (.ok changes) [] ↔
      changes = ([], false) ∧ ∀ region ∈ component.script,
        Script.ReadsSettled (Language.ofLabel (region.lang.getD [])) scope region.content := by
  rw [scriptEdits]
  cases component.script with
  | none => simp [Emits.pure_iff]
  | some region =>
    refine (Emits.andThen_iff (emits_reportSkipped _ _ _) fun _ =>
      registers_scriptEdit settings scope region).trans ?_
    simpa using emits_scriptEdit_iff

private theorem emits_extractComponent_iff {component : Component} :
    Emits (extractComponent settings scope content component) (.ok (after, added)) [] ↔
      (after = content ∧ added = false) ∧
        (∀ region ∈ component.template, region.isHtml = true →
          Markup.Settled scope.functions (Markup.Comment.mask region.content)) ∧
        ∀ region ∈ component.script,
          Script.ReadsSettled (Language.ofLabel (region.lang.getD [])) scope region.content := by
  unfold extractComponent
  refine (Emits.andThen_iff (emits_reportFaulty _ _) fun _ => .bind (registers_templateEdits _ _)
    fun _ => .bind (registers_scriptEdits _ _ _) fun _ => .pure _).trans ?_
  rw [Emits.bind_nil_iff (registers_templateEdits _ _) fun _ =>
    .bind (registers_scriptEdits _ _ _) fun _ => .pure _]
  simp only [emits_templateEdits_iff, Emits.bind_nil_iff (registers_scriptEdits _ _ _) fun _ =>
    .pure _, emits_scriptEdits_iff, Emits.pure_iff, Prod.mk.injEq]
  constructor
  · rintro ⟨_, ⟨rfl, template⟩, _, ⟨rfl, script⟩, same, -⟩
    exact ⟨by simpa using same, template, script⟩
  · rintro ⟨same, template, script⟩
    exact ⟨[], ⟨rfl, template⟩, ([], false), ⟨rfl, script⟩, by simpa using same⟩

private theorem emits_extractScript_iff :
    Emits (extractScript scope content) (.ok (after, added)) [] ↔
      (after = content ∧ added = false) ∧
        Script.ReadsSettled (Language.ofLabel scope.path.suffix) scope content := by
  rw [extractScript, Script.ReadsSettled, Emits.bind_nil_iff (registers_ofExcept _) fun _ =>
    .bind (Script.registers_extract _ _ _) fun _ => .bind (.note _ _ _ _) fun _ => .pure _]
  simp only [emits_ofExcept_iff, Emits.bind_nil_iff (Script.registers_extract _ _ _) fun _ =>
    .bind (.note _ _ _ _) fun _ => .pure _, Script.emits_extract_iff,
    Emits.andThen_iff (.note _ _ _ _) fun _ => .pure _, Emits.pure_iff, Prod.mk.injEq]
  constructor
  · rintro ⟨tree, ⟨reads, -⟩, _, ⟨rfl, settled⟩, same, -⟩
    exact ⟨same, tree, reads, settled⟩
  · rintro ⟨same, tree, reads, settled⟩
    exact ⟨tree, ⟨reads, trivial⟩, content, ⟨rfl, settled⟩, same, trivial⟩

/-- A file registers nothing exactly when it is settled, and then it stays as it is. -/
theorem emits_extract_iff :
    Emits (extract settings scope content) (.ok (after, added)) [] ↔
      (after = content ∧ added = false) ∧ Settled scope content := by
  refine (Emits.andThen_iff (.note _ _ _ _) fun _ => registers_extractEither _ _ _).trans ?_
  rw [Settled]
  split
  · exact emits_extractComponent_iff
  · exact emits_extractScript_iff

end Document

end Phrasebook
