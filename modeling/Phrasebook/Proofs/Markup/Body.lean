import Phrasebook.Proofs.Markup.Applied
import Phrasebook.Proofs.Markup.Settled

/-!
# Runs after extraction

The last two stages put an interpolated call in the place of a run and leave the blanks
around it. This module says what they make of each run of a buffer, and that neither
of them would take up a run of the result again.
-/

namespace Phrasebook.Markup

open Text

/-- A call inside an interpolation. -/
def interpolated (call : Text) : Text :=
  ['{', '{', ' '] ++ call ++ [' ', '}', '}']

/-- Whether a stage turns a run into a text: blanks around an interpolated call that
passes on expressions of the run. -/
def TurnsInto (scope : Scope) (run text : Text) : Prop :=
  ∃ lead core trail stored exprs, run = lead ++ core ++ trail ∧ Text.AllBlank lead ∧
    Text.AllBlank trail ∧
    (∀ expr ∈ exprs, expr <:+: run ∧ ¬ Interpolation.closing <:+: expr) ∧
    text = lead ++ interpolated (scope.call stored '"' exprs) ++ trail

/-! ## What the stages make of a run -/

namespace Stage

variable {text : Text} {scope : Scope} {exprs : List Text} {run : Text}

/-- What a stage puts in the place of a run, wherever the run stands. -/
def runChange (scope : Scope) (pieces : Found Text → Option (List Piece)) (run : Text) :
    Option Text :=
  (pieces ⟨0, 0, run⟩).map (Piece.spell scope)

theorem readable_literal (text : Text) : Pass.readable (literally text) = .ok text := by
  change (CodePoint.written (CodePoint.ofText text)).mapError _ = _
  rw [CodePoint.written_ofText]
  rfl

theorem located_literal {start stop : Nat} (proper : start < stop) (text : Text) :
    Pass.located ⟨start, stop⟩ (literally text) = .ok text :=
  Pass.located_eq_ok_iff.2 ⟨by simpa [Span.proper] using proper, readable_literal text⟩

theorem storedText_literally {start stop : Nat} {quote : Char} :
    Piece.storedText ⟨start, stop, literally text, quote, exprs⟩ = text := by
  rw [Piece.storedText, readable_literal]

/-- What stands in the place of a run. -/
theorem spell_runPieces {found : Found Text} {lead trail : Text} :
    Piece.spell scope (runPieces found lead trail text exprs) =
      lead ++ interpolated (scope.call text '"' exprs) ++ trail := by
  simp [runPieces, Piece.spell, Piece.callText, storedText_literally, interpolated]

private theorem runChange_mixedContent (scope : Scope) (found : Found Text) :
    (findMixedContent found).map (Piece.spell scope) =
      runChange scope findMixedContent found.value := by
  simp only [runChange, findMixedContent]
  split <;> simp [spell_runPieces]

private theorem runChange_text (scope : Scope) (found : Found Text) :
    (findText scope.functions found).map (Piece.spell scope) =
      runChange scope (findText scope.functions) found.value := by
  simp only [runChange, findText]
  split <;> simp [spell_runPieces]

/-- A stage that looks at runs by themselves changes the runs of a buffer. -/
theorem copy_placed {pieces : Found Text → Option (List Piece)}
    (alone : ∀ found, (pieces found).map (Piece.spell scope) = runChange scope pieces found.value)
    (eligible : Text → Bool) (buffer : Text) :
    Edit.copy 0 buffer (contents scope (placed pieces (Run.all eligible buffer))) =
      Run.replace (Run.changed eligible (runChange scope pieces)) buffer := by
  have same : contents scope (placed pieces (Run.all eligible buffer)) =
      (Run.all eligible buffer).filterMap (Run.withChange (runChange scope pieces)) := by
    rw [contents, placed, List.map_filterMap]
    congr 1
    funext found
    rw [Run.withChange, ← alone, Option.map_map, Option.map_map]
    rfl
  rw [same, Run.all_eq_places, Run.replace]
  conv => lhs; arg 2; rw [← Run.joined_segments buffer]
  exact Run.copy_places (Run.segmented_segments buffer)

/-- What the stage for mixed content makes of a run. -/
def mixedChange (scope : Scope) : Text → Text :=
  Run.changed (occursIn Interpolation.opening) (runChange scope findMixedContent)

/-- What the stage for text makes of a run. -/
def plainChange (scope : Scope) : Text → Text :=
  Run.changed hasIdeograph (runChange scope (findText scope.functions))

/-- The stage for mixed content changes runs only. -/
theorem applied_mixedContent (scope : Scope) (buffer : Text) :
    applied scope .mixedContent buffer = Run.replace (mixedChange scope) buffer :=
  copy_placed (runChange_mixedContent scope) _ buffer

/-- So does the stage for plain text. -/
theorem applied_plainText (scope : Scope) (buffer : Text) :
    applied scope .plainText buffer = Run.replace (plainChange scope) buffer :=
  copy_placed (runChange_text scope) _ buffer

/-- The expressions of a run are parts of it without closing braces. -/
theorem expression_of_mem_cutAll {expr gap : Text}
    (member : (expr, gap) ∈ (cutAll Interpolation.recognise text).2) :
    trim expr <:+: text ∧ ¬ Interpolation.closing <:+: trim expr := by
  obtain ⟨rest, length, ends, recognised⟩ := exists_of_mem_cutAll member
  obtain ⟨-, closes, starts⟩ := Interpolation.recognise_eq_some_iff.1 recognised
  obtain ⟨lead, trail, -, cut, -⟩ := exists_cutBlanks expr
  have trimmed : trim expr <:+: expr := ⟨lead, trail, cut.symm⟩
  have inside : expr <:+: text :=
    (List.IsInfix.trans ⟨_, _, rfl⟩ starts.isInfix).trans ends.isInfix
  exact ⟨trimmed.trans inside,
    fun occurs => closes ((occurs.trans trimmed).trans (List.prefix_append _ _).isInfix)⟩

private theorem turnsInto_of_mixedContent
    (changes : runChange scope findMixedContent run = some text) :
    TurnsInto scope run text := by
  obtain ⟨pieces, found, rfl⟩ := Option.map_eq_some_iff.1 changes
  obtain ⟨lead, trail, cut, whole, leadBlank, trailBlank⟩ := exists_cutBlanks run
  simp only [findMixedContent, cut, Option.ite_none_left_eq_some, Option.some.injEq] at found
  rw [← found.2, spell_runPieces]
  refine ⟨lead, _, trail, _, _, whole, leadBlank, trailBlank, ?_, rfl⟩
  intro expr member
  obtain ⟨part, partMember, rfl⟩ := List.mem_map.1 member
  obtain ⟨inside, closes⟩ := expression_of_mem_cutAll partMember
  exact ⟨inside.trans ⟨lead, trail, whole.symm⟩, closes⟩

private theorem turnsInto_of_text
    (changes : runChange scope (findText scope.functions) run = some text) :
    TurnsInto scope run text := by
  obtain ⟨pieces, found, rfl⟩ := Option.map_eq_some_iff.1 changes
  obtain ⟨lead, trail, cut, whole, leadBlank, trailBlank⟩ := exists_cutBlanks run
  simp only [findText, cut, Option.ite_none_left_eq_some, Option.some.injEq] at found
  rw [← found.2, spell_runPieces]
  exact ⟨lead, _, trail, _, _, whole, leadBlank, trailBlank, by simp, rfl⟩

end Stage

/-! ## Runs that were turned into calls -/

theorem unbracketed_interpolated {scope : Scope} (unbracketed : scope.Unbracketed) {text : Text}
    {exprs : List Text} (passed : ∀ expr ∈ exprs, Run.Unbracketed expr) :
    Run.Unbracketed (interpolated (scope.call text '"' exprs)) := by
  simp only [interpolated, Run.unbracketed_append]
  exact ⟨⟨by decide, unbracketed.call (by decide) passed⟩, by decide⟩

/-- An interpolation with nothing but blanks around it is not mixed. -/
theorem not_isMixed_interpolation {lead expr trail : Text} (leadBlank : Text.AllBlank lead)
    (trailBlank : Text.AllBlank trail) (closes : ¬ Interpolation.closing <:+: expr ++ ['}']) :
    ¬ IsMixed (lead ++ (Interpolation.opening ++ expr ++ Interpolation.closing) ++ trail) := by
  have trimmed : Text.Trimmed
      (Interpolation.opening ++ expr ++ Interpolation.closing) := by
    refine ⟨by simp [Interpolation.opening]; decide, ?_⟩
    rw [List.getLast?_append]
    simp [Interpolation.closing]
    decide
  have cut := cutBlanks_append leadBlank trailBlank (by simp [Interpolation.opening]) trimmed
  have recognised : Interpolation.recognise
      ((Interpolation.opening ++ expr ++ Interpolation.closing) ++ []) =
        some ((Interpolation.opening ++ expr ++ Interpolation.closing).length, expr) :=
    Interpolation.recognise_eq_some_iff.2 ⟨rfl, closes, by simp⟩
  have cuts := cutAll_of_some (by simp [Interpolation.opening]) recognised
  rw [List.append_nil] at cuts
  -- All of the core is taken by the interpolation, so no text is left between the braces.
  rintro ⟨-, ideograph, -⟩
  rw [cut, fixedText, cuts] at ideograph
  simp [hasIdeograph] at ideograph

namespace TurnsInto

variable {scope : Scope} {run text : Text}

private theorem ne_nil (turns : TurnsInto scope run text) : text ≠ [] := by
  obtain ⟨lead, core, trail, stored, exprs, -, -, -, -, rfl⟩ := turns
  simp [interpolated]

/-- No bracket comes in with a call. -/
theorem unbracketed (discreet : scope.Discreet) (turns : TurnsInto scope run text)
    (plain : Run.Unbracketed run) : Run.Unbracketed text := by
  obtain ⟨lead, core, trail, stored, exprs, rfl, -, -, passed, rfl⟩ := turns
  have call := @unbracketed_interpolated _ discreet.unbracketed stored exprs
    fun expr member char inside =>
      plain char ((passed expr member).1.subset inside)
  simp only [Run.unbracketed_append] at plain ⊢
  exact ⟨⟨plain.1.1, call⟩, plain.2⟩

/-- The core of the text is one interpolation. -/
theorem exists_interpolation (discreet : scope.Discreet) (turns : TurnsInto scope run text) :
    ∃ lead expr trail, text = lead ++ (Interpolation.opening ++ expr ++
      Interpolation.closing) ++ trail ∧ Text.AllBlank lead ∧ Text.AllBlank trail ∧
      ¬ Interpolation.closing <:+: expr ++ ['}'] := by
  obtain ⟨lead, core, trail, stored, exprs, -, leadBlank, trailBlank, passed, rfl⟩ := turns
  have call := @Scope.Discreet.not_closing_call _ stored '"' _ discreet (by decide)
    fun expr member => (passed expr member).2
  refine ⟨lead, ' ' :: (scope.call stored '"' exprs ++ [' ']), trail,
    by simp [interpolated, Interpolation.opening, Interpolation.closing], leadBlank, trailBlank, ?_⟩
  have foreign : ' ' ∉ Interpolation.closing := by decide
  rw [List.cons_append, List.append_assoc, List.cons_append, ← List.nil_append (' ' :: _),
    infix_append_cons_iff foreign, infix_append_cons_iff foreign]
  exact not_or.2 ⟨by decide, not_or.2 ⟨call, by decide⟩⟩

/-- What turned is no mixed content. -/
theorem not_isMixed (discreet : scope.Discreet) (turns : TurnsInto scope run text) :
    ¬ IsMixed text := by
  obtain ⟨lead, expr, trail, rfl, leadBlank, trailBlank, closes⟩ :=
    turns.exists_interpolation discreet
  exact not_isMixed_interpolation leadBlank trailBlank closes

/-- What turned is no plain text. -/
theorem not_isPlain (functions : Functions) (turns : TurnsInto scope run text) :
    ¬ IsPlain functions text := by
  obtain ⟨lead, core, trail, stored, exprs, -, -, -, -, rfl⟩ := turns
  rintro ⟨closed, -⟩
  exact closed ⟨lead, ' ' :: (scope.call stored '"' exprs ++ [' ', '}', '}'] ++ trail),
    by simp [interpolated, Interpolation.opening]⟩

end TurnsInto

/-- Whether a change turns runs into calls and does nothing else to them. -/
def Turning (scope : Scope) (change : Text → Text) : Prop :=
  ∀ run, TurnsInto scope run (change run) ∨ change run = run

namespace Turning

variable {scope : Scope} {change : Text → Text}

private theorem ne_nil (turning : Turning scope change) (run : Text) (nonempty : run ≠ []) :
    change run ≠ [] := by
  rcases turning run with turns | same
  · exact turns.ne_nil
  · rwa [same]

private theorem unbracketed (turning : Turning scope change) (discreet : scope.Discreet)
    (run : Text) (plain : Run.Unbracketed run) : Run.Unbracketed (change run) := by
  rcases turning run with turns | same
  · exact turns.unbracketed discreet plain
  · rwa [same]

/-- The runs of a buffer whose runs are turned are the turned runs. -/
theorem textsOf_replace (turning : Turning scope change) (discreet : scope.Discreet) (buffer : Text) :
    Run.textsOf (Run.replace change buffer) = (Run.textsOf buffer).map change :=
  Run.textsOf_replace (turning.unbracketed discreet) turning.ne_nil buffer

end Turning

/-! ## Quiet runs -/

/-- Whether neither of the last two stages takes up a run. -/
def Quiet (functions : Functions) (run : Text) : Prop :=
  (occursIn Interpolation.opening run = true → ¬ IsMixed run) ∧
    (hasIdeograph run = true → ¬ IsPlain functions run)

namespace Stage

private theorem runChange_mixedContent_eq_none_iff {scope : Scope} {run : Text} :
    runChange scope findMixedContent run = none ↔ ¬ IsMixed run := by
  rw [runChange, Option.map_eq_none_iff, findMixedContent_eq_none_iff]

private theorem runChange_text_eq_none_iff {scope : Scope} {run : Text} :
    runChange scope (findText scope.functions) run = none ↔ ¬ IsPlain scope.functions run := by
  rw [runChange, Option.map_eq_none_iff, findText_eq_none_iff]

/-- A run is turned into a call or left alone, and then the change does not apply to
it. -/
theorem changed_cases {scope : Scope} {eligible : Text → Bool} {change : Text → Option Text}
    (turns : ∀ run text, change run = some text → TurnsInto scope run text) (run : Text) :
    TurnsInto scope run (Run.changed eligible change run) ∨
      Run.changed eligible change run = run ∧ (eligible run = true → change run = none) := by
  rw [Run.changed]
  cases holds : eligible run with
  | false => exact .inr ⟨rfl, by simp⟩
  | true =>
    cases found : change run with
    | none => exact .inr ⟨rfl, fun _ => rfl⟩
    | some text => exact .inl (turns run text found)

/-- A run turns into a call, or stays if it has nothing mixed. -/
theorem mixedChange_cases (scope : Scope) (run : Text) :
    TurnsInto scope run (mixedChange scope run) ∨ mixedChange scope run = run ∧
      (occursIn Interpolation.opening run = true → ¬ IsMixed run) := by
  rw [← @runChange_mixedContent_eq_none_iff scope]
  exact changed_cases (fun _ _ => turnsInto_of_mixedContent) run

/-- A run turns into a call, or stays if it has nothing plain. -/
theorem plainChange_cases (scope : Scope) (run : Text) :
    TurnsInto scope run (plainChange scope run) ∨ plainChange scope run = run ∧
      (hasIdeograph run = true → ¬ IsPlain scope.functions run) := by
  rw [← @runChange_text_eq_none_iff scope]
  exact changed_cases (fun _ _ => turnsInto_of_text) run

/-- A run is quiet after the last two stages. -/
theorem quiet_plainChange {scope : Scope} (named : scope.Named) (run : Text) :
    Quiet scope.functions (plainChange scope (mixedChange scope run)) := by
  rcases plainChange_cases scope (mixedChange scope run) with turns | ⟨same, plain⟩
  · exact ⟨fun _ => turns.not_isMixed named.discreet, fun _ => turns.not_isPlain _⟩
  · rw [same]
    refine ⟨?_, plain⟩
    rcases mixedChange_cases scope run with turns | ⟨same, mixed⟩
    · exact fun _ => turns.not_isMixed named.discreet
    · rwa [same]

theorem turning_mixedChange (scope : Scope) : Turning scope (mixedChange scope) :=
  fun run => (mixedChange_cases scope run).imp_right And.left

theorem turning_plainChange (scope : Scope) : Turning scope (plainChange scope) :=
  fun run => (plainChange_cases scope run).imp_right And.left

/-- The last two stages leave quiet runs. -/
theorem quiet_of_mem_textsOf {scope : Scope} (named : scope.Named) {buffer run : Text}
    (member : run ∈ Run.textsOf (applied scope .plainText (applied scope .mixedContent buffer))) :
    Quiet scope.functions run := by
  rw [applied_plainText, applied_mixedContent,
    (turning_plainChange scope).textsOf_replace named.discreet,
    (turning_mixedChange scope).textsOf_replace named.discreet, List.map_map] at member
  obtain ⟨run, -, rfl⟩ := List.mem_map.1 member
  exact quiet_plainChange named run

end Stage

end Phrasebook.Markup
