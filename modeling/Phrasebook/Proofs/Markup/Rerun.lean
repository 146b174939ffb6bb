import Phrasebook.Proofs.Markup.Stages

/-!
# A second look at the runs of a template

The last two stages find nothing in a template that extraction left: every run of it is
quiet. The argument needs the comments of the buffer to be marks to the end, since putting
them back and masking them again must show the stages the same runs.
-/

namespace Phrasebook.Markup

open Pass

/-- A mark is cut at its two brackets. -/
theorem segments_mark {taken : Text} (isMark : Comment.IsAnyMark taken) (rest : Text) :
    ∃ inside, Run.segments (taken ++ rest) =
      ([], ('<', inside) :: ('>', (Run.segments rest).1) :: (Run.segments rest).2) := by
  obtain ⟨_, digits, rfl, -, all, -⟩ := isMark
  have plain : Run.Unbracketed (['!', '-', '-', '@'] ++ digits ++ ['-', '-']) := by
    simp only [Run.unbracketed_append]
    refine ⟨⟨by decide, fun char member => ?_⟩, by decide⟩
    exact @Run.isBracket_of_kind Text.isDigit (by decide) (by decide) char
      (all char member)
  refine ⟨['!', '-', '-', '@'] ++ digits ++ ['-', '-'], ?_⟩
  have shape : Comment.opening ++ '@' :: digits ++ Comment.closing ++ rest =
      '<' :: ((['!', '-', '-', '@'] ++ digits ++ ['-', '-']) ++ '>' :: rest) := by
    simp [Comment.opening, Comment.closing]
  rw [shape, Run.segments_bracket (by decide), Run.segments_append plain,
    Run.segments_bracket (by decide), List.append_nil]

/-- Buffers that differ in the numbers of their marks have the same runs. -/
theorem textsOf_exchanged {buffer other : Text}
    (exchanged : Comment.Exchanged Comment.IsAnyMark Comment.IsAnyMark buffer other) :
    Run.textsOf buffer = Run.textsOf other := by
  -- The start of a segment may already have been passed.
  have from_ (prev : Option Char) (front : Text) :
      Run.texts prev (front ++ (Run.segments buffer).1) (Run.segments buffer).2 =
        Run.texts prev (front ++ (Run.segments other).1) (Run.segments other).2 := by
    induction exchanged generalizing prev front with
    | nil => rfl
    | keep char rest ih =>
      cases bracket : Run.isBracket char with
      | true =>
        rw [Run.segments_bracket bracket, Run.segments_bracket bracket, Run.texts, Run.texts,
          List.append_nil]
        exact congrArg _ (ih (some char) [])
      | false =>
        have later := ih prev (front ++ [char])
        rw [Run.segments_plain bracket, Run.segments_plain bracket]
        simpa using later
    | swap here there rest ih =>
      obtain ⟨inside, segments⟩ := segments_mark here _
      obtain ⟨otherInside, otherSegments⟩ := segments_mark there _
      rw [segments, otherSegments, Run.texts, Run.texts, Run.texts, Run.texts, List.append_nil]
      have later := ih (some '>') []
      simpa [Run.ifRun, Run.isRun] using later
  exact from_ none []

/-- In a buffer of quiet runs the last two stages find nothing. -/
theorem Stage.find_eq_nil_of_quiet {functions : Functions} {buffer : Text}
    (quiet : ∀ run ∈ Run.textsOf buffer, Quiet functions run) :
    ∀ stage ∈ [mixedContent, plainText], find functions buffer stage = [] := by
  simp only [List.forall_mem_cons, find, placed_eq_nil_iff, findMixedContent_eq_none_iff,
    findText_eq_none_iff]
  refine ⟨fun found member => ?_, fun found member => ?_, by simp⟩
  · exact (quiet _ (Run.of_mem_all member).1).1 (Run.of_mem_all member).2
  · exact (quiet _ (Run.of_mem_all member).1).2 (Run.of_mem_all member).2

/-- The last two stages find nothing in a template that extraction left. -/
theorem find_eq_nil_of_emits_extract {scope : Scope} (named : scope.Named) {template after : Text}
    {added : List KeyedPhrase} (emits : Emits (extract scope Stage.all template) (.ok after) added) :
    ∀ stage ∈ [Stage.mixedContent, Stage.plainText],
      Stage.find scope.functions (Comment.mask after) stage = [] := by
  obtain ⟨buffer, first, second, applies, restores, -⟩ :=
    emits.of_bind (registers_applyAll _ _ _) fun _ => .known _
  have buffer_eq := Stage.eq_foldl_of_emits applies
  have restored := (restores.unique (.known _)).1
  have marksOnly := Stage.marksOnly_foldl named Stage.all (Comment.marksOnly_mask template)
  rw [← buffer_eq] at marksOnly
  have same := textsOf_exchanged (Comment.exchanged_maskFrom_restore
    (fun _ => Comment.isComment_of_mem_all) marksOnly restored.symm 0)
  apply Stage.find_eq_nil_of_quiet
  intro run member
  rw [Comment.mask_eq, same, buffer_eq] at member
  simp only [Stage.all, List.foldl_cons, List.foldl_nil] at member
  exact Stage.quiet_of_mem_textsOf named member

end Phrasebook.Markup
