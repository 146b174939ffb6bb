import Phrasebook.Proofs.Markup.Comment

/-!
# Buffers with no comments but marks

While the stages run, every comment of the buffer is a mark. For such a buffer it does
not matter that the comments are put back and masked again: the buffer stays the same up
to the numbers of its marks.
-/

namespace Phrasebook.Markup.Comment

open List

variable {after : Text} {comments : List Text} {buffer rest tail : Text} {head : Char}

/-- Whether every comment of a buffer is a mark. -/
def MarksOnly (buffer : Text) : Prop :=
  ∀ rest, rest <:+ buffer → recognise rest ≠ none → ∃ index, mark index <+: rest

namespace MarksOnly

private theorem of_suffix (marksOnly : MarksOnly buffer) (ends : rest <:+ buffer) :
    MarksOnly rest :=
  fun later behind => marksOnly later (behind.trans ends)

/-- Where no mark starts, no comment does. -/
theorem recognise_eq_none (marksOnly : MarksOnly (head :: tail))
    (plain : recogniseMark (head :: tail) = none) : recognise (head :: tail) = none := by
  refine Classical.byContradiction fun comment => ?_
  obtain ⟨index, rest, whole⟩ := marksOnly _ suffix_rfl comment
  rw [← whole, recogniseMark_append (isMark_mark index)] at plain
  cases plain

end MarksOnly

theorem exists_of_recognise_ne_none {text : Text} (comment : recognise text ≠ none) :
    ∃ inside, text = opening ++ inside ∧ closing <:+: inside := by
  rw [Ne, recognise_eq_none_iff] at comment
  simpa using comment

/-- A mark holds no other opening bracket than its first character. -/
theorem exists_mark_eq (index : Nat) : ∃ inside, mark index = '<' :: inside ∧ '<' ∉ inside := by
  refine ⟨_, rfl, fun member => ?_⟩
  have digit : '<' ∈ Text.ofNat index := by simpa [closing] using member
  exact absurd (Text.isDigit_of_mem_ofNat digit) (by decide)

/-- The comments of a masked template are its marks. -/
theorem marksOnly_maskFrom (index : Nat) (template : Text) :
    MarksOnly (maskFrom index template) := by
  induction template using Comment.induction generalizing index with
  | nil =>
    intro rest ends comment
    obtain rfl := suffix_nil.1 ends
    exact absurd rfl comment
  | plain head tail plain ih =>
    intro rest ends comment
    rw [maskFrom_plain _ plain] at ends
    rcases suffix_cons_iff.1 ends with rfl | ends
    · exact absurd (recognise_plain_maskFrom _ plain) comment
    · exact ih _ rest ends comment
  | comment comment rest isComment ih =>
    intro behind ends recognised
    rw [maskFrom_comment _ isComment] at ends
    obtain ⟨inside, mark_eq, noBracket⟩ := exists_mark_eq index
    rw [mark_eq, cons_append] at ends
    rcases suffix_cons_iff.1 ends with same | later
    · exact ⟨index, by rw [same, mark_eq]; exact prefix_append _ _⟩
    · obtain ⟨body, rfl, -⟩ := exists_of_recognise_ne_none recognised
      exact ih _ _ (Text.suffix_of_suffix_append noBracket later) recognised

/-- The comments of a masked template are marks. -/
theorem marksOnly_mask (template : Text) : MarksOnly (mask template) :=
  marksOnly_maskFrom 0 template

/-! ## Restoring and masking again -/

/-- A buffer is nothing, or a character at which no mark starts, or a mark, before another
buffer. -/
@[elab_as_elim]
theorem mark_induction {motive : Text → Prop} (nil : motive [])
    (plain : ∀ head tail, recogniseMark (head :: tail) = none → motive tail → motive (head :: tail))
    (mark : ∀ taken rest index, IsMark taken index → motive rest → motive (taken ++ rest))
    (buffer : Text) : motive buffer := by
  refine @Text.cut_induction _ recogniseMark motive (fun text length index recognised => ?_) nil plain
    (fun taken rest index recognised held => ?_) buffer
  · obtain ⟨taken, isMark, rfl, starts⟩ := recogniseMark_eq_some_iff.1 recognised
    exact ⟨length_pos_iff.2 isMark.ne_nil, starts.length_le⟩
  · obtain ⟨found, isMark, size, starts⟩ := recogniseMark_eq_some_iff.1 recognised
    exact mark taken rest index (Text.eq_of_isPrefix_append starts size ▸ isMark) held

private theorem exists_of_map_eq_ok {change : Text → Text} {result : Except Failure Text}
    (mapped : result.map change = .ok after) :
    ∃ later, result = .ok later ∧ after = change later := by
  cases result with
  | error failure => cases mapped
  | ok later => exact ⟨later, rfl, (Except.ok.inj mapped).symm⟩

private theorem restore_plain_eq_ok (plain : recogniseMark (head :: tail) = none)
    (restored : restore comments (head :: tail) = .ok after) :
    ∃ later, restore comments tail = .ok later ∧ after = head :: later :=
  exists_of_map_eq_ok (restore_plain comments plain ▸ restored)

/-- What restoring a mark that starts a buffer gives. -/
theorem restore_mark_eq_ok {taken : Text} {index : Nat} (isMark : IsMark taken index)
    (restored : restore comments (taken ++ rest) = .ok after) :
    ∃ comment ∈ comments, ∃ later, restore comments rest = .ok later ∧ after = comment ++ later := by
  cases there : comments[index]? with
  | none =>
    rw [restore_eq, Text.cutAll_of_some isMark.ne_nil (recogniseMark_append isMark rest)] at restored
    simp only [unmarked, there, Option.elim_none] at restored
    cases restored
  | some comment =>
    rw [restore_mark isMark there] at restored
    exact ⟨comment, mem_of_getElem? there, exists_of_map_eq_ok restored⟩

section Restored

variable (areComments : ∀ comment ∈ comments, IsComment comment)

include areComments

/-- Restoring exchanges marks for comments. -/
theorem exchanged_restore (restored : restore comments buffer = .ok after) :
    Exchanged IsComment IsAnyMark after buffer := by
  induction buffer using mark_induction generalizing after with
  | nil =>
    cases restored
    exact .nil
  | plain head tail plain ih =>
    obtain ⟨later, rest, rfl⟩ := restore_plain_eq_ok plain restored
    exact .keep head (ih rest)
  | mark taken rest index isMark ih =>
    obtain ⟨comment, member, later, rest, rfl⟩ := restore_mark_eq_ok isMark restored
    exact .swap (areComments comment member) ⟨index, isMark⟩ (ih rest)

/-- Masking what was restored brings the marks back, maybe with other numbers. -/
theorem exchanged_maskFrom_restore (marksOnly : MarksOnly buffer)
    (restored : restore comments buffer = .ok after) (index : Nat) :
    Exchanged IsAnyMark IsAnyMark (maskFrom index after) buffer := by
  induction buffer using mark_induction generalizing after index with
  | nil =>
    cases restored
    exact .nil
  | plain head tail plain ih =>
    obtain ⟨later, rest, rfl⟩ := restore_plain_eq_ok plain restored
    have stays := (exchanged_restore areComments rest).recognise_eq_none (fun _ => id)
      (fun _ => IsAnyMark.isComment) (marksOnly.recognise_eq_none plain)
    rw [maskFrom_plain _ stays]
    exact .keep head
      (ih (marksOnly.of_suffix (suffix_cons _ _)) rest index)
  | mark taken rest number isMark ih =>
    obtain ⟨comment, member, later, restoredRest, rfl⟩ := restore_mark_eq_ok isMark restored
    rw [maskFrom_comment _ (areComments comment member)]
    exact .swap ⟨_, isMark_mark index⟩ ⟨number, isMark⟩
      (ih (marksOnly.of_suffix (suffix_append _ _)) restoredRest _)

end Restored

/-- What is set aside as comments are comments. -/
theorem isComment_of_mem_all {template comment : Text} (member : comment ∈ all template) :
    IsComment comment := by
  obtain ⟨⟨value, gap⟩, cut, rfl⟩ := mem_map.1 member
  obtain ⟨rest, length, -, recognised⟩ := Text.exists_of_mem_cutAll cut
  exact (recognise_eq_some_iff.1 recognised).1

end Phrasebook.Markup.Comment
