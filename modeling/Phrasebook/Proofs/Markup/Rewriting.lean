import Phrasebook.Proofs.Markup.Marks
import Phrasebook.Proofs.Markup.Run

/-!
# Rewriting a buffer with marks

A stage copies its buffer and puts texts of some kind in the place of some stretches of
it. Where no stretch starts inside a mark, and where the texts open and close no comment,
not even together with what stands beside them, the comments of the result are marks if
those of the buffer are.
-/

namespace Phrasebook.Markup

open List

variable {char : Char} {text : Text} {rest buffer word : Text}

/-- A character that a mark can hold. -/
def isMarkPart (char : Char) : Bool :=
  Run.isBracket char || char == '!' || char == '-' || char == '@' ||
    Text.isDigit char

/-- Whether a mark can go on behind a character. -/
def goesOn (char : Char) : Bool :=
  isMarkPart char && char != '>'

theorem isMarkPart_of_isBlank (blank : Text.isBlank char = true) : isMarkPart char = false := by
  cases part : isMarkPart char with
  | false => rfl
  | true =>
    simp only [isMarkPart, Run.isBracket, Bool.or_eq_true, beq_iff_eq, or_assoc] at part
    rcases part with rfl | rfl | rfl | rfl | rfl | digit
    iterate 5 exact absurd blank (by decide)
    rw [Text.isDigit_of_isBlank blank] at digit
    cases digit

/-- No mark goes on behind blanks before a character that is no part of a mark. -/
theorem exists_head_of_blanks {gap : Text} (blank : Text.AllBlank gap)
    (other : isMarkPart char = false) (rest : Text) :
    ∃ first ∈ (gap ++ char :: rest).head?, isMarkPart first = false := by
  cases gap with
  | nil => exact ⟨char, rfl, other⟩
  | cons head gap => exact ⟨head, rfl, isMarkPart_of_isBlank (blank head (by simp))⟩

/-- Whether a text neither opens nor closes a comment, whatever stands beside it. -/
structure Inert (text : Text) : Prop where
  nonempty : text ≠ []
  unbracketed : Run.Unbracketed text
  starts : ∀ char ∈ text.head?, char ≠ '!' ∧ char ≠ '-'
  ends : ∀ char ∈ text.getLast?, char ≠ '-'

/-- A text without brackets holds none. -/
theorem Run.Unbracketed.not_mem (unbracketed : Run.Unbracketed text)
    (bracket : Run.isBracket char = true) : char ∉ text := by
  intro member
  rw [unbracketed char member] at bracket
  cases bracket

/-- No closing of a comment reaches into an inert text. -/
theorem Inert.closing_of_closing_append (inert : Inert text)
    (closed : Comment.closing <:+: text ++ rest) : Comment.closing <:+: rest := by
  have foreign := inert.unbracketed.not_mem (show Run.isBracket '>' = true by decide)
  have ends := inert.ends
  clear inert
  induction text with
  | nil => exact closed
  | cons head text ih =>
    rw [mem_cons, not_or] at foreign
    rcases infix_cons_iff.1 closed with starts | later
    · -- The two hyphens end the text, or the bracket is in it.
      obtain ⟨rfl, behindFirst⟩ := cons_prefix_cons.1 starts
      cases text with
      | nil => exact absurd rfl (ends '-' (by simp))
      | cons second text =>
        obtain ⟨rfl, behindSecond⟩ := cons_prefix_cons.1 behindFirst
        cases text with
        | nil => exact absurd rfl (ends '-' (by simp))
        | cons third text =>
          obtain ⟨rfl, -⟩ := cons_prefix_cons.1 behindSecond
          simp at foreign
    · refine ih later foreign.2 fun char last => ends char ?_
      cases text with
      | nil => cases last
      | cons second text => rwa [getLast?_cons_cons]

/-- Whether a buffer becomes another by putting texts that fit in the place of stretches.
Where the next character may be one of a mark that is copied, no stretch starts with a
character of marks. -/
inductive Rewritten (fits : Text → Prop) : (inMark : Bool) → Text → Text → Prop
  | nil {inMark : Bool} : Rewritten fits inMark [] []
  | keep {inMark : Bool} (char : Char) {text after : Text}
      (rest : Rewritten fits (goesOn char) text after) :
      Rewritten fits inMark (char :: text) (char :: after)
  | swap {inMark : Bool} {old new text after : Text}
      (outside : inMark = true → ∃ char ∈ old.head?, isMarkPart char = false)
      (fit : fits new) (rest : Rewritten fits false text after) :
      Rewritten fits inMark (old ++ text) (new ++ after)

namespace Rewritten

variable {fits : Text → Prop} {inMark : Bool} {after : Text}

theorem refl (inMark : Bool) (text : Text) : Rewritten fits inMark text text := by
  induction text generalizing inMark with
  | nil => exact .nil
  | cons head tail ih => exact .keep head (ih _)

/-- Texts that fit may be known to be of a wider kind. -/
theorem imp {others : Text → Prop} (wider : ∀ new, fits new → others new)
    (rewritten : Rewritten fits inMark text after) : Rewritten others inMark text after := by
  induction rewritten with
  | nil => exact .nil
  | keep char rest ih => exact .keep char ih
  | swap outside fit rest ih =>
    exact .swap outside (wider _ fit) ih

/-- What may be done inside a mark may be done anywhere. -/
theorem mono (rewritten : Rewritten fits true text after) : Rewritten fits inMark text after := by
  cases rewritten with
  | nil => exact .nil
  | keep char rest => exact .keep char rest
  | swap outside fit rest => exact .swap (fun _ => outside rfl) fit rest

/-- Buffers are rewritten part by part. -/
theorem append (rewritten : Rewritten fits inMark text after) {behind behindAfter : Text}
    (later : Rewritten fits true behind behindAfter) :
    Rewritten fits inMark (text ++ behind) (after ++ behindAfter) := by
  induction rewritten with
  | nil => exact later.mono
  | keep char rest ih => exact .keep char ih
  | swap outside fit rest ih =>
    rw [append_assoc, append_assoc]
    exact .swap outside fit ih

/-- Putting a text in the place of a whole stretch. -/
theorem single (outside : inMark = true → ∃ char ∈ text.head?, isMarkPart char = false)
    (fit : fits after) : Rewritten fits inMark text after := by
  simpa using swap outside fit (@nil _ false)

/-- Blanks are no part of a mark, so behind them a stretch may start with any
character. -/
theorem blanks {lead : Text} (blank : Text.AllBlank lead)
    (rewritten : Rewritten fits false text after) :
    Rewritten fits false (lead ++ text) (lead ++ after) := by
  induction lead with
  | nil => exact rewritten
  | cons head lead ih =>
    obtain ⟨here, others⟩ := forall_mem_cons.1 blank
    refine .keep head ?_
    rw [goesOn, isMarkPart_of_isBlank here]
    exact ih others

/-- Putting rewritten stretches in their places rewrites the buffer. -/
theorem copy {places : List (Found Text)} {offset : Nat}
    (ordered : Found.Ordered offset buffer.length places) (each : ∀ place ∈ places,
      Rewritten fits true (buffer.slice place.start place.stop) place.value) :
    Rewritten fits true (buffer.drop offset) (Edit.copy offset (buffer.drop offset) places) := by
  induction places generalizing offset with
  | nil => exact refl _ _
  | cons place later ih =>
    obtain ⟨above, positive, ordered⟩ := ordered
    obtain ⟨here, others⟩ := forall_mem_cons.1 each
    have rest := ih ordered others
    rw [Edit.copy, Edit.drop_drop_sub (by omega)]
    conv => arg 3; rw [Edit.drop_eq_slice buffer above (Nat.le_of_lt positive)]
    exact ((refl _ _).append here).append rest

/-! ## What stands on both sides -/

/-- Where no bracket comes in, an opening bracket of the result was copied, and what
follows it was rewritten. -/
theorem exists_of_suffix (plain : ∀ new, fits new → Run.Unbracketed new)
    (rewritten : Rewritten fits inMark text after) (ends : '<' :: rest <:+ after) :
    ∃ before, '<' :: before <:+ text ∧ Rewritten fits true before rest := by
  induction rewritten with
  | nil => cases suffix_nil.1 ends
  | keep char later ih =>
    rcases suffix_cons_iff.1 ends with same | behind
    · obtain ⟨rfl, rfl⟩ := List.cons.inj same
      exact ⟨_, suffix_rfl, later⟩
    · obtain ⟨before, isSuffix, rewritten⟩ := ih behind
      exact ⟨before, isSuffix.trans (suffix_cons _ _), rewritten⟩
  | swap outside fit later ih =>
    have foreign := (plain _ fit).not_mem (show Run.isBracket '<' = true by decide)
    obtain ⟨before, isSuffix, rewritten⟩ :=
      ih (Text.suffix_of_suffix_append foreign ends)
    exact ⟨before, isSuffix.trans (suffix_append _ _), rewritten⟩

/-- A beginning of the result that an inert text cannot start was copied. -/
theorem split_of_after (rewritten : Rewritten Inert inMark text after)
    (inside : ∀ char ∈ word, char ∈ ['!', '-', '>']) (starts : after = word ++ rest) :
    ∃ before inMark, text = word ++ before ∧ Rewritten Inert inMark before rest := by
  induction word generalizing inMark text after with
  | nil =>
    obtain rfl : after = rest := starts
    exact ⟨text, inMark, rfl, rewritten⟩
  | cons head word ih =>
    obtain ⟨here, others⟩ := forall_mem_cons.1 inside
    cases rewritten with
    | nil => cases starts
    | keep char later =>
      obtain ⟨rfl, behind⟩ := List.cons.inj starts
      obtain ⟨before, inMark, rfl, rewritten⟩ := ih later others behind
      exact ⟨before, inMark, rfl, rewritten⟩
    | swap outside inert later =>
      rename_i old new text after
      obtain ⟨first, new, rfl⟩ := exists_cons_of_ne_nil inert.nonempty
      obtain ⟨rfl, -⟩ := List.cons.inj starts
      have start := inert.starts first (by simp)
      have bracket := inert.unbracketed first (by simp)
      simp [start] at here
      subst here
      cases bracket

/-- Inside a mark a character of marks is copied. -/
theorem keep_of_isMarkPart {head : Char} (rewritten : Rewritten fits true (head :: text) after)
    (part : isMarkPart head = true) :
    ∃ later, after = head :: later ∧ Rewritten fits (goesOn head) text later := by
  generalize whole : head :: text = before at rewritten
  cases rewritten with
  | nil => cases whole
  | keep char later =>
    cases whole
    exact ⟨_, rfl, later⟩
  | swap outside fit later =>
    obtain ⟨char, first, other⟩ := outside rfl
    obtain ⟨old, rfl⟩ := head?_eq_some_iff.1 first
    obtain ⟨rfl, -⟩ := List.cons.inj whole
    rw [part] at other
    cases other

/-- Inside a mark what belongs to the mark is copied. -/
theorem split_of_before (inside : ∀ char ∈ word, goesOn char = true)
    (rewritten : Rewritten fits true (word ++ text) after) :
    ∃ later, after = word ++ later ∧ Rewritten fits true text later := by
  induction word generalizing after with
  | nil => exact ⟨after, rfl, rewritten⟩
  | cons head word ih =>
    obtain ⟨here, others⟩ := forall_mem_cons.1 inside
    obtain ⟨later, rfl, rest⟩ := rewritten.keep_of_isMarkPart (Bool.and_eq_true_iff.1 here).1
    rw [here] at rest
    obtain ⟨behind, rfl, restBehind⟩ := ih others rest
    exact ⟨behind, rfl, restBehind⟩

/-- A closing of the result was copied. -/
theorem closes (rewritten : Rewritten Inert inMark text after)
    (closed : Comment.closing <:+: after) : Comment.closing <:+: text := by
  induction rewritten with
  | nil => exact closed
  | keep char rest ih =>
    rcases infix_cons_iff.1 closed with ⟨behind, starts⟩ | later
    · obtain ⟨rfl, whole⟩ := List.cons.inj starts
      obtain ⟨before, -, rfl, -⟩ := rest.split_of_after (by simp) whole.symm
      exact ⟨[], before, rfl⟩
    · exact (ih later).trans (suffix_cons _ _).isInfix
  | swap outside inert rest ih =>
    exact (ih (inert.closing_of_closing_append closed)).trans
      (suffix_append _ _).isInfix

end Rewritten

/-- A mark goes on up to its closing bracket, and holds no other opening one than its
first character. -/
theorem Comment.IsMark.exists_inside {taken : Text} {index : Nat}
    (isMark : Comment.IsMark taken index) :
    ∃ inside, taken = '<' :: inside ++ ['>'] ∧ '<' ∉ inside ∧
      ∀ char ∈ inside, goesOn char = true := by
  obtain ⟨digits, rfl, -, all, -⟩ := isMark
  have foreign {char : Char} (other : Text.isDigit char = false) : char ∉ digits := by
    intro member
    rw [all char member] at other
    cases other
  refine ⟨['!', '-', '-', '@'] ++ digits ++ ['-', '-'], by simp [Comment.opening, Comment.closing],
    by simp [foreign (show Text.isDigit '<' = false by decide)], ?_⟩
  have number : ∀ char ∈ digits, goesOn char = true := by
    intro char member
    have other : char ≠ '>' := by
      rintro rfl
      exact foreign (by decide) member
    simp [goesOn, isMarkPart, all char member, other]
  simp only [forall_mem_append]
  exact ⟨⟨all_eq_true.1 (by decide), number⟩, all_eq_true.1 (by decide)⟩

/-- Rewriting a buffer whose comments are marks leaves no other comments. -/
theorem Comment.MarksOnly.rewritten {after : Text} (marksOnly : Comment.MarksOnly buffer)
    {inMark : Bool} (rewritten : Rewritten Inert inMark buffer after) :
    Comment.MarksOnly after := by
  intro rest ends comment
  obtain ⟨inside, rfl, closed⟩ := Comment.exists_of_recognise_ne_none comment
  obtain ⟨before, isSuffix, rewrittenBehind⟩ :=
    rewritten.exists_of_suffix (fun _ inert => inert.unbracketed) ends
  -- The opening and the closing were both there before, so a mark stood here.
  obtain ⟨start, _, rfl, rewrittenInside⟩ := rewrittenBehind.split_of_after (by simp) rfl
  have before : Comment.recognise ('<' :: (['!', '-', '-'] ++ start)) ≠ none := by
    rw [Ne, Comment.recognise_eq_none_iff]
    exact fun none => none start rfl (rewrittenInside.closes closed)
  obtain ⟨index, behind, whole⟩ := marksOnly _ isSuffix before
  obtain ⟨word, mark_eq, -, inside⟩ := (Comment.isMark_mark index).exists_inside
  rw [mark_eq, cons_append, cons_append, append_assoc] at whole
  rw [← (List.cons.inj whole).2] at rewrittenBehind
  obtain ⟨later, afterWord, rest⟩ := rewrittenBehind.split_of_before inside
  obtain ⟨last, rfl, -⟩ := rest.keep_of_isMarkPart (by decide)
  refine ⟨index, last, ?_⟩
  rw [mark_eq, cons_append, cons_append, append_assoc]
  exact congrArg ('<' :: ·) afterWord.symm

end Phrasebook.Markup
