import Phrasebook.Markup.Comment
import Phrasebook.Proofs.Text.Scan

/-!
# Masking comments

A template with its comments masked is restored to itself. The argument walks over a
template from comment to comment: a character at which no comment starts stays, and a
comment becomes the mark with the next number. The marks are the only marks of the
masked template, even where the template holds text of the form of a mark, which is
then a comment like any other.
-/

namespace Phrasebook.Markup.Comment

open List Text Option

variable {text comment tail : Text} {index : Nat} {head : Char}

/-! ## What is recognised -/

/-- Whether a text is one comment: nothing inside closes it earlier. -/
def IsComment (text : Text) : Prop :=
  ∃ body, text = opening ++ body ++ closing ∧ ¬ closing <:+: body ++ ['-', '-']

theorem IsComment.ne_nil (isComment : IsComment text) : text ≠ [] := by
  obtain ⟨body, rfl, _⟩ := isComment
  simp [opening]

/-- A comment is recognised exactly at the start of a text that begins with one. -/
theorem recognise_eq_some_iff {value : Text} {length : Nat} :
    recognise text = some (length, value) ↔
      IsComment value ∧ length = value.length ∧ value <+: text := by
  have last : closing.dropLast = ['-', '-'] := rfl
  simp only [recognise, bind_eq_bind, bind_eq_some_iff, strip?_eq_some_iff,
    Prod.exists, cutAt?_eq_some_iff (show closing ≠ [] by decide), last, Option.pure_def,
    some.injEq, Prod.mk.injEq]
  constructor
  · rintro ⟨inside, rfl, body, rest, ⟨rfl, open_⟩, rfl, rfl⟩
    have taken : (opening ++ (body ++ closing ++ rest)).take
        (opening.length + body.length + closing.length) = opening ++ body ++ closing := by
      rw [← append_assoc, ← append_assoc, ← length_append, ← length_append, take_left]
    rw [taken]
    exact ⟨⟨body, rfl, open_⟩, by simp [Nat.add_assoc], ⟨rest, by simp⟩⟩
  · rintro ⟨⟨body, rfl, open_⟩, rfl, rest, rfl⟩
    refine ⟨body ++ closing ++ rest, by simp, body, rest, ⟨rfl, open_⟩, by simp [Nat.add_assoc], ?_⟩
    rw [← length_append, ← length_append, take_left]

/-- A comment is found where it stands. -/
theorem recognise_append (isComment : IsComment comment) (rest : Text) :
    recognise (comment ++ rest) = some (comment.length, comment) :=
  recognise_eq_some_iff.2 ⟨isComment, rfl, prefix_append _ _⟩

/-- No comment starts where none is opened, or where none is closed behind that. -/
theorem recognise_eq_none_iff :
    recognise text = none ↔ ∀ inside, text = opening ++ inside → ¬ closing <:+: inside := by
  simp only [recognise, bind_eq_bind, Option.pure_def, bind_eq_none_iff,
    strip?_eq_some_iff, reduceCtorEq, imp_false, Prod.forall]
  refine forall_congr' fun inside => imp_congr_right fun _ => ?_
  rw [← cutAt?_eq_none_iff]
  cases cutAt? closing inside with
  | none => simp
  | some cut => simpa using ⟨cut.1, cut.2, rfl⟩

/-- A template is nothing, or a character at which no comment starts, or a comment,
before another template. -/
@[elab_as_elim]
theorem induction {motive : Text → Prop} (nil : motive [])
    (plain : ∀ head tail, recognise (head :: tail) = none → motive tail → motive (head :: tail))
    (comment : ∀ comment rest, IsComment comment → motive rest → motive (comment ++ rest))
    (template : Text) : motive template := by
  refine @Text.cut_induction _ recognise motive (fun text length value recognised => ?_) nil plain
    (fun taken rest value recognised held => ?_) template
  · obtain ⟨isComment, rfl, starts⟩ := recognise_eq_some_iff.1 recognised
    exact ⟨length_pos_iff.2 isComment.ne_nil, starts.length_le⟩
  · obtain ⟨isComment, size, starts⟩ := recognise_eq_some_iff.1 recognised
    exact comment taken rest (eq_of_isPrefix_append starts size ▸ isComment) held

/-! ## Marks -/

/-- Whether a text is a mark with the given number. -/
def IsMark (text : Text) (index : Nat) : Prop :=
  ∃ digits, text = opening ++ '@' :: digits ++ closing ∧ digits ≠ [] ∧
    (∀ digit ∈ digits, isDigit digit = true) ∧ index = numberOf digits

theorem isMark_mark (index : Nat) : IsMark (mark index) index :=
  ⟨ofNat index, by simp [mark], Nat.toDigits_ne_nil, fun _ => isDigit_of_mem_ofNat,
    (numberOf_ofNat index).symm⟩

theorem IsMark.ne_nil (isMark : IsMark text index) : text ≠ [] := by
  obtain ⟨digits, rfl, _⟩ := isMark
  simp [opening]

private theorem takeWhile_digits {digits : Text} (all : ∀ digit ∈ digits, isDigit digit = true)
    (rest : Text) : (digits ++ (closing ++ rest)).takeWhile isDigit = digits := by
  rw [takeWhile_append_of_pos all]
  simp [closing, show isDigit '-' = false by decide]

/-- A mark is recognised exactly at the start of a text that begins with one. -/
theorem recogniseMark_eq_some_iff {length : Nat} :
    recogniseMark text = some (length, index) ↔
      ∃ taken, IsMark taken index ∧ length = taken.length ∧ taken <+: text := by
  constructor
  · intro recognised
    simp only [recogniseMark, bind_eq_bind, bind_eq_some_iff, strip?_eq_some_iff] at recognised
    obtain ⟨inside, rfl, recognised⟩ := recognised
    obtain ⟨behind, whole⟩ := List.takeWhile_prefix (l := inside) isDigit
    have all := all_takeWhile (l := inside) (p := isDigit)
    generalize inside.takeWhile isDigit = digits at recognised whole all
    subst whole
    split at recognised
    · cases recognised
    · rename_i nonempty
      simp only [Option.pure_def, bind_eq_some_iff, strip?_eq_some_iff,
        drop_left, some.injEq, Prod.mk.injEq] at recognised
      obtain ⟨rest, rfl, rfl, rfl⟩ := recognised
      exact ⟨_, ⟨digits, rfl, by simpa using nonempty, by simpa using all, rfl⟩,
        by simp; omega, rest, by simp⟩
  · rintro ⟨_, ⟨digits, rfl, nonempty, all, rfl⟩, rfl, rest, rfl⟩
    have stripped : strip? (opening ++ ['@'])
        (opening ++ '@' :: digits ++ closing ++ rest) = some (digits ++ (closing ++ rest)) :=
      strip?_eq_some_iff.2 (by simp)
    simp only [recogniseMark, stripped, bind_eq_bind, bind_some, takeWhile_digits all]
    simp [nonempty]
    omega

/-- A mark is found where it stands. -/
theorem recogniseMark_append {taken : Text} (isMark : IsMark taken index) (rest : Text) :
    recogniseMark (taken ++ rest) = some (taken.length, index) :=
  recogniseMark_eq_some_iff.2 ⟨taken, isMark, rfl, prefix_append _ _⟩

/-! ## Masking step by step -/

/-- A template with a mark, numbered from `index`, in the place of every comment. -/
def maskFrom (index : Nat) (template : Text) : Text :=
  (cutAll recognise template).1 ++ marked index (cutAll recognise template).2

theorem mask_eq (template : Text) : mask template = maskFrom 0 template :=
  rfl

@[simp] theorem maskFrom_nil (index : Nat) : maskFrom index [] = [] :=
  rfl

theorem maskFrom_plain (index : Nat) (plain : recognise (head :: tail) = none) :
    maskFrom index (head :: tail) = head :: maskFrom index tail := by
  rw [maskFrom, cutAll_of_none plain]
  rfl

theorem maskFrom_comment (index : Nat) (isComment : IsComment comment) (rest : Text) :
    maskFrom index (comment ++ rest) = mark index ++ maskFrom (index + 1) rest := by
  rw [maskFrom, cutAll_of_some isComment.ne_nil (recognise_append isComment rest)]
  simp [marked, maskFrom]

theorem all_plain (plain : recognise (head :: tail) = none) : all (head :: tail) = all tail := by
  rw [all, cutAll_of_none plain]
  rfl

theorem all_comment (isComment : IsComment comment) (rest : Text) :
    all (comment ++ rest) = comment :: all rest := by
  rw [all, cutAll_of_some isComment.ne_nil (recognise_append isComment rest)]
  rfl

/-- Restoring fills the cuts at the marks. -/
theorem restore_eq (comments : List Text) (buffer : Text) :
    restore comments buffer = (unmarked comments (cutAll recogniseMark buffer).2).map
      ((cutAll recogniseMark buffer).1 ++ ·) := by
  change (unmarked comments (cutAll recogniseMark buffer).2 >>= fun rest =>
    pure ((cutAll recogniseMark buffer).1 ++ rest)) = _
  cases unmarked comments (cutAll recogniseMark buffer).2 <;> rfl

theorem restore_plain (comments : List Text) (plain : recogniseMark (head :: tail) = none) :
    restore comments (head :: tail) = (restore comments tail).map (head :: ·) := by
  rw [restore_eq, restore_eq, cutAll_of_none plain]
  cases unmarked comments (cutAll recogniseMark tail).2 <;> rfl

theorem restore_mark {comments : List Text} {taken : Text} (isMark : IsMark taken index)
    (there : comments[index]? = some comment) (rest : Text) :
    restore comments (taken ++ rest) = (restore comments rest).map (comment ++ ·) := by
  rw [restore_eq, restore_eq, cutAll_of_some isMark.ne_nil (recogniseMark_append isMark rest)]
  simp only [unmarked, there, elim_some]
  cases unmarked comments (cutAll recogniseMark rest).2 with
  | error failure => rfl
  | ok later => simp [bind, Except.bind, pure, Except.pure, Except.map]

/-! ## Comments in the place of marks -/

/-- Whether a text is a mark with some number. -/
def IsAnyMark (text : Text) : Prop :=
  ∃ index, IsMark text index

/-- A mark is a comment. -/
theorem IsAnyMark.isComment (isMark : IsAnyMark text) : IsComment text := by
  obtain ⟨_, digits, rfl, _, all, _⟩ := isMark
  refine ⟨'@' :: digits, by simp, fun occurs => ?_⟩
  have inside : '>' ∈ '@' :: digits ++ ['-', '-'] := occurs.subset (by simp [closing])
  have digit : '>' ∈ digits := by simpa using inside
  exact absurd (all _ digit) (by decide)

theorem IsComment.head? (isComment : IsComment text) : text.head? = some '<' := by
  obtain ⟨body, rfl, _⟩ := isComment
  rfl

private theorem IsComment.closes (isComment : IsComment text) : closing <:+: text := by
  obtain ⟨body, rfl, _⟩ := isComment
  exact (suffix_append _ _).isInfix

/-- Whether two texts differ only in pieces of the one kind that have pieces of the
other kind in their place. -/
inductive Exchanged (kind otherKind : Text → Prop) : Text → Text → Prop
  | nil : Exchanged kind otherKind [] []
  | keep (char : Char) {text other : Text} (rest : Exchanged kind otherKind text other) :
      Exchanged kind otherKind (char :: text) (char :: other)
  | swap {piece otherPiece text other : Text} (here : kind piece) (there : otherKind otherPiece)
      (rest : Exchanged kind otherKind text other) :
      Exchanged kind otherKind (piece ++ text) (otherPiece ++ other)

section Exchanged

variable {kind otherKind : Text → Prop} {other : Text}

/-- A beginning without an opening bracket stands on both sides. -/
theorem Exchanged.split (comments : ∀ piece, kind piece → IsComment piece)
    (exchanged : Exchanged kind otherKind text other) {word rest : Text} (noBracket : '<' ∉ word)
    (starts : text = word ++ rest) :
    ∃ otherRest, other = word ++ otherRest ∧ Exchanged kind otherKind rest otherRest := by
  induction word generalizing text other with
  | nil =>
    obtain rfl : text = rest := starts
    exact ⟨other, rfl, exchanged⟩
  | cons head word ih =>
    rw [mem_cons, not_or] at noBracket
    cases exchanged with
    | nil => cases starts
    | keep char rest =>
      obtain ⟨rfl, behind⟩ := List.cons.inj starts
      obtain ⟨otherRest, rfl, exchanged⟩ := ih rest noBracket.2 behind
      exact ⟨otherRest, rfl, exchanged⟩
    | swap here there rest =>
      -- A comment starts with the bracket that the word does not hold.
      have first := (comments _ here).head?
      rename_i piece _ _ _
      cases piece with
      | nil => cases first
      | cons bracket piece =>
        obtain ⟨rfl, -⟩ := List.cons.inj starts
        exact absurd (some.inj first).symm noBracket.1

private theorem Exchanged.closes (comments : ∀ piece, kind piece → IsComment piece)
    (otherComments : ∀ piece, otherKind piece → IsComment piece)
    (exchanged : Exchanged kind otherKind text other) (closed : closing <:+: text) :
    closing <:+: other := by
  induction exchanged with
  | nil => exact closed
  | keep char rest ih =>
    rcases infix_cons_iff.1 closed with ⟨behind, starts⟩ | later
    · obtain ⟨otherRest, whole, -⟩ :=
        (Exchanged.keep char rest).split comments (by decide) starts.symm
      exact whole ▸ (prefix_append _ _).isInfix
    · exact (ih later).trans (suffix_cons _ _).isInfix
  | swap here there rest _ =>
    exact (otherComments _ there).closes.trans (prefix_append _ _).isInfix

/-- Exchanging comments for comments lets none start at a character that is kept. -/
theorem Exchanged.recognise_eq_none (comments : ∀ piece, kind piece → IsComment piece)
    (otherComments : ∀ piece, otherKind piece → IsComment piece)
    (exchanged : Exchanged kind otherKind text other) {head : Char}
    (plain : recognise (head :: other) = none) : recognise (head :: text) = none := by
  rw [recognise_eq_none_iff] at plain ⊢
  intro inside whole closed
  obtain ⟨rfl, behind⟩ : head = '<' ∧ text = ['!', '-', '-'] ++ inside := List.cons.inj whole
  obtain ⟨otherInside, rfl, later⟩ := exchanged.split comments (by decide) behind
  exact plain otherInside rfl (later.closes comments otherComments closed)

end Exchanged

/-- Masking exchanges comments for marks. -/
theorem exchanged_maskFrom (index : Nat) (template : Text) :
    Exchanged IsAnyMark IsComment (maskFrom index template) template := by
  induction template using Comment.induction generalizing index with
  | nil => exact .nil
  | plain head tail plain ih =>
    rw [maskFrom_plain _ plain]
    exact .keep head (ih index)
  | comment comment rest isComment ih =>
    rw [maskFrom_comment _ isComment]
    exact .swap ⟨_, isMark_mark index⟩ isComment (ih _)

/-- Masking lets no comment start where a template has a character of its own. -/
theorem recognise_plain_maskFrom (index : Nat) (plain : recognise (head :: tail) = none) :
    recognise (head :: maskFrom index tail) = none :=
  (exchanged_maskFrom index tail).recognise_eq_none (fun _ => IsAnyMark.isComment) (fun _ => id) plain

/-- Where no comment starts, no mark does. -/
theorem recogniseMark_eq_none (plain : recognise text = none) : recogniseMark text = none := by
  refine eq_none_iff_forall_ne_some.2 fun found recognised => ?_
  obtain ⟨taken, isMark, -, rest, rfl⟩ := recogniseMark_eq_some_iff.1 recognised
  rw [recognise_append (IsAnyMark.isComment ⟨_, isMark⟩)] at plain
  cases plain

/-! ## Restoring what was masked -/

/-- A masked template is restored to itself, whatever comments were masked before
it. -/
theorem restore_maskFrom (earlier : List Text) (template : Text) :
    restore (earlier ++ all template) (maskFrom earlier.length template) = .ok template := by
  induction template using Comment.induction generalizing earlier with
  | nil => rfl
  | plain head tail plain ih =>
    rw [maskFrom_plain _ plain, all_plain plain, restore_plain _
      (recogniseMark_eq_none (recognise_plain_maskFrom _ plain)), ih]
    rfl
  | comment comment rest isComment ih =>
    have there : (earlier ++ comment :: all rest)[earlier.length]? = some comment := by simp
    have later := ih (earlier ++ [comment])
    rw [append_assoc, length_append] at later
    rw [maskFrom_comment _ isComment, all_comment isComment, restore_mark (isMark_mark _) there]
    exact congrArg (Except.map (comment ++ ·)) later

/-- Putting back the comments that were set aside gives the template. -/
theorem restore_mask (template : Text) : restore (all template) (mask template) = .ok template :=
  restore_maskFrom [] template

end Phrasebook.Markup.Comment
