import Phrasebook.Proofs.Markup.Registered
import Phrasebook.Proofs.Markup.Stages

/-!
# Marks that survive the stages

A stage may drop marks with the text around them, but it never makes one: what it brings
in holds no bracket, and no mark goes through it. The marks of a buffer are therefore some
of those of the masked template, in their order, and every one of them stands for a
comment. Which marks are dropped is not said here.
-/

namespace Phrasebook.Markup

open List Pass Text

variable {scope : Scope} {buffer : Text}

/-- Whether no mark starts in a text, ends in it or goes through it. -/
def Walled (text : Text) : Prop :=
  Run.Unbracketed text ∧ ∃ char ∈ text, isMarkPart char = false

private theorem Brought.walled {name text : Text} (brought : Brought name text) : Walled text := by
  obtain ⟨⟨lead, first, rest, -, rfl, other⟩, unbracketed, -⟩ := brought
  exact ⟨unbracketed, first, by simp, other⟩

/-- Characters of marks before a closing bracket do not reach into a walled text. -/
theorem Walled.append_ne {new after word rest : Text} (walled : Walled new)
    (inside : ∀ char ∈ word, isMarkPart char = true) : new ++ after ≠ word ++ '>' :: rest := by
  obtain ⟨unbracketed, wall, inNew, other⟩ := walled
  have notInWord : wall ∉ word := by
    intro member
    rw [inside wall member] at other
    cases other
  intro whole
  rcases append_eq_append_iff.1 whole with ⟨between, rfl, -⟩ | ⟨between, rfl, behind⟩
  · exact notInWord (mem_append_left _ inNew)
  · cases between with
    | nil => exact notInWord (by simpa using inNew)
    | cons head between =>
      obtain ⟨rfl, -⟩ := List.cons.inj behind
      exact unbracketed.not_mem (show Run.isBracket '>' = true by decide) (by simp)

/-- Characters of marks before a closing bracket were copied, and the bracket was. -/
theorem Rewritten.split_of_walled {inMark : Bool} {text word rest : Text}
    (inside : ∀ char ∈ word, isMarkPart char = true)
    (rewritten : Rewritten Walled inMark text (word ++ '>' :: rest)) :
    ∃ before, text = word ++ '>' :: before ∧ Rewritten Walled false before rest := by
  induction word generalizing inMark text with
  | nil =>
    generalize whole : [] ++ '>' :: rest = after at rewritten
    cases rewritten with
    | nil => cases whole
    | keep char later =>
      cases whole
      exact ⟨_, rfl, later⟩
    | swap outside walled later => exact absurd whole.symm (walled.append_ne inside)
  | cons head word ih =>
    generalize whole : head :: word ++ '>' :: rest = after at rewritten
    cases rewritten with
    | nil => cases whole
    | keep char later =>
      cases whole
      obtain ⟨before, rfl, rest⟩ := ih (forall_mem_cons.1 inside).2 later
      exact ⟨before, rfl, rest⟩
    | swap outside walled later => exact absurd whole.symm (walled.append_ne inside)

namespace Comment

variable {head : Char} {inMark : Bool} {after : Text}

/-! ## The numbers of marks -/

/-- The numbers of the marks of a buffer in order. -/
def numbers (buffer : Text) : List Nat :=
  (cutAll recogniseMark buffer).2.map Prod.fst

private theorem numbers_plain {tail : Text} (plain : recogniseMark (head :: tail) = none) :
    numbers (head :: tail) = numbers tail := by
  rw [numbers, cutAll_of_none plain]
  rfl

theorem numbers_mark {taken : Text} {index : Nat} (isMark : IsMark taken index) (rest : Text) :
    numbers (taken ++ rest) = index :: numbers rest := by
  rw [numbers, cutAll_of_some isMark.ne_nil (recogniseMark_append isMark rest)]
  rfl

private theorem recogniseMark_of_ne (other : head ≠ '<') (tail : Text) :
    recogniseMark (head :: tail) = none := by
  refine Option.eq_none_iff_forall_ne_some.2 fun found recognised => ?_
  obtain ⟨taken, isMark, -, rest, whole⟩ := recogniseMark_eq_some_iff.1 recognised
  obtain ⟨inside, rfl, -⟩ := isMark.exists_inside
  exact other (List.cons.inj whole).1.symm

/-- Where no opening bracket stands no mark starts. -/
theorem numbers_append {front : Text} (none : '<' ∉ front) (rest : Text) :
    numbers (front ++ rest) = numbers rest := by
  induction front with
  | nil => rfl
  | cons head front ih =>
    rw [mem_cons, not_or] at none
    rw [cons_append, numbers_plain (recogniseMark_of_ne (Ne.symm none.1) _), ih none.2]

private theorem numbers_mark_tail {inside : Text} (none : '<' ∉ inside) (rest : Text) :
    numbers (inside ++ '>' :: rest) = numbers rest := by
  have noneBehind : '<' ∉ inside ++ ['>'] := by simp [none]
  simpa using numbers_append noneBehind rest

/-- What ends a buffer has no marks that the buffer does not have. -/
theorem sublist_numbers_append (front rest : Text) :
    (numbers rest).Sublist (numbers (front ++ rest)) := by
  induction front with
  | nil => exact .refl _
  | cons head front ih =>
    refine ih.trans ?_
    cases recognised : recogniseMark (head :: front ++ rest) with
    | none =>
      rw [cons_append] at recognised ⊢
      exact (numbers_plain recognised).symm ▸ .refl _
    | some found =>
      obtain ⟨taken, isMark, -, behind, whole⟩ := recogniseMark_eq_some_iff.1 recognised
      rw [← whole, numbers_mark isMark]
      obtain ⟨inside, rfl, none, -⟩ := isMark.exists_inside
      have tail : front ++ rest = inside ++ '>' :: behind := by
        simpa using (List.cons.inj whole).2.symm
      rw [tail, numbers_mark_tail none]
      exact sublist_cons_self _ _

/-- The marks of a masked template are numbered in a row. -/
theorem numbers_maskFrom (index : Nat) (template : Text) :
    numbers (maskFrom index template) = range' index (all template).length := by
  induction template using Comment.induction generalizing index with
  | nil => rfl
  | plain head tail plain ih =>
    rw [maskFrom_plain _ plain, all_plain plain,
      numbers_plain (recogniseMark_eq_none (recognise_plain_maskFrom _ plain)), ih]
  | comment comment rest isComment ih =>
    rw [maskFrom_comment _ isComment, all_comment isComment, numbers_mark (isMark_mark _),
      ih, length_cons, range'_succ]

/-- Rewriting drops marks and changes nothing else about their row. -/
theorem sublist_numbers_of_rewritten {text : Text} (rewritten : Rewritten Walled inMark text after) :
    (numbers after).Sublist (numbers text) := by
  induction rewritten with
  | nil => exact .refl _
  | @keep _ char text after rest ih =>
    cases recognised : recogniseMark (char :: after) with
    | none =>
      rw [numbers_plain recognised]
      exact ih.trans (sublist_numbers_append [char] text)
    | some found =>
      -- A mark of the result was copied as a whole.
      obtain ⟨taken, isMark, -, behind, whole⟩ := recogniseMark_eq_some_iff.1 recognised
      obtain ⟨inside, rfl, none, goes⟩ := isMark.exists_inside
      obtain ⟨rfl, rfl⟩ : '<' = char ∧ inside ++ '>' :: behind = after := by simpa using whole
      obtain ⟨before, rfl, -⟩ := rest.split_of_walled fun char member =>
        (Bool.and_eq_true_iff.1 (goes char member)).1
      rw [numbers_mark_tail none, numbers_mark_tail none] at ih
      have shape (rest : Text) : '<' :: (inside ++ '>' :: rest) = '<' :: inside ++ ['>'] ++ rest := by
        simp
      rw [shape, shape, numbers_mark isMark, numbers_mark isMark]
      exact ih.cons_cons _
  | swap outside walled rest ih =>
    rw [numbers_append (walled.1.not_mem (by decide))]
    exact ih.trans (sublist_numbers_append _ _)

/-! ## The spelling of marks -/

/-- Whether every mark of a buffer is written like the mark with its number, without
other digits or leading zeros. -/
def Canonical (buffer : Text) : Prop :=
  ∀ taken index rest, IsMark taken index → taken ++ rest <:+ buffer → taken = mark index

private theorem Canonical.of_suffix {rest : Text} (canonical : Canonical buffer)
    (ends : rest <:+ buffer) :
    Canonical rest :=
  fun taken index behind isMark within => canonical taken index behind isMark (within.trans ends)

private theorem MarksOnly.canonical (marksOnly : MarksOnly buffer) : Canonical buffer := by
  intro taken index rest isMark ends
  have comment : recognise (taken ++ rest) ≠ none := by
    simp [recognise_append (IsAnyMark.isComment ⟨index, isMark⟩)]
  obtain ⟨number, behind, whole⟩ := marksOnly _ ends comment
  have recognised := recogniseMark_append isMark rest
  rw [← whole, recogniseMark_append (isMark_mark number)] at recognised
  simp only [Option.some.injEq, Prod.mk.injEq] at recognised
  obtain ⟨size, rfl⟩ := recognised
  exact (append_inj whole size).1.symm

private theorem Canonical.rewritten (canonical : Canonical buffer)
    (rewritten : Rewritten Walled inMark buffer after) : Canonical after := by
  intro taken index rest isMark ends
  obtain ⟨inside, rfl, -, goes⟩ := isMark.exists_inside
  obtain ⟨before, isSuffix, behind⟩ := rewritten.exists_of_suffix (fun _ => And.left)
    (show '<' :: (inside ++ '>' :: rest) <:+ after by simpa using ends)
  obtain ⟨later, rfl, -⟩ := behind.split_of_walled fun char member =>
    (Bool.and_eq_true_iff.1 (goes char member)).1
  exact canonical _ index later isMark (by simpa using isSuffix)

/-- A cut buffer with a text written for the number of every mark. -/
def written (write : Nat → Text) (cut : Text × List (Nat × Text)) : Text :=
  cut.1 ++ cut.2.flatMap fun part => write part.1 ++ part.2

/-- A buffer of canonical marks is its marks with the text between them. -/
theorem Canonical.eq_written (canonical : Canonical buffer) :
    buffer = written mark (cutAll recogniseMark buffer) := by
  induction buffer using mark_induction with
  | nil => rfl
  | plain head tail plain ih =>
    have later := ih (canonical.of_suffix (suffix_cons _ _))
    rw [cutAll_of_none plain]
    exact congrArg (head :: ·) later
  | mark taken rest index isMark ih =>
    have later := ih (canonical.of_suffix (suffix_append _ _))
    obtain rfl := canonical taken index rest isMark suffix_rfl
    rw [cutAll_of_some isMark.ne_nil (recogniseMark_append isMark rest)]
    conv => lhs; rw [later]
    simp [written]

/-- Where every mark stands for a comment, restoring succeeds. -/
theorem restore_eq_written {comments : List Text}
    (known : ∀ number ∈ numbers buffer, number < comments.length) :
    restore comments buffer =
      .ok (written (fun number => comments.getD number []) (cutAll recogniseMark buffer)) := by
  rw [restore_eq, written]
  rw [numbers] at known
  generalize cutAll recogniseMark buffer = cut at known ⊢
  obtain ⟨first, cuts⟩ := cut
  suffices rest : unmarked comments cuts =
      .ok (cuts.flatMap fun part => comments.getD part.1 [] ++ part.2) by
    rw [rest]
    rfl
  induction cuts with
  | nil => rfl
  | cons cut cuts ih =>
    obtain ⟨here, later⟩ := forall_mem_cons.1 known
    rw [unmarked, ih later, getElem?_eq_getElem here]
    simp [bind, Except.bind, pure, Except.pure, getElem?_eq_getElem here]

end Comment

/-! ## The stages -/

/-- A stage drops marks and changes nothing else about their row, nor about how they are
written. -/
theorem Stage.marks_applied (unbracketed : scope.Unbracketed) (stage : Stage)
    (canonical : Comment.Canonical buffer) :
    (Comment.numbers (applied scope stage buffer)).Sublist (Comment.numbers buffer) ∧
      Comment.Canonical (applied scope stage buffer) := by
  have rewritten := (rewritten_applied unbracketed stage buffer).imp fun _ => Brought.walled
  exact ⟨Comment.sublist_numbers_of_rewritten rewritten, canonical.rewritten rewritten⟩

/-- A run of stages drops marks and changes nothing else about their row. -/
theorem Stage.marks_foldl (unbracketed : scope.Unbracketed) (stages : List Stage)
    (canonical : Comment.Canonical buffer) :
    (Comment.numbers (stages.foldl (fun buffer stage => applied scope stage buffer) buffer)).Sublist
        (Comment.numbers buffer) ∧
      Comment.Canonical (stages.foldl (fun buffer stage => applied scope stage buffer) buffer) := by
  induction stages generalizing buffer with
  | nil => exact ⟨.refl _, canonical⟩
  | cons stage stages ih =>
    obtain ⟨fewer, stays⟩ := marks_applied unbracketed stage canonical
    obtain ⟨fewerLater, staysLater⟩ := ih stays
    exact ⟨fewerLater.trans fewer, staysLater⟩

/-- The marks that stages leave are some of the marks of the masked template, in their
order. -/
theorem Stage.marks_foldl_mask (unbracketed : scope.Unbracketed) (stages : List Stage)
    (template : Text) :
    let buffer := stages.foldl (fun buffer stage => applied scope stage buffer) (Comment.mask template)
    (Comment.numbers buffer).Sublist (range (Comment.all template).length) ∧
      Comment.Canonical buffer := by
  rw [range_eq_range', ← Comment.numbers_maskFrom, ← Comment.mask_eq]
  exact marks_foldl unbracketed stages (Comment.marksOnly_mask template).canonical

private theorem Stage.marks_of_applyAll (unbracketed : scope.Unbracketed) {stages : List Stage}
    {template : Text} {session : Session}
    (ran : ((applyAll scope stages (Comment.mask template)).run session).1 = .ok buffer) :
    (Comment.numbers buffer).Sublist (range (Comment.all template).length) ∧
      Comment.Canonical buffer := by
  obtain ⟨result, added, emits⟩ := registers_applyAll scope stages (Comment.mask template)
  rw [emits.result session] at ran
  subst ran
  rw [eq_foldl_of_emits emits]
  exact marks_foldl_mask unbracketed stages template

/-- After every stage the marks are some of those of the masked template, in their order;
so every mark stands for a comment, and extraction gives the last buffer with those
comments, word for word, in the place of their marks. -/
theorem surviving_comments_return {scope : Scope} (unbracketed : scope.Unbracketed)
    (stages : List Stage) (template : Text) (session : Session) :
    (∀ earlier buffer, earlier <+: stages →
      ((Stage.applyAll scope earlier (Comment.mask template)).run session).1 = .ok buffer →
        (Comment.numbers buffer).Sublist (range (Comment.all template).length) ∧
        buffer = Comment.written Comment.mark (cutAll Comment.recogniseMark buffer)) ∧
    ((extract scope stages template).run session).1 =
      (((Stage.applyAll scope stages (Comment.mask template)).run session).1.map fun buffer =>
        Comment.written (fun number => (Comment.all template).getD number [])
          (cutAll Comment.recogniseMark buffer)) ∧
    ((extract scope stages template).run session).1 ≠ .error .missingComment := by
  refine ⟨fun earlier buffer _ ran => ?_, ?_⟩
  · obtain ⟨row, canonical⟩ := Stage.marks_of_applyAll unbracketed ran
    exact ⟨row, canonical.eq_written⟩
  · obtain ⟨result, added, emits⟩ := registers_applyAll scope stages (Comment.mask template)
    rw [emits.result session, (emits_extract emits).result session]
    cases result with
    | error failure =>
      have reason := ((Stage.confined_applyAll scope stages _ fun _ _ _ _ =>
        Candidate.failFor_isUnreadable _).of_emits emits).2 failure rfl
      exact ⟨rfl, fun same => reason.ne_missingComment (Except.error.inj same)⟩
    | ok buffer =>
      obtain ⟨row, -⟩ := Stage.marks_of_applyAll unbracketed (emits.result session)
      have restored := Comment.restore_eq_written fun number member =>
        mem_range.1 (row.subset member)
      rw [Except.bind, restored]
      exact ⟨rfl, by simp⟩

/-- A template with a comment inside an attribute, a comment in its body, a closing that
nothing opens and an opening that nothing closes. -/
def scatteredTemplate : Text :=
  "<p title=\"<!--a-->好\"><!--b--></p>--><!--@".toList

/-- The first stage drops the first mark of `scatteredTemplate`, and the comment of the
second one comes back. -/
theorem surviving_comments_return_scatteredTemplate :
    let scope : Scope := { path := .ofText "src/a.vue".toList, shown := "src/a.vue".toList }
    let buffer := "<p :title=\"$t('a_5bb820')\"><!--@1--></p>--><!--@".toList
    scope.Unbracketed ∧
    ((Stage.applyAll scope [.plainAttribute] (Comment.mask scatteredTemplate)).run {}).1 =
      .ok buffer ∧
    (Comment.numbers buffer).Sublist (range (Comment.all scatteredTemplate).length) ∧
    ((extract scope [.plainAttribute] scatteredTemplate).run {}).1 =
      .ok "<p :title=\"$t('a_5bb820')\"><!--b--></p>--><!--@".toList := by
  intro scope buffer
  have unbracketed : scope.Unbracketed := ⟨by decide, by decide +kernel⟩
  have ran : ((Stage.applyAll scope [.plainAttribute] (Comment.mask scatteredTemplate)).run {}).1 =
      .ok buffer := eq_ok_of_toOption (by decide +kernel)
  obtain ⟨marks, extracted, -⟩ :=
    surviving_comments_return unbracketed [.plainAttribute] scatteredTemplate {}
  refine ⟨unbracketed, ran, (marks _ buffer prefix_rfl ran).1, ?_⟩
  rw [extracted, ran]
  exact eq_ok_of_toOption (by decide +kernel)

end Phrasebook.Markup
