import Phrasebook.Proofs.Markup.Quotation

/-!
# Stages after themselves

A stage for the body of a template finds nothing in what it left. The stages for runs leave
interpolated calls, which neither of them takes up. The stage for interpolations changes
literals inside expressions: the interpolations keep their extent, and every literal that
it might extract is wrapped. All of this rests on names without characters that mean
something to the stages.
-/

namespace Phrasebook

open List Text

/-! ## Interpolations -/

namespace Markup.Interpolation

private theorem recognise_eq_none_iff {text : Text} : recognise text = none ↔
    ∀ inside, text = opening ++ inside → ¬ closing <:+: inside := by
  cases stripped : strip? opening text with
  | none =>
    refine iff_of_true (by simp [recognise, stripped]) fun inside whole => ?_
    rw [whole, strip?_append] at stripped
    cases stripped
  | some inside =>
    obtain rfl := strip?_eq_some_iff.1 stripped
    have cut : recognise (opening ++ inside) = none ↔ cutAt? closing inside = none := by
      cases cuts : cutAt? closing inside <;> simp [recognise, cuts]
    rw [cut, cutAt?_eq_none_iff]
    constructor
    · intro open_ other same
      rwa [← append_cancel_left same]
    · exact fun open_ => open_ inside rfl

/-- How an interpolation may change: the literals of its expression are changed. -/
def Changes (scope : Scope) (_gap expr _taken new : Text) : Prop :=
  ∃ after, new = opening ++ after ++ closing ∧
    Text.Recast (Quotation.recognise Quotation.quotes) (Quotation.Changes scope) [] expr after

section Recast

variable {scope : Scope} {gap text after : Text}
  (recast : Text.Recast recognise (Changes scope) gap text after)

include recast

private theorem head_of_recast : after.head? = text.head? := by
  cases recast with
  | nil => rfl
  | keep nothing later => rfl
  | take recognised changed later =>
    obtain ⟨size, -, starts⟩ := recognise_eq_some_iff.1 recognised
    obtain ⟨inside, rfl, -⟩ := changed
    rw [← eq_of_isPrefix_append starts size]
    rfl

/-- Without closing braces there is nothing to change. -/
theorem eq_of_recast (open_ : ¬ closing <:+: text) : after = text := by
  induction recast with
  | nil => rfl
  | keep nothing later ih =>
    rw [ih fun occurs => open_ (occurs.trans (suffix_cons _ _).isInfix)]
  | take recognised changed later =>
    obtain ⟨size, -, starts⟩ := recognise_eq_some_iff.1 recognised
    have ends := (suffix_append (opening ++ _) closing).isInfix.trans starts.isInfix
    exact absurd ends open_

/-- No interpolation starts in the changed text where none did. -/
theorem recognise_eq_none_of_recast {head : Char} (nothing : recognise (head :: text) = none) :
    recognise (head :: after) = none := by
  rw [recognise_eq_none_iff] at nothing ⊢
  intro inside whole
  obtain ⟨rfl, behind⟩ := List.cons.inj whole
  have first := head_of_recast recast
  rw [behind] at first
  obtain ⟨rest, rfl⟩ := head?_eq_some_iff.1 first.symm
  have open_ := nothing rest rfl
  have same := eq_of_recast recast (by
    rw [← nil_append ('{' :: rest), infix_append_cons_iff (by decide)]
    exact not_or.2 ⟨by decide, open_⟩)
  rw [behind] at same
  obtain rfl : inside = rest := (List.cons.inj same).2
  exact open_

/-- In a changed text every literal worth extracting is wrapped. -/
theorem allWrapped_of_recast (harmless : scope.Harmless) {offset : Nat} {prev : Option Char} :
    ∀ found ∈ scanFrom (fun _ => recognise) offset 0 prev after,
      AllWrapped scope.functions Quotation.quotes (fun _ => true) found.value := by
  induction recast generalizing offset prev with
  | nil => simp [scanFrom]
  | keep nothing later ih =>
    rw [scanFrom_of_none (recognise_eq_none_of_recast later nothing)]
    exact ih
  | @take gap taken rest new after expr recognised changed later ih =>
    obtain ⟨-, open_, -⟩ := recognise_eq_some_iff.1 recognised
    obtain ⟨inside, rfl, recast⟩ := changed
    have again : recognise (opening ++ inside ++ closing ++ after) =
        some ((opening ++ inside ++ closing).length, inside) :=
      recognise_eq_some_iff.2 ⟨rfl, fun closes =>
        open_ (Quotation.closing_of_recast harmless recast closes), prefix_append _ _⟩
    rw [scanFrom_of_some (by simp [opening]) again]
    refine forall_mem_cons.2 ⟨fun literal member _ => ?_, ih⟩
    exact @Quotation.wrapped_of_recast _ _ _ _ harmless recast [] rfl none literal member

end Recast

end Markup.Interpolation

namespace Markup.Stage

variable {scope : Scope}

/-- The stage for interpolations recasts its buffer. -/
theorem recast_interpolationLiteral (harmless : scope.Harmless) (buffer : Text) :
    Text.Recast Interpolation.recognise (Interpolation.Changes scope) [] buffer
      (applied scope .interpolationLiteral buffer) := by
  let change (found : Found Text) : Option Text :=
    (findInterpolationLiteral scope.functions found).map (Piece.spell scope)
  have places : contents scope (find scope.functions buffer .interpolationLiteral) =
      (scan (fun _ => Interpolation.recognise) buffer).filterMap
        (withContent change) := by
    rw [contents, find, placed, map_filterMap]
    congr 1
    funext found
    simp only [withContent, change, Option.map_map]
    rfl
  rw [applied, places]
  refine recast_copy bounded_interpolation ?_
  intro done gap taken rest expr _ _ recognised
  obtain ⟨size, -, starts⟩ := Interpolation.recognise_eq_some_iff.1 recognised
  have whole := eq_of_isPrefix_append starts size
  have recast := Quotation.recast_candidates harmless
    ((done ++ gap).length + Interpolation.opening.length) expr
  refine ⟨_, ?_, recast⟩
  simp only [change]
  cases pieces : findInterpolationLiteral scope.functions
      ⟨(done ++ gap).length, (done ++ gap).length + taken.length, expr⟩ with
  | none =>
    have wrapped : AllWrapped scope.functions Quotation.quotes (fun _ => true) expr :=
      findInterpolationLiteral_eq_none_iff.1 pieces
    rw [Quotation.candidates_eq_nil_iff.2 wrapped, ← whole]
    simp [Piece.interleave, Piece.spell]
  | some pieces_ =>
    simp only [findInterpolationLiteral, Option.ite_none_right_eq_some,
      Option.ite_none_left_eq_some, Option.some.injEq] at pieces
    rw [← pieces.2.2]
    simp [Piece.spell, Quotation.quotes]

private theorem find_applied_interpolationLiteral (harmless : scope.Harmless) (buffer : Text) :
    find scope.functions (applied scope .interpolationLiteral buffer) .interpolationLiteral =
      [] := by
  rw [find, placed_eq_nil_iff]
  intro found member
  rw [findInterpolationLiteral_eq_none_iff]
  exact Interpolation.allWrapped_of_recast (recast_interpolationLiteral harmless buffer) harmless
    found member

/-! ## Runs -/

/-- A run of a changed buffer is a changed run. -/
theorem exists_of_mem_all (discreet : scope.Discreet) {change : Text → Text}
    (turning : Turning scope change) {eligible : Text → Bool} {buffer : Text} {found : Found Text}
    (member : found ∈ Run.all eligible (Run.replace change buffer)) :
    ∃ run, found.value = change run ∧ eligible (change run) = true := by
  obtain ⟨inside, isEligible⟩ := Run.of_mem_all member
  rw [turning.textsOf_replace discreet] at inside
  obtain ⟨run, -, same⟩ := mem_map.1 inside
  exact ⟨run, same.symm, same ▸ isEligible⟩

private theorem find_applied_mixedContent (discreet : scope.Discreet) (buffer : Text) :
    find scope.functions (applied scope .mixedContent buffer) .mixedContent = [] := by
  rw [find, placed_eq_nil_iff, applied_mixedContent]
  intro found member
  obtain ⟨run, value, opens⟩ := exists_of_mem_all discreet (turning_mixedChange scope) member
  rw [findMixedContent_eq_none_iff, value]
  rcases mixedChange_cases scope run with turns | ⟨same, unmixed⟩
  · exact turns.not_isMixed discreet
  · rw [same] at opens ⊢
    exact unmixed opens

private theorem find_applied_plainText (discreet : scope.Discreet) (buffer : Text) :
    find scope.functions (applied scope .plainText buffer) .plainText = [] := by
  rw [find, placed_eq_nil_iff, applied_plainText]
  intro found member
  obtain ⟨run, value, ideograph⟩ := exists_of_mem_all discreet (turning_plainChange scope) member
  rw [findText_eq_none_iff, value]
  rcases plainChange_cases scope run with turns | ⟨same, unlike⟩
  · exact turns.not_isPlain scope.functions
  · rw [same] at ideograph ⊢
    exact unlike ideograph

/-! ## A stage after itself -/

/-- The stages for the body of a template: its interpolations and its runs. -/
def ofBody : List Stage :=
  [interpolationLiteral, mixedContent, plainText]

private theorem find_applied (harmless : scope.Harmless) {stage : Stage} (body : stage ∈ ofBody)
    (buffer : Text) : find scope.functions (applied scope stage buffer) stage = [] := by
  simp only [ofBody, mem_cons, not_mem_nil, or_false] at body
  rcases body with rfl | rfl | rfl
  · exact find_applied_interpolationLiteral harmless buffer
  · exact find_applied_mixedContent harmless.discreet buffer
  · exact find_applied_plainText harmless.discreet buffer

/-- Each stage for the body of a template is idempotent: where it succeeds, a second
application yields the same buffer and leaves every session as it is. In a row, two
applications are the same pass as one, also where the first one fails. -/
theorem apply_twice {scope : Scope} (harmless : scope.Harmless) {stage : Stage}
    (body : stage ∈ ofBody) (buffer : Text) :
    (∀ session after, ((apply scope stage buffer).run session).1 = .ok after →
      ∀ later, (apply scope stage after).run later = (.ok after, later)) ∧
    (apply scope stage buffer >>= apply scope stage) = apply scope stage buffer := by
  have quiet {session : Session} {after : Text}
      (yields : ((apply scope stage buffer).run session).1 = .ok after) :
      apply scope stage after = pure after := by
    obtain ⟨result, added, emits⟩ := registers_apply scope stage buffer
    obtain rfl := (emits.result session).symm.trans yields
    rw [eq_applied_of_emits emits]
    exact apply_of_find_eq_nil (find_applied harmless body buffer)
  refine ⟨fun session after yields later => by rw [quiet yields]; rfl, ?_⟩
  refine funext fun session => ?_
  have runs := Pass.Emits.run_bind (apply scope stage buffer) (apply scope stage) session
  cases outcome : (apply scope stage buffer).run session with
  | mk result later =>
    cases result with
    | error failure =>
      rw [outcome] at runs
      exact runs.trans outcome.symm
    | ok after =>
      have again := congrFun (quiet (congrArg Prod.fst outcome)) later
      rw [outcome] at runs
      exact runs.trans (again.trans outcome.symm)

/-- An expression with a quote that closes nowhere, an escaped quote before a literal with a
brace in it, and a wrapped literal. -/
theorem apply_twice_tangled :
    let scope : Scope := { path := .ofText "src/a.vue".toList, shown := "src/a.vue".toList }
    let buffer := "<p>\x7b\x7b \" \\'甲\x7d' + $t('乙') + \\\"丙\\\" \x7d\x7d 丁</p>".toList
    let after := "<p>\x7b\x7b \" \\$t('a_735695') + $t('乙') + \\\"丙\\\" \x7d\x7d 丁</p>".toList
    scope.Harmless ∧ ((apply scope .interpolationLiteral buffer).run {}).1 = .ok after ∧
      ∀ later, (apply scope .interpolationLiteral after).run later = (.ok after, later) := by
  intro scope buffer after
  have harmless : scope.Harmless := ⟨all_eq_true.1 (by decide), all_eq_true.1 (by decide),
    all_eq_true.1 (by decide +kernel)⟩
  have yields := Pass.eq_ok_of_toOption
    (show ((apply scope .interpolationLiteral buffer).run {}).1.toOption = some after by
      decide +kernel)
  exact ⟨harmless, yields, (apply_twice harmless (by decide) buffer).1 _ _ yields⟩

end Markup.Stage

end Phrasebook
