import Phrasebook.Proofs.Document.Settled
import Phrasebook.Proofs.Markup.SoleAttribute

/-!
# Conditions

A directive that is neither a binding nor an event handler, such as a condition, holds an
expression that is no text of the page. No stage is meant to change it, and none knows that it
is inside one: a closing bracket of the expression ends the tag for the stages of the body, and
an opening one starts a tag for the stages of attributes. A condition is left alone exactly when
its brackets expose nothing.
-/

namespace Phrasebook.Markup

open List Text

/-- Whether a value holds something to extract for stages that take its brackets for those of
tags: an attribute behind an opening bracket, or text between two brackets. -/
inductive Exposes (functions : Functions) (value : Text) : Prop
  | plainAttribute {found : Found Attribute}
      (stands : found ∈ Attribute.all Attribute.plainName value)
      (foreign : hasIdeograph found.value.value = true)
  | boundTemplate {found : Found Attribute} (stands : found ∈ boundTemplates value)
      (foreign : hasIdeograph
        (fixedText Interpolation.recogniseSubstitution found.value.value) = true)
  | literal {found : Found Attribute}
      (stands : found ∈ Attribute.all (Attribute.directiveName Attribute.bindingsAndEvents) value)
      (foreign : ¬ AllWrapped functions [Stage.otherQuote found.value.quote, Char.ofNat 0x60]
        (fun body => !body.contains '{' && !body.contains '}') found.value.value)
  | text {before run after : Text} (whole : value = before ++ '>' :: (run ++ '<' :: after))
      (unbracketed : Run.Unbracketed run) (foreign : hasIdeograph run = true)
      (plain : IsPlain functions run)

/-- Without an opening bracket nothing is exposed. -/
theorem not_exposes_of_not_mem {functions : Functions} {value : Text} (unopened : '<' ∉ value) :
    ¬ Exposes functions value := by
  have outside {read : Text → Option (Nat × Attribute)} {found : Found Attribute} :
      found ∉ Attribute.standing read value := by
    rw [Attribute.standing_of_not_mem unopened]
    exact not_mem_nil
  rintro (⟨stands, -⟩ | ⟨stands, -⟩ | ⟨stands, -⟩ | ⟨rfl, -⟩)
  · exact outside stands
  · exact outside stands
  · exact outside stands
  · simp at unopened

namespace SoleAttribute

/-- The recognisers of names. -/
def nameLengths : List (Text → Option Nat) :=
  [Attribute.plainName, Attribute.directiveName Attribute.bindings,
    Attribute.directiveName Attribute.bindingsAndEvents]

/-- An element whose attribute is of no interest is settled exactly when its value exposes
nothing. -/
theorem settled_iff_not_exposes (element : SoleAttribute) {functions : Functions}
    (unnamed : ∀ nameLength ∈ nameLengths, ∀ rest, nameLength (element.name ++ '=' :: rest) = none)
    (unbraced : ¬ Interpolation.opening <:+: element.value) :
    Settled functions element.text ↔ ¬ Exposes functions element.value := by
  let moved : Found Attribute → Found Attribute := Found.within element.front.length
  have plains : Attribute.all Attribute.plainName element.text =
      (Attribute.all Attribute.plainName element.value).map moved :=
    element.standing_text (Attribute.isReader_recognise Attribute.steady_plainName)
      (unnamed _ (by simp [nameLengths]))
  have templates : boundTemplates element.text = (boundTemplates element.value).map moved :=
    element.standing_text Attribute.isReader_template (unnamed _ (by simp [nameLengths]))
  have directives :
      Attribute.all (Attribute.directiveName Attribute.bindingsAndEvents) element.text =
        (Attribute.all (Attribute.directiveName Attribute.bindingsAndEvents) element.value).map
          moved :=
    element.standing_text
      (Attribute.isReader_recognise (Attribute.steady_directiveName rfl))
      (unnamed _ (by simp [nameLengths]))
  rw [element.settled_text_iff unbraced, plains, templates, directives]
  constructor
  · rintro ⟨attributes, templates, directives, runs⟩ exposes
    cases exposes with
    | plainAttribute stands foreign =>
      have still := attributes _ (mem_map_of_mem stands)
      exact absurd (foreign.symm.trans still) (by decide)
    | boundTemplate stands foreign =>
      have still := templates _ (mem_map_of_mem stands)
      exact absurd (foreign.symm.trans still) (by decide)
    | @literal found stands foreign =>
      exact foreign (directives (moved found) (mem_map_of_mem stands))
    | text whole unbracketed foreign plain => exact runs _ _ _ whole unbracketed foreign plain
  · intro hidden
    refine ⟨?_, ?_, ?_, ?_⟩
    · intro found member
      obtain ⟨inner, stands, rfl⟩ := mem_map.1 member
      exact Bool.eq_false_iff.2 fun foreign => hidden (.plainAttribute stands foreign)
    · intro found member
      obtain ⟨inner, stands, rfl⟩ := mem_map.1 member
      exact Bool.eq_false_iff.2 fun foreign => hidden (.boundTemplate stands foreign)
    · intro found member
      obtain ⟨inner, stands, rfl⟩ := mem_map.1 member
      by_contra foreign
      exact hidden (.literal stands foreign)
    · intro before run after whole unbracketed foreign plain
      exact hidden (.text whole unbracketed foreign plain)

end SoleAttribute

/-- An element with a directive that is no binding and no event handler. Its name may be any
word, as there is no colon behind it. -/
structure Condition where
  tag : Text
  directive : Text
  value : Text
  tagged : ∀ char ∈ tag, isWord char = true
  directed : ∀ char ∈ directive, isWord char = true
  unquoted : '"' ∉ value
  unbraced : ¬ Interpolation.opening <:+: value

namespace Condition

variable (condition : Condition)

/-- The element as it is written. -/
def text : Text :=
  ['<'] ++ condition.tag ++ " v-".toList ++ condition.directive ++ "=\"".toList ++
    condition.value ++ "\"></".toList ++ condition.tag ++ ['>']

/-- The condition as an element with one attribute. -/
def element : SoleAttribute where
  tag := condition.tag
  name := 'v' :: '-' :: condition.directive
  value := condition.value
  tagged := condition.tagged
  named := by
    simp only [forall_mem_cons]
    refine ⟨by decide, by decide, fun char member => ?_⟩
    have word := condition.directed char member
    have others {mark : Char} := @Text.ne_of_isWord char mark word
    simp [isNameMark, Attribute.isBare, SoleAttribute.isBlank_of_bare (.inl word),
      @others '=' (by decide), @others '"' (by decide), @others '\'' (by decide),
      @others '<' (by decide), @others '>' (by decide), @others '{' (by decide)]
  unquoted := condition.unquoted

private theorem text_eq : condition.text = condition.element.text := by
  simp [text, element, SoleAttribute.text, SoleAttribute.front, SoleAttribute.behind]

/-- No stage knows the name of a condition. -/
theorem unnamed : ∀ nameLength ∈ SoleAttribute.nameLengths, ∀ rest,
    nameLength (condition.element.name ++ '=' :: rest) = none := by
  have directive {beginnings : List Text} (plain : Attribute.arePlain beginnings = true)
      (marked : beginnings.all (fun beginning => beginning.any [':', '@'].contains) = true)
      (rest : Text) :
      Attribute.directiveName beginnings (condition.element.name ++ '=' :: rest) = none := by
    have kept : condition.element.name.all (!Attribute.endsDirective ·) = true := by
      rw [all_eq_true]
      refine forall_mem_cons.2 ⟨by decide, forall_mem_cons.2 ⟨by decide, ?_⟩⟩
      intro char member
      have word := condition.directed char member
      have others {mark : Char} := @Text.ne_of_isWord char mark word
      simp [Attribute.endsDirective, SoleAttribute.isBlank_of_bare (.inl word),
        @others '=' (by decide), @others '/' (by decide), @others '>' (by decide)]
    rw [Attribute.directiveName_eq plain, Attribute.directivePart_append kept,
      Attribute.directivePart_cons (by decide), append_nil, if_neg]
    rw [any_eq_true]
    rintro ⟨beginning, known, starts⟩
    rw [Bool.and_eq_true, List.isPrefixOf_iff_prefix] at starts
    -- Every beginning holds a mark that is in no word.
    obtain ⟨mark, held, isMark⟩ := any_eq_true.1 (all_eq_true.1 marked beginning known)
    have member : mark ∈ 'v' :: '-' :: condition.directive := starts.1.subset held
    have other : isWord mark = false ∧ mark ≠ 'v' ∧ mark ≠ '-' := by
      have either : mark = ':' ∨ mark = '@' := by simpa using isMark
      rcases either with rfl | rfl <;> decide
    simp only [mem_cons, other.2.1, other.2.2, false_or] at member
    exact ne_of_isWord (condition.directed mark member) other.1 rfl
  simp only [SoleAttribute.nameLengths, forall_mem_cons]
  refine ⟨fun rest => ?_, directive rfl rfl, directive rfl rfl, by simp⟩
  simp [element, Attribute.plainName, isPrefixOf]

/-- A condition is left alone, and nothing of it is registered, exactly when its value exposes
nothing. In particular every condition without an opening bracket is left alone. -/
theorem extract_unchanged_iff (scope : Scope) :
    (Pass.Emits (extract scope Stage.all condition.text) (.ok condition.text) [] ↔
      ¬ Exposes scope.functions (Comment.mask condition.value)) ∧
    ('<' ∉ condition.value →
      Pass.Emits (extract scope Stage.all condition.text) (.ok condition.text) []) := by
  have whole : Pass.Emits (extract scope Stage.all condition.text) (.ok condition.text) [] ↔
      ¬ Exposes scope.functions (Comment.mask condition.value) := by
    rw [emits_extract_iff, text_eq, SoleAttribute.mask_text]
    exact (and_iff_right rfl).trans
      (condition.element.masked.settled_iff_not_exposes condition.unnamed
        fun opens => condition.unbraced (Comment.opening_of_maskFrom opens))
  refine ⟨whole, fun unopened => whole.2 ?_⟩
  rw [Comment.mask_of_not_mem unopened]
  exact not_exposes_of_not_mem unopened

/-- What stands between the brackets of two comparisons is taken for text of the page. -/
theorem extract_unchanged_iff_comparison : ∃ condition : Condition,
    condition.text = ['<', 'p', ' ', 'v', '-', 'i', 'f', '=', '"', 'a', '>', '\'', '好', '\'', '<',
      'b', '"', '>', '<', '/', 'p', '>'] ∧
    ∀ scope, ¬ Pass.Emits (extract scope Stage.all condition.text) (.ok condition.text) [] := by
  refine ⟨⟨['p'], ['i', 'f'], ['a', '>', '\'', '好', '\'', '<', 'b'], all_eq_true.1 rfl,
    all_eq_true.1 rfl, by decide,
    fun opens => absurd (opens.subset mem_cons_self) (by decide)⟩, rfl,
    fun scope unchanged => (extract_unchanged_iff _ scope).1.1 unchanged ?_⟩
  have unopened : ¬ Comment.opening <:+: ['a', '>', '\'', '好', '\'', '<', 'b'] := fun opens =>
    absurd (opens.subset (mem_cons_of_mem _ mem_cons_self)) (by decide)
  rw [Comment.mask_eq, Comment.maskFrom_of_not_infix unopened]
  refine @Exposes.text _ _ ['a'] ['\'', '好', '\''] ['b'] rfl (by decide) (by decide) ⟨?_, ?_, ?_⟩
  · exact fun opens => absurd (opens.subset mem_cons_self) (by decide)
  · exact fun closes => absurd (closes.subset mem_cons_self) (by decide)
  · exact fun call => absurd (call.subset (by simp)) (show '(' ∉ ['\'', '好', '\''] by decide)

end Condition

end Phrasebook.Markup
