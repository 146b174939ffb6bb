import Phrasebook.Proofs.Document.Settled
import Phrasebook.Proofs.Markup.Reader
import Phrasebook.Proofs.Markup.Spans

/-!
# Stages that change their buffer

A stage that registers a phrase changes its buffer. In the value of an attribute and in an
interpolation, what the stage puts in and what stood there part at some character: at a colon
before a name, at a blank that is dropped, or where the name of the function stands in the place of
a quote. A run that becomes a call is no longer one that the stage would take up.
-/

namespace Phrasebook

open List

/-! ## Texts that part -/

/-- Whether two texts go on with different characters behind a common beginning. -/
inductive Text.Diverge : Text → Text → Prop
  | here {first second : Char} (different : first ≠ second) (left right : Text) :
    Diverge (first :: left) (second :: right)
  | there {left right : Text} (common : Char) (diverge : Diverge left right) :
    Diverge (common :: left) (common :: right)

namespace Text.Diverge

variable {left right : Text}

private theorem ne (diverge : Diverge left right) : left ≠ right := by
  induction diverge with
  | here different => exact fun same => different (List.cons.inj same).1
  | there _ _ ih => exact fun same => ih (List.cons.inj same).2

private theorem after (diverge : Diverge left right) (front : Text) :
    Diverge (front ++ left) (front ++ right) := by
  induction front with
  | nil => exact diverge
  | cons head front ih => exact .there head ih

private theorem append (diverge : Diverge left right) (behind others : Text) :
    Diverge (left ++ behind) (right ++ others) := by
  induction diverge with
  | here different => exact .here different _ _
  | there common _ ih => exact .there common ih

/-- A copy parts from the text where its first place does. -/
theorem copy {text : Text} {place : Found Text} {later : List (Found Text)} {length : Nat}
    (ordered : Found.Ordered 0 length (place :: later))
    (diverge : Diverge place.value (text.slice place.start place.stop)) :
    Diverge (Edit.copy 0 text (place :: later)) text := by
  have whole := Edit.drop_eq_slice text (Nat.zero_le place.start) (Nat.le_of_lt ordered.2.1)
  rw [drop_zero, Nat.sub_zero] at whole
  have parts := (diverge.after (text.take place.start)).append
    (Edit.copy place.stop (text.drop place.stop) later) (text.drop place.stop)
  rw [← whole] at parts
  exact parts

end Text.Diverge

/-! ## Names of functions -/

/-- Whether a text can be the name of a function: it has characters, all of which belong to
names. -/
def IsIdentifier (name : Text) : Prop :=
  name ≠ [] ∧ ∀ char ∈ name, Markup.isNamePart char = true

instance (name : Text) : Decidable (IsIdentifier name) :=
  decidable_of_iff (name ≠ [] ∧ name.all Markup.isNamePart = true) (by
    rw [all_eq_true, IsIdentifier])

namespace Markup

open Text (Diverge)

/-- A call starts with a character of a name. -/
theorem exists_call_eq {scope : Scope} (named : IsIdentifier scope.functions.markup) (text : Text)
    (quote : Char) (exprs : List Text) :
    ∃ first rest, scope.call text quote exprs = first :: rest ∧ isNamePart first = true := by
  obtain ⟨inside, shape⟩ := Call.exists_render_eq scope.functions.markup
    (Key.ofText text scope.path scope.keyLength) quote exprs
  obtain ⟨nonempty, parts⟩ := named
  obtain ⟨first, rest, name⟩ := exists_cons_of_ne_nil nonempty
  rw [Scope.call, shape, name]
  exact ⟨first, _, rfl, parts first (by simp [name])⟩

/-- A call parts from a text that starts with a character of no name. -/
theorem diverge_call {scope : Scope} (named : IsIdentifier scope.functions.markup) {right : Text}
    {head : Char} (starts : right.head? = some head) (other : isNamePart head = false) (text : Text)
    (quote : Char) (exprs : List Text) : Diverge (scope.call text quote exprs) right := by
  obtain ⟨first, rest, shape, isPart⟩ := exists_call_eq named text quote exprs
  obtain ⟨tail, rfl⟩ := head?_eq_some_iff.1 starts
  rw [shape]
  refine .here ?_ rest tail
  rintro rfl
  rw [isPart] at other
  cases other

namespace Stage

variable {scope : Scope} {buffer : Text} {stage : Stage}

/-! ## Attributes and interpolations -/

/-- Whether the new text of a place parts from what stands there. -/
def Changes (scope : Scope) (buffer : Text) (place : Found (List Piece)) : Prop :=
  Diverge (Piece.spell scope place.value) (buffer.slice place.start place.stop)

private theorem changes_plainAttribute (scope : Scope) (buffer : Text) :
    ∀ place ∈ find scope.functions buffer .plainAttribute, Changes scope buffer place := by
  refine forall_mem_placed fun found member value pieces => ?_
  simp only [findPlainAttribute, Option.ite_none_right_eq_some, Option.some.injEq] at pieces
  obtain ⟨-, rfl⟩ := pieces
  obtain ⟨before, rest, _, length, rfl, recognised, start, stop⟩ :=
    Text.exists_of_mem_scan (mem_filter.1 member).1
  obtain ⟨gap, secondGap, behind, rfl, rfl, -, gapBlank, -, isName, -, -⟩ :=
    Attribute.recognise_spelled recognised
  rw [Changes, stop, start, slice_append, take_left]
  refine .there found.value.lead ?_
  -- A colon stands before the name now; no name holds one, and no blank is one.
  change Diverge (':' :: _) (found.value.start.name ++ _ ++ _)
  rw [append_assoc]
  cases named : found.value.start.name with
  | cons first name =>
    have isPart := Attribute.isPlainPart_of_isNameOf isName first (by
      rw [show found.value.name = first :: name from named]
      exact mem_cons_self)
    refine .here ?_ _ _
    rintro rfl
    cases isPart
  | nil =>
    cases gap with
    | nil => exact .here (by decide) _ _
    | cons blank gap =>
      refine .here ?_ _ _
      rintro rfl
      cases gapBlank ':' mem_cons_self

/-- The opening of an attribute loses the blanks around its equals sign. -/
theorem diverge_opening {item : Attribute} {gap secondGap left right : Text}
    (gapBlank : Text.AllBlank gap) (secondBlank : Text.AllBlank secondGap)
    (isQuote : item.quote = '"' ∨ item.quote = '\'') (inside : Diverge left right) :
    Diverge (item.lead :: item.name ++ ['=', item.quote] ++ left)
      (item.start.spelled gap secondGap ++ right) := by
  have visible : Text.isBlank item.quote = false := by
    rcases isQuote with same | same <;> rw [same] <;> decide
  have parts : Diverge ('=' :: item.quote :: left)
      (gap ++ '=' :: (secondGap ++ item.quote :: right)) := by
    cases gap with
    | cons blank gap =>
      refine .here ?_ _ _
      rintro rfl
      cases gapBlank '=' mem_cons_self
    | nil =>
      refine .there '=' ?_
      cases secondGap with
      | nil => exact .there item.quote inside
      | cons blank secondGap =>
        refine .here ?_ _ _
        rintro rfl
        rw [secondBlank _ mem_cons_self] at visible
        cases visible
  have whole := parts.after (item.lead :: item.name)
  simpa [Attribute.Opening.spelled, Attribute.start] using whole

private theorem changes_templateAttribute (named : IsIdentifier scope.functions.markup)
    (buffer : Text) :
    ∀ place ∈ find scope.functions buffer .templateAttribute, Changes scope buffer place := by
  refine forall_mem_placed fun found member value pieces => ?_
  simp only [findTemplateAttribute, Option.ite_none_right_eq_some, Option.some.injEq] at pieces
  obtain ⟨-, rfl⟩ := pieces
  obtain ⟨before, rest, _, length, rfl, recognised, start, stop⟩ :=
    Text.exists_of_mem_scan (mem_filter.1 member).1
  obtain ⟨gap, secondGap, lead, trail, behind, rfl, rfl, -, gapBlank, leadBlank, isQuote,
    secondBlank, -⟩ := Attribute.recogniseTemplate_spelled recognised
  rw [Changes, stop, start, slice_append, take_left]
  obtain ⟨head, starts, other⟩ : ∃ head, (lead ++ Char.ofNat 0x60 :: (found.value.value ++
      Char.ofNat 0x60 :: (trail ++ [found.value.quote]))).head? = some head ∧
      isNamePart head = false := by
    cases lead with
    | nil => exact ⟨Char.ofNat 0x60, rfl, by decide⟩
    | cons blank lead =>
      refine ⟨blank, rfl, ?_⟩
      cases isPart : isNamePart blank with
      | false => rfl
      | true =>
        rw [← leadBlank blank mem_cons_self, isBlank_of_isNamePart isPart]
  have call := fun text quote exprs => (diverge_call named starts other text quote
    exprs).append [found.value.quote] []
  have whole := fun text quote exprs => diverge_opening gapBlank secondBlank isQuote
    (call text quote exprs)
  simpa [Piece.spell, Piece.callText] using whole _ _ _

/-- No quote belongs to a name. -/
theorem isNamePart_of_mem_quotes {quote : Char}
    (isQuote : quote ∈ ['\'', '"', Char.ofNat 0x60]) : isNamePart quote = false := by
  simp only [mem_cons, not_mem_nil, or_false] at isQuote
  rcases isQuote with rfl | rfl | rfl <;> decide

/-- Calls in the places of literals change an expression. -/
theorem diverge_interleave (named : IsIdentifier scope.functions.markup) {quotes : List Char}
    (unnamed : ∀ quote ∈ quotes, isNamePart quote = false) {keyQuote : Char → Char}
    {eligible : Text → Bool} {offset : Nat} {expr : Text}
    (present : Quotation.candidates scope.functions quotes keyQuote eligible offset expr ≠ []) :
    Diverge (Piece.spell scope (Piece.interleave 0 expr
      (Quotation.candidates scope.functions quotes keyQuote eligible offset expr)))
      expr := by
  have ordered := @Quotation.ordered_candidates scope.functions quotes keyQuote eligible offset
    expr _ (Piece.callText scope)
  rw [Piece.spell_interleave]
  obtain ⟨range, later, ranges⟩ := exists_cons_of_ne_nil present
  obtain ⟨before, quote, body, after, whole, isQuote, start, stop, -⟩ :=
    Quotation.exists_of_mem_candidates (ranges ▸ mem_cons_self : range ∈ _)
  rw [ranges] at ordered ⊢
  refine .copy ordered (diverge_call named ?_ (unnamed quote isQuote) _ _ _)
  dsimp only
  rw [start, stop, whole, append_assoc, slice_append, take_left]
  rfl

private theorem changes_directiveLiteral (named : IsIdentifier scope.functions.markup)
    (buffer : Text) :
    ∀ place ∈ find scope.functions buffer .directiveLiteral, Changes scope buffer place := by
  refine forall_mem_placed fun found member value pieces => ?_
  simp only [findDirectiveLiteral, Option.ite_none_right_eq_some, Option.ite_none_left_eq_some,
    Option.some.injEq, List.isEmpty_iff] at pieces
  obtain ⟨-, present, rfl⟩ := pieces
  obtain ⟨before, rest, _, length, rfl, recognised, start, stop⟩ :=
    Text.exists_of_mem_scan (mem_filter.1 member).1
  obtain ⟨gap, secondGap, behind, rfl, rfl, -, gapBlank, isQuote, -, secondBlank, -⟩ :=
    Attribute.recognise_spelled recognised
  rw [Changes, stop, start, slice_append, take_left]
  have literals := (diverge_interleave named
    (fun _ member => isNamePart_of_mem_quotes (mem_quotes_of_other member)) present).append
    [found.value.quote]
    [found.value.quote]
  have whole := diverge_opening gapBlank secondBlank isQuote literals
  simpa [Piece.spell, start] using whole

private theorem changes_interpolationLiteral (named : IsIdentifier scope.functions.markup)
    (buffer : Text) :
    ∀ place ∈ find scope.functions buffer .interpolationLiteral, Changes scope buffer place := by
  refine forall_mem_placed fun found member value pieces => ?_
  simp only [findInterpolationLiteral, Option.ite_none_right_eq_some, Option.ite_none_left_eq_some,
    Option.some.injEq, List.isEmpty_iff] at pieces
  obtain ⟨-, present, rfl⟩ := pieces
  obtain ⟨before, rest, _, length, rfl, recognised, start, stop⟩ := Text.exists_of_mem_scan member
  obtain ⟨rfl, -, behind, rfl⟩ := Interpolation.recognise_eq_some_iff.1 recognised
  rw [Changes, stop, start, slice_append, take_left]
  have literals := (diverge_interleave named
    (fun _ member => isNamePart_of_mem_quotes (List.mem_append_left [Char.ofNat 0x60] member))
    present).append Interpolation.closing
    Interpolation.closing
  have whole := literals.after Interpolation.opening
  simpa [Piece.spell, start] using whole

/-- A stage changes its buffer where the new text of its first place parts from the old one. -/
theorem find_eq_nil_of_changes
    (changes : ∀ place ∈ find scope.functions buffer stage, Changes scope buffer place)
    (same : applied scope stage buffer = buffer) : find scope.functions buffer stage = [] := by
  by_contra present
  obtain ⟨place, later, places⟩ := exists_cons_of_ne_nil present
  have ordered := ordered_contents scope (ordered_find scope.functions buffer stage)
  rw [applied] at same
  rw [places] at ordered same
  exact (Text.Diverge.copy ordered (changes place (by simp [places]))).ne same

/-! ## Runs -/

/-- A stage for runs that leaves its buffer as it is leaves each run as it is. -/
theorem eq_of_replace_eq (discreet : scope.Discreet) {change : Text → Text}
    (turning : Turning scope change) (same : Run.replace change buffer = buffer) :
    ∀ run ∈ Run.textsOf buffer, change run = run := by
  have runs := turning.textsOf_replace discreet buffer
  rw [same, ← map_id (Run.textsOf buffer), map_map] at runs
  exact fun run member => (map_inj_left.1 runs run member).symm

private theorem find_mixedContent_eq_nil (discreet : scope.Discreet)
    (same : applied scope .mixedContent buffer = buffer) :
    find scope.functions buffer .mixedContent = [] := by
  rw [applied_mixedContent] at same
  simp only [find, placed_eq_nil_iff, findMixedContent_eq_none_iff]
  intro found member
  obtain ⟨isRun, opens⟩ := Run.of_mem_all member
  have kept := eq_of_replace_eq discreet (turning_mixedChange scope) same _ isRun
  rcases mixedChange_cases scope found.value with turns | ⟨-, unmixed⟩
  · rw [kept] at turns
    exact turns.not_isMixed discreet
  · exact unmixed opens

private theorem find_plainText_eq_nil (discreet : scope.Discreet)
    (same : applied scope .plainText buffer = buffer) :
    find scope.functions buffer .plainText = [] := by
  rw [applied_plainText] at same
  simp only [find, placed_eq_nil_iff, findText_eq_none_iff]
  intro found member
  obtain ⟨isRun, holds⟩ := Run.of_mem_all member
  have kept := eq_of_replace_eq discreet (turning_plainChange scope) same _ isRun
  rcases plainChange_cases scope found.value with turns | ⟨-, called⟩
  · rw [kept] at turns
    exact turns.not_isPlain scope.functions
  · exact called holds

/-! ## Every stage -/

/-- A stage that leaves its buffer as it is finds nothing in it. -/
theorem find_eq_nil_of_applied_eq (named : IsIdentifier scope.functions.markup)
    (discreet : scope.Discreet) (same : applied scope stage buffer = buffer) :
    find scope.functions buffer stage = [] := by
  cases stage with
  | plainAttribute => exact find_eq_nil_of_changes (changes_plainAttribute scope buffer) same
  | templateAttribute => exact find_eq_nil_of_changes (changes_templateAttribute named buffer) same
  | directiveLiteral => exact find_eq_nil_of_changes (changes_directiveLiteral named buffer) same
  | interpolationLiteral =>
    exact find_eq_nil_of_changes (changes_interpolationLiteral named buffer) same
  | mixedContent => exact find_mixedContent_eq_nil discreet same
  | plainText => exact find_plainText_eq_nil discreet same

/-- A stage changes its buffer exactly when it registers a phrase. -/
theorem apply_eq_self_iff (named : IsIdentifier scope.functions.markup) (discreet : scope.Discreet)
    {after : Text} {added : List KeyedPhrase}
    (emits : Pass.Emits (apply scope stage buffer) (.ok after) added) :
    after = buffer ↔ added = [] := by
  constructor
  · rintro rfl
    have nothing := find_eq_nil_of_applied_eq named discreet (eq_applied_of_emits emits).symm
    exact (emits.unique (emits_apply_iff.2 ⟨rfl, nothing⟩)).2
  · rintro rfl
    exact (emits_apply_iff.1 emits).1

end Stage

end Markup

end Phrasebook
