import Phrasebook.Proofs.Markup.PlainRuns

/-!
# Runs with interpolations

A text is divided at its interpolations from left to right: at the first opening braces that are
closed behind them, up to the nearest closing braces. The stage for mixed content turns a run
that is divided so, with ideographs between the interpolations, into one call. It keeps the fixed
parts and the expressions in their order.
-/

namespace Phrasebook.Markup

open List Pass Text

variable {first : Text} {cuts : List (Text × Text)}

/-! ## Texts divided at interpolations -/

namespace Interpolation

variable {expr text : Text} {head : Char} {before after : Text}

/-- Whether an interpolation is the first one of a text, between what stands before it and after
it: no opening braces before it are closed, and no closing braces stand before its own. -/
structure IsFirst (text before expr after : Text) : Prop where
  whole : text = before ++ opening ++ expr ++ closing ++ after
  first : ∀ front inside behind, text = front ++ opening ++ inside ++ closing ++ behind →
    before.length ≤ front.length
  nearest : ∀ inside behind, expr ++ closing ++ after = inside ++ closing ++ behind →
    expr.length ≤ inside.length

/-- A text divided at its interpolations: what stands before the first one, and each expression
with what stands between its interpolation and the next. -/
inductive Divides : Text → Text → List (Text × Text) → Prop
  | whole {text : Text}
    (none : ∀ before expr after, text ≠ before ++ opening ++ expr ++ closing ++ after) :
    Divides text text []
  | cut {text before expr after part : Text} {cuts : List (Text × Text)}
    (first : IsFirst text before expr after) (rest : Divides after part cuts) :
    Divides text before ((expr, part) :: cuts)

private theorem recognise_opening_ne_none (inside behind : Text) :
    recognise (opening ++ inside ++ closing ++ behind) ≠ none := by
  have stripped : strip? opening (opening ++ inside ++ closing ++ behind) =
      some (inside ++ closing ++ behind) := strip?_eq_some_iff.2 (by simp)
  cases cut : cutAt? closing (inside ++ closing ++ behind) with
  | none => exact absurd ⟨inside, behind, rfl⟩ (cutAt?_eq_none_iff.1 cut)
  | some parts =>
    rw [recognise, stripped]
    simp only [Option.bind_eq_bind, Option.bind_some, cut]
    exact Option.some_ne_none _

/-- An interpolation that is recognised at the start of a text is its first one. -/
theorem isFirst_of_recognise {taken rest : Text}
    (recognised : recognise (taken ++ rest) = some (taken.length, expr)) :
    IsFirst (taken ++ rest) [] expr rest := by
  obtain ⟨size, closes, starts⟩ := recognise_eq_some_iff.1 recognised
  obtain rfl := eq_of_isPrefix_append starts size
  refine ⟨by simp, fun _ _ _ _ => Nat.zero_le _, fun inside behind same => ?_⟩
  -- Nearer closing braces would stand before the last brace of the ones recognised.
  by_contra nearer
  refine closes (List.IsInfix.trans ⟨inside, [], append_nil _⟩ (List.IsPrefix.isInfix ?_))
  have ahead : inside ++ closing <+: expr ++ closing ++ rest := ⟨behind, same.symm⟩
  have start : expr ++ ['}'] <+: expr ++ closing ++ rest :=
    ⟨'}' :: rest, by simp [closing]⟩
  refine prefix_of_prefix_length_le ahead start ?_
  simp only [length_append, closing, length_cons, length_nil]
  omega

private theorem isFirst_cons (plain : recognise (head :: text) = none)
    (first : IsFirst text before expr after) :
    IsFirst (head :: text) (head :: before) expr after := by
  refine ⟨by rw [first.whole]; simp, ?_, first.nearest⟩
  intro front inside behind same
  cases front with
  | nil =>
    rw [same] at plain
    exact absurd plain (recognise_opening_ne_none inside behind)
  | cons other front =>
    obtain ⟨-, same⟩ := List.cons.inj same
    exact Nat.succ_le_succ (first.first front inside behind same)

private theorem divides_cons {part : Text} (plain : recognise (head :: text) = none)
    (divides : Divides text part cuts) : Divides (head :: text) (head :: part) cuts := by
  cases divides with
  | whole none =>
    refine .whole fun before expr after same => ?_
    cases before with
    | nil =>
      rw [same] at plain
      exact recognise_opening_ne_none expr after plain
    | cons other before => exact none before expr after (List.cons.inj same).2
  | cut first rest => exact .cut (isFirst_cons plain first) rest

/-- Cutting at what is recognised divides a text. -/
theorem divides_cutAll (text : Text) :
    Divides text (cutAll recognise text).1 (cutAll recognise text).2 := by
  induction text using @Text.cut_induction _ recognise with
  | bounded text length expr recognised =>
    exact bounded_interpolation none text length expr recognised
  | nil => exact .whole (by simp [opening])
  | plain head tail plain ih =>
    rw [cutAll_of_none plain]
    exact divides_cons plain ih
  | taken taken rest expr recognised ih =>
    have nonempty : taken ≠ [] :=
      length_pos_iff.1 (bounded_interpolation none _ _ _ recognised).1
    rw [cutAll_of_some nonempty recognised]
    exact .cut (isFirst_of_recognise recognised) ih

/-- A text has one first interpolation. -/
theorem IsFirst.unique {front inside behind : Text} (left : IsFirst text before expr after)
    (right : IsFirst text front inside behind) :
    before = front ∧ expr = inside ∧ after = behind := by
  have same := left.whole.symm.trans right.whole
  simp only [append_assoc] at same
  obtain ⟨rfl, same⟩ := append_inj same
    (Nat.le_antisymm (left.first _ _ _ right.whole) (right.first _ _ _ left.whole))
  have inner : expr ++ closing ++ after = inside ++ closing ++ behind := by
    simpa using append_cancel_left same
  have size := Nat.le_antisymm (left.nearest _ _ inner) (right.nearest _ _ inner.symm)
  rw [append_assoc, append_assoc] at inner
  obtain ⟨rfl, behindClosing⟩ := append_inj inner size
  exact ⟨rfl, rfl, append_cancel_left behindClosing⟩

/-- A text is divided in one way. -/
theorem Divides.unique {other : Text} {others : List (Text × Text)} (left : Divides text first cuts)
    (right : Divides text other others) : first = other ∧ cuts = others := by
  induction left generalizing other others with
  | whole none =>
    cases right with
    | whole => exact ⟨rfl, rfl⟩
    | cut isFirst => exact absurd isFirst.whole (none _ _ _)
  | cut isFirst _ ih =>
    cases right with
    | whole none => exact absurd isFirst.whole (none _ _ _)
    | cut otherFirst rest =>
      obtain ⟨rfl, rfl, rfl⟩ := isFirst.unique otherFirst
      obtain ⟨rfl, rfl⟩ := ih rest
      exact ⟨rfl, rfl⟩

private theorem Divides.opening_infix (divides : Divides text first cuts) (divided : cuts ≠ []) :
    opening <:+: text := by
  cases divides with
  | whole => exact absurd rfl divided
  | @cut _ _ expr after _ _ isFirst _ =>
    exact ⟨first, expr ++ closing ++ after, by rw [isFirst.whole]; simp⟩

end Interpolation

/-! ## Filling in -/

/-- Fixed parts with something in the places of the expressions between them. -/
def refill (fill : Nat → Text → Text) (first : Text) (cuts : List (Text × Text)) : Text :=
  first ++ (cuts.mapIdx fun index cut => fill index cut.1 ++ cut.2).flatten

/-- The parts of a divided text make up the text. -/
theorem Interpolation.Divides.refill_eq {text : Text} (divides : Divides text first cuts) :
    refill (fun _ expr => opening ++ expr ++ closing) first cuts = text := by
  induction divides with
  | whole => simp [refill]
  | cut isFirst _ ih =>
    rw [isFirst.whole, ← ih]
    simp [refill, mapIdx_cons]

/-- Weaving marks in is refilling with marks. -/
theorem weave_eq_refill (mark : Nat → Text) (first : Text) (cuts : List (Text × Text)) :
    Call.weave mark 0 (first :: cuts.map Prod.snd) =
      refill (fun index _ => mark index) first cuts := by
  have woven (index : Nat) : Call.weave mark index (first :: cuts.map Prod.snd) =
      first ++ (cuts.mapIdx fun number cut => mark (index + number) ++ cut.2).flatten := by
    induction cuts generalizing first index with
    | nil => simp [Call.weave]
    | cons cut cuts ih =>
      rw [map_cons, Call.weave, ih]
      · simp [mapIdx_cons, Nat.add_assoc, Nat.add_comm 1]
      · simp
  simpa [refill] using woven 0

/-- Where the ends of a divided text are no blanks, they are none after filling in something
without blanks at its ends. -/
theorem trimmed_refill {fill other : Nat → Text → Text}
    (nonempty : ∀ index expr, fill index expr ≠ [])
    (solid : ∀ index expr, Text.Trimmed (fill index expr)) (divided : cuts ≠ [])
    (trimmed : Text.Trimmed (refill other first cuts)) : Text.Trimmed (refill fill first cuts) := by
  obtain ⟨starts, ends⟩ := trimmed
  constructor
  · intro char isFirst
    cases first with
    | cons head tail => exact starts char (by simpa [refill] using isFirst)
    | nil =>
      obtain ⟨cut, later, rfl⟩ := exists_cons_of_ne_nil divided
      rw [refill, nil_append, mapIdx_cons, flatten_cons, append_assoc,
        head?_append_of_ne_nil _ (nonempty 0 cut.1)] at isFirst
      exact (solid 0 cut.1).1 char isFirst
  · intro char isLast
    obtain ⟨earlier, cut, rfl⟩ := (eq_nil_or_concat cuts).resolve_left divided
    have split (fill : Nat → Text → Text) : ∃ front, refill fill first (earlier.concat cut) =
        front ++ fill earlier.length cut.1 ++ cut.2 :=
      ⟨first ++ (earlier.mapIdx fun index cut => fill index cut.1 ++ cut.2).flatten,
        by simp [refill, mapIdx_append]⟩
    obtain ⟨front, filled⟩ := split fill
    obtain ⟨otherFront, otherFilled⟩ := split other
    rw [filled] at isLast
    rw [otherFilled] at ends
    by_cases empty : cut.2 = []
    · rw [empty, append_nil, getLast?_append_of_ne_nil _ (nonempty _ _)] at isLast
      exact (solid _ _).2 char isLast
    · rw [getLast?_append_of_ne_nil _ empty] at isLast ends
      exact ends char isLast

/-! ## Runs with interpolations -/

/-- A run taken apart at its blanks and at the interpolations between them. -/
@[ext] structure Mixture extends Padded where
  first : Text
  cuts : List (Text × Text)
  divided : Interpolation.Divides core first cuts

namespace Mixture

variable {mixture : Mixture}

/-- What stands before, between and after the interpolations. -/
def parts (mixture : Mixture) : List Text :=
  mixture.first :: mixture.cuts.map Prod.snd

/-- Whether a run becomes a call: it has interpolations, there are ideographs in a part between
them, and no braces in pairs are left when they are taken out. -/
def IsEligible (mixture : Mixture) : Prop :=
  mixture.cuts ≠ [] ∧ (∃ part ∈ mixture.parts, hasIdeograph part = true) ∧
    ¬ Interpolation.opening <:+: mixture.parts.flatten ∧
    ¬ Interpolation.closing <:+: mixture.parts.flatten

instance (mixture : Mixture) : Decidable mixture.IsEligible :=
  inferInstanceAs (Decidable (_ ∧ _ ∧ _ ∧ _))

/-- The text that is stored, with a numbered placeholder for every interpolation. -/
def stored (mixture : Mixture) : Text :=
  refill (fun index _ => ['{', 'a', 'r', 'g'] ++ ofNat index ++ ['}'])
    mixture.first mixture.cuts

/-- An interpolation with a call whose arguments are a key and the numbered expressions. -/
def call (mixture : Mixture) (function key : Text) : Text :=
  ['{', '{', ' '] ++ function ++ ['(', '"'] ++ key ++ ['"', ',', ' ', '{', ' '] ++
    [',', ' '].intercalate (mixture.cuts.mapIdx fun index cut =>
      ['a', 'r', 'g'] ++ ofNat index ++ [':', ' '] ++ trim cut.1) ++
    [' ', '}', ')', ' ', '}', '}']

/-- A run taken apart. -/
def ofRun (run : Text) : Mixture where
  toPadded := .ofRun run
  first := (cutAll Interpolation.recognise (trim run)).1
  cuts := (cutAll Interpolation.recognise (trim run)).2
  divided := Interpolation.divides_cutAll (trim run)

/-- A run is taken apart in one way, unless it has nothing but blanks. -/
theorem ofRun_whole (nonempty : mixture.core ≠ []) : ofRun mixture.whole = mixture := by
  have padded : (ofRun mixture.whole).toPadded = mixture.toPadded := Padded.ofRun_whole nonempty
  have core := congrArg Padded.core padded
  obtain ⟨first, cuts⟩ := (core ▸ (ofRun mixture.whole).divided).unique mixture.divided
  exact Mixture.ext (congrArg Padded.lead padded) core (congrArg Padded.trail padded) first cuts

/-- Only runs in which braces are opened become calls. -/
theorem IsEligible.occursIn_opening (isEligible : mixture.IsEligible) :
    occursIn Interpolation.opening mixture.whole = true := by
  have inside := mixture.divided.opening_infix isEligible.1
  exact occursIn_iff.2 (inside.trans ⟨mixture.lead, mixture.trail, rfl⟩)

private theorem IsEligible.core_ne_nil (isEligible : mixture.IsEligible) : mixture.core ≠ [] := by
  intro empty
  have inside := mixture.divided.opening_infix isEligible.1
  rw [empty] at inside
  cases infix_nil.1 inside

private theorem isEligible_ofRun_iff {run : Text} : (ofRun run).IsEligible ↔ IsMixed run := by
  have fixed : fixedText Interpolation.recognise (cutBlanks run).2.1 =
      (ofRun run).parts.flatten := rfl
  have holds : hasIdeograph (ofRun run).parts.flatten = true ↔
      ∃ part ∈ (ofRun run).parts, hasIdeograph part = true := by
    rw [hasIdeograph, any_flatten, any_eq_true]
    rfl
  rw [IsMixed, IsEligible, fixed, holds, and_comm (a := ¬ Interpolation.closing <:+: _)]
  rfl

/-- The stored text has no blanks at its ends. -/
theorem trim_weave (divided : mixture.cuts ≠ []) :
    trim (Call.weave Call.placeholder 0 mixture.parts) = mixture.stored := by
  have woven : Call.weave Call.placeholder 0 mixture.parts = mixture.stored :=
    weave_eq_refill Call.placeholder mixture.first mixture.cuts
  rw [woven]
  refine Text.Trimmed.trim_eq (trimmed_refill (by simp) (fun index _ => ?_) divided
    (mixture.divided.refill_eq ▸ mixture.trimmed))
  constructor
  · simp [show isBlank '{' = false by decide]
  · intro char isLast
    rw [getLast?_concat] at isLast
    cases isLast
    decide

private theorem properties_eq_mapIdx (cuts : List (Text × Text)) :
    Call.properties 0 (cuts.map fun cut => trim cut.1) = cuts.mapIdx fun index cut =>
      ['a', 'r', 'g'] ++ ofNat index ++ [':', ' '] ++ trim cut.1 := by
  rw [Call.properties_eq_mapIdx, mapIdx_eq_iff]
  intro index
  simp [Call.argument, Function.comp_def]

private theorem interpolated_call (divided : mixture.cuts ≠ []) (scope : Scope) (text : Text) :
    interpolated (scope.call text '"' (mixture.cuts.map fun cut => trim cut.1)) =
      mixture.call scope.functions.markup (Key.ofText text scope.path scope.keyLength) := by
  simp [interpolated, Scope.call, Call.render, call, properties_eq_mapIdx, divided, join]

end Mixture

/-! ## The stage for mixed content -/

namespace Stage

/-- What the stage for mixed content makes of a run. -/
def mixedTurn (mixture : Mixture) : Turn :=
  ⟨mixture.lead, mixture.stored, mixture.cuts.map fun cut => trim cut.1, mixture.trail⟩

/-- An eligible run with interpolations taken apart. -/
def mixedReading (run : Text) : Option Mixture :=
  if (Mixture.ofRun run).IsEligible then some (.ofRun run) else none

/-- A run reads as the mixture that it is. -/
theorem mixedReading_eq_some_iff {run : Text} {mixture : Mixture} :
    mixedReading run = some mixture ↔ mixture.whole = run ∧ mixture.IsEligible := by
  rw [mixedReading, Option.ite_none_right_eq_some, Option.some.injEq]
  constructor
  · rintro ⟨isEligible, rfl⟩
    exact ⟨Padded.whole_ofRun run, isEligible⟩
  · rintro ⟨rfl, isEligible⟩
    have same := Mixture.ofRun_whole isEligible.core_ne_nil
    exact ⟨same.symm ▸ isEligible, same⟩

/-- The stage for mixed content reads mixtures. -/
theorem findMixedContent_eq (found : Found Text) :
    findMixedContent found = (mixedReading found.value).map fun mixture =>
      (mixedTurn mixture).pieces found.start found.stop := by
  rw [mixedReading]
  split
  · rename_i isEligible
    have present : findMixedContent found ≠ none := fun absent =>
      findMixedContent_eq_none_iff.1 absent (Mixture.isEligible_ofRun_iff.1 isEligible)
    obtain ⟨pieces, finds⟩ := Option.ne_none_iff_exists'.1 present
    have shape := finds
    simp only [findMixedContent, Option.ite_none_left_eq_some, Option.some.injEq] at shape
    rw [finds, ← shape.2, Option.map_some, mixedTurn, ← Mixture.trim_weave isEligible.1]
    rfl
  · rename_i other
    rw [Option.map_none, findMixedContent_eq_none_iff]
    exact fun mixed => other (Mixture.isEligible_ofRun_iff.2 mixed)

private theorem text_mixedTurn {mixture : Mixture} (divided : mixture.cuts ≠ []) (scope : Scope) :
    (mixedTurn mixture).text scope = mixture.lead ++ mixture.call scope.functions.markup
      (Key.ofText mixture.stored scope.path scope.keyLength) ++ mixture.trail := by
  rw [Turn.text, mixedTurn, Mixture.interpolated_call divided]

end Stage

/-- What the stage for mixed content does to a buffer. The runs that become calls are those that
interpolations divide into parts of which one holds ideographs, and which put together hold no
braces in pairs. The parts are registered with placeholders between them, and the expressions
become the arguments of the call, both in their order. Everything else stays. -/
theorem mixedContent_turns_divided_runs (scope : Scope) (buffer : Text) :
    ∃ places : List (Found Mixture), Found.Ordered 0 buffer.length places ∧
      (∀ place : Found Mixture, place ∈ places ↔
        Run.StandsAt buffer ⟨place.start, place.stop, place.value.whole⟩ ∧ place.value.IsEligible) ∧
      Emits (Stage.apply scope .mixedContent buffer)
        (.ok (Edit.copy 0 buffer (places.map fun place =>
          ⟨place.start, place.stop, place.value.lead ++ place.value.call scope.functions.markup
            (Key.ofText place.value.stored scope.path scope.keyLength) ++ place.value.trail⟩)))
        (places.map fun place =>
          ⟨Key.ofText place.value.stored scope.path scope.keyLength,
            ⟨⟨place.start, place.stop⟩, place.value.stored, .markupBody⟩⟩) := by
  obtain ⟨places, ordered, stands, emits⟩ := Stage.exists_readings scope .mixedContent buffer
    rfl rfl (fun found _ => Stage.findMixedContent_eq found)
    (fun _ _ => Stage.mixedReading_eq_some_iff) (fun _ isEligible => isEligible.occursIn_opening)
  have texts : ∀ place ∈ places,
      (⟨place.start, place.stop, (Stage.mixedTurn place.value).text scope⟩ : Found Text) =
        ⟨place.start, place.stop, place.value.lead ++ place.value.call scope.functions.markup
          (Key.ofText place.value.stored scope.path scope.keyLength) ++ place.value.trail⟩ :=
    fun place member => by rw [Stage.text_mixedTurn ((stands place).1 member).2.1]
  rw [map_congr_left texts] at emits
  exact ⟨places, ordered, stands, emits⟩

end Phrasebook.Markup
