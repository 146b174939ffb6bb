import Phrasebook.Proofs.Markup.MixedRuns
import Phrasebook.Proofs.Markup.Stages

/-!
# Where phrases stand

A stage registers phrases from left to right, up to the first one that cannot be read. Their
spans stand in the buffer one behind the other, and the text of a phrase is read from what stands
at its span. How it is read depends on the stage, and is said here without the recognisers.
-/

namespace Phrasebook.Markup

open List Pass Text

/-! ## Texts and what they are read from -/

/-- The value of a plain attribute: the source is its name, an equals sign and the value in
quotes, and the text is the value without the blanks at its ends. -/
def Attribute.Spells (source text : Text) : Prop :=
  ∃ name gap secondGap quote value,
    source = name ++ gap ++ '=' :: (secondGap ++ quote :: (value ++ [quote])) ∧
      IsNameOf plainName name ∧ Text.AllBlank gap ∧ Text.AllBlank secondGap ∧
      (quote = '"' ∨ quote = '\'') ∧ quote ∉ value ∧ text = trim value

/-- The value of a literal: the source is its body between two equal quotes. -/
def Quotation.Spells (quotes : List Char) (source text : Text) : Prop :=
  ∃ quote body, quote ∈ quotes ∧ source = quote :: (body ++ [quote]) ∧
    Literal.cook body = .ok (CodePoint.ofText text)

/-- The value of a template literal: the source is its body, and every substitution makes way
for a numbered placeholder before the escapes are read. -/
def Substitution.Spells (source text : Text) : Prop :=
  ∃ first cuts whole, cutAll Interpolation.recogniseSubstitution source = (first, cuts) ∧
    source = refill (fun _ expr => ['$', '{'] ++ expr ++ ['}']) first cuts ∧
    Literal.cook (refill (fun index _ => Call.placeholder index) first cuts) =
      .ok (CodePoint.ofText whole) ∧ text = trim whole

/-- Whether a text is what a stage reads at a place of a buffer. -/
def Stage.ReadAt (buffer : Text) (place : Found Text) : Stage → Prop
  | plainAttribute => Attribute.Spells (buffer.slice place.start place.stop) place.value
  | templateAttribute =>
    (∃ before behind, buffer = before ++ Char.ofNat 0x60 ::
        (buffer.slice place.start place.stop ++ Char.ofNat 0x60 :: behind) ∧
      place.start = before.length + 1) ∧
      Char.ofNat 0x60 ∉ buffer.slice place.start place.stop ∧
      Substitution.Spells (buffer.slice place.start place.stop) place.value
  | directiveLiteral =>
    Quotation.Spells ['\'', '"', Char.ofNat 0x60] (buffer.slice place.start place.stop) place.value
  | interpolationLiteral =>
    Quotation.Spells ['\'', '"'] (buffer.slice place.start place.stop) place.value
  | mixedContent =>
    Run.StandsAt buffer ⟨place.start, place.stop, buffer.slice place.start place.stop⟩ ∧
      ∃ mixture : Mixture, mixture.whole = buffer.slice place.start place.stop ∧
        mixture.IsEligible ∧ place.value = mixture.stored
  | plainText =>
    Run.StandsAt buffer ⟨place.start, place.stop, buffer.slice place.start place.stop⟩ ∧
      place.value = trim (buffer.slice place.start place.stop)

/-! ## One place -/

private theorem readable_literally {text stored : Text}
    (readable : Pass.readable (literally text) = .ok stored) : stored = text :=
  Except.ok.inj (readable.symm.trans (Stage.readable_literal text))

/-- The text of a trimmed literal. -/
theorem exists_of_readable_trim {value : Except Literal.EscapeFault CodePoints} {text : Text}
    (readable : Pass.readable (value.map CodePoint.trim) = .ok text) :
    ∃ whole, value = .ok (CodePoint.ofText whole) ∧ text = trim whole := by
  obtain ⟨points, mapped, written⟩ := exists_of_readable readable
  cases value with
  | error fault => cases mapped
  | ok untrimmed =>
    cases mapped
    obtain ⟨whole, rfl, rfl⟩ := CodePoint.written_trim_eq_ok_iff.1 written
    exact ⟨whole, rfl, rfl⟩

private theorem slice_between (before inner after : Text) :
    (before ++ inner ++ after).slice before.length (before.length + inner.length) = inner := by
  rw [append_assoc, slice_append, take_left]

/-- Where the phrase of a candidate stands. -/
def Candidate.place (candidate : Candidate) : Found Candidate :=
  ⟨candidate.start, candidate.stop, candidate⟩

namespace Stage

variable {buffer : Text} {stage : Stage}

/-- What holds of the phrases at a place that a stage finds: they stand in order within the
place, and their texts are read from where they stand. -/
structure Locates (buffer : Text) (stage : Stage) (place : Found (List Piece)) : Prop where
  ordered : Found.Ordered place.start place.stop ((Piece.candidates place.value).map Candidate.place)
  reads : ∀ candidate ∈ Piece.candidates place.value, ∀ text,
    Pass.readable candidate.value = .ok text →
      stage.ReadAt buffer ⟨candidate.start, candidate.stop, text⟩

/-- What holds of all pieces holds of all places. -/
theorem forall_mem_placed {α : Type} {pieces : Found α → Option (List Piece)}
    {places : List (Found α)} {holds : Found (List Piece) → Prop}
    (each : ∀ found ∈ places, ∀ value, pieces found = some value →
      holds ⟨found.start, found.stop, value⟩) : ∀ place ∈ placed pieces places, holds place := by
  intro place member
  obtain ⟨found, there, kept⟩ := mem_filterMap.1 member
  obtain ⟨value, value_eq, rfl⟩ := Option.map_eq_some_iff.1 kept
  exact each found there value value_eq

/-- A place with one phrase. -/
theorem Locates.single {place : Found (List Piece)} {candidate : Candidate}
    (only : Piece.candidates place.value = [candidate])
    (inside : place.start ≤ candidate.start ∧ candidate.start < candidate.stop ∧
      candidate.stop ≤ place.stop) (reads : ∀ text, Pass.readable candidate.value = .ok text →
      stage.ReadAt buffer ⟨candidate.start, candidate.stop, text⟩) :
    Locates buffer stage place := by
  refine ⟨?_, ?_⟩
  · rw [only]
    exact ⟨inside.1, inside.2.1, inside.2.2⟩
  · rw [only]
    simpa using reads

private theorem locates_plainAttribute (functions : Functions) (buffer : Text) :
    ∀ place ∈ find functions buffer .plainAttribute, Locates buffer .plainAttribute place := by
  refine forall_mem_placed fun found member value pieces => ?_
  simp only [findPlainAttribute, Option.ite_none_right_eq_some, Option.some.injEq] at pieces
  obtain ⟨-, rfl⟩ := pieces
  obtain ⟨before, rest, _, length, rfl, recognised, start, stop⟩ :=
    exists_of_mem_scan (mem_filter.1 member).1
  have unquoted := Attribute.quote_not_mem_value recognised
  obtain ⟨gap, secondGap, behind, rfl, rfl, -, gapBlank, isQuote, isName, secondBlank, -⟩ :=
    Attribute.recognise_spelled recognised
  have between := slice_between (before ++ [found.value.lead]) (found.value.name ++ gap ++ '=' ::
    (secondGap ++ found.value.quote :: (found.value.value ++ [found.value.quote]))) behind
  refine .single rfl ⟨Nat.le_succ _, ?_, Nat.le_refl _⟩ fun text readable => ?_
  · rw [stop]
    simp only [Attribute.Opening.spelled, length_append, length_cons]
    omega
  · obtain rfl := readable_literally readable
    refine ⟨found.value.name, gap, secondGap, found.value.quote, found.value.value, ?_, isName,
      gapBlank, secondBlank, isQuote, unquoted, rfl⟩
    rw [stop, start]
    simpa [Attribute.Opening.spelled, Attribute.start, Nat.add_assoc, Nat.add_comm 1] using between

private theorem substituted_eq_refill (first : Text) (cuts : List (Text × Text)) :
    first ++ substituted cuts = refill (fun _ expr => ['$', '{'] ++ expr ++ ['}']) first cuts := by
  induction cuts generalizing first with
  | nil => simp [substituted, refill]
  | cons cut cuts ih =>
    have later := ih []
    simp only [refill, nil_append] at later
    simp [substituted, refill, mapIdx_cons, later]

private theorem locates_templateAttribute (functions : Functions) (buffer : Text) :
    ∀ place ∈ find functions buffer .templateAttribute, Locates buffer .templateAttribute place := by
  refine forall_mem_placed fun found member value pieces => ?_
  simp only [findTemplateAttribute, Option.ite_none_right_eq_some, Option.some.injEq] at pieces
  obtain ⟨holds, rfl⟩ := pieces
  obtain ⟨before, rest, _, length, rfl, recognised, start, stop⟩ :=
    exists_of_mem_scan (mem_filter.1 member).1
  have unquoted := Attribute.tick_not_mem_value recognised
  obtain ⟨gap, secondGap, lead, trail, behind, rfl, rfl, -, -, -, -, -, valueStart⟩ :=
    Attribute.recogniseTemplate_spelled recognised
  have nonempty : found.value.value ≠ [] := by
    intro empty
    rw [empty] at holds
    exact absurd holds (by decide)
  have positive := length_pos_iff.2 nonempty
  have between := slice_between (before ++ found.value.start.spelled gap secondGap ++ lead ++
    [Char.ofNat 0x60]) found.value.value (Char.ofNat 0x60 :: (trail ++ found.value.quote :: behind))
  refine .single rfl ⟨Nat.le_add_right _ _, by dsimp only; omega, ?_⟩ fun text readable => ?_
  · dsimp only
    rw [stop, valueStart]
    simp only [length_append, length_cons]
    omega
  · obtain ⟨whole, cooked, rfl⟩ := exists_of_readable_trim readable
    have source : (before ++ (found.value.start.spelled gap secondGap ++ (lead ++ Char.ofNat 0x60 ::
        (found.value.value ++ Char.ofNat 0x60 :: (trail ++ [found.value.quote]))) ++ behind)).slice
        (found.start + found.value.valueStart)
        (found.start + found.value.valueStart + found.value.value.length) = found.value.value := by
      rw [start, valueStart]
      simpa [Nat.add_assoc] using between
    simp only [ReadAt, source]
    refine ⟨⟨before ++ found.value.start.spelled gap secondGap ++ lead,
      trail ++ found.value.quote :: behind, by simp, ?_⟩, unquoted, _, _, whole, rfl, ?_, ?_, rfl⟩
    · rw [start, valueStart]
      simp [Nat.add_assoc]
    · rw [← substituted_eq_refill]
      exact eq_append_substituted found.value.value
    · rw [← weave_eq_refill]
      exact cooked

section Literals

variable {functions : Functions} {quotes : List Char} {keyQuote : Char → Char}
  {eligible : Text → Bool} {before expr after : Text}

/-- The literals of an expression stand in order within it. -/
theorem ordered_literals : Found.Ordered before.length (before.length + expr.length)
    ((Quotation.candidates functions quotes keyQuote eligible before.length expr).map
      fun range => range.2.2.place) := by
  have shifted := (@Quotation.ordered_candidates functions quotes keyQuote eligible before.length
    expr _ id).shift before.length
  rw [Nat.zero_add, Nat.add_comm expr.length, map_map] at shifted
  refine Eq.mp (congrArg _ (map_congr_left fun range member => ?_)) shifted
  obtain ⟨_, _, _, _, -, -, -, -, candidate⟩ := Quotation.exists_of_mem_candidates member
  rw [Candidate.place, candidate]
  simp [candidate, Nat.add_comm]

/-- A literal of an expression is spelled where it stands. -/
theorem spells_literal {range : Nat × Nat × Candidate} {text : Text}
    (member : range ∈ Quotation.candidates functions quotes keyQuote eligible before.length expr)
    (readable : Pass.readable range.2.2.value = .ok text) :
    Quotation.Spells quotes
      ((before ++ expr ++ after).slice range.2.2.start range.2.2.stop) text := by
  obtain ⟨front, quote, body, back, rfl, isQuote, start, stop, candidate⟩ :=
    Quotation.exists_of_mem_candidates member
  rw [candidate] at readable ⊢
  obtain ⟨points, cooked, written⟩ := exists_of_readable readable
  obtain rfl := CodePoint.eq_ofText_of_written written
  have source := slice_between (before ++ front) (quote :: (body ++ [quote])) (back ++ after)
  refine ⟨quote, body, isQuote, ?_, cooked⟩
  rw [start, stop]
  simpa [Nat.add_assoc] using source

/-- A place whose phrases are the literals of an expression. -/
theorem Locates.literals {stage : Stage} {start stop offset : Nat} {front back : Text}
    (isOffset : offset = before.length)
    (inside : start ≤ before.length ∧ before.length + expr.length ≤ stop)
    (reads : ∀ place, Quotation.Spells quotes
      ((before ++ expr ++ after).slice place.start place.stop) place.value →
        stage.ReadAt (before ++ expr ++ after) place) :
    Locates (before ++ expr ++ after) stage ⟨start, stop, .fixed front ::
      Piece.interleave 0 expr (Quotation.candidates functions quotes keyQuote eligible offset
        expr) ++ [.fixed back]⟩ := by
  subst isOffset
  have only (ranges : List (Nat × Nat × Candidate)) : Piece.candidates (.fixed front ::
      Piece.interleave 0 expr ranges ++ [.fixed back]) = ranges.map fun range => range.2.2 := by
    simp [Piece.candidates]
  constructor
  · rw [only, map_map]
    exact (ordered_literals.mono inside.1).widen inside.2
  · rw [only]
    refine forall_mem_map.2 fun range member text readable => ?_
    exact reads ⟨_, _, text⟩ (spells_literal member readable)

end Literals

/-- The quotes of the literals in an attribute are quotes, whichever the value stands in. -/
theorem mem_quotes_of_other {outer quote : Char}
    (member : quote ∈ [otherQuote outer, Char.ofNat 0x60]) :
    quote ∈ ['\'', '"', Char.ofNat 0x60] := by
  rw [otherQuote] at member
  split at member <;> simp only [mem_cons, not_mem_nil, or_false] at member ⊢ <;>
    rcases member with rfl | rfl <;> simp

private theorem locates_directiveLiteral (functions : Functions) (buffer : Text) :
    ∀ place ∈ find functions buffer .directiveLiteral, Locates buffer .directiveLiteral place := by
  refine forall_mem_placed fun found member value pieces => ?_
  simp only [findDirectiveLiteral, Option.ite_none_right_eq_some, Option.ite_none_left_eq_some,
    Option.some.injEq] at pieces
  obtain ⟨-, -, rfl⟩ := pieces
  obtain ⟨before, rest, _, length, rfl, recognised, start, stop⟩ :=
    exists_of_mem_scan (mem_filter.1 member).1
  obtain ⟨gap, secondGap, behind, rfl, rfl, -, -, -, -, -, valueStart⟩ :=
    Attribute.recognise_spelled recognised
  have buffer : before ++ (found.value.start.spelled gap secondGap ++
      (found.value.value ++ [found.value.quote]) ++ behind) =
      before ++ found.value.start.spelled gap secondGap ++ found.value.value ++
        found.value.quote :: behind := by simp
  rw [buffer]
  refine .literals ?_ ⟨?_, ?_⟩ ?_
  · rw [start, valueStart, ← length_append]
  · simp [start]
  · simp only [stop, start, length_append, length_singleton]
    omega
  · rintro place ⟨quote, body, isOne, spelled⟩
    exact ⟨quote, body, mem_quotes_of_other isOne, spelled⟩

private theorem locates_interpolationLiteral (functions : Functions) (buffer : Text) :
    ∀ place ∈ find functions buffer .interpolationLiteral,
      Locates buffer .interpolationLiteral place := by
  refine forall_mem_placed fun found member value pieces => ?_
  simp only [findInterpolationLiteral, Option.ite_none_right_eq_some, Option.ite_none_left_eq_some,
    Option.some.injEq] at pieces
  obtain ⟨-, -, rfl⟩ := pieces
  obtain ⟨before, rest, _, length, rfl, recognised, start, stop⟩ := exists_of_mem_scan member
  obtain ⟨rfl, -, behind, rfl⟩ := Interpolation.recognise_eq_some_iff.1 recognised
  have buffer : before ++ (Interpolation.opening ++ found.value ++ Interpolation.closing ++ behind) =
      before ++ Interpolation.opening ++ found.value ++ (Interpolation.closing ++ behind) := by simp
  rw [buffer]
  refine .literals ?_ ⟨?_, ?_⟩ fun _ spelled => spelled
  · rw [start, ← length_append]
  · simp [start]
  · simp only [stop, start, length_append]
    omega

/-- The phrase of a run. -/
theorem Locates.run {found : Found Text} {turn : Turn} (stands : Run.StandsAt buffer found)
    (reads : stage.ReadAt buffer ⟨found.start, found.stop, turn.stored⟩) :
    Locates buffer stage ⟨found.start, found.stop, turn.pieces found.start found.stop⟩ := by
  refine .single rfl ⟨Nat.le_refl _, stands.start_lt, Nat.le_refl _⟩ fun text readable => ?_
  obtain rfl := readable_literally readable
  exact reads

private theorem locates_mixedContent (functions : Functions) (buffer : Text) :
    ∀ place ∈ find functions buffer .mixedContent, Locates buffer .mixedContent place := by
  refine forall_mem_placed fun found member value pieces => ?_
  obtain ⟨stands, -⟩ := Run.mem_all_iff.1 member
  rw [findMixedContent_eq] at pieces
  obtain ⟨mixture, reading, rfl⟩ := Option.map_eq_some_iff.1 pieces
  obtain ⟨whole, isEligible⟩ := mixedReading_eq_some_iff.1 reading
  refine .run stands ?_
  simp only [ReadAt, stands.slice_eq]
  exact ⟨stands, mixture, whole, isEligible, rfl⟩

private theorem locates_plainText (functions : Functions) (buffer : Text) :
    ∀ place ∈ find functions buffer .plainText, Locates buffer .plainText place := by
  refine forall_mem_placed fun found member value pieces => ?_
  obtain ⟨stands, holds⟩ := Run.mem_all_iff.1 member
  rw [findText_eq holds, plainReading] at pieces
  obtain ⟨padded, reading, rfl⟩ := Option.map_eq_some_iff.1 pieces
  rw [Option.ite_none_right_eq_some, Option.some.injEq] at reading
  obtain ⟨-, rfl⟩ := reading
  refine .run stands ?_
  simp only [ReadAt, stands.slice_eq]
  exact ⟨stands, rfl⟩

/-- The phrases of a stage stand in order within the places that it finds, and are read from where
they stand. -/
theorem locates_find (functions : Functions) (buffer : Text) (stage : Stage) :
    ∀ place ∈ find functions buffer stage, Locates buffer stage place := by
  cases stage with
  | plainAttribute => exact locates_plainAttribute functions buffer
  | templateAttribute => exact locates_templateAttribute functions buffer
  | directiveLiteral => exact locates_directiveLiteral functions buffer
  | interpolationLiteral => exact locates_interpolationLiteral functions buffer
  | mixedContent => exact locates_mixedContent functions buffer
  | plainText => exact locates_plainText functions buffer

/-- The phrases that a stage finds stand in order. -/
theorem ordered_candidates (functions : Functions) (buffer : Text) (stage : Stage) :
    Found.Ordered 0 buffer.length (((find functions buffer stage).flatMap fun place =>
      Piece.candidates place.value).map Candidate.place) := by
  rw [map_flatMap]
  exact (ordered_find functions buffer stage).flatMap fun place member =>
    (locates_find functions buffer stage place member).ordered

end Stage

/-- Every phrase that a stage finds has a proper span. -/
theorem Stage.proper_of_mem_find {functions : Functions} {buffer : Text} {stage : Stage}
    {place : Found (List Piece)} (found : place ∈ find functions buffer stage) {candidate : Candidate}
    (member : candidate ∈ Piece.candidates place.value) :
    Span.proper ⟨candidate.start, candidate.stop⟩ = true := by
  have inOrder := (locates_find functions buffer stage place found).ordered
  have proper := inOrder.start_lt (mem_map_of_mem member)
  simp only [Candidate.place] at proper
  simpa [Span.proper] using proper

/-- No cascade fails for a span that is not proper. -/
theorem Stage.not_isEmptySpan_of_applyAll {scope : Scope} {stages : List Stage} {buffer : Text}
    {failure : Failure} (fails : (applyAll scope stages buffer).yield = .error failure) :
    ¬ IsEmptySpan failure := by
  obtain ⟨_, emits⟩ := (registers_applyAll scope stages buffer).emits
  refine ((confined_applyAll scope stages buffer fun stage buffer place found candidate member _ =>
    not_isEmptySpan_of_located ?_).of_emits emits).2 _ fails
  exact proper_of_mem_find found member

/-- What a stage registers. Every phrase that it finds has a proper span; those that it registers,
up to the first one that cannot be read, stand in the buffer one behind the other, and each of their
texts is read from what stands at its span. -/
theorem apply_registers_located_phrases (scope : Scope) (stage : Stage) (buffer : Text) :
    (∀ place ∈ Stage.find scope.functions buffer stage,
      ∀ candidate ∈ Piece.candidates place.value,
        Span.proper ⟨candidate.start, candidate.stop⟩ = true) ∧
    ∃ (result : Except Failure Text) (sources : List (Found Text)),
      Emits (Stage.apply scope stage buffer) result (sources.map fun source =>
        ⟨Key.ofText source.value scope.path scope.keyLength,
          ⟨⟨source.start, source.stop⟩, source.value, stage.setting⟩⟩) ∧
      Found.Ordered 0 buffer.length sources ∧
      ∀ source ∈ sources, stage.ReadAt buffer source := by
  have ordered := Stage.ordered_candidates scope.functions buffer stage
  constructor
  · exact fun _ found _ member => Stage.proper_of_mem_find found member
  · obtain ⟨result, taken, isPrefix, emits, readable, -⟩ := Stage.collects_apply scope stage buffer
    refine ⟨result, taken.map fun candidate =>
      ⟨candidate.start, candidate.stop, Piece.storedText candidate⟩, ?_, ?_, ?_⟩
    · rw [map_map]
      exact emits
    · have kept := ordered.of_prefix (isPrefix.map Candidate.place)
      have read := kept.map fun place => Piece.storedText place.value
      rw [map_map] at read
      exact read
    · refine forall_mem_map.2 fun candidate member => ?_
      obtain ⟨place, found, isCandidate⟩ := mem_flatMap.1 (isPrefix.subset member)
      exact (Stage.locates_find scope.functions buffer stage place found).reads candidate isCandidate
        _ (readable candidate member)

end Phrasebook.Markup
