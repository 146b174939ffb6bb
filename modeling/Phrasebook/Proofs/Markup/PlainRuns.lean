import Mathlib.Data.List.Basic
import Phrasebook.Proofs.Markup.Body
import Phrasebook.Proofs.Markup.Registered

/-!
# Runs of text

The stages for runs put a call in the place of what stands between the blanks of a run, and
leave the rest of the buffer alone. The last stage does so with the runs that hold ideographs
but neither interpolations nor calls. What it takes out can be put back.
-/

namespace Phrasebook.Markup

open List Pass Text

variable {padded : Padded} {buffer : Text} {functions : Functions}

/-! ## Runs between their blanks -/

/-- A run taken apart: the blanks at its ends, and what stands between them. -/
@[ext] structure Padded where
  lead : Text
  core : Text
  trail : Text
  leadBlank : Text.AllBlank lead
  trailBlank : Text.AllBlank trail
  trimmed : Text.Trimmed core

namespace Padded

/-- The run that was taken apart. -/
def whole (padded : Padded) : Text :=
  padded.lead ++ padded.core ++ padded.trail

/-- Ideographs stand between the blanks. -/
theorem core_ne_nil (holds : hasIdeograph padded.whole = true) : padded.core ≠ [] := by
  intro empty
  rw [hasIdeograph, any_eq_true] at holds
  obtain ⟨char, member, ideograph⟩ := holds
  rw [whole, empty, append_nil] at member
  have blank : isBlank char = true :=
    (mem_append.1 member).elim (padded.leadBlank char) (padded.trailBlank char)
  rw [isIdeograph_of_isBlank blank] at ideograph
  cases ideograph

/-- A run taken apart at its blanks. -/
def ofRun (run : Text) : Padded where
  lead := (cutBlanks run).1
  core := trim run
  trail := (cutBlanks run).2.2
  leadBlank := by
    obtain ⟨lead, trail, cut, -, leadBlank, -⟩ := exists_cutBlanks run
    rw [cut]
    exact leadBlank
  trailBlank := by
    obtain ⟨lead, trail, cut, -, -, trailBlank⟩ := exists_cutBlanks run
    rw [cut]
    exact trailBlank
  trimmed := trimmed_trim run

@[simp] theorem whole_ofRun (run : Text) : (ofRun run).whole = run := by
  obtain ⟨lead, trail, cut, whole, -⟩ := exists_cutBlanks run
  change (cutBlanks run).1 ++ trim run ++ (cutBlanks run).2.2 = run
  rw [cut]
  exact whole.symm

/-- A run is taken apart in one way, unless it has nothing but blanks. -/
theorem ofRun_whole (nonempty : padded.core ≠ []) : ofRun padded.whole = padded := by
  have cut := cutBlanks_append padded.leadBlank padded.trailBlank nonempty padded.trimmed
  exact Padded.ext (congrArg Prod.fst cut) (congrArg (fun parts => parts.2.1) cut)
    (congrArg (fun parts => parts.2.2) cut)

end Padded

/-! ## Stages for runs -/

/-- What a stage makes of a run: its blanks, the text that is stored and the expressions that
are passed on. -/
structure Turn where
  lead : Text
  stored : Text
  exprs : List Text
  trail : Text

namespace Turn

/-- The pieces in the place of a run. -/
def pieces (turn : Turn) (start stop : Nat) : List Piece :=
  Stage.runPieces ⟨start, stop, []⟩ turn.lead turn.trail turn.stored turn.exprs

/-- The text in the place of a run. -/
def text (scope : Scope) (turn : Turn) : Text :=
  turn.lead ++ interpolated (scope.call turn.stored '"' turn.exprs) ++ turn.trail

/-- The phrase that is registered for a run. -/
def phrase (scope : Scope) (turn : Turn) (start stop : Nat) : KeyedPhrase :=
  ⟨Key.ofText turn.stored scope.path scope.keyLength, ⟨⟨start, stop⟩, turn.stored, .markupBody⟩⟩

variable (turn : Turn) (start stop : Nat)

private theorem readable_pieces {start stop : Nat} (proper : start < stop) :
    Piece.Readable (turn.pieces start stop) := by
  intro candidate member
  obtain rfl : candidate = _ := by simpa [pieces, Stage.runPieces, Piece.candidates] using member
  exact ⟨turn.stored, Stage.located_literal proper turn.stored⟩

private theorem spell_pieces (scope : Scope) :
    Piece.spell scope (turn.pieces start stop) = turn.text scope :=
  Stage.spell_runPieces

private theorem phrases_pieces (scope : Scope) :
    Piece.phrases scope .markupBody (turn.pieces start stop) = [turn.phrase scope start stop] := by
  simp [pieces, Stage.runPieces, Piece.phrases, Piece.candidates, Candidate.phrase, phrase,
    Stage.storedText_literally]

end Turn

namespace Stage

section Readings

variable {β : Type} {eligible : Text → Bool} {pieces : Found Text → Option (List Piece)}
  {reading : Text → Option β} {turn : β → Turn} {whole : β → Text} {good : β → Prop}

/-- The runs that are read as something, with what they are read as. -/
def readings (reading : Text → Option β) (runs : List (Found Text)) : List (Found β) :=
  runs.filterMap fun found =>
    (reading found.value).map fun value => ⟨found.start, found.stop, value⟩

private theorem placed_eq_map_readings {runs : List (Found Text)}
    (turns : ∀ found ∈ runs, pieces found =
      (reading found.value).map fun value => (turn value).pieces found.start found.stop) :
    placed pieces runs = (readings reading runs).map fun place =>
      ⟨place.start, place.stop, (turn place.value).pieces place.start place.stop⟩ := by
  rw [placed, readings, map_filterMap]
  refine filterMap_congr fun found member => ?_
  rw [turns found member, Option.map_map, Option.map_map]
  rfl

/-- What is read stands where runs stand. -/
theorem mem_readings_iff
    (reads : ∀ run value, reading run = some value ↔ whole value = run ∧ good value)
    (admits : ∀ value, good value → eligible (whole value) = true) {place : Found β} :
    place ∈ readings reading (Run.all eligible buffer) ↔
      Run.StandsAt buffer ⟨place.start, place.stop, whole place.value⟩ ∧ good place.value := by
  simp only [readings, mem_filterMap, Option.map_eq_some_iff, reads]
  constructor
  · rintro ⟨found, member, value, ⟨same, isGood⟩, rfl⟩
    rw [same]
    exact ⟨(Run.mem_all_iff.1 member).1, isGood⟩
  · rintro ⟨stands, isGood⟩
    exact ⟨_, Run.mem_all_iff.2 ⟨stands, admits _ isGood⟩, _, ⟨rfl, isGood⟩, rfl⟩

/-- A stage that turns the runs it can read into calls succeeds, registers one phrase for each
of them in order, and changes nothing else. -/
theorem exists_readings (scope : Scope) (stage : Stage) (buffer : Text)
    (finds : find scope.functions buffer stage = placed pieces (Run.all eligible buffer))
    (isBody : stage.setting = .markupBody)
    (turns : ∀ found ∈ Run.all eligible buffer, pieces found =
      (reading found.value).map fun value => (turn value).pieces found.start found.stop)
    (reads : ∀ run value, reading run = some value ↔ whole value = run ∧ good value)
    (admits : ∀ value, good value → eligible (whole value) = true) :
    ∃ places : List (Found β), Found.Ordered 0 buffer.length places ∧
      (∀ place : Found β, place ∈ places ↔
        Run.StandsAt buffer ⟨place.start, place.stop, whole place.value⟩ ∧ good place.value) ∧
      Emits (apply scope stage buffer)
        (.ok (Edit.copy 0 buffer (places.map fun place =>
          ⟨place.start, place.stop, (turn place.value).text scope⟩)))
        (places.map fun place => (turn place.value).phrase scope place.start place.stop) := by
  have found := finds.trans (placed_eq_map_readings turns)
  have ordered : Found.Ordered 0 buffer.length (readings reading (Run.all eligible buffer)) := by
    refine (ordered_scan (bounded_run eligible) buffer).filterMap fun place kept kept_eq => ?_
    obtain ⟨value, -, rfl⟩ := Option.map_eq_some_iff.1 kept_eq
    exact ⟨rfl, rfl⟩
  refine ⟨_, ordered, fun place => mem_readings_iff reads admits, ?_⟩
  have readable : ∀ place ∈ find scope.functions buffer stage, Piece.Readable place.value := by
    rw [found]
    exact forall_mem_map.2 fun place member =>
      (turn place.value).readable_pieces (ordered.start_lt member)
  have emits := emits_apply readable
  rw [applied, found, isBody, contents, map_map, flatMap_map] at emits
  simpa only [Function.comp_def, Turn.spell_pieces, Turn.phrases_pieces, map_eq_flatMap]
    using emits

end Readings

/-! ## Runs without interpolations -/

/-- Whether a run becomes a call: it holds ideographs, and neither braces in pairs nor the
name of the function before a parenthesis. -/
def IsEligible (functions : Functions) (run : Text) : Prop :=
  hasIdeograph run = true ∧ IsPlain functions run

instance (functions : Functions) (run : Text) : Decidable (IsEligible functions run) :=
  inferInstanceAs (Decidable (_ ∧ _ ∧ _ ∧ _))

/-- What the last stage makes of a run. -/
def plainTurn (padded : Padded) : Turn :=
  ⟨padded.lead, padded.core, [], padded.trail⟩

/-- An eligible run taken apart. -/
def plainReading (functions : Functions) (run : Text) : Option Padded :=
  if IsEligible functions run then some (.ofRun run) else none

private theorem plainReading_eq_some_iff {run : Text} :
    plainReading functions run = some padded ↔
      padded.whole = run ∧ IsEligible functions padded.whole := by
  rw [plainReading, Option.ite_none_right_eq_some, Option.some.injEq]
  constructor
  · rintro ⟨isEligible, rfl⟩
    rw [Padded.whole_ofRun]
    exact ⟨rfl, isEligible⟩
  · rintro ⟨rfl, isEligible⟩
    exact ⟨isEligible, Padded.ofRun_whole (Padded.core_ne_nil isEligible.1)⟩

/-- The stage for plain text reads padded texts. -/
theorem findText_eq {found : Found Text} (holds : hasIdeograph found.value = true) :
    findText functions found = (plainReading functions found.value).map fun padded =>
      (plainTurn padded).pieces found.start found.stop := by
  rw [plainReading]
  split
  · rename_i isEligible
    obtain ⟨-, opened, closed, called⟩ := isEligible
    rw [← occursIn_iff, Bool.not_eq_true] at opened closed called
    simp only [findText, opened, closed, called]
    rfl
  · rename_i other
    rw [Option.map_none, findText_eq_none_iff]
    exact fun plain => other ⟨holds, plain⟩

end Stage

/-- An interpolation with a call whose only argument is a key. -/
def keyCall (function key : Text) : Text :=
  ['{', '{', ' '] ++ function ++ ['(', '"'] ++ key ++ ['"', ')', ' ', '}', '}']

private theorem interpolated_call (scope : Scope) (text : Text) :
    interpolated (scope.call text '"' []) =
      keyCall scope.functions.markup (Key.ofText text scope.path scope.keyLength) := by
  simp [interpolated, Scope.call, Call.render, keyCall]

/-! ## Putting texts back -/

/-- A buffer with padded runs in it and the buffer with other texts in their places differ in
these texts alone: between them stand the same gaps. -/
theorem exists_gaps {places : List (Found Padded)} {offset : Nat}
    (ordered : Found.Ordered offset buffer.length places)
    (spelled : ∀ place ∈ places, buffer.slice place.start place.stop = place.value.whole)
    (front : Text) (text : Padded → Text) :
    ∃ first gaps, gaps.length = places.length ∧
      front ++ buffer.drop offset =
        first ++ (zipWith (fun place gap => place.value.core ++ gap) places gaps).flatten ∧
      front ++ Edit.copy offset (buffer.drop offset) (places.map fun place =>
          ⟨place.start, place.stop, place.value.lead ++ text place.value ++ place.value.trail⟩) =
        first ++ (zipWith (fun place gap => text place.value ++ gap) places gaps).flatten := by
  induction places generalizing offset front with
  | nil => exact ⟨front ++ buffer.drop offset, [], rfl, by simp, by simp [Edit.copy]⟩
  | cons place later ih =>
    obtain ⟨above, positive, ordered⟩ := ordered
    obtain ⟨here, others⟩ := forall_mem_cons.1 spelled
    -- The blanks behind the run open the gap before the next one.
    obtain ⟨first, gaps, size, before, after⟩ :=
      ih ordered others place.value.trail
    refine ⟨front ++ (buffer.drop offset).take (place.start - offset) ++ place.value.lead,
      first :: gaps, by simp [size], ?_, ?_⟩
    · conv => lhs; rw [Edit.drop_eq_slice buffer above (Nat.le_of_lt positive), here, Padded.whole]
      rw [zipWith_cons_cons, flatten_cons, append_assoc place.value.core, ← before]
      simp only [append_assoc]
    · have below : offset ≤ place.stop := by omega
      rw [map_cons, Edit.copy, Edit.drop_drop_sub below, zipWith_cons_cons,
        flatten_cons, append_assoc (text place.value), ← after]
      simp only [append_assoc]

/-! ## The last stage -/

/-- What the last stage does to a buffer. The eligible runs are those that stand in the buffer,
from left to right. Each of them becomes a call between its blanks, and the text that stood
there is registered. Everything else stays, so that the texts put in the places of the calls
give the buffer back. -/
theorem plainText_turns_eligible_runs (scope : Scope) (buffer : Text) :
    ∃ places : List (Found Padded), Found.Ordered 0 buffer.length places ∧
      (∀ place : Found Padded, place ∈ places ↔
        Run.StandsAt buffer ⟨place.start, place.stop, place.value.whole⟩ ∧
          Stage.IsEligible scope.functions place.value.whole) ∧
      ∃ (after : Text) (added : List KeyedPhrase),
        Emits (Stage.apply scope .plainText buffer) (.ok after) added ∧
        added = places.map (fun place =>
          ⟨Key.ofText place.value.core scope.path scope.keyLength,
            ⟨⟨place.start, place.stop⟩, place.value.core, .markupBody⟩⟩) ∧
        after = Edit.copy 0 buffer (places.map fun place =>
          ⟨place.start, place.stop, place.value.lead ++ keyCall scope.functions.markup
            (Key.ofText place.value.core scope.path scope.keyLength) ++ place.value.trail⟩) ∧
        ∃ (first : Text) (gaps : List Text), gaps.length = added.length ∧
          after = first ++ (zipWith (fun phrase gap =>
            keyCall scope.functions.markup phrase.key ++ gap) added gaps).flatten ∧
          buffer = first ++ (zipWith (fun phrase gap =>
            phrase.phrase.text ++ gap) added gaps).flatten := by
  obtain ⟨places, ordered, stands, emits⟩ := Stage.exists_readings scope .plainText buffer rfl rfl
    (fun found member => Stage.findText_eq (Run.mem_all_iff.1 member).2)
    (fun _ _ => Stage.plainReading_eq_some_iff) (fun _ isEligible => isEligible.1)
  have spelled : ∀ place ∈ places, buffer.slice place.start place.stop = place.value.whole :=
    fun place member => ((stands place).1 member).1.slice_eq
  obtain ⟨first, gaps, size, before, after⟩ := exists_gaps ordered spelled [] fun padded =>
    keyCall scope.functions.markup (Key.ofText padded.core scope.path scope.keyLength)
  simp only [Turn.text, Turn.phrase, Stage.plainTurn, interpolated_call] at emits
  refine ⟨places, ordered, stands, _, _, emits, rfl, rfl, first, gaps, ?_, ?_, ?_⟩
  · rw [size, length_map]
  · rw [zipWith_map_left]
    exact after
  · rw [zipWith_map_left]
    exact before

end Phrasebook.Markup
