import Phrasebook.Proofs.Edit
import Phrasebook.Proofs.Markup.Places

/-!
# Runs by segments

A buffer is cut at its angle brackets into segments. A segment is a run when nothing or
a closing bracket stands before it and nothing or an opening one behind it. The scan for
runs finds exactly these, and putting texts without brackets in the place of runs
changes the segments that are runs and no other.
-/

namespace Phrasebook.Markup.Run

open List Text

variable {first buffer : Text} {bracket : Char} {later : List (Char × Text)}
  {eligible : Text → Bool} {prev : Option Char} {offset : Nat} {place : Found Text}

/-! ## Segments -/

/-- Whether a text holds no bracket. -/
def Unbracketed (text : Text) : Prop :=
  ∀ char ∈ text, isBracket char = false

instance (text : Text) : Decidable (Unbracketed text) :=
  decidableBAll (fun char => isBracket char = false) text

@[simp] theorem unbracketed_append {left right : Text} :
    Unbracketed (left ++ right) ↔ Unbracketed left ∧ Unbracketed right :=
  forall_mem_append

@[simp] theorem unbracketed_cons {head : Char} {tail : Text} :
    Unbracketed (head :: tail) ↔ isBracket head = false ∧ Unbracketed tail :=
  forall_mem_cons

/-- A kind of characters that holds neither bracket holds none of its members. -/
theorem isBracket_of_kind {kind : Char → Bool} (opens : kind '<' = false) (closes : kind '>' = false)
    {char : Char} (isKind : kind char = true) : isBracket char = false := by
  rw [isBracket, Bool.or_eq_false_iff, beq_eq_false_iff_ne, beq_eq_false_iff_ne]
  constructor <;> rintro rfl <;> simp_all

/-- The first segment of a buffer, and the later ones with the bracket before each. -/
def segments : Text → Text × List (Char × Text)
  | [] => ([], [])
  | head :: tail =>
    if isBracket head then ([], (head, (segments tail).1) :: (segments tail).2)
    else (head :: (segments tail).1, (segments tail).2)

/-- The buffer with the given segments. -/
def joined (first : Text) : List (Char × Text) → Text
  | [] => first
  | (bracket, segment) :: later => first ++ bracket :: joined segment later

/-- Whether segments are those of a buffer: brackets stand between them and not in
them. -/
def Segmented (first : Text) (later : List (Char × Text)) : Prop :=
  Unbracketed first ∧ ∀ part ∈ later, isBracket part.1 = true ∧ Unbracketed part.2

theorem segmented_nil : Segmented first [] ↔ Unbracketed first := by
  simp [Segmented]

theorem segmented_cons {segment : Text} :
    Segmented first ((bracket, segment) :: later) ↔
      Unbracketed first ∧ isBracket bracket = true ∧ Segmented segment later := by
  simp [Segmented, and_assoc]

/-- Every text has segments. -/
theorem segmented_segments (text : Text) : Segmented (segments text).1 (segments text).2 := by
  induction text with
  | nil => simp [segments, Segmented, Unbracketed]
  | cons head tail ih =>
    rw [segments]
    split
    · rename_i bracket
      exact segmented_cons.2 ⟨by simp [Unbracketed], bracket, ih⟩
    · rename_i plain
      exact ⟨forall_mem_cons.2 ⟨by simpa using plain, ih.1⟩,
        ih.2⟩

private theorem joined_cons (head : Char) (first : Text) (later : List (Char × Text)) :
    joined (head :: first) later = head :: joined first later := by
  cases later <;> rfl

theorem joined_segments (text : Text) : joined (segments text).1 (segments text).2 = text := by
  induction text with
  | nil => rfl
  | cons head tail ih =>
    rw [segments]
    split
    · rw [joined, ih]
      rfl
    · rw [joined_cons, ih]

theorem segments_append {front : Text} (plain : Unbracketed front) (text : Text) :
    segments (front ++ text) = (front ++ (segments text).1, (segments text).2) := by
  induction front with
  | nil => rfl
  | cons head front ih =>
    obtain ⟨here, plain⟩ := forall_mem_cons.1 plain
    rw [cons_append, segments, ih plain, here]
    rfl

theorem segments_bracket (isBracket : isBracket bracket = true) (text : Text) :
    segments (bracket :: text) = ([], (bracket, (segments text).1) :: (segments text).2) := by
  rw [segments, if_pos isBracket]

theorem segments_plain {head : Char} (plain : isBracket head = false) (text : Text) :
    segments (head :: text) = (head :: (segments text).1, (segments text).2) := by
  rw [segments, plain]
  rfl

/-- Joined segments are cut at the same brackets. -/
theorem segments_joined (segmented : Segmented first later) :
    segments (joined first later) = (first, later) := by
  induction later generalizing first with
  | nil =>
    have whole := segments_append (segmented_nil.1 segmented) []
    simpa [segments, joined] using whole
  | cons part later ih =>
    obtain ⟨bracket, segment⟩ := part
    obtain ⟨plain, isBracket, segmented⟩ := segmented_cons.1 segmented
    rw [joined, segments_append plain, segments_bracket isBracket, ih segmented, append_nil]

/-! ## Runs among segments -/

/-- Whether a segment is a run, given the brackets around it. -/
def isRun (prev next : Option Char) (segment : Text) : Bool :=
  prev.all (· == '>') && next.all (· == '<') && !segment.isEmpty

/-- A segment by itself if it is a run. -/
def ifRun (prev next : Option Char) (segment : Text) : List Text :=
  if isRun prev next segment then [segment] else []

/-- The runs among segments. -/
def texts (prev : Option Char) (first : Text) : List (Char × Text) → List Text
  | [] => ifRun prev none first
  | (bracket, segment) :: later =>
    ifRun prev (some bracket) first ++ texts (some bracket) segment later

/-- The runs of a buffer. -/
def textsOf (buffer : Text) : List Text :=
  texts none (segments buffer).1 (segments buffer).2

/-- Where the runs among segments stand. -/
def places (eligible : Text → Bool) (offset : Nat) (prev : Option Char) (first : Text) :
    List (Char × Text) → List (Found Text)
  | [] =>
    if isRun prev none first && eligible first then [⟨offset, offset + first.length, first⟩]
    else []
  | (bracket, segment) :: later =>
    (if isRun prev (some bracket) first && eligible first then
      [⟨offset, offset + first.length, first⟩] else []) ++
      places eligible (offset + first.length + 1) (some bracket) segment later

/-- No run starts at a bracket. -/
theorem recognise_bracket (isBracket : isBracket bracket = true) (rest : Text) :
    recognise eligible prev (bracket :: rest) = none := by
  simp [recognise, isBracket]

/-- No run starts inside a segment. -/
theorem recognise_inside {char : Char} (plain : isBracket char = false) (text : Text) :
    recognise eligible (some char) text = none := by
  have other : (char == '>') = false := by
    cases same : char == '>' with
    | false => rfl
    | true => simp [isBracket, same] at plain
  simp [recognise, other]

/-- Whether a text starts with a bracket, or not at all. -/
def AtBracket (text : Text) : Prop :=
  ∀ char ∈ text.head?, isBracket char = true

private theorem takeWhile_segment {rest : Text} (plain : Unbracketed first)
    (atBracket : AtBracket rest) :
    (first ++ rest).takeWhile (!isBracket ·) = first := by
  rw [takeWhile_append_of_pos (by simpa [Unbracketed] using plain)]
  cases rest with
  | nil => simp
  | cons head rest => simp [atBracket head (by simp)]

/-- At the start of a segment the segment is recognised when it is an eligible run. -/
theorem recognise_segment {eligible : Text → Bool} {prev : Option Char} {first rest : Text}
    (plain : Unbracketed first) (atBracket : AtBracket rest) :
    recognise eligible prev (first ++ rest) =
      if isRun prev rest.head? first && eligible first then some (first.length, first)
      else none := by
  rw [recognise, takeWhile_segment plain atBracket, isRun]
  dsimp only
  rw [drop_left]
  cases rest <;> cases prev.all (· == '>') <;> cases first.isEmpty <;> simp

/-- A scan for runs passes a segment, and finds it when it is an eligible run. -/
theorem scanFrom_segment {eligible : Text → Bool} {offset : Nat} {prev : Option Char}
    {first rest : Text} (plain : Unbracketed first) (atBracket : AtBracket rest) :
    scanFrom (recognise eligible) offset 0 prev (first ++ rest) =
      (if isRun prev rest.head? first && eligible first then
        [⟨offset, offset + first.length, first⟩] else []) ++
      scanFrom (recognise eligible) (offset + first.length) 0
        (first.getLast?.or prev) rest := by
  -- Behind its first character nothing starts in the segment.
  have inside : ∀ (segment : Text) (char : Char) (offset : Nat),
      isBracket char = false → Unbracketed segment →
      scanFrom (recognise eligible) offset 0 (some char) (segment ++ rest) =
        scanFrom (recognise eligible) (offset + segment.length) 0
          (segment.getLast?.or (some char)) rest := by
    intro segment
    induction segment with
    | nil => intros; rfl
    | cons head segment ih =>
      intro char offset before plain
      obtain ⟨here, plain⟩ := forall_mem_cons.1 plain
      rw [cons_append, scanFrom_of_none (recognise_inside before _),
        ih head _ here plain, getLast?_cons_or, length_cons,
        show offset + 1 + segment.length = offset + (segment.length + 1) by omega]
  cases first with
  | nil => simp [isRun]
  | cons head first =>
    have recognised := @recognise_segment eligible prev _ _ plain atBracket
    obtain ⟨here, plain⟩ := forall_mem_cons.1 plain
    split
    · rename_i run
      rw [if_pos run] at recognised
      rw [scanFrom_of_some (by simp) recognised, getLast?_cons_or, getLast?_cons]
      cases first.getLast? <;> rfl
    · rename_i other
      rw [if_neg other, cons_append] at recognised
      rw [cons_append, scanFrom_of_none recognised, inside first head _ here plain,
        getLast?_cons_or, length_cons,
        show offset + 1 + first.length = offset + (first.length + 1) by omega]
      rfl

/-- The scan for runs finds the eligible runs among the segments. -/
theorem scanFrom_joined (segmented : Segmented first later) :
    scanFrom (recognise eligible) offset 0 prev (joined first later) =
      places eligible offset prev first later := by
  induction later generalizing offset prev first with
  | nil =>
    have found := @scanFrom_segment eligible offset prev first [] (segmented_nil.1 segmented)
      (by simp [AtBracket])
    simpa [joined, places, scanFrom] using found
  | cons part later ih =>
    obtain ⟨bracket, segment⟩ := part
    obtain ⟨plain, isBracket, segmented⟩ := segmented_cons.1 segmented
    rw [joined, scanFrom_segment plain (by simpa [AtBracket] using isBracket),
      scanFrom_of_none (recognise_bracket isBracket _), ih segmented]
    rfl

/-- The scan for runs goes by segments. -/
theorem all_eq_places (eligible : Text → Bool) (buffer : Text) :
    all eligible buffer = places eligible 0 none (segments buffer).1 (segments buffer).2 := by
  conv => lhs; rw [← joined_segments buffer]
  exact scanFrom_joined (segmented_segments buffer)

/-- What the scan finds are the eligible runs of the buffer. -/
theorem map_value_all (eligible : Text → Bool) (buffer : Text) :
    (all eligible buffer).map Found.value = (textsOf buffer).filter eligible := by
  rw [all_eq_places, textsOf]
  generalize (none : Option Char) = prev
  generalize 0 = offset
  generalize (segments buffer).2 = later
  generalize (segments buffer).1 = first
  induction later generalizing offset prev first with
  | nil =>
    rw [places, texts, ifRun]
    cases isRun prev none first <;> cases holds : eligible first <;> simp [holds]
  | cons part later ih =>
    obtain ⟨bracket, segment⟩ := part
    rw [places, texts, ifRun, map_append, filter_append, ih]
    cases isRun prev (some bracket) first <;> cases holds : eligible first <;> simp [holds]

/-- A run that is found is one of the text. -/
theorem of_mem_all {found : Found Text} (member : found ∈ all eligible buffer) :
    found.value ∈ textsOf buffer ∧ eligible found.value = true := by
  have value : found.value ∈ (all eligible buffer).map Found.value := mem_map_of_mem member
  rw [map_value_all] at value
  exact mem_filter.1 value

/-! ## Where runs stand -/

/-- Whether a run of a buffer stands at a place: a stretch without brackets that starts the
buffer or follows a closing bracket, and that ends the buffer or precedes an opening one. -/
def StandsAt (buffer : Text) (place : Found Text) : Prop :=
  ∃ before behind, buffer = before ++ place.value ++ behind ∧ Unbracketed place.value ∧
    isRun before.getLast? behind.head? place.value = true ∧
    place.start = before.length ∧ place.stop = place.start + place.value.length

/-- A run holds no bracket. -/
theorem StandsAt.unbracketed (stands : StandsAt buffer place) : Unbracketed place.value := by
  obtain ⟨-, -, -, unbracketed, -⟩ := stands
  exact unbracketed

theorem StandsAt.start_lt (stands : StandsAt buffer place) : place.start < place.stop := by
  obtain ⟨_, _, -, -, run, -, stop⟩ := stands
  simp only [isRun, Bool.and_eq_true, Bool.not_eq_true', isEmpty_eq_false_iff] at run
  have positive := length_pos_iff.2 run.2
  omega

/-- The range of a run holds the run. -/
theorem StandsAt.slice_eq (stands : StandsAt buffer place) :
    buffer.slice place.start place.stop = place.value := by
  obtain ⟨before, behind, rfl, -, -, start, stop⟩ := stands
  rw [stop, start, slice, append_assoc, take_length_add_append, drop_left, take_left]

/-- What is found among segments is a run between them. -/
theorem exists_of_mem_places (segmented : Segmented first later)
    (member : place ∈ places eligible offset prev first later) :
    ∃ before behind, joined first later = before ++ place.value ++ behind ∧
      Unbracketed place.value ∧
      isRun (before.getLast?.or prev) behind.head? place.value = true ∧
      place.start = offset + before.length ∧ place.stop = place.start + place.value.length ∧
      eligible place.value = true := by
  induction later generalizing offset prev first with
  | nil =>
    rw [places, mem_ite_nil_right, mem_singleton, Bool.and_eq_true] at member
    obtain ⟨⟨run, eligible⟩, rfl⟩ := member
    exact ⟨[], [], by simp [joined], segmented_nil.1 segmented, run, rfl, rfl, eligible⟩
  | cons part later ih =>
    obtain ⟨bracket, segment⟩ := part
    obtain ⟨plain, -, segmented⟩ := segmented_cons.1 segmented
    rw [places, mem_append, mem_ite_nil_right, mem_singleton, Bool.and_eq_true]
      at member
    rcases member with ⟨⟨run, eligible⟩, rfl⟩ | member
    · exact ⟨[], bracket :: joined segment later, by simp [joined], plain, run, rfl, rfl, eligible⟩
    · obtain ⟨before, behind, whole, unbracketed, run, start, stop, eligible⟩ :=
        ih segmented member
      refine ⟨first ++ bracket :: before, behind, by simp [joined, whole], unbracketed, ?_, ?_, stop,
        eligible⟩
      · rwa [getLast?_append, Option.or_assoc, getLast?_cons_or]
      · rw [start, length_append, length_cons]
        omega

/-- A scan for runs comes past segments of which the last one is empty. -/
theorem exists_scanFrom_joined {eligible : Text → Bool} {offset : Nat} {prev : Option Char}
    {first : Text} {later : List (Char × Text)} (segmented : Segmented first later)
    (ends : ∀ char ∈ (joined first later).getLast?, isBracket char = true) (rest : Text) :
    ∃ earlier, scanFrom (recognise eligible) offset 0 prev (joined first later ++ rest) =
      earlier ++ scanFrom (recognise eligible) (offset + (joined first later).length) 0
        ((joined first later).getLast?.or prev) rest := by
  induction later generalizing offset prev first with
  | nil =>
    cases last : first.getLast? with
    | none =>
      obtain rfl := getLast?_eq_none_iff.1 last
      exact ⟨[], rfl⟩
    | some char =>
      have bracket := ends char last
      rw [segmented_nil.1 segmented char (mem_of_getLast? last)] at bracket
      cases bracket
  | cons part later ih =>
    obtain ⟨bracket, segment⟩ := part
    obtain ⟨plain, isBracket, segmented⟩ := segmented_cons.1 segmented
    have endsLater : ∀ char ∈ (joined segment later).getLast?,
        Run.isBracket char = true := by
      intro char last
      refine ends char ?_
      rw [joined, getLast?_append, getLast?_cons, Option.mem_def.1 last]
      rfl
    obtain ⟨earlier, found⟩ :=
      @ih (offset + first.length + 1) (some bracket) segment segmented endsLater
    have passed := @scanFrom_segment eligible offset prev first
      (bracket :: (joined segment later ++ rest)) plain (by simpa [AtBracket] using isBracket)
    rw [scanFrom_of_none (recognise_bracket isBracket _), found, ← append_assoc] at passed
    rw [joined, append_assoc, cons_append, getLast?_append, Option.or_assoc,
      getLast?_cons_or, length_append, length_cons,
      show offset + (first.length + ((joined segment later).length + 1)) =
        offset + first.length + 1 + (joined segment later).length by omega]
    exact ⟨_, passed⟩

/-- The scan finds exactly the eligible runs. -/
theorem mem_all_iff :
    place ∈ all eligible buffer ↔ StandsAt buffer place ∧ eligible place.value = true := by
  constructor
  · intro member
    rw [all_eq_places] at member
    obtain ⟨before, behind, whole, unbracketed, run, start, stop, eligible⟩ :=
      exists_of_mem_places (segmented_segments buffer) member
    rw [joined_segments] at whole
    rw [Option.or_none] at run
    rw [Nat.zero_add] at start
    exact ⟨⟨before, behind, whole, unbracketed, run, start, stop⟩, eligible⟩
  · rintro ⟨⟨before, behind, rfl, unbracketed, run, start, stop⟩, holds⟩
    have around := run
    simp only [isRun, Bool.and_eq_true, Option.all_eq_true, beq_iff_eq] at around
    -- Nothing or a bracket stands before the run, so the scan comes to its start.
    have ends : ∀ char ∈ before.getLast?, isBracket char = true :=
      fun char last => around.1.1 char last ▸ rfl
    have atBracket : AtBracket behind := fun char next => around.1.2 char next ▸ rfl
    rw [← joined_segments before] at ends
    obtain ⟨earlier, found⟩ := @exists_scanFrom_joined eligible 0 none _ _
      (segmented_segments before) ends (place.value ++ behind)
    rw [joined_segments, Option.or_none, Nat.zero_add, scanFrom_segment unbracketed atBracket, run,
      holds, ← start, ← stop] at found
    rw [all, scan, append_assoc, found]
    simp

/-! ## Changing runs -/

/-- A segment, changed if it is a run. -/
def turned (change : Text → Text) (prev next : Option Char) (segment : Text) : Text :=
  if isRun prev next segment then change segment else segment

/-- Segments with every run among them changed. -/
def mapRuns (change : Text → Text) (prev : Option Char) (first : Text) :
    List (Char × Text) → Text × List (Char × Text)
  | [] => (turned change prev none first, [])
  | (bracket, segment) :: later =>
    (turned change prev (some bracket) first,
      (bracket, (mapRuns change (some bracket) segment later).1) ::
        (mapRuns change (some bracket) segment later).2)

/-- A buffer with every run changed. -/
def replace (change : Text → Text) (buffer : Text) : Text :=
  joined (mapRuns change none (segments buffer).1 (segments buffer).2).1
    (mapRuns change none (segments buffer).1 (segments buffer).2).2

section Changes

variable {change : Text → Text}

private theorem unbracketed_turned (plain : ∀ run, Unbracketed run → Unbracketed (change run))
    {next : Option Char} {segment : Text} (unbracketed : Unbracketed segment) :
    Unbracketed (turned change prev next segment) := by
  rw [turned]
  split
  · exact plain segment unbracketed
  · exact unbracketed

private theorem segmented_mapRuns (plain : ∀ run, Unbracketed run → Unbracketed (change run))
    (segmented : Segmented first later) :
    Segmented (mapRuns change prev first later).1 (mapRuns change prev first later).2 := by
  induction later generalizing prev first with
  | nil => exact segmented_nil.2 (unbracketed_turned plain (segmented_nil.1 segmented))
  | cons part later ih =>
    obtain ⟨bracket, segment⟩ := part
    obtain ⟨unbracketed, isBracket, segmented⟩ := segmented_cons.1 segmented
    exact segmented_cons.2
      ⟨unbracketed_turned plain unbracketed, isBracket, ih segmented⟩

private theorem ifRun_turned (nonempty : ∀ run, run ≠ [] → change run ≠ [])
    (prev next : Option Char) (segment : Text) : ifRun prev next (turned change prev next segment) =
      (ifRun prev next segment).map change := by
  rw [ifRun, ifRun, turned]
  by_cases run : isRun prev next segment = true
  · have kept : isRun prev next (change segment) = true := by
      simp only [isRun, Bool.and_eq_true, Bool.not_eq_true', isEmpty_eq_false_iff] at run ⊢
      exact ⟨run.1, nonempty segment run.2⟩
    simp [run, kept]
  · simp [run]

/-- The runs of changed segments are the changed runs. -/
theorem texts_mapRuns (nonempty : ∀ run, run ≠ [] → change run ≠ []) :
    texts prev (mapRuns change prev first later).1 (mapRuns change prev first later).2 =
      (texts prev first later).map change := by
  induction later generalizing prev first with
  | nil => exact ifRun_turned nonempty _ _ _
  | cons part later ih =>
    obtain ⟨bracket, segment⟩ := part
    rw [mapRuns, texts, texts, map_append, ih, ifRun_turned nonempty]

/-- The runs of a changed buffer are the changed runs of the buffer. -/
theorem textsOf_replace (plain : ∀ run, Unbracketed run → Unbracketed (change run))
    (nonempty : ∀ run, run ≠ [] → change run ≠ []) (buffer : Text) :
    textsOf (replace change buffer) = (textsOf buffer).map change := by
  rw [textsOf, replace, segments_joined (segmented_mapRuns plain (segmented_segments buffer))]
  exact texts_mapRuns nonempty

end Changes

private theorem ordered_places (segmented : Segmented first later) :
    Found.Ordered offset (offset + (joined first later).length)
      (places eligible offset prev first later) := by
  rw [← scanFrom_joined segmented]
  exact ordered_scanFrom (bounded_run eligible) (Nat.zero_le _)

/-- A run with what is put in its place. -/
def withChange (change : Text → Option Text) (found : Found Text) : Option (Found Text) :=
  (change found.value).map fun text => ⟨found.start, found.stop, text⟩

private theorem ordered_withChange {eligible : Text → Bool} {change : Text → Option Text}
    {offset : Nat} {prev : Option Char} {first : Text} {later : List (Char × Text)}
    (segmented : Segmented first later) :
    Found.Ordered offset (offset + (joined first later).length)
      ((places eligible offset prev first later).filterMap (withChange change)) := by
  refine (ordered_places segmented).filterMap fun place kept kept_eq => ?_
  obtain ⟨text, -, rfl⟩ := Option.map_eq_some_iff.1 kept_eq
  exact ⟨rfl, rfl⟩

/-- What an eligible run becomes. -/
def changed (eligible : Text → Bool) (change : Text → Option Text) (run : Text) : Text :=
  if eligible run then (change run).getD run else run

/-- Putting texts in the places of eligible runs changes these runs. -/
theorem copy_places {eligible : Text → Bool} {change : Text → Option Text} {offset : Nat}
    {prev : Option Char} {first : Text} {later : List (Char × Text)}
    (segmented : Segmented first later) :
    Edit.copy offset (joined first later)
        ((places eligible offset prev first later).filterMap (withChange change)) =
      joined (mapRuns (changed eligible change) prev first later).1
        (mapRuns (changed eligible change) prev first later).2 := by
  induction later generalizing offset prev first with
  | nil =>
    rw [places, mapRuns, joined, joined, turned, changed]
    cases isRun prev none first <;> cases eligible first <;>
      cases text : change first <;> simp [withChange, text, Edit.copy]
  | cons part later ih =>
    obtain ⟨bracket, segment⟩ := part
    obtain ⟨-, -, segmented⟩ := segmented_cons.1 segmented
    -- The later places start behind the bracket, up to which the buffer is copied.
    have ordered := @ordered_withChange eligible change (offset + first.length + 1) (some bracket)
      segment later segmented
    have rest := @ih (offset + first.length + 1) (some bracket) segment segmented
    rw [places, filterMap_append, mapRuns, joined, joined, turned, changed, ← rest]
    generalize (places eligible (offset + first.length + 1) (some bracket) segment later).filterMap
      (withChange change) = places at ordered
    have behind : Edit.copy (offset + first.length) (bracket :: joined segment later) places =
        bracket :: Edit.copy (offset + first.length + 1) (joined segment later) places := by
      rw [Edit.copy_advance (Nat.le_succ _) ordered]
      simp
    have passed : Edit.copy offset (first ++ bracket :: joined segment later) places =
        first ++ bracket :: Edit.copy (offset + first.length + 1) (joined segment later) places := by
      rw [Edit.copy_advance (Nat.le_add_right offset first.length) (ordered.mono (Nat.le_succ _)),
        Nat.add_sub_cancel_left, take_left, drop_left, behind]
    cases isRun prev (some bracket) first <;> cases eligible first <;>
      cases text : change first <;> simp [withChange, text, Edit.copy, passed, behind]

end Phrasebook.Markup.Run
