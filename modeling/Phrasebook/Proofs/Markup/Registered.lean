import Phrasebook.Proofs.Markup.Applied

/-!
# What the stages register

A stage registers phrases of the pieces that it finds, and a cascade those of each of its
stages in the buffer that the stages before it left. A cascade fails only on a phrase that
cannot be read; the phrases before that one are registered, in the order of the places.
-/

namespace Phrasebook.Markup

open List Pass

variable {scope : Scope} {setting : Setting} {pieces : List Piece} {stage : Stage} {buffer : Text}

/-- The phrase for a candidate with a given text. -/
def Candidate.phrase (scope : Scope) (setting : Setting) (candidate : Candidate) (text : Text) :
    KeyedPhrase :=
  ⟨Key.ofText text scope.path scope.keyLength, ⟨⟨candidate.start, candidate.stop⟩, text, setting⟩⟩

/-- Whether all reasons to refuse candidates are among some. -/
def Candidate.FailFor (reasons : Failure → Prop) (candidates : List Candidate) : Prop :=
  ∀ candidate ∈ candidates, ∀ failure,
    Pass.located ⟨candidate.start, candidate.stop⟩ candidate.value = .error failure → reasons failure

variable {reasons : Failure → Prop}

private theorem confined_render {phrases : KeyedPhrase → Prop}
    (each : ∀ candidate ∈ Piece.candidates pieces, ∀ text,
      Pass.readable candidate.value = .ok text → phrases (candidate.phrase scope setting text))
    (fails : Candidate.FailFor reasons (Piece.candidates pieces)) :
    Confined phrases reasons (Piece.render scope setting pieces) := by
  induction pieces with
  | nil => exact .pure _
  | cons piece pieces ih =>
    cases piece with
    | fixed text => exact .bind (ih each fails) fun _ _ _ => .pure _
    | call candidate =>
      obtain ⟨here, later⟩ := forall_mem_cons.1 each
      obtain ⟨failsHere, failsLater⟩ := forall_mem_cons.1 fails
      exact .bind (.register (fun text located => here text (located_eq_ok_iff.1 located).2)
        failsHere) fun _ _ _ => .bind (ih later failsLater) fun _ _ _ => .pure _

private theorem confined_edits {phrases : KeyedPhrase → Prop} {places : List (Found (List Piece))}
    (each : ∀ place ∈ places, ∀ candidate ∈ Piece.candidates place.value, ∀ text,
      Pass.readable candidate.value = .ok text →
        phrases (candidate.phrase scope stage.setting text))
    (fails : ∀ place ∈ places, Candidate.FailFor reasons (Piece.candidates place.value)) :
    Confined phrases reasons (Stage.edits scope stage buffer places) := by
  induction places with
  | nil => exact .pure _
  | cons place places ih =>
    obtain ⟨here, later⟩ := forall_mem_cons.1 each
    obtain ⟨failsHere, failsLater⟩ := forall_mem_cons.1 fails
    exact .bind (confined_render here failsHere) fun _ _ _ =>
      .bind (ih later failsLater) fun _ _ _ => .pure _

namespace Stage

/-- Whether a phrase is one that a stage takes out of a buffer. -/
def Takes (scope : Scope) (stage : Stage) (buffer : Text) (phrase : KeyedPhrase) : Prop :=
  ∃ place ∈ find scope.functions buffer stage, ∃ candidate ∈ Piece.candidates place.value,
    ∃ text, Pass.readable candidate.value = .ok text ∧
      phrase = candidate.phrase scope stage.setting text

private theorem confined_apply (scope : Scope) (stage : Stage) (buffer : Text)
    (fails : ∀ place ∈ find scope.functions buffer stage,
      Candidate.FailFor reasons (Piece.candidates place.value)) :
    Confined (Takes scope stage buffer) reasons (apply scope stage buffer) := by
  refine .bind (confined_edits (fun place found candidate member text readable =>
    ⟨place, found, candidate, member, text, readable, rfl⟩) fails) fun edits _ _ => ?_
  cases edits.isEmpty with
  | true => exact .pure _
  | false => exact .bind (.note _ _ _ _) fun _ _ _ => .pure _

/-- A cascade registers what each stage takes out of the buffer of the stages before it. -/
theorem confined_applyAll (scope : Scope) (stages : List Stage) (buffer : Text)
    (fails : ∀ stage buffer, ∀ place ∈ find scope.functions buffer stage,
      Candidate.FailFor reasons (Piece.candidates place.value)) :
    Confined (fun phrase => ∃ earlier stage later, stages = earlier ++ stage :: later ∧
      Takes scope stage (earlier.foldl (fun buffer stage => applied scope stage buffer) buffer) phrase)
      reasons (applyAll scope stages buffer) := by
  induction stages generalizing buffer with
  | nil => exact .pure _
  | cons stage stages ih =>
    refine .bind ((confined_apply scope stage buffer (fails stage buffer)).imp fun phrase takes =>
      ⟨[], stage, stages, rfl, takes⟩) fun next added applies => ?_
    obtain rfl := eq_applied_of_emits applies
    refine (ih _).imp fun phrase => ?_
    rintro ⟨earlier, other, later, rfl, takes⟩
    exact ⟨stage :: earlier, other, later, rfl, takes⟩

end Stage

/-- Candidates only fail because they are unreadable. -/
theorem Candidate.failFor_isUnreadable (candidates : List Candidate) :
    FailFor IsUnreadable candidates :=
  fun _ _ _ fails => ⟨_, _, fails⟩

/-! ## Phrases that can all be read -/

/-- Whether the phrases among pieces can be read. -/
def Piece.Readable (pieces : List Piece) : Prop :=
  ∀ candidate ∈ candidates pieces, ∃ text,
    Pass.located ⟨candidate.start, candidate.stop⟩ candidate.value = .ok text

/-- The phrases that pieces register. -/
def Piece.phrases (scope : Scope) (setting : Setting) (pieces : List Piece) : List KeyedPhrase :=
  (candidates pieces).map fun candidate => candidate.phrase scope setting (storedText candidate)

private theorem emits_render (readable : Piece.Readable pieces) :
    Emits (Piece.render scope setting pieces) (.ok (Piece.spell scope pieces))
      (Piece.phrases scope setting pieces) := by
  induction pieces with
  | nil => exact .pure _
  | cons piece pieces ih =>
    cases piece with
    | fixed text => exact (ih readable).before (.pure _)
    | call candidate =>
      obtain ⟨⟨text, isText⟩, later⟩ := forall_mem_cons.1 readable
      have stored : Piece.storedText candidate = text := by
        rw [Piece.storedText, (located_eq_ok_iff.1 isText).2]
      rw [Piece.spell, Piece.callText, Piece.phrases, Piece.candidates, map_cons, stored]
      exact (Emits.register scope _ setting isText).bind
        ((ih later).before (.pure _))

private theorem exists_emits_edits {scope : Scope} {stage : Stage} {buffer : Text}
    {places : List (Found (List Piece))} (readable : ∀ place ∈ places, Piece.Readable place.value) :
    ∃ edits, Emits (Stage.edits scope stage buffer places) (.ok edits)
      (places.flatMap fun place => Piece.phrases scope stage.setting place.value) := by
  induction places with
  | nil => exact ⟨_, .pure _⟩
  | cons place places ih =>
    obtain ⟨here, later⟩ := forall_mem_cons.1 readable
    obtain ⟨edits, finds⟩ := ih later
    exact ⟨_, (emits_render here).bind (finds.before (.pure _))⟩

/-- A stage whose phrases can all be read succeeds and registers them in order. -/
theorem Stage.emits_apply
    (readable : ∀ place ∈ find scope.functions buffer stage, Piece.Readable place.value) :
    Emits (apply scope stage buffer) (.ok (applied scope stage buffer))
      ((find scope.functions buffer stage).flatMap fun place =>
        Piece.phrases scope stage.setting place.value) := by
  obtain ⟨edits, finds⟩ := @exists_emits_edits scope stage buffer _ readable
  have applies : Emits (apply scope stage buffer) (.ok (Edit.applyAll buffer edits))
      ((find scope.functions buffer stage).flatMap fun place =>
        Piece.phrases scope stage.setting place.value) := by
    refine finds.before ?_
    cases edits.isEmpty with
    | true => exact .pure _
    | false => exact .andThen (.note _ _ _ _) (.pure _)
  exact eq_applied_of_emits applies ▸ applies

/-! ## Phrases up to the first unreadable one -/

/-- Whether a pass registers the phrases of candidates in order. It stops at the first one that
cannot be read, and fails for no other reason. -/
def Collects {α : Type} (scope : Scope) (setting : Setting) (candidates : List Candidate)
    (pass : Pass α) : Prop :=
  ∃ result taken, taken <+: candidates ∧
    Emits pass result (taken.map fun candidate =>
      candidate.phrase scope setting (Piece.storedText candidate)) ∧
    (∀ candidate ∈ taken, Pass.readable candidate.value = .ok (Piece.storedText candidate)) ∧
    ∀ value, result = .ok value → taken = candidates

namespace Collects

variable {α β : Type} {pass : Pass α} {next : α → Pass β}

private theorem of_emits {value : α} (emits : Emits pass (.ok value) []) : Collects scope setting
    [] pass :=
  ⟨.ok value, [], prefix_rfl, emits, by simp, fun _ _ => rfl⟩

private theorem register (candidate : Candidate) : Collects scope setting [candidate]
    (Pass.register scope ⟨candidate.start, candidate.stop⟩ setting candidate.value) := by
  cases located : Pass.located ⟨candidate.start, candidate.stop⟩ candidate.value with
  | ok text =>
    have readable := (located_eq_ok_iff.1 located).2
    have stored : Piece.storedText candidate = text := by rw [Piece.storedText, readable]
    have emits := Emits.register scope ⟨candidate.start, candidate.stop⟩ setting located
    rw [← stored] at emits
    exact ⟨_, [candidate], prefix_rfl, emits, by simp [stored, readable], fun _ _ => rfl⟩
  | error failure =>
    exact ⟨.error failure, [], nil_prefix, .register_error scope _ setting located, by simp,
      fun _ same => by cases same⟩

private theorem bind {first second : List Candidate} (does : Collects scope setting first pass)
    (later : ∀ value, Collects scope setting second (next value)) :
    Collects scope setting (first ++ second) (pass >>= next) := by
  obtain ⟨result, taken, isPrefix, does, readable, all⟩ := does
  cases result with
  | error failure =>
    exact ⟨.error failure, taken, isPrefix.trans (prefix_append _ _), does.bind_error, readable,
      nofun⟩
  | ok value =>
    obtain rfl := all value rfl
    obtain ⟨result, more, isPrefix, later, moreReadable, rest⟩ := later value
    refine ⟨result, taken ++ more, (prefix_append_right_inj _).2 isPrefix, ?_,
      forall_mem_append.2 ⟨readable, moreReadable⟩, fun value yields => ?_⟩
    · rw [map_append]
      exact does.bind later
    · rw [rest value yields]

/-- Nothing is registered behind the candidates. -/
theorem before {candidates : List Candidate} (does : Collects scope setting candidates pass)
    (later : ∀ value, Collects scope setting [] (next value)) :
    Collects scope setting candidates (pass >>= next) := by
  simpa using does.bind later

end Collects

private theorem collects_render (scope : Scope) (setting : Setting) (pieces : List Piece) :
    Collects scope setting (Piece.candidates pieces) (Piece.render scope setting pieces) := by
  induction pieces with
  | nil => exact .of_emits (.pure _)
  | cons piece pieces ih =>
    cases piece with
    | fixed text => exact ih.before fun _ => .of_emits (.pure _)
    | call candidate =>
      exact (Collects.register candidate).bind fun _ =>
        ih.before fun _ => .of_emits (.pure _)

private theorem collects_edits (scope : Scope) (stage : Stage) (buffer : Text)
    (places : List (Found (List Piece))) :
    Collects scope stage.setting (places.flatMap fun place => Piece.candidates place.value)
      (Stage.edits scope stage buffer places) := by
  induction places with
  | nil => exact .of_emits (.pure _)
  | cons place places ih =>
    exact (collects_render scope stage.setting place.value).bind fun _ =>
      ih.before fun _ => .of_emits (.pure _)

/-- A stage registers the phrases that it finds in order. -/
theorem Stage.collects_apply (scope : Scope) (stage : Stage) (buffer : Text) :
    Collects scope stage.setting ((find scope.functions buffer stage).flatMap fun place =>
      Piece.candidates place.value) (apply scope stage buffer) := by
  refine (collects_edits scope stage buffer _).before fun edits => ?_
  cases edits.isEmpty with
  | true => exact .of_emits (.pure _)
  | false => exact .of_emits (.andThen (.note _ _ _ _) (.pure _))


/-- Extraction registers what its stages register and then puts the comments back. -/
theorem emits_extract {stages : List Stage} {template : Text} {result : Except Failure Text}
    {added : List KeyedPhrase}
    (emits : Emits (Stage.applyAll scope stages (Comment.mask template)) result added) :
    Emits (extract scope stages template) (result.bind (Comment.restore (Comment.all template)))
      added := by
  cases result with
  | error failure => exact emits.bind_error
  | ok buffer => exact emits.before (.known _)

end Phrasebook.Markup
