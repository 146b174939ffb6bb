import Phrasebook.Session
import Phrasebook.Proofs.Catalogue.Entries

/-!
# What a pass leaves in a session

A pass never asks what the session holds. What it yields and which phrases it
registers is therefore a matter of the pass alone, and the catalogue of the session
holds exactly the registered phrases on top of what was there.
-/

namespace Phrasebook

variable {added : List KeyedPhrase} {text : Text} {next : α → Pass β} {scope : Scope} {span : Span}
  {setting : Setting} {points : Except Literal.EscapeFault CodePoints}

/-- The entry under which a phrase is stored. -/
def KeyedPhrase.entry (phrase : KeyedPhrase) : CodePoints × CodePoints :=
  (CodePoint.ofText phrase.key, CodePoint.ofText phrase.phrase.text)

namespace Pass

variable {α β : Type} {failure : Failure} {pass : Pass α} {result : Except Failure α} {value : α}
  {added : List KeyedPhrase} {next : α → Pass β}

/-- The value of a result can be read off without a look at its failures. -/
theorem eq_ok_of_toOption (yields : result.toOption = some value) : result = .ok value := by
  cases result with
  | error failure => cases yields
  | ok other => exact congrArg _ (Option.some.inj yields)

/-- The result of a pass and the phrases that it registers, in whatever session it
runs. -/
structure Emits (pass : Pass α) (result : Except Failure α) (added : List KeyedPhrase) : Prop where
  result : ∀ session, (pass.run session).1 = result
  phrases : ∀ session, (pass.run session).2.phrases = session.phrases ++ added
  catalogue : ∀ session, (pass.run session).2.catalogue =
    (session.catalogue.insertAll (added.map KeyedPhrase.entry)).1

namespace Emits

variable {pass : Pass α} {next : α → Pass β} {value : α} {result : Except Failure β}
  {first second : List KeyedPhrase} {failure : Failure}
  {points : Except Literal.EscapeFault CodePoints}

/-- A pass has one result and registers one list of phrases. -/
theorem unique {left right : Except Failure α} (one : Emits pass left first)
    (other : Emits pass right second) : left = right ∧ first = second := by
  refine ⟨(one.result {}).symm.trans (other.result {}), ?_⟩
  have phrases := (one.phrases {}).symm.trans (other.phrases {})
  simpa using phrases

/-- A pass that yields its value registers nothing. -/
theorem pure (value : α) : Emits (Pure.pure value) (.ok value) [] :=
  ⟨fun _ => rfl, fun _ => (List.append_nil _).symm, fun _ => rfl⟩

theorem pure_iff {result : α} :
    Emits (Pure.pure value) (.ok result) added ↔ result = value ∧ added = [] := by
  constructor
  · intro emits
    obtain ⟨same, rfl⟩ := emits.unique (pure value)
    exact ⟨Except.ok.inj same, rfl⟩
  · rintro ⟨rfl, rfl⟩
    exact pure _

/-- A known result registers nothing. -/
theorem known (result : Except Failure α) : Emits (ExceptT.mk (Pure.pure result)) result [] :=
  ⟨fun _ => rfl, fun _ => (List.append_nil _).symm, fun _ => rfl⟩

/-- A report registers nothing. -/
theorem report (records : Journal) : Emits (Pass.report records) (.ok ()) [] :=
  ⟨fun _ => rfl, fun _ => (List.append_nil _).symm, fun _ => rfl⟩

/-- A note registers nothing. -/
theorem note (scope : Scope) (level : Level) (reporter : Reporter) (message : Text) :
    Emits (Pass.note scope level reporter message) (.ok ()) [] :=
  report _

/-- A pass runs before what follows it. -/
theorem run_bind (pass : Pass α) (next : α → Pass β) (session : Session) :
    (pass >>= next).run session =
      match pass.run session with
      | (.ok value, later) => (next value).run later
      | (.error failure, later) => (.error failure, later) := by
  change (do
    let result ← pass.run
    ExceptT.bindCont next result : StateM Session _) session = _
  change (ExceptT.bindCont next (pass.run session).1 : StateM Session _) (pass.run session).2 = _
  rcases pass.run session with ⟨_ | value, later⟩ <;> rfl

/-- A pass and the one after it register their phrases in this order. -/
theorem bind (does : Emits pass (.ok value) first) (later : Emits (next value) result second) :
    Emits (pass >>= next) result (first ++ second) := by
  have runs : ∀ session, (pass >>= next).run session = (next value).run (pass.run session).2 := by
    intro session
    rw [run_bind, ← Prod.eta (pass.run session), does.result session]
  refine ⟨fun session => ?_, fun session => ?_, fun session => ?_⟩
  · rw [runs, later.result]
  · rw [runs, later.phrases, does.phrases, List.append_assoc]
  · rw [runs, later.catalogue, does.catalogue, List.map_append, Catalogue.insertAll_append]

/-- A pass that fails keeps what comes after it from running. -/
theorem bind_error (does : Emits pass (.error failure) first) :
    Emits (pass >>= next) (.error failure) first := by
  have runs : ∀ session, (pass >>= next).run session = (.error failure, (pass.run session).2) := by
    intro session
    rw [run_bind, ← Prod.eta (pass.run session), does.result session]
  exact ⟨fun session => by rw [runs], fun session => by rw [runs]; exact does.phrases session,
    fun session => by rw [runs]; exact does.catalogue session⟩

/-- A pass that registers nothing stands before another. -/
theorem andThen (does : Emits pass (.ok value) []) (later : Emits (next value) result second) :
    Emits (pass >>= next) result second :=
  bind does later

/-- A pass stands before one that registers nothing. -/
theorem before (does : Emits pass (.ok value) first) (later : Emits (next value) result []) :
    Emits (pass >>= next) result first := by
  simpa using bind does later

/-- A readable value is registered under its key. -/
theorem register (scope : Scope) (span : Span) (setting : Setting)
    (readable : Pass.located span points = .ok text) :
    Emits (Pass.register scope span setting points)
      (.ok (Key.ofText text scope.path scope.keyLength))
      [⟨Key.ofText text scope.path scope.keyLength, ⟨span, text, setting⟩⟩] := by
  rw [Pass.register, readable]
  refine andThen (known (.ok text)) ?_
  refine before ⟨fun _ => rfl, fun _ => rfl, fun session => ?_⟩ (andThen (note _ _ _ _) (pure _))
  rw [List.map_singleton, Catalogue.insertAll_cons]
  rfl

/-- A value that is not readable fails before anything is registered. -/
theorem register_error (scope : Scope) (span : Span) (setting : Setting)
    (unreadable : Pass.located span points = .error failure) :
    Emits (Pass.register scope span setting points) (.error failure) [] := by
  rw [Pass.register, unreadable]
  exact bind_error (known (.error failure))

end Emits

/-- Whether a pass changes its session by registering phrases and reporting alone. -/
def Registers (pass : Pass α) : Prop :=
  ∃ result added, Emits pass result added

namespace Registers

theorem pure (value : α) : Registers (Pure.pure value) :=
  ⟨_, _, .pure value⟩

theorem known (result : Except Failure α) : Registers (ExceptT.mk (Pure.pure result)) :=
  ⟨_, _, .known result⟩

theorem note (scope : Scope) (level : Level) (reporter : Reporter) (message : Text) :
    Registers (Pass.note scope level reporter message) :=
  ⟨_, _, .note scope level reporter message⟩

theorem register (scope : Scope) (span : Span) (setting : Setting)
    (points : Except Literal.EscapeFault CodePoints) :
    Registers (Pass.register scope span setting points) := by
  cases readable : Pass.located span points with
  | ok text => exact ⟨_, _, .register scope span setting readable⟩
  | error failure => exact ⟨_, _, .register_error scope span setting readable⟩

theorem bind {pass : Pass α} (does : Registers pass) (later : ∀ value, Registers (next value)) :
    Registers (pass >>= next) := by
  obtain ⟨result, added, does⟩ := does
  cases result with
  | error failure => exact ⟨_, _, does.bind_error⟩
  | ok value =>
    obtain ⟨result, more, later⟩ := later value
    exact ⟨_, _, does.bind later⟩

end Registers

namespace Emits

variable {pass : Pass α} {next : α → Pass β} {value : β} {added : List KeyedPhrase}

/-- Where two passes in a row succeed, both do, and the phrases of the first come
first. -/
theorem of_bind (does : Registers pass) (later : ∀ value, Registers (next value))
    (emits : Emits (pass >>= next) (.ok value) added) :
    ∃ middle first second, Emits pass (.ok middle) first ∧
      Emits (next middle) (.ok value) second ∧ added = first ++ second := by
  obtain ⟨result, first, does⟩ := does
  cases result with
  | error failure => cases (emits.unique does.bind_error).1
  | ok middle =>
    obtain ⟨result, second, later⟩ := later middle
    obtain ⟨rfl, rfl⟩ := emits.unique (does.bind later)
    exact ⟨middle, first, second, does, later, rfl⟩

/-- Two passes in a row register nothing exactly when neither does. -/
theorem bind_nil_iff (does : Registers pass) (later : ∀ value, Registers (next value)) :
    Emits (pass >>= next) (.ok value) [] ↔
      ∃ middle, Emits pass (.ok middle) [] ∧ Emits (next middle) (.ok value) [] := by
  constructor
  · intro emits
    obtain ⟨middle, first, second, one, other, none⟩ := emits.of_bind does later
    obtain ⟨rfl, rfl⟩ := List.nil_eq_append_iff.1 none
    exact ⟨middle, one, other⟩
  · rintro ⟨middle, one, other⟩
    exact one.andThen other

/-- A pass that registers nothing does not count before another. -/
theorem andThen_iff {middle : α} {result : Except Failure β} (does : Emits pass (.ok middle) [])
    (later : ∀ value, Registers (next value)) :
    Emits (pass >>= next) result added ↔ Emits (next middle) result added := by
  refine ⟨fun emits => ?_, does.andThen⟩
  obtain ⟨_, _, after⟩ := later middle
  obtain ⟨rfl, rfl⟩ := emits.unique (does.andThen after)
  exact after

/-- A phrase that is registered is one phrase. -/
theorem of_register {key : Text}
    (emits : Emits (Pass.register scope span setting points) (.ok key) added) :
    ∃ phrase, added = [phrase] := by
  cases readable : Pass.located span points with
  | ok text => exact ⟨_, (emits.unique (.register scope span setting readable)).2⟩
  | error failure =>
    cases (emits.unique (.register_error scope span setting readable)).1

end Emits

/-! ## Phrases that can be read and that cannot -/

/-- A readable value is the code points of a text. -/
theorem exists_of_readable {value : Except Literal.EscapeFault CodePoints}
    (readable : Pass.readable value = .ok text) :
    ∃ points, value = .ok points ∧ CodePoint.written points = .ok text := by
  cases value with
  | error fault => cases readable
  | ok points =>
    rw [Pass.readable] at readable
    refine ⟨points, rfl, ?_⟩
    cases written : CodePoint.written points with
    | error run =>
      rw [written] at readable
      cases readable
    | ok other =>
      rw [written] at readable
      cases readable
      rfl

/-- A phrase is located where its value is readable and its range is not empty. -/
theorem located_eq_ok_iff {value : Except Literal.EscapeFault CodePoints} :
    located span value = .ok text ↔ span.proper = true ∧ readable value = .ok text := by
  rw [located]
  cases value with
  | error fault => simp [Except.isOk, Except.toBool, readable]
  | ok points => cases span.proper <;> simp [Except.isOk, Except.toBool]

/-- Whether a failure says that a phrase cannot be read. -/
def IsUnreadable (failure : Failure) : Prop :=
  ∃ span points, located span points = .error failure

/-- Three things make a value unreadable. -/
theorem IsUnreadable.cases (unreadable : IsUnreadable failure) :
    (∃ fault, failure = .escape fault) ∨ (∃ run, failure = .unwritable run) ∨
      ∃ span, failure = .emptySpan span := by
  obtain ⟨span, points, fails⟩ := unreadable
  rw [located] at fails
  split at fails
  · exact .inr (.inr ⟨span, (Except.error.inj fails).symm⟩)
  cases points with
  | error fault => exact .inl ⟨fault, (Except.error.inj fails).symm⟩
  | ok points =>
    rw [readable] at fails
    cases written : CodePoint.written points with
    | ok text =>
      rw [written] at fails
      cases fails
    | error run =>
      rw [written] at fails
      exact .inr (.inl ⟨run, (Except.error.inj fails).symm⟩)

/-- Whether a failure is about a range that holds nothing. -/
def IsEmptySpan (failure : Failure) : Prop :=
  ∃ span, failure = .emptySpan span

/-- A range that holds something is no reason to fail. -/
theorem not_isEmptySpan_of_located {value : Except Literal.EscapeFault CodePoints}
    (proper : span.proper = true) (fails : located span value = .error failure) :
    ¬ IsEmptySpan failure := by
  rintro ⟨_, rfl⟩
  rw [located, proper, Bool.not_true, Bool.and_false, if_neg Bool.false_ne_true] at fails
  cases value with
  | error fault => cases fails
  | ok points =>
    rw [readable] at fails
    cases written : CodePoint.written points <;>
      · rw [written] at fails
        cases fails

theorem IsUnreadable.ne_missingComment (unreadable : IsUnreadable failure) :
    failure ≠ .missingComment := by
  rcases unreadable.cases with ⟨_, rfl⟩ | ⟨_, rfl⟩ | ⟨_, rfl⟩ <;> simp

theorem IsUnreadable.ne_syntaxFault (unreadable : IsUnreadable failure) (name : Text)
    (lang : Language) : failure ≠ .syntaxFault name lang := by
  rcases unreadable.cases with ⟨_, rfl⟩ | ⟨_, rfl⟩ | ⟨_, rfl⟩ <;> simp

/-! ## What a pass yields -/

/-- The value or the failure of a pass. -/
def yield (pass : Pass α) : Except Failure α :=
  (pass.run {}).1

private theorem Emits.yield_eq (emits : Emits pass result added) : pass.yield = result :=
  emits.result {}

/-- A pass that only registers emits what it yields. -/
theorem Registers.emits (does : Registers pass) : ∃ added, Emits pass pass.yield added := by
  obtain ⟨result, added, emits⟩ := does
  exact ⟨added, emits.yield_eq.symm ▸ emits⟩

@[simp] theorem yield_pure (value : α) : (Pure.pure value : Pass α).yield = .ok value :=
  rfl

@[simp] theorem yield_known (result : Except Failure α) :
    yield (ExceptT.mk (Pure.pure result)) = result :=
  rfl

/-- A phrase that is registered yields its key. -/
theorem yield_register (scope : Scope) (span : Span) (setting : Setting)
    (points : Except Literal.EscapeFault CodePoints) :
    (Pass.register scope span setting points).yield =
      (located span points).map fun text => Key.ofText text scope.path scope.keyLength := by
  cases readable : Pass.located span points with
  | ok text => exact (Emits.register scope span setting readable).yield_eq
  | error failure => exact (Emits.register_error scope span setting readable).yield_eq

/-- Behind a pass that succeeds, the next one decides what is yielded. -/
theorem Emits.yield_bind (does : Emits pass (.ok value) added) (later : Registers (next value)) :
    (pass >>= next).yield = (next value).yield := by
  obtain ⟨_, rest⟩ := later.emits
  exact (does.bind rest).yield_eq

/-- What two passes in a row yield is a matter of what each of them yields. -/
theorem yield_bind (does : Registers pass) (later : ∀ value, Registers (next value)) :
    (pass >>= next).yield = pass.yield >>= fun value => (next value).yield := by
  obtain ⟨added, emits⟩ := does.emits
  cases yields : pass.yield with
  | error failure =>
    rw [yields] at emits
    exact emits.bind_error.yield_eq
  | ok value =>
    rw [yields] at emits
    exact emits.yield_bind (later value)

/-! ## Limits to what a pass does -/

/-- Whether a pass registers phrases of some kind only, and fails for some reasons only. -/
def Confined (phrases : KeyedPhrase → Prop) (reasons : Failure → Prop) (pass : Pass α) : Prop :=
  ∃ result added, Emits pass result added ∧ (∀ phrase ∈ added, phrases phrase) ∧
    ∀ failure, result = .error failure → reasons failure

namespace Confined

variable {phrases : KeyedPhrase → Prop} {reasons : Failure → Prop} {pass : Pass α}

theorem pure (value : α) : Confined phrases reasons (Pure.pure value) :=
  ⟨_, _, .pure value, by simp, by simp⟩

theorem note (scope : Scope) (level : Level) (reporter : Reporter) (message : Text) :
    Confined phrases reasons (Pass.note scope level reporter message) :=
  ⟨_, _, .note scope level reporter message, by simp, by simp⟩

/-- Registering is confined to the phrase and to what makes it unreadable. -/
theorem register (registered : ∀ text, Pass.located span points = .ok text →
      phrases ⟨Key.ofText text scope.path scope.keyLength, ⟨span, text, setting⟩⟩)
    (failed : ∀ failure, Pass.located span points = .error failure → reasons failure) :
    Confined phrases reasons (Pass.register scope span setting points) := by
  cases readable : Pass.located span points with
  | ok text =>
    exact ⟨_, _, .register scope span setting readable, by simpa using registered text readable,
      by simp⟩
  | error failure =>
    exact ⟨_, _, .register_error scope span setting readable, by simp,
      by simpa using failed failure readable⟩

/-- What comes later is looked at with the value that the first pass gives. -/
theorem bind (does : Confined phrases reasons pass)
    (later : ∀ value added, Emits pass (.ok value) added → Confined phrases reasons (next value)) :
    Confined phrases reasons (pass >>= next) := by
  obtain ⟨result, first, does, each, fails⟩ := does
  cases result with
  | error failure => exact ⟨_, _, does.bind_error, each, by simpa using fails⟩
  | ok value =>
    obtain ⟨result, second, rest, eachLater, failsLater⟩ := later value first does
    exact ⟨_, _, does.bind rest, List.forall_mem_append.2 ⟨each, eachLater⟩, failsLater⟩

theorem imp {others : KeyedPhrase → Prop} (wider : ∀ phrase, phrases phrase → others phrase)
    (confined : Confined phrases reasons pass) : Confined others reasons pass := by
  obtain ⟨result, added, does, each, fails⟩ := confined
  exact ⟨result, added, does, fun phrase member => wider phrase (each phrase member), fails⟩

/-- What a confined pass does in any run. -/
theorem of_emits (confined : Confined phrases reasons pass) {result : Except Failure α}
    (emits : Emits pass result added) :
    (∀ phrase ∈ added, phrases phrase) ∧ ∀ failure, result = .error failure → reasons failure := by
  obtain ⟨_, _, does, each, fails⟩ := confined
  obtain ⟨rfl, rfl⟩ := emits.unique does
  exact ⟨each, fails⟩

end Confined

end Pass

end Phrasebook
