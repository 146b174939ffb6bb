import Phrasebook.Project.Storage
import Phrasebook.Proofs.Catalogue.Storage
import Phrasebook.Proofs.Document.Reread
import Phrasebook.Proofs.Markup.Spans
import Phrasebook.Proofs.Script.Overlap
import Phrasebook.Proofs.Sources

/-!
# Reasons to fail

Which failures the parts of a run can end with. A refusal by the file system names the
path; bytes that are no text, texts that cannot be read and values that cannot be used each
have failures of their own, and no part fails for the reasons of another.
-/

namespace Phrasebook

open Failure (bind_eq_error_iff check_eq_error_iff)

variable {site : Surroundings} {failure : Failure} {bytes : Bytes} {path : Path}
  {tree : FileTree} {value : Value}

/-! ## File trees -/

namespace FileTree

/-- Reading a file fails with a fault of its path. -/
theorem exists_of_read_eq_error (refused : tree.read path = .error failure) :
    ∃ fault, failure = .file fault path.toText := by
  rw [read] at refused
  split at refused
  · exact ⟨_, (Except.error.inj refused).symm⟩
  · split at refused
    · cases refused
    · exact ⟨_, (Except.error.inj refused).symm⟩

/-- Writing a file fails with a fault of its path. -/
theorem exists_of_write_eq_error (refused : tree.write path bytes = .error failure) :
    ∃ fault, failure = .file fault path.toText := by
  rw [write] at refused
  split at refused
  · exact ⟨_, (Except.error.inj refused).symm⟩
  · split at refused
    · exact ⟨_, (Except.error.inj refused).symm⟩
    · cases refused

/-- What cannot be looked for has a name that is too long. -/
theorem eq_of_look_eq_error {written : Path} (refused : tree.look written path = .error failure) :
    failure = .file .nameTooLong written.toText := by
  simp only [look, ite_eq_iff] at refused
  rcases refused with ⟨-, refused⟩ | ⟨-, done⟩
  · exact (Except.error.inj refused).symm
  · cases done

private theorem exists_of_settle_eq_error {made : Except FileFault FileTree}
    (refused : (tree.settle path made).1 = .error failure) :
    ∃ fault text, failure = .file fault text := by
  cases made with
  | ok next => cases refused
  | error fault =>
    rw [settle] at refused
    dsimp only at refused
    split at refused
    · cases refused
    · exact ⟨_, _, (Except.error.inj refused).symm⟩

private theorem exists_of_makeDirectoriesFrom_eq_error {depth : Nat}
    (refused : (tree.makeDirectoriesFrom depth path).1 = .error failure) :
    ∃ fault text, failure = .file fault text := by
  induction depth generalizing path failure with
  | zero => exact exists_of_settle_eq_error refused
  | succ depth ih =>
    rw [makeDirectoriesFrom] at refused
    split at refused
    · split at refused
      · exact exists_of_settle_eq_error refused
      · rename_i upper
        exact ih ((congrArg Prod.fst upper).trans refused)
    · exact exists_of_settle_eq_error refused

/-- A file cannot be read as a text if it cannot be read, or if its bytes are no text. -/
theorem readExact_eq_error_iff : tree.readExact path = .error failure ↔
    tree.read path = .error failure ∨ ∃ bytes fault, tree.read path = .ok bytes ∧
      Utf8.decode bytes = .error fault ∧ failure = .unreadable fault := by
  rw [readExact, bind_eq_error_iff]
  refine or_congr_right (exists_congr fun bytes => ?_)
  cases Utf8.decode bytes with
  | ok text => simp [pure, Except.pure]
  | error fault => simp [throw, throwThe, MonadExceptOf.throw, eq_comm]

private theorem readText_eq_error_iff :
    tree.readText path = .error failure ↔ tree.readExact path = .error failure := by
  rw [readText]
  cases tree.readExact path <;> simp [bind, Except.bind, pure, Except.pure]

/-- A file that is read is there. -/
theorem isThere_of_read (read : tree.read path = .ok bytes) : tree.isThere path = true := by
  obtain ⟨place, reached, found⟩ := read_eq_ok_iff.1 read
  simp [isThere, isFile, (reach_eq_ok_iff.1 reached).2, found]

/-- A file that is read may be looked at. -/
theorem look_of_read (read : tree.read path = .ok bytes) : tree.look path path = .ok () := by
  obtain ⟨place, reached, -⟩ := read_eq_ok_iff.1 read
  exact look_of_reach reached

theorem exists_of_readText {text : Text} (read : tree.readText path = .ok text) :
    ∃ bytes, tree.read path = .ok bytes := by
  cases exactly : tree.readExact path with
  | error failure =>
    rw [readText, exactly] at read
    cases read
  | ok content =>
    obtain ⟨bytes, read, -⟩ := readExact_eq_ok_iff.1 exactly
    exact ⟨bytes, read⟩

end FileTree

/-! ## Sources -/

/-- A path that cannot be located starts at an unknown home or holds a null character. -/
theorem Surroundings.eq_of_fault? (unknown : site.fault? path = some failure) :
    failure = .homeUnknown ∨ failure = .nullInPath := by
  rw [fault?] at unknown
  split at unknown
  · exact .inl (Option.some.inj unknown).symm
  · split at unknown
    · exact .inr (Option.some.inj unknown).symm
    · cases unknown

/-- A source names nothing, it is too long, or it cannot be located. -/
theorem Sources.eq_of_expand_eq_error {excluded : List Text} {source : Text}
    (fails : expand site tree excluded source = .error failure) :
    site.fault? (Path.ofText source) = some failure ∨ failure = .sourceMissing source ∨
      ∃ text, failure = .file .nameTooLong text := by
  simp only [expand] at fails
  split at fails
  · rename_i reason unknown
    exact .inl (unknown.trans (congrArg _ (Except.error.inj fails)))
  · split at fails
    · cases fails
    · rcases bind_eq_error_iff.1 fails with refused | ⟨_, -, fails⟩
      · exact .inr (.inr ⟨_, FileTree.eq_of_look_eq_error refused⟩)
      · split at fails
        · cases fails
        · split at fails
          · cases fails
          · exact .inr (.inl (Except.error.inj fails).symm)

/-! ## Stored catalogues -/

namespace Catalogue

variable {catalogue : Catalogue}

/-- A stored catalogue is not loaded if it cannot be looked for, if its file cannot be read as
a text, or if the text holds no catalogue. -/
theorem load_eq_error_iff : load tree path = .error failure ↔
    tree.look path path = .error failure ∨ tree.look path path = .ok () ∧ tree.isThere path = true ∧
    (tree.readExact path = .error failure ∨ ∃ text fault, tree.readText path = .ok text ∧
      deserialize text = .error fault ∧ failure = .catalogue path.toText fault) := by
  rw [load, check_eq_error_iff]
  refine or_congr_right (and_congr_right fun _ => ?_)
  cases tree.isThere path with
  | false => simp [pure, Except.pure]
  | true =>
    rw [if_neg (by simp), bind_eq_error_iff, FileTree.readText_eq_error_iff, and_iff_right rfl]
    refine or_congr_right (exists_congr fun text => ?_)
    cases deserialize text with
    | ok entries => simp [pure, Except.pure]
    | error fault => simp [throw, throwThe, MonadExceptOf.throw, eq_comm]

/-- A catalogue is not stored if the file system refuses, or if it holds surrogates. -/
theorem of_save_eq_error (fails : (catalogue.save tree path).1 = .error failure) :
    (∃ fault text, failure = .file fault text) ∨ tree.Accepts path ∧
      ∃ run, CodePoint.written catalogue.serialize = .error run ∧ failure = .unwritable run := by
  simp only [save] at fails
  split at fails
  · rename_i made
    exact .inl (FileTree.exists_of_makeDirectoriesFrom_eq_error ((congrArg Prod.fst made).trans fails))
  · rename_i ready made
    split at fails
    · rename_i wrote
      obtain rfl := Except.error.inj fails
      obtain ⟨fault, named⟩ := FileTree.exists_of_write_eq_error wrote
      exact .inl ⟨fault, _, named⟩
    · rename_i next wrote
      obtain ⟨place, reached, free, -⟩ := FileTree.write_eq_ok_iff.1 wrote
      refine .inr ⟨⟨ready, place, made, reached, free⟩, ?_⟩
      cases written : CodePoint.written catalogue.serialize with
      | ok text =>
        rw [written] at fails
        cases fails
      | error run =>
        rw [written] at fails
        exact ⟨run, rfl, (Except.error.inj fails).symm⟩

/-- A catalogue fails to be written where its place accepts one that is no text. -/
theorem save_unwritable_iff (straight : FileTree.Straight path.names) {run : SurrogateRun} :
    (catalogue.save tree path).1 = .error (.unwritable run) ↔
      tree.Accepts path ∧ CodePoint.written catalogue.serialize = .error run := by
  constructor
  · intro fails
    rcases of_save_eq_error fails with ⟨_, _, other⟩ | ⟨accepts, _, written, same⟩
    · cases other
    · cases same
      exact ⟨accepts, written⟩
  · rintro ⟨accepts, written⟩
    obtain ⟨_, -, saves⟩ := save_of_accepts straight accepts
    rw [saves, written]

end Catalogue

/-! ## Settings -/

namespace Yaml

private theorem eq_of_shownInteger_eq_error {number : Int}
    (fails : shownInteger number = .error failure) :
    failure = .numberTooLong := by
  unfold shownInteger at fails
  generalize Number.shownInteger? number = shown at fails
  cases shown with
  | none => exact (Except.error.inj fails).symm
  | some text => cases fails

private theorem eq_of_asText_eq_error (fails : value.asText = .error failure) :
    failure = .numberTooLong := by
  cases value with
  | int number =>
    rw [Value.asText] at fails
    cases shown : shownInteger number with
    | error reason =>
      rw [shown] at fails
      obtain rfl := Except.error.inj fails
      exact eq_of_shownInteger_eq_error shown
    | ok text =>
      rw [shown] at fails
      cases fails
  | _ => cases fails

private theorem eq_of_asTexts_eq_error {document : Document}
    (fails : document.asTexts value = .error failure) : failure = .numberTooLong := by
  rw [Document.asTexts.eq_def] at fails
  split at fails
  · cases fails
  · cases fails
  · split at fails
    · rename_i items _
      cases shown : items.mapM Value.asItem with
      | ok texts =>
        rw [shown] at fails
        cases fails
      | error reason =>
        rw [shown] at fails
        obtain rfl := Except.error.inj fails
        obtain ⟨item, -, itsFailure⟩ := Script.exists_of_mapM_eq_error shown
        rw [Value.asItem.eq_def] at itsFailure
        split at itsFailure
        · cases itsFailure
        · cases itsFailure
        · exact eq_of_asText_eq_error itsFailure
    · cases fails

end Yaml

namespace Project

variable {entries : Entries} {name content : Text} {root : Path}

/-- Whether a failure comes from a value that the checks of settings do not reach. -/
def isUnchecked : Failure → Bool
  | .scalar _ | .escape _ | .numberTooLong | .nullInPath => true
  | _ => false

private theorem eq_of_nameOr_eq_error {name : String} {default : Text}
    (fails : entries.nameOr name default = .error failure) : failure = .numberTooLong := by
  rw [Entries.nameOr] at fails
  split at fails
  · cases fails
  · rcases bind_eq_error_iff.1 fails with fails | ⟨_, -, fails⟩
    · exact Yaml.eq_of_asText_eq_error fails
    · cases fails

private theorem exists_of_keyLength_eq_error {default : Int}
    (fails : keyLength entries default = .error failure) : ∃ fault, failure = .settings fault := by
  rw [keyLength] at fails
  split at fails
  · cases fails
  · split at fails
    · split at fails
      · cases fails
      · exact ⟨_, (Except.error.inj fails).symm⟩
    · exact ⟨_, (Except.error.inj fails).symm⟩

private theorem of_loggingCalls_eq_error {default : List Text}
    (fails : loggingCalls entries default = .error failure) :
    (∃ fault, failure = .settings fault) ∨ failure = .numberTooLong := by
  rw [loggingCalls] at fails
  split at fails
  · cases fails
  · rcases bind_eq_error_iff.1 fails with fails | ⟨calls, -, fails⟩
    · exact .inr (Yaml.eq_of_asTexts_eq_error fails)
    · dsimp only at fails
      split at fails
      · cases fails
      · exact .inl ⟨_, (Except.error.inj fails).symm⟩

private theorem of_settingsOf_eq_error (fails : settingsOf entries = .error failure) :
    (∃ fault, failure = .settings fault) ∨ failure = .numberTooLong := by
  simp only [settingsOf, bind_eq_error_iff] at fails
  rcases fails with fails | ⟨_, -, fails | ⟨_, -, fails | ⟨_, -, fails | ⟨_, -, fails | ⟨_, -, fails |
    ⟨_, -, fails⟩⟩⟩⟩⟩⟩
  · exact .inl (exists_of_keyLength_eq_error fails)
  · exact .inr (eq_of_nameOr_eq_error fails)
  · exact .inr (eq_of_nameOr_eq_error fails)
  · exact of_loggingCalls_eq_error fails
  · exact .inr (eq_of_nameOr_eq_error fails)
  · exact .inr (eq_of_nameOr_eq_error fails)
  · split at fails
    · cases fails
    · rcases bind_eq_error_iff.1 fails with fails | ⟨_, -, fails⟩
      · exact .inr (Yaml.eq_of_asTexts_eq_error fails)
      · cases fails

private theorem of_entriesOf_eq_error (fails : entriesOf name content = .error failure) :
    (∃ fault, failure = .settings fault) ∨ isUnchecked failure = true := by
  rw [entriesOf] at fails
  split at fails
  · cases fails
  · split at fails
    · exact .inl ⟨_, (Except.error.inj fails).symm⟩
    · obtain rfl := Except.error.inj fails
      exact .inr rfl
    · obtain rfl := Except.error.inj fails
      exact .inr rfl
    · split at fails
      · cases fails
      · split at fails
        · cases fails
        · exact .inl ⟨_, (Except.error.inj fails).symm⟩

private theorem of_outputOf_eq_error (fails : outputOf site root entries = .error failure) :
    failure = .numberTooLong ∨ failure = .nullInPath := by
  rw [outputOf] at fails
  rcases bind_eq_error_iff.1 fails with fails | ⟨output, -, fails⟩
  · exact .inl (eq_of_nameOr_eq_error fails)
  · split at fails
    · obtain rfl := Except.error.inj fails
      exact .inr rfl
    · cases fails

/-- The content of a settings file is refused for a fault of the settings, or for a value
that their checks do not reach. -/
theorem of_ofFile_eq_error (fails : ofFile site root name content = .error failure) :
    (∃ fault, failure = .settings fault) ∨ isUnchecked failure = true := by
  rw [ofFile] at fails
  rcases bind_eq_error_iff.1 fails with fails | ⟨entries, -, fails⟩
  · exact of_entriesOf_eq_error fails
  · rcases bind_eq_error_iff.1 fails with fails | ⟨output, -, fails⟩
    · rcases of_outputOf_eq_error fails with rfl | rfl <;> exact .inr rfl
    · rcases bind_eq_error_iff.1 fails with fails | ⟨settings, -, fails⟩
      · rcases of_settingsOf_eq_error fails with fault | rfl
        · exact .inl fault
        · exact .inr rfl
      · cases fails

/-- Settings are not loaded if their path cannot be located, if their file cannot be looked
for or read as a text, or if its content is refused. -/
theorem load_eq_error_iff :
    load site tree path = .error failure ↔
      site.fault? path = some failure ∨
      site.fault? path = none ∧ (filePath site tree path = .error failure ∨
        ∃ file, filePath site tree path = .ok file ∧ (tree.look file file = .error failure ∨
          tree.look file file = .ok () ∧ tree.isThere file = true ∧
            (tree.readExact file = .error failure ∨ ∃ content, tree.readText file = .ok content ∧
              ofFile site file.parent file.name content = .error failure))) := by
  rw [load]
  cases site.fault? path with
  | some reason => simp [throw, throwThe, MonadExceptOf.throw, bind, Except.bind]
  | none =>
    simp only [reduceCtorEq, false_or, true_and]
    rw [bind_eq_error_iff]
    refine or_congr_right (exists_congr fun file => and_congr_right fun _ => ?_)
    rw [check_eq_error_iff]
    refine or_congr_right (and_congr_right fun _ => ?_)
    cases tree.isThere file with
    | false => simp [pure, Except.pure]
    | true =>
      rw [if_pos rfl, bind_eq_error_iff, FileTree.readText_eq_error_iff, and_iff_right rfl]

/-- The file of settings is not known where a name is too long. -/
theorem eq_of_filePath_eq_error (fails : filePath site tree path = .error failure) :
    ∃ text, failure = .file .nameTooLong text := by
  rw [filePath] at fails
  rcases bind_eq_error_iff.1 fails with refused | ⟨_, -, fails⟩
  · exact ⟨_, FileTree.eq_of_look_eq_error refused⟩
  · cases fails

end Project

/-! ## Documents -/

/-- No text in markup has an empty range. -/
theorem Markup.not_isEmptySpan_of_extract {scope : Scope} {stages : List Stage} {template : Text}
    (fails : (extract scope stages template).yield = .error failure) : ¬ Pass.IsEmptySpan failure := by
  rw [extract, Pass.yield_bind (registers_applyAll _ _ _) fun _ => .known _,
    bind_eq_error_iff] at fails
  rcases fails with fails | ⟨buffer, -, fails⟩
  · exact Stage.not_isEmptySpan_of_applyAll fails
  · rw [Pass.yield_known, Comment.restore, bind_eq_error_iff] at fails
    rintro ⟨_, rfl⟩
    rcases fails with fails | ⟨_, -, fails⟩
    · cases Comment.eq_missingComment_of_unmarked fails
    · cases fails

namespace Document

open Pass

variable {scope : Scope} {component : Component} {settings : Settings} {content : Text}

/-- Whether a failure comes from a text that extraction cannot take out or put back. -/
def isUnextractable : Failure → Bool
  | .escape _ | .unwritable _ | .missingComment | .unreadable _ => true
  | _ => false

private theorem isUnextractable_of_isUnreadable (unreadable : IsUnreadable failure)
    (proper : ¬ IsEmptySpan failure) : isUnextractable failure = true := by
  rcases unreadable.cases with ⟨_, rfl⟩ | ⟨_, rfl⟩ | isEmpty
  · rfl
  · rfl
  · exact absurd isEmpty proper

private theorem isUnextractable_of_templateEdits
    (fails : (templateEdits scope component).yield = .error failure) :
    isUnextractable failure = true := by
  revert fails
  rw [templateEdits]
  cases component.template with
  | none => exact fun fails => by cases fails
  | some region =>
    cases isHtml : region.isHtml with
    | false =>
      dsimp only
      rw [templateEdit, isHtml]
      exact fun fails => by cases fails
    | true =>
      dsimp only
      rw [yield_templateEdit isHtml]
      intro fails
      cases extracted : (Markup.extract scope Markup.Stage.all region.content).yield with
      | ok text =>
        rw [extracted] at fails
        cases fails
      | error reason =>
        rw [extracted] at fails
        obtain rfl := Except.error.inj fails
        rcases Markup.isUnreadable_or_missingComment_of_extract extracted with unreadable | rfl
        · exact isUnextractable_of_isUnreadable unreadable
            (Markup.not_isEmptySpan_of_extract extracted)
        · rfl

private theorem of_scriptEdits_eq_error
    (fails : (scriptEdits settings scope component).yield = .error failure) :
    (∃ name lang, failure = .syntaxFault name lang) ∨ isUnextractable failure = true := by
  obtain ⟨region, -, fails⟩ := scriptEdits_eq_error_iff.1 fails
  rw [yield_scriptEdit, bind_eq_error_iff, Script.parse_eq_error_iff] at fails
  rcases fails with ⟨-, rfl⟩ | ⟨tree, parsed, fails⟩
  · exact .inl ⟨_, _, rfl⟩
  · rcases bind_eq_error_iff.1 fails with fails | ⟨edits, -, fails⟩
    · exact .inr (isUnextractable_of_isUnreadable (Script.isUnreadable_of_calls fails)
        (Script.not_isEmptySpan_of_calls
          (Script.nested_of_parse? (Script.parse_eq_ok_iff.1 parsed)) fails))
    · rcases (regionEdit_eq_error_iff.1 fails).2 with fails | ⟨_, -, -, rfl⟩
      · obtain ⟨_, rfl⟩ := Script.exists_of_rewritten_eq_error fails
        exact .inr rfl
      · exact .inl ⟨_, _, rfl⟩

private theorem of_extractScript_eq_error
    (fails : (extractScript scope content).yield = .error failure) :
    (∃ name lang, failure = .syntaxFault name lang) ∨ isUnextractable failure = true := by
  rw [extractScript, yield_bind (registers_ofExcept _) fun _ =>
    .bind (Script.registers_extract _ _ _) fun _ => .bind (.note _ _ _ _) fun _ => .pure _,
    yield_ofExcept, bind_eq_error_iff, Script.parse_eq_error_iff] at fails
  rcases fails with ⟨-, rfl⟩ | ⟨tree, parsed, fails⟩
  · exact .inl ⟨_, _, rfl⟩
  · rw [yield_bind (Script.registers_extract _ _ _) fun _ => .bind (.note _ _ _ _) fun _ => .pure _,
      bind_eq_error_iff] at fails
    rcases fails with fails | ⟨_, -, fails⟩
    · rcases Script.of_extract_eq_error fails with fails | ⟨_, rfl⟩
      · exact .inr (isUnextractable_of_isUnreadable (Script.isUnreadable_of_calls fails)
          (Script.not_isEmptySpan_of_calls
            (Script.nested_of_parse? (Script.parse_eq_ok_iff.1 parsed)) fails))
      · exact .inr rfl
    · cases fails

/-- Extraction from a file fails for a script that is not in its language, or for a text that
cannot be taken out or put back. -/
theorem of_process_eq_error {cwd : Path} {catalogue : Catalogue}
    (fails : (process settings cwd path content catalogue).1 = .error failure) :
    (∃ name lang, failure = .syntaxFault name lang) ∨ isUnextractable failure = true := by
  rw [process_eq_error_iff, extract,
    (Emits.note _ _ _ _).yield_bind (registers_extractEither settings _ content)] at fails
  split at fails
  · rcases extractComponent_eq_error_iff.1 fails with fails | ⟨-, fails⟩
    · exact .inr (isUnextractable_of_templateEdits fails)
    · exact of_scriptEdits_eq_error fails
  · exact of_extractScript_eq_error fails

end Document

end Phrasebook
