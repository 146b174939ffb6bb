import Phrasebook.CommandLine
import Phrasebook.Proofs.Batch.Failing

/-!
# Failures that leave a run

The command line ends a run with a message when settings, a stored catalogue or a script
are at fault, when a source names nothing, and when the file system refuses. This module
says which failures leave a run all the same, and exactly when: a log file that cannot be
opened, a settings file whose name is too long, a path that cannot be located, a file that is
no text, a value in the settings file that is not checked, a number in the stored catalogue
that is not read, and a text that cannot be taken out, put back or stored. The file system is
one in which everything may be read and written.
-/

namespace Phrasebook.CommandLine

variable {site : Surroundings} {tree : FileTree} {path : Path} {failure : Failure}

/-! ## Settings -/

/-- Why stored settings end a run without a message. -/
inductive SettingsLeak (site : Surroundings) (tree : FileTree) (path : Path) : Failure → Prop
  | path {failure : Failure} (unknown : site.fault? path = some failure) :
    SettingsLeak site tree path failure
  | bytes {file : Path} {bytes : Bytes} {fault : Utf8.Fault}
    (located : site.fault? path = none)
    (known : Project.filePath site tree path = .ok file) (read : tree.read file = .ok bytes)
    (noText : Utf8.decode bytes = .error fault) :
    SettingsLeak site tree path (.unreadable fault)
  | value {file : Path} {content : Text} {failure : Failure}
    (located : site.fault? path = none)
    (known : Project.filePath site tree path = .ok file)
    (read : tree.readText file = .ok content)
    (refused : Project.ofFile site file.parent file.name content = .error failure)
    (unchecked : Project.isUnchecked failure = true) :
    SettingsLeak site tree path failure

private theorem handles_of_fault? (unknown : site.fault? path = some failure) :
    handles failure = false := by
  rcases Surroundings.eq_of_fault? unknown with rfl | rfl <;> rfl

private theorem handles_of_isUnchecked (unchecked : Project.isUnchecked failure = true) :
    handles failure = false := by
  cases failure with
  | scalar | escape | numberTooLong | nullInPath => rfl
  | _ => cases unchecked

/-- Of the reasons why a file is not read, only bytes that are no text go unhandled. -/
private theorem exists_of_readExact_eq_error (fails : tree.readExact path = .error failure)
    (unhandled : handles failure = false) :
    ∃ bytes fault, tree.read path = .ok bytes ∧ Utf8.decode bytes = .error fault ∧
      failure = .unreadable fault := by
  rcases FileTree.readExact_eq_error_iff.1 fails with fails | found
  · obtain ⟨_, rfl⟩ := FileTree.exists_of_read_eq_error fails
    cases unhandled
  · exact found

private theorem settingsLeak_iff : SettingsLeak site tree path failure ↔
    Project.load site tree path = .error failure ∧ handles failure = false := by
  rw [Project.load_eq_error_iff]
  constructor
  · intro leak
    cases leak with
    | path unknown => exact ⟨.inl unknown, handles_of_fault? unknown⟩
    | bytes located known read noText =>
      refine ⟨.inr ⟨located, .inr ⟨_, known, .inr ⟨FileTree.look_of_read read,
        FileTree.isThere_of_read read, .inl ?_⟩⟩⟩, rfl⟩
      exact FileTree.readExact_eq_error_iff.2 (.inr ⟨_, _, read, noText, rfl⟩)
    | value located known read refused unchecked =>
      obtain ⟨_, whole⟩ := FileTree.exists_of_readText read
      exact ⟨.inr ⟨located, .inr ⟨_, known, .inr ⟨FileTree.look_of_read whole,
        FileTree.isThere_of_read whole, .inr ⟨_, read, refused⟩⟩⟩⟩, handles_of_isUnchecked unchecked⟩
  · rintro ⟨unknown | ⟨located, fails | ⟨file, known, fails | ⟨-, -, fails |
      ⟨content, read, refused⟩⟩⟩⟩, unhandled⟩
    · exact .path unknown
    · obtain ⟨_, rfl⟩ := Project.eq_of_filePath_eq_error fails
      cases unhandled
    · obtain rfl := FileTree.eq_of_look_eq_error fails
      cases unhandled
    · obtain ⟨_, _, read, noText, rfl⟩ := exists_of_readExact_eq_error fails unhandled
      exact .bytes located known read noText
    · rcases Project.of_ofFile_eq_error refused with ⟨_, rfl⟩ | unchecked
      · cases unhandled
      · exact .value located known read refused unchecked

/-! ## Stored catalogues -/

/-- Why a stored catalogue ends a run without a message. -/
inductive CatalogueLeak (tree : FileTree) (path : Path) : Failure → Prop
  | bytes {bytes : Bytes} {fault : Utf8.Fault} (read : tree.read path = .ok bytes)
    (noText : Utf8.decode bytes = .error fault) : CatalogueLeak tree path (.unreadable fault)
  | number {text : Text} {digits : Nat} (read : tree.readText path = .ok text)
    (unread : Catalogue.deserialize text = .error (.longNumber digits)) :
    CatalogueLeak tree path (.catalogue path.toText (.longNumber digits))

private theorem catalogueLeak_iff : CatalogueLeak tree path failure ↔
    Catalogue.load tree path = .error failure ∧ handles failure = false := by
  rw [Catalogue.load_eq_error_iff]
  constructor
  · intro leak
    cases leak with
    | bytes read noText =>
      refine ⟨.inr ⟨FileTree.look_of_read read, FileTree.isThere_of_read read, .inl ?_⟩, rfl⟩
      exact FileTree.readExact_eq_error_iff.2 (.inr ⟨_, _, read, noText, rfl⟩)
    | number read unread =>
      obtain ⟨_, whole⟩ := FileTree.exists_of_readText read
      exact ⟨.inr ⟨FileTree.look_of_read whole, FileTree.isThere_of_read whole,
        .inr ⟨_, _, read, unread, rfl⟩⟩, rfl⟩
  · rintro ⟨fails | ⟨-, -, fails | ⟨text, fault, read, unread, rfl⟩⟩, unhandled⟩
    · obtain rfl := FileTree.eq_of_look_eq_error fails
      cases unhandled
    · obtain ⟨_, _, read, noText, rfl⟩ := exists_of_readExact_eq_error fails unhandled
      exact .bytes read noText
    · cases fault with
      | longNumber digits => exact .number read unread
      | _ => cases unhandled

/-! ## Files -/

/-- Why a file ends a run without a message. -/
inductive FileLeak (ctx : Batch.Context) (tree : FileTree) (path : Path) : Failure → Prop
  | bytes {bytes : Bytes} {fault : Utf8.Fault} (read : tree.read path = .ok bytes)
    (noText : Utf8.decode bytes = .error fault) : FileLeak ctx tree path (.unreadable fault)
  | text {content : Text} {failure : Failure} (read : tree.readExact path = .ok content)
    (refused : (Document.process ctx.settings ctx.site.cwd path content {}).1 = .error failure)
    (unextractable : Document.isUnextractable failure = true) : FileLeak ctx tree path failure

private theorem handles_of_isUnextractable
    (unextractable : Document.isUnextractable failure = true) :
    handles failure = false := by
  cases failure with
  | escape | unwritable | missingComment | unreadable => rfl
  | _ => cases unextractable

private theorem fileLeak_iff {ctx : Batch.Context} : FileLeak ctx tree path failure ↔
    Batch.outcomeOf ctx tree path = .error failure ∧ handles failure = false := by
  rw [Batch.outcomeOf, Failure.bind_eq_error_iff]
  constructor
  · intro leak
    cases leak with
    | bytes read noText =>
      exact ⟨.inl (FileTree.readExact_eq_error_iff.2 (.inr ⟨_, _, read, noText, rfl⟩)), rfl⟩
    | text read refused unextractable =>
      exact ⟨.inr ⟨_, read, refused⟩, handles_of_isUnextractable unextractable⟩
  · rintro ⟨fails | ⟨content, read, refused⟩, unhandled⟩
    · obtain ⟨_, _, read, noText, rfl⟩ := exists_of_readExact_eq_error fails unhandled
      exact .bytes read noText
    · rcases Document.of_process_eq_error refused with ⟨_, _, rfl⟩ | unextractable
      · cases unhandled
      · exact .text read refused unextractable

/-! ## The end of a batch -/

section Finish

variable {ctx : Batch.Context} {output : Path} {start : Batch.Progress} {paths : List Path}

/-- Why the files of a batch end a run without a message. The catalogue is stored in between
unless files are left alone, and must not be refused then. -/
structure FilesLeak (ctx : Batch.Context) (output : Path) (start : Batch.Progress)
    (paths : List Path) (failure : Failure) : Prop where
  fails : ∃ before path after, paths = before ++ path :: after ∧
    (Batch.takeFiles ctx start before).2 = none ∧ Document.isSupported path = true ∧
    FileLeak ctx (Batch.takeFiles ctx start before).1.tree path failure
  stores : ctx.dryRun = true ∨ (Batch.takeFiles ctx start paths).1.catalogue.IsText ∧
    (Batch.takeFiles ctx start paths).1.tree.Accepts output

/-- Why the catalogue of a batch ends a run without a message: it holds surrogates, and is
about to be written. -/
structure StoreLeak (ctx : Batch.Context) (output : Path) (progress : Batch.Progress)
    (failure : Failure) : Prop where
  wet : ctx.dryRun = false
  accepts : progress.tree.Accepts output
  surrogates : ∃ run, CodePoint.written progress.catalogue.serialize = .error run ∧
    failure = .unwritable run

/-- A failure that leaks from files leaks from the first that fails. -/
private theorem takeFiles_leak_iff :
    (Batch.takeFiles ctx start paths).2 = some failure ∧ handles failure = false ↔
      ∃ before path after, paths = before ++ path :: after ∧
        (Batch.takeFiles ctx start before).2 = none ∧ Document.isSupported path = true ∧
        FileLeak ctx (Batch.takeFiles ctx start before).1.tree path failure := by
  constructor
  · rintro ⟨fails, unhandled⟩
    obtain ⟨before, path, after, split, passed, supported, refused⟩ :=
      Batch.exists_of_takeFiles_eq_some fails
    refine ⟨before, path, after, split, passed, supported, fileLeak_iff.2 ⟨?_, unhandled⟩⟩
    rcases Batch.of_handled_eq_error refused with failed | ⟨_, _, rfl⟩
    · exact failed
    · cases unhandled
  · rintro ⟨before, path, after, rfl, passed, supported, leak⟩
    obtain ⟨failed, unhandled⟩ := fileLeak_iff.1 leak
    obtain ⟨_, took⟩ := Batch.takeFiles_of_handled_eq_error passed supported
      (Batch.handled_of_error failed) after
    rw [took]
    exact ⟨rfl, unhandled⟩

/-- A batch that is not refused its catalogue ends as its files do. -/
theorem finish_leak_iff (straight : FileTree.Straight output.names) :
    (Batch.finish ctx output start paths).1 = .error failure ∧ handles failure = false ↔
      FilesLeak ctx output start paths failure ∨
      StoreLeak ctx output (Batch.takeFiles ctx start paths).1 failure := by
  have files : FilesLeak ctx output start paths failure ↔
      ((Batch.takeFiles ctx start paths).2 = some failure ∧ handles failure = false) ∧
        (ctx.dryRun = true ∨ (Batch.takeFiles ctx start paths).1.catalogue.IsText ∧
          (Batch.takeFiles ctx start paths).1.tree.Accepts output) := by
    rw [takeFiles_leak_iff]
    exact ⟨fun leak => ⟨leak.fails, leak.stores⟩, fun leak => ⟨leak.1, leak.2⟩⟩
  rw [files]
  cases dry : ctx.dryRun with
  | true =>
    have noStore : ¬ StoreLeak ctx output (Batch.takeFiles ctx start paths).1 failure :=
      fun leak => Bool.noConfusion (dry.symm.trans leak.wet)
    rw [Batch.finish_of_dry output dry, or_iff_left noStore]
    cases (Batch.takeFiles ctx start paths).2 <;> simp
  | false =>
    rw [(Batch.finish_eq_of_wet output dry rfl).2]
    simp only [Bool.false_eq_true, false_or, ← Catalogue.save_eq_ok_iff straight]
    cases saved : ((Batch.takeFiles ctx start paths).1.catalogue.save
        (Batch.takeFiles ctx start paths).1.tree output).1 with
    | ok stored =>
      have noStore : ¬ StoreLeak ctx output (Batch.takeFiles ctx start paths).1 failure := by
        rintro ⟨-, accepts, run, written, -⟩
        rw [(Catalogue.save_unwritable_iff straight).2 ⟨accepts, written⟩] at saved
        cases saved
      rw [or_iff_left noStore]
      cases (Batch.takeFiles ctx start paths).2 <;> simp
    | error refusal =>
      -- A catalogue that is refused takes the place of the failure of a file.
      simp only [Except.error.injEq, reduceCtorEq, and_false, false_or]
      constructor
      · rintro ⟨rfl, unhandled⟩
        rcases Catalogue.of_save_eq_error saved with ⟨_, _, rfl⟩ | ⟨accepts, run, written, rfl⟩
        · cases unhandled
        · exact ⟨dry, accepts, run, written, rfl⟩
      · rintro ⟨-, accepts, run, written, rfl⟩
        rw [(Catalogue.save_unwritable_iff straight).2 ⟨accepts, written⟩] at saved
        exact ⟨(Except.error.inj saved).symm, rfl⟩

end Finish

/-! ## The whole run -/

section Run

variable (setting : Setting) (args : Arguments) (tree : FileTree) {ready : FileTree}

/-- What arguments ask a batch to do. -/
abbrev requestOf : Batch.Request :=
  ⟨args.source, args.output, args.dryRun⟩

/-- Whether a run gets to its settings: the log file is open, and a settings file that is
named exists. -/
structure Begins (ready : FileTree) : Prop where
  opened : openLog setting tree args.logFile = .ok ready
  present : missingConfig? setting.site args ready = .ok none

/-- Whether a run gets to its batch: the settings are loaded. -/
structure Prepares (ready : FileTree) (project : Project) : Prop
    extends Begins setting args tree ready where
  loaded : Project.load setting.site ready
    (args.config.getD setting.site.cwd) = .ok project

/-- Whether a run gets to its stored catalogue: its files are known. -/
structure Finds (ready : FileTree) (project : Project) (paths : List Path) (warnings : Journal) : Prop
    extends Prepares setting args tree ready project where
  files : Batch.filesOf setting.site project (requestOf args) ready = .ok (paths, warnings)

/-- Whether a run gets to its files: the stored catalogue is loaded, and the first file is
about to be taken. -/
def Starts (ready : FileTree) (project : Project) (paths : List Path) (start : Batch.Progress) :
    Prop :=
  ∃ warnings catalogue loaded, Finds setting args tree ready project paths warnings ∧
    Catalogue.load ready (Batch.outputOf setting.site project (requestOf args)) =
      .ok (catalogue, loaded) ∧
    start = Batch.start (requestOf args) ready paths warnings catalogue loaded

/-- Why a run ends without a message, in the order of what it does. -/
inductive Leak : Failure → Prop
  | log {failure : Failure} (refused : openLog setting tree args.logFile = .error failure) :
    Leak failure
  | config {ready : FileTree} {failure : Failure}
    (opened : openLog setting tree args.logFile = .ok ready)
    (refused : missingConfig? setting.site args ready = .error failure) : Leak failure
  | settings {ready : FileTree} {failure : Failure} (begins : Begins setting args tree ready)
    (leak : SettingsLeak setting.site ready
      (args.config.getD setting.site.cwd) failure) : Leak failure
  | output {ready : FileTree} {project : Project} {failure : Failure}
    (prepares : Prepares setting args tree ready project)
    (unknown : setting.site.fault? (args.output.getD project.output) = some failure) :
    Leak failure
  | source {ready : FileTree} {project : Project} {failure : Failure}
    (prepares : Prepares setting args tree ready project)
    (located : setting.site.fault? (args.output.getD project.output) = none)
    (unknown : setting.site.fault? (Path.ofText args.source) = some failure) :
    Leak failure
  | catalogue {ready : FileTree} {project : Project} {paths : List Path} {warnings : Journal}
    {failure : Failure} (finds : Finds setting args tree ready project paths warnings)
    (leak : CatalogueLeak ready
      (Batch.outputOf setting.site project (requestOf args)) failure) : Leak failure
  | files {ready : FileTree} {project : Project} {paths : List Path} {start : Batch.Progress}
    {failure : Failure} (starts : Starts setting args tree ready project paths start)
    (leak : FilesLeak (Batch.contextOf setting.site project (requestOf args))
      (Batch.outputOf setting.site project (requestOf args)) start paths failure) :
    Leak failure
  | store {ready : FileTree} {project : Project} {paths : List Path} {start : Batch.Progress}
    {failure : Failure} (starts : Starts setting args tree ready project paths start)
    (leak : StoreLeak (Batch.contextOf setting.site project (requestOf args))
      (Batch.outputOf setting.site project (requestOf args))
      (Batch.takeFiles (Batch.contextOf setting.site project (requestOf args))
        start paths).1 failure) : Leak failure

/-- How a run with an open log file ends. -/
theorem runOpen_cases :
    (∃ failure, missingConfig? setting.site args tree = .error failure ∧
      (runOpen setting args tree).ending = .failure failure) ∨
    (∃ path, missingConfig? setting.site args tree = .ok (some path) ∧
      (runOpen setting args tree).ending = .exit 1 ∧
      (runOpen setting args tree).reported =
        "Config file not found: ".toList ++ path.toText ++ ['\n']) ∨
    missingConfig? setting.site args tree = .ok none ∧
      ((∃ report, (runBatch setting.site args tree).1 = .ok report ∧
        (runOpen setting args tree).ending = .exit 0) ∨
      ∃ failure, (runBatch setting.site args tree).1 = .error failure ∧
        (handles failure = true ∧ (runOpen setting args tree).ending = .exit 1 ∧
            failureText failure <:+ (runOpen setting args tree).reported ∨
          handles failure = false ∧ (runOpen setting args tree).ending = .failure failure)) := by
  rw [runOpen]
  rcases missingConfig? setting.site args tree with failure | _ | path
  · exact .inl ⟨failure, rfl, rfl⟩
  · refine .inr (.inr ⟨rfl, ?_⟩)
    dsimp only
    cases (runBatch setting.site args tree).1 with
    | ok report => exact .inl ⟨report, rfl, rfl⟩
    | error failure =>
      refine .inr ⟨failure, rfl, ?_⟩
      dsimp only
      cases handled : handles failure with
      | true => exact .inl ⟨rfl, by rw [if_pos rfl], by rw [if_pos rfl]; exact List.suffix_append _ _⟩
      | false => exact .inr ⟨rfl, by rw [if_neg Bool.false_ne_true]⟩
  · exact .inr (.inl ⟨path, rfl, rfl, rfl⟩)

private theorem runBatch_eq_error_iff {setting : Setting} {args : Arguments}
    {tree : FileTree} :
    (runBatch setting.site args tree).1 = .error failure ↔ Project.load setting.site tree
          (args.config.getD setting.site.cwd) = .error failure ∨
      ∃ project, Project.load setting.site tree
          (args.config.getD setting.site.cwd) = .ok project ∧
        (Batch.run setting.site project (requestOf args) tree).1 = .error failure := by
  rw [runBatch]
  cases Project.load setting.site tree
    (args.config.getD setting.site.cwd) <;> simp

variable {setting args tree}

/-- A run with an open log file is left where its settings file cannot be looked for, and by
the failures of its batch that are not handled. -/
theorem runOpen_failure_iff :
    (runOpen setting args tree).ending = .failure failure ↔
      missingConfig? setting.site args tree = .error failure ∨
      missingConfig? setting.site args tree = .ok none ∧
        (runBatch setting.site args tree).1 = .error failure ∧ handles failure = false := by
  rcases runOpen_cases setting args tree with ⟨reason, refused, ending⟩ |
    ⟨path, missing, ending, -⟩ | ⟨present, ran⟩
  · simp [refused, ending]
  · simp [missing, ending]
  · rw [present, and_iff_right rfl, or_iff_right nofun]
    rcases ran with ⟨report, done, ending⟩ |
      ⟨reason, fails, ⟨handled, ending, -⟩ | ⟨unhandled, ending⟩⟩
    · simp [done, ending]
    · rw [fails, ending]
      simp only [reduceCtorEq, Except.error.injEq, false_iff, not_and]
      rintro rfl
      simp [handled]
    · rw [fails, ending, Ending.failure.injEq, Except.error.injEq]
      exact ⟨fun same => ⟨same, same ▸ unhandled⟩, And.left⟩

/-- The failures of a batch that are not handled, stage by stage. -/
theorem leak_of_runBatch (begins : Begins setting args tree ready)
    (fails : (runBatch setting.site args ready).1 = .error failure)
    (unhandled : handles failure = false) : Leak setting args tree failure := by
  rcases runBatch_eq_error_iff.1 fails with fails | ⟨project, loaded, fails⟩
  · exact .settings begins (settingsLeak_iff.2 ⟨fails, unhandled⟩)
  have prepares : Prepares setting args tree ready project := ⟨begins, loaded⟩
  rcases Batch.run_eq_error_iff.1 fails with fails | ⟨paths, warnings, files, fails⟩
  · rcases Batch.filesOf_eq_error_iff.1 fails with unknown | ⟨located, fails⟩
    · exact .output prepares unknown
    rcases Sources.eq_of_expand_eq_error fails with unknown | rfl | ⟨_, rfl⟩
    · exact .source prepares located unknown
    · cases unhandled
    · cases unhandled
  have finds : Finds setting args tree ready project paths warnings := ⟨prepares, files⟩
  rcases fails with fails | ⟨catalogue, loaded, load, fails⟩
  · exact .catalogue finds (catalogueLeak_iff.2 ⟨fails, unhandled⟩)
  have starts : Starts setting args tree ready project paths _ :=
    ⟨warnings, catalogue, loaded, finds, load, rfl⟩
  rcases (finish_leak_iff (Batch.straight_outputOf _ _ _)).1 ⟨fails, unhandled⟩ with leak | leak
  · exact .files starts leak
  · exact .store starts leak

private theorem Prepares.runBatch_eq_error {project : Project}
    (prepares : Prepares setting args tree ready project)
    (fails : (Batch.run setting.site project (requestOf args) ready).1 = .error failure) :
    (runBatch setting.site args ready).1 = .error failure :=
  runBatch_eq_error_iff.2 (.inr ⟨project, prepares.loaded, fails⟩)

private theorem Starts.exists_runBatch_eq_error {project : Project} {paths : List Path}
    {start : Batch.Progress} (starts : Starts setting args tree ready project paths start)
    (leak : FilesLeak (Batch.contextOf setting.site project (requestOf args))
        (Batch.outputOf setting.site project (requestOf args)) start paths failure ∨
      StoreLeak (Batch.contextOf setting.site project (requestOf args))
        (Batch.outputOf setting.site project (requestOf args))
        (Batch.takeFiles (Batch.contextOf setting.site project (requestOf args))
          start paths).1 failure) :
    Begins setting args tree ready ∧
      (runBatch setting.site args ready).1 = .error failure ∧ handles failure = false := by
  obtain ⟨warnings, catalogue, loaded, finds, load, rfl⟩ := starts
  obtain ⟨fails, unhandled⟩ := (finish_leak_iff (Batch.straight_outputOf _ _ _)).2 leak
  refine ⟨finds.toBegins, finds.toPrepares.runBatch_eq_error ?_, unhandled⟩
  exact Batch.run_eq_error_iff.2 (.inr ⟨paths, warnings, finds.files,
    .inr ⟨catalogue, loaded, load, fails⟩⟩)

/-- Behind an open log file and a settings file that was looked for, what ends a run without a
message is a failure of its batch. -/
theorem Leak.refused_or_runBatch_eq_error (leak : Leak setting args tree failure) :
    openLog setting tree args.logFile = .error failure ∨
      (∃ ready, openLog setting tree args.logFile = .ok ready ∧
        missingConfig? setting.site args ready = .error failure) ∨
      ∃ ready, Begins setting args tree ready ∧
        (runBatch setting.site args ready).1 = .error failure ∧ handles failure = false := by
  cases leak with
  | log refused => exact .inl refused
  | config opened refused => exact .inr (.inl ⟨_, opened, refused⟩)
  | settings begins leak =>
    obtain ⟨fails, unhandled⟩ := settingsLeak_iff.1 leak
    exact .inr (.inr ⟨_, begins, runBatch_eq_error_iff.2 (.inl fails), unhandled⟩)
  | output prepares unknown =>
    refine .inr (.inr ⟨_, prepares.toBegins, prepares.runBatch_eq_error ?_,
      handles_of_fault? unknown⟩)
    exact Batch.run_eq_error_iff.2 (.inl (Batch.filesOf_eq_error_iff.2 (.inl unknown)))
  | source prepares located unknown =>
    refine .inr (.inr ⟨_, prepares.toBegins, prepares.runBatch_eq_error ?_,
      handles_of_fault? unknown⟩)
    refine Batch.run_eq_error_iff.2 (.inl (Batch.filesOf_eq_error_iff.2 (.inr ⟨located, ?_⟩)))
    rw [Sources.expand, unknown]
  | catalogue finds leak =>
    obtain ⟨fails, unhandled⟩ := catalogueLeak_iff.1 leak
    refine .inr (.inr ⟨_, finds.toBegins, finds.toPrepares.runBatch_eq_error ?_, unhandled⟩)
    exact Batch.run_eq_error_iff.2 (.inr ⟨_, _, finds.files, .inl fails⟩)
  | files starts leak => exact .inr (.inr ⟨_, starts.exists_runBatch_eq_error (.inl leak)⟩)
  | store starts leak => exact .inr (.inr ⟨_, starts.exists_runBatch_eq_error (.inr leak)⟩)

/-- A failure leaves a run exactly when it leaks. -/
private theorem runArguments_failure_iff :
    (runArguments setting args tree).ending = .failure failure ↔
      Leak setting args tree failure := by
  rw [runArguments]
  cases opened : openLog setting tree args.logFile with
  | error reason =>
    dsimp only
    rw [Ending.failure.injEq]
    constructor
    · rintro rfl
      exact .log opened
    · intro leak
      rcases leak.refused_or_runBatch_eq_error with refused | ⟨_, other, -⟩ | ⟨ready, begins, -⟩
      · exact Except.error.inj (opened.symm.trans refused)
      · cases opened.symm.trans other
      · cases opened.symm.trans begins.opened
  | ok ready =>
    dsimp only
    rw [runOpen_failure_iff]
    constructor
    · rintro (refused | ⟨present, fails, unhandled⟩)
      · exact .config opened refused
      · exact leak_of_runBatch ⟨opened, present⟩ fails unhandled
    · intro leak
      rcases leak.refused_or_runBatch_eq_error with refused | ⟨other, same, refused⟩ |
        ⟨other, begins, fails, unhandled⟩
      · cases opened.symm.trans refused
      · obtain rfl := Except.ok.inj (opened.symm.trans same)
        exact .inl refused
      · obtain rfl := Except.ok.inj (opened.symm.trans begins.opened)
        exact .inr ⟨begins.present, fails, unhandled⟩

/-- A run with arguments that ends with a code has succeeded, or a message says why not. -/
theorem code_of_runArguments {code : Nat}
    (ending : (runArguments setting args tree).ending = .exit code) :
    code = 0 ∨ code = 1 ∧ ((∃ path : Path, (runArguments setting args tree).reported =
        "Config file not found: ".toList ++ path.toText ++ ['\n']) ∨
      ∃ failure, handles failure = true ∧
        failureText failure <:+ (runArguments setting args tree).reported) := by
  rw [runArguments] at ending ⊢
  cases opened : openLog setting tree args.logFile with
  | error reason =>
    rw [opened] at ending
    cases ending
  | ok ready =>
    rw [opened] at ending
    dsimp only at ending ⊢
    rcases runOpen_cases setting args ready with ⟨_, -, leaves⟩ | ⟨path, -, isOne, message⟩ |
      ⟨-, ⟨_, -, isZero⟩ | ⟨failure, -, ⟨handled, isOne, message⟩ | ⟨-, leaves⟩⟩⟩
    · cases ending.symm.trans leaves
    · obtain rfl := Ending.exit.inj (ending.symm.trans isOne)
      exact .inr ⟨rfl, .inl ⟨path, message⟩⟩
    · obtain rfl := Ending.exit.inj (ending.symm.trans isZero)
      exact .inl rfl
    · obtain rfl := Ending.exit.inj (ending.symm.trans isOne)
      exact .inr ⟨rfl, .inr ⟨failure, handled, message⟩⟩
    · cases ending.symm.trans leaves

end Run

/-- Whether a failure can leave a run whose log file is open and whose settings file was looked
for. -/
def slips : Failure → Bool
  | .homeUnknown | .nullInPath | .unreadable _ | .scalar _ | .numberTooLong | .escape _
  | .catalogue _ (.longNumber _) | .unwritable _ | .missingComment => true
  | _ => false

/-- Only a name that is too long keeps a settings file from being looked for. -/
theorem exists_of_missingConfig?_eq_error {site : Surroundings} {args : Arguments}
    {tree : FileTree} {failure : Failure}
    (refused : missingConfig? site args tree = .error failure) :
    ∃ path, args.config = some path ∧ failure = .file .nameTooLong path.toText := by
  rw [missingConfig?] at refused
  split at refused
  · cases refused
  · rename_i path named
    rcases Failure.bind_eq_error_iff.1 refused with refused | ⟨_, -, refused⟩
    · exact ⟨path, named, FileTree.eq_of_look_eq_error refused⟩
    · cases refused

private theorem Leak.slips_or_refused {setting : Setting} {args : Arguments} {tree : FileTree}
    {failure : Failure} (leak : Leak setting args tree failure) :
    slips failure = true ∨ openLog setting tree args.logFile = .error failure ∨
      ∃ path, args.config = some path ∧ failure = .file .nameTooLong path.toText := by
  have ofFault {site : Surroundings} {path : Path}
      (unknown : site.fault? path = some failure) : slips failure = true := by
    rcases Surroundings.eq_of_fault? unknown with rfl | rfl <;> rfl
  cases leak with
  | log refused => exact .inr (.inl refused)
  | config opened refused => exact .inr (.inr (exists_of_missingConfig?_eq_error refused))
  | settings begins leak =>
    cases leak with
    | path unknown => exact .inl (ofFault unknown)
    | bytes => exact .inl rfl
    | value _ _ _ _ unchecked =>
      cases failure with
      | scalar | escape | numberTooLong | nullInPath => exact .inl rfl
      | _ => cases unchecked
  | output prepares unknown => exact .inl (ofFault unknown)
  | source prepares located unknown => exact .inl (ofFault unknown)
  | catalogue finds leak => cases leak <;> exact .inl rfl
  | files starts leak =>
    obtain ⟨_, _, _, -, -, -, leak⟩ := leak.fails
    cases leak with
    | bytes => exact .inl rfl
    | text _ _ unextractable =>
      cases failure with
      | escape | unwritable | missingComment | unreadable => exact .inl rfl
      | _ => cases unextractable
  | store starts leak =>
    obtain ⟨_, -, rfl⟩ := leak.surrogates
    exact .inl rfl

/-- A run is left by a failure exactly where one of its stages leaks: refusals by the file
system leave it from the log file, and from a settings file whose name is too long to look for
it; faults of settings, catalogues, scripts and sources never do. Any other run ends with a
code: with one, behind a message, when the settings file is missing or the failure is handled,
and with two when its words are misused. -/
theorem run_failure_iff (setting : Setting) (words : List Text) (tree : FileTree) :
    (∀ failure, (run setting words tree).ending = .failure failure ↔
      ∃ args, Arguments.ofWords words = .ok args ∧ Leak setting args tree failure) ∧
    (∀ failure, (run setting words tree).ending = .failure failure → slips failure = true ∨
      ∃ args, Arguments.ofWords words = .ok args ∧
        (openLog setting tree args.logFile = .error failure ∨
          ∃ path, args.config = some path ∧ failure = .file .nameTooLong path.toText)) ∧
    ∀ code, (run setting words tree).ending = .exit code →
      code = 0 ∨
      code = 1 ∧ ((∃ path : Path, (run setting words tree).reported =
          "Config file not found: ".toList ++ path.toText ++ ['\n']) ∨
        ∃ failure, handles failure = true ∧ failureText failure <:+
          (run setting words tree).reported) ∨
      code = 2 ∧ ∃ misuse, Arguments.ofWords words = .error (.misuse misuse) := by
  have leaves (failure : Failure) : (run setting words tree).ending = .failure failure ↔
      ∃ args, Arguments.ofWords words = .ok args ∧ Leak setting args tree failure := by
    rw [run]
    cases Arguments.ofWords words with
    | ok args => simp [runArguments_failure_iff]
    | error ending => cases ending <;> simp
  refine ⟨leaves, fun failure left => ?_, fun code ending => ?_⟩
  · obtain ⟨args, read, leak⟩ := (leaves failure).1 left
    exact leak.slips_or_refused.imp_right fun refused => ⟨args, read, refused⟩
  · revert ending
    rw [run]
    cases read : Arguments.ofWords words with
    | ok args =>
      exact fun ending => (code_of_runArguments ending).imp_right .inl
    | error refusal =>
      cases refusal with
      | help => exact fun ending => .inl (Ending.exit.inj ending).symm
      | misuse misuse =>
        exact fun ending => .inr (.inr ⟨(Ending.exit.inj ending).symm, misuse, rfl⟩)

/-- A log file in a directory that does not exist is refused, and nothing handles that. -/
theorem run_failure_iff_missingLogs :
    (run ⟨⟨Sources.pathOf [], Sources.pathOf []⟩, []⟩
      ["src".toList, "--log-file".toList, "logs/run.log".toList] {}).ending =
      .failure (.file .notFound "/logs/run.log".toList) := by
  refine ((run_failure_iff _ _ _).1 _).2 ⟨?_, ?_, .log ?_⟩
  · exact { source := "src".toList, logFile := some (Path.ofText "logs/run.log".toList) }
  · rfl
  · rfl

end Phrasebook.CommandLine
