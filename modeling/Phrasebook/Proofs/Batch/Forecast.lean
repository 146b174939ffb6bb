import Phrasebook.Proofs.Batch.Run

/-!
# What a dry run forecasts

A batch that leaves files alone is a rehearsal: it goes through the same files in the same
way as one that changes them. The real batch reads its later files from a tree in which
earlier ones have been written, but none of those is read again. Only storing the
catalogue at the end is not rehearsed. Reports in the journal are not described here.
-/

namespace Phrasebook.Batch

open List FileTree

variable {rehearsed real : Progress}

/-- The same batch when it leaves files alone. -/
def rehearsal (ctx : Context) : Context :=
  { ctx with dryRun := true }

/-- Whether a real batch stands where its rehearsal stood, apart from tree and journal. -/
structure Matches (rehearsed real : Progress) : Prop where
  catalogue : real.catalogue = rehearsed.catalogue
  outcomes : real.outcomes = rehearsed.outcomes
  skipped : real.skipped = rehearsed.skipped

/-- The real report differs from the rehearsed one in saying that it is real. -/
theorem Matches.reportOf (matching : Matches rehearsed real) (output : Path) :
    Batch.reportOf false output real =
      { Batch.reportOf true output rehearsed with dryRun := false } := by
  simp only [Batch.reportOf, matching.catalogue, matching.outcomes, matching.skipped]

/-- In a proper tree, a file that can be processed can be put back. -/
theorem handled_of_isProper (ctx : Context) {tree : FileTree} (proper : tree.IsProper)
    (path : Path) : handled ctx tree path = outcomeOf ctx tree path := by
  cases processed : outcomeOf ctx tree path with
  | error failure => exact handled_of_error processed
  | ok outcome =>
    obtain ⟨rfl, read⟩ := outcomeOf_eq_ok processed
    obtain ⟨next, record, committed, -⟩ := commit_of_read ctx proper read
    exact handled_eq_ok_iff.mpr ⟨processed, _, committed⟩

/-- How a file fares decides what it does to catalogue and outcomes. -/
theorem takeFile_of_handled (ctx : Context) (progress : Progress) (path : Path) :
    match handled ctx progress.tree path with
    | .error failure => ∃ journal,
        takeFile ctx progress path = ({ progress with journal }, some failure)
    | .ok outcome => ∃ tree journal, takeFile ctx progress path =
        ({ progress with
            tree, journal,
            catalogue := (progress.catalogue.absorb (Catalogue.ofEntries outcome.entries).1).1,
            outcomes := progress.outcomes ++ [outcome] }, none) := by
  rcases takeFile_cases ctx progress path with
    ⟨failure, journal, failed, took⟩ | ⟨outcome, tree, record, journal, processed, committed, took⟩
  · rw [failed]
    exact ⟨journal, took⟩
  · rw [handled_eq_ok_iff.mpr ⟨processed, _, committed⟩]
    exact ⟨tree, journal, took⟩

/-- A file that reads as it was rehearsed fares as it was rehearsed. -/
theorem Matches.takeFile (matching : Matches rehearsed real) (ctx : Context)
    (properFirst : rehearsed.tree.IsProper) (proper : real.tree.IsProper) {path : Path}
    (found : real.tree.read path = rehearsed.tree.read path) :
    (Batch.takeFile ctx real path).2 = (Batch.takeFile (rehearsal ctx) rehearsed path).2 ∧
      Matches (Batch.takeFile (rehearsal ctx) rehearsed path).1
        (Batch.takeFile ctx real path).1 := by
  have alike : handled (rehearsal ctx) rehearsed.tree path = handled ctx real.tree path := by
    rw [handled_of_isProper ctx proper, handled_of_isProper (rehearsal ctx) properFirst]
    simp only [outcomeOf, readExact, found, rehearsal]
  have took := takeFile_of_handled ctx real path
  have foretold := takeFile_of_handled (rehearsal ctx) rehearsed path
  rw [alike] at foretold
  cases fared : handled ctx real.tree path with
  | error failure =>
    rw [fared] at took foretold
    obtain ⟨_, took⟩ := took
    obtain ⟨_, foretold⟩ := foretold
    rw [took, foretold]
    exact ⟨rfl, matching.catalogue, matching.outcomes, matching.skipped⟩
  | ok outcome =>
    rw [fared] at took foretold
    obtain ⟨_, _, took⟩ := took
    obtain ⟨_, _, foretold⟩ := foretold
    rw [took, foretold, matching.catalogue, matching.outcomes]
    exact ⟨rfl, rfl, rfl, matching.skipped⟩

/-- Files at different places fare as they were rehearsed, up to the first that fails. -/
theorem Matches.takeFiles (matching : Matches rehearsed real) (ctx : Context)
    (wet : ctx.dryRun = false) (properFirst : rehearsed.tree.IsProper)
    (proper : real.tree.IsProper) {paths : List Path}
    (straight : ∀ path ∈ paths, Straight path.names) (distinct : (paths.map Path.names).Nodup)
    (found : ∀ path ∈ paths, real.tree.read path = rehearsed.tree.read path) :
    (Batch.takeFiles ctx real paths).2 = (Batch.takeFiles (rehearsal ctx) rehearsed paths).2 ∧
      Matches (Batch.takeFiles (rehearsal ctx) rehearsed paths).1
        (Batch.takeFiles ctx real paths).1 := by
  induction paths generalizing rehearsed real with
  | nil => exact ⟨rfl, matching⟩
  | cons path paths ih =>
    have here := straight path mem_cons_self
    have later := fun other member => straight other (mem_cons_of_mem path member)
    rw [map_cons, nodup_cons] at distinct
    cases supported : Document.isSupported path with
    | false =>
      rw [takeFiles_unsupported supported, takeFiles_unsupported supported]
      have skipped : Matches { rehearsed with skipped := rehearsed.skipped ++ [path] }
          { real with skipped := real.skipped ++ [path] } :=
        ⟨matching.catalogue, matching.outcomes, by rw [matching.skipped]⟩
      exact ih skipped properFirst proper later distinct.2
        fun other member => found other (mem_cons_of_mem path member)
    | true =>
      obtain ⟨results, next⟩ :=
        matching.takeFile ctx properFirst proper (found path mem_cons_self)
      cases failed : (Batch.takeFile ctx real path).2 with
      | some failure =>
        rw [takeFiles_of_error supported failed,
          takeFiles_of_error supported (results.symm.trans failed)]
        exact ⟨rfl, next⟩
      | none =>
        rw [takeFiles_of_ok supported failed, takeFiles_of_ok supported (results.symm.trans failed)]
        have still : (Batch.takeFile (rehearsal ctx) rehearsed path).1.tree = rehearsed.tree :=
          takeFile_tree_of_dry rfl rehearsed path
        cases processed : outcomeOf ctx real.tree path with
        | error failure =>
          rw [(takeFile_of_error processed).1] at failed
          cases failed
        | ok outcome =>
          obtain ⟨named, -, step, -⟩ := takeFile_of_ok wet proper here processed
          refine ih next (still ▸ properFirst) (step.proper proper) later
            distinct.2 fun other member => ?_
          -- The file that was just written is not read again.
          rw [still, step.read (later other member), found other (mem_cons_of_mem path member)]
          intro taken only _ same
          rw [mem_singleton.mp only, named] at same
          exact distinct.1 (same ▸ mem_map_of_mem member)

/-- What comes of storing the catalogue at the end of a batch that may change files. A
batch that ends before its first file stores nothing. -/
def storing (site : Surroundings) (project : Project) (request : Request)
    (tree : FileTree) : Except Failure Unit :=
  match filesOf site project request tree with
  | .error _ => .ok ()
  | .ok (paths, warnings) =>
    match Catalogue.load tree (outputOf site project request) with
    | .error _ => .ok ()
    | .ok (catalogue, loaded) =>
      let last := (takeFiles ⟨site, project.settings, false⟩
        (start request tree paths warnings catalogue loaded) paths).1
      (last.catalogue.save last.tree (outputOf site project request)).1

/-- A dry run predicts the real one. It changes nothing, and where no path is listed twice
and the catalogue can be stored at the end, the real run fails as it did, or returns the
same report: the same outcomes, skipped files, size and collisions. A refusal to store the
catalogue is the only thing that was not foretold, since in a proper tree every file that
can be read can be written. -/
theorem dry_run_predicts (site : Surroundings) (project : Project) (request : Request)
    (tree : FileTree) (proper : tree.IsProper)
    (distinct : ∀ paths warnings,
      filesOf site project request tree = .ok (paths, warnings) → paths.Nodup) :
    let dry := run site project { request with dryRun := true } tree
    let real := run site project { request with dryRun := false } tree
    dry.2.1 = tree ∧
      match storing site project request tree with
      | .ok _ => real.1 = dry.1.map fun report => { report with dryRun := false }
      | .error refusal => real.1 = .error refusal := by
  intro dry real
  cases expanded : filesOf site project request tree with
  | error failure =>
    have ends (dryRun : Bool) :
        (run site project { request with dryRun } tree).1 = .error failure ∧
          (run site project { request with dryRun } tree).2.1 = tree :=
      run_of_filesOf_error expanded
    refine ⟨(ends true).2, ?_⟩
    simp only [storing, expanded]
    rw [(ends false).1, (ends true).1]
    rfl
  | ok listed =>
    obtain ⟨paths, warnings⟩ := listed
    cases load : Catalogue.load tree (outputOf site project request) with
    | error failure =>
      have ends (dryRun : Bool) :
          (run site project { request with dryRun } tree).1 = .error failure ∧
            (run site project { request with dryRun } tree).2.1 = tree :=
        @run_of_load_error site project { request with dryRun } tree paths warnings expanded
          failure load
      refine ⟨(ends true).2, ?_⟩
      simp only [storing, expanded, load]
      rw [(ends false).1, (ends true).1]
      rfl
    | ok found =>
      obtain ⟨catalogue, loaded⟩ := found
      let ctx : Context := ⟨site, project.settings, false⟩
      let output := outputOf site project request
      let begun := start request tree paths warnings catalogue loaded
      obtain ⟨result, -⟩ : real.1 = (finish ctx output begun paths).1 ∧ _ :=
        @run_of_load site project { request with dryRun := false } tree paths warnings
          expanded catalogue loaded load
      obtain ⟨foretold, unchanged⟩ : dry.1 = (finish (rehearsal ctx) output begun paths).1 ∧
          dry.2.1 = (finish (rehearsal ctx) output begun paths).2.tree :=
        @run_of_load site project { request with dryRun := true } tree paths warnings
          expanded catalogue loaded load
      refine ⟨unchanged.trans (finish_tree_of_dry output rfl), ?_⟩
      have same : Matches begun begun := ⟨rfl, rfl, rfl⟩
      obtain ⟨failures, last⟩ := same.takeFiles ctx rfl proper proper
        (Sources.expand_cases proper (expand_of_filesOf expanded)).1
        (Sources.nodup_names proper (expand_of_filesOf expanded)
        (distinct paths warnings expanded)) fun _ _ => rfl
      have stored : storing site project request tree =
          ((takeFiles ctx begun paths).1.catalogue.save
            (takeFiles ctx begun paths).1.tree output).1 := by
        simp only [storing, expanded, load]
        rfl
      rw [stored, result, foretold, (finish_eq_of_wet output rfl rfl).2, finish_of_dry output rfl,
        failures]
      cases ((takeFiles ctx begun paths).1.catalogue.save
          (takeFiles ctx begun paths).1.tree output).1 with
      | error refusal => rfl
      | ok done =>
        cases (takeFiles (rehearsal ctx) begun paths).2 with
        | some cause => rfl
        | none => exact congrArg Except.ok (last.reportOf output)

/-- A directory with a script, a component and a file that is not supported. -/
def sourceTree : FileTree where
  files := [([['s'], "a.ts".toList], Utf8.encode "x = '好'".toList),
    ([['s'], "b.vue".toList], Utf8.encode "<template>好</template>".toList),
    ([['s'], "c.md".toList], [])]
  directories := [[['s']]]

/-- A dry run over the whole of `sourceTree` predicts the real one. -/
theorem dry_run_predicts_sourceTree :
    let site : Surroundings := ⟨⟨['/'], []⟩, ⟨['/'], []⟩⟩
    let project : Project := .atRoot ⟨['/'], []⟩
    let request : Request := { source := ['s'] }
    let paths := [Sources.pathOf [['s'], "a.ts".toList], Sources.pathOf [['s'], "b.vue".toList],
      Sources.pathOf [['s'], "c.md".toList]]
    sourceTree.IsProper ∧ filesOf site project request sourceTree = .ok (paths, []) ∧ paths.Nodup ∧
      storing site project request sourceTree = .ok () ∧
      (run site project { request with dryRun := true } sourceTree).2.1 = sourceTree ∧
      (run site project request sourceTree).1 =
        (run site project { request with dryRun := true } sourceTree).1.map
          fun report => { report with dryRun := false } := by
  intro site project request paths
  have proper : sourceTree.IsProper := by decide
  have sorted : Sources.filesBelow sourceTree [] (site.locate (Path.ofText ['s'])) = paths :=
    mergeSort_of_pairwise (by decide)
  have expanded : filesOf site project request sourceTree = .ok (paths, []) := by
    rw [← sorted]
    rfl
  have distinct : paths.Nodup := by decide
  have stored : storing site project request sourceTree = .ok () := by
    have load : Catalogue.load sourceTree (outputOf site project request) = .ok ({}, []) := rfl
    simp only [storing, expanded, load]
    obtain ⟨outcomes, advanced⟩ := takeFiles_advanced ⟨site, project.settings, false⟩ rfl
      (start request sourceTree paths [] {} []) proper
      (Sources.expand_cases proper (expand_of_filesOf expanded)).1
    refine (advanced.saves_iff (straight_outputOf _ _ _)).mpr
      ((Catalogue.save_eq_ok_iff (straight_outputOf _ _ _)).mpr ⟨?_, _, _, rfl, rfl, rfl⟩)
    exact fun entry member => (not_mem_nil member).elim
  have once : ∀ listed warnings,
      filesOf site project request sourceTree = .ok (listed, warnings) → listed.Nodup := by
    intro listed warnings found
    rw [expanded] at found
    cases found
    exact distinct
  have predicted := dry_run_predicts site project request sourceTree proper once
  rw [stored] at predicted
  exact ⟨proper, expanded, distinct, stored, predicted.1, predicted.2⟩

end Phrasebook.Batch
