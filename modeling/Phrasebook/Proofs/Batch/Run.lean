import Phrasebook.Proofs.Batch.Progress

/-!
# What a batch leaves behind

The tree and the result of a batch, told by how far its files have come and by
whether the catalogue can be stored at the end.
-/

namespace Phrasebook.Batch

open FileTree

variable {earlier later : Progress} {outcomes : List Outcome} {output : Path}

/-- Where a batch stores its catalogue. -/
def outputOf (site : Surroundings) (project : Project) (request : Request) : Path :=
  site.locate (request.output.getD project.output)

/-- What a batch knows about itself. -/
def contextOf (site : Surroundings) (project : Project) (request : Request) : Context :=
  ⟨site, project.settings, request.dryRun⟩

/-! ## The end of a batch -/

section Finish

variable {ctx : Context} (output : Path) {start : Progress} {paths : List Path}

/-- A batch that leaves files alone leaves the tree alone. -/
theorem finish_tree_of_dry (dry : ctx.dryRun = true) :
    (finish ctx output start paths).2.tree = start.tree := by
  have tree : (takeFiles ctx start paths).1.tree = start.tree := takeFiles_tree_of_dry dry
  simp only [finish, store, dry, if_true]
  split <;> exact tree

/-- A batch that leaves files alone ends as its files do. -/
theorem finish_of_dry (dry : ctx.dryRun = true) :
    (finish ctx output start paths).1 =
      match (takeFiles ctx start paths).2 with
      | some cause => .error cause
      | none => .ok (reportOf true output (takeFiles ctx start paths).1) := by
  simp only [finish, store, dry, if_true, Option.none_or]
  cases (takeFiles ctx start paths).2 <;> rfl

/-- A batch that may change files ends as its files do, unless the catalogue cannot be
stored behind them: a refusal to store it hides the failure of a file. -/
theorem finish_eq_of_wet (wet : ctx.dryRun = false) {progress : Progress}
    (took : (takeFiles ctx start paths).1 = progress) :
    (finish ctx output start paths).2.tree = (progress.catalogue.save progress.tree output).2 ∧
      (finish ctx output start paths).1 =
        match (progress.catalogue.save progress.tree output).1, (takeFiles ctx start paths).2 with
        | .error refusal, _ => .error refusal
        | .ok _, some cause => .error cause
        | .ok _, none => .ok (reportOf false output progress) := by
  obtain ⟨result, tree, saved⟩ : ∃ result tree,
      progress.catalogue.save progress.tree output = (result, tree) := ⟨_, _, rfl⟩
  simp only [finish, took, store, wet, Bool.false_eq_true, if_false, saved]
  cases result with
  | error refusal => exact ⟨rfl, rfl⟩
  | ok stored => cases (takeFiles ctx start paths).2 <;> exact ⟨rfl, rfl⟩

/-- A batch ends with the catalogue stored in the tree that its files left. Its report
lists the outcomes of the files. -/
theorem finish_of_wet (wet : ctx.dryRun = false) {progress : Progress}
    {failure : Option Failure} (took : takeFiles ctx start paths = (progress, failure)) :
    ∃ report : Report, report.outcomes = progress.outcomes ∧
      (finish ctx output start paths).2.tree = (progress.catalogue.save progress.tree output).2 ∧
      (finish ctx output start paths).1 =
        match (progress.catalogue.save progress.tree output).1, failure with
        | .error refusal, _ => .error refusal
        | .ok _, some cause => .error cause
        | .ok _, none => .ok report := by
  obtain ⟨tree, result⟩ := finish_eq_of_wet output wet (congrArg Prod.fst took)
  rw [took] at result
  refine ⟨reportOf false output progress, rfl, tree, result.trans ?_⟩
  cases (progress.catalogue.save progress.tree output).1 <;> cases failure <;> rfl

end Finish

/-! ## The run of a batch -/

section Run

variable {site : Surroundings} {project : Project} {request : Request} {tree : FileTree}

/-- The catalogue has a path without dots. -/
theorem straight_outputOf (site : Surroundings) (project : Project) (request : Request) :
    Straight (outputOf site project request).names :=
  site.straight_locate _

/-- The files of a batch are those of its source. -/
theorem expand_of_filesOf {found : List Path × Journal}
    (files : filesOf site project request tree = .ok found) :
    Sources.expand site tree project.settings.excluded request.source = .ok found := by
  rw [filesOf] at files
  split at files
  · cases files
  · exact files

/-- A batch without files leaves the tree alone. -/
theorem run_of_filesOf_error {failure : Failure}
    (missing : filesOf site project request tree = .error failure) :
    (run site project request tree).1 = .error failure ∧
      (run site project request tree).2.1 = tree := by
  simp only [run, missing, and_self]

variable {paths : List Path} {warnings : Journal}
  (expanded : filesOf site project request tree = .ok (paths, warnings))
include expanded

/-- A batch whose catalogue cannot be loaded leaves the tree alone. -/
theorem run_of_load_error {failure : Failure}
    (unloaded : Catalogue.load tree (outputOf site project request) = .error failure) :
    (run site project request tree).1 = .error failure ∧
      (run site project request tree).2.1 = tree := by
  rw [outputOf] at unloaded
  simp only [run, expanded, unloaded, and_self]

/-- A batch whose catalogue is loaded takes its files and stores the catalogue. -/
theorem run_of_load {catalogue : Catalogue} {loaded : Journal}
    (load : Catalogue.load tree (outputOf site project request) = .ok (catalogue, loaded)) :
    (run site project request tree).1 =
        (finish (contextOf site project request) (outputOf site project request)
          (start request tree paths warnings catalogue loaded) paths).1 ∧
      (run site project request tree).2.1 =
        (finish (contextOf site project request) (outputOf site project request)
          (start request tree paths warnings catalogue loaded) paths).2.tree := by
  rw [outputOf] at load
  simp only [run, expanded, load]
  exact ⟨rfl, rfl⟩

end Run

/-! ## Storing at the end -/

/-- Files of a batch do not decide whether the catalogue can be stored: it can at the
end exactly when it could at the start. -/
theorem Advanced.saves_iff (advanced : Advanced earlier later outcomes)
    (straight : Straight output.names) :
    (later.catalogue.save later.tree output).1 = .ok () ↔
      (earlier.catalogue.save earlier.tree output).1 = .ok () := by
  rw [Catalogue.save_eq_ok_iff straight, Catalogue.save_eq_ok_iff straight, advanced.isText]
  refine and_congr_right fun _ => ⟨?_, advanced.shape.accepts straight⟩
  exact advanced.shape.symm.accepts straight

/-- Where a path is not accepted, nothing stands there, neither before nor after. -/
theorem Advanced.not_there_of_not_accepts (advanced : Advanced earlier later outcomes)
    (proper : earlier.tree.IsProper) (straight : Straight output.names) {journal : Journal}
    (load : Catalogue.load earlier.tree output = .ok (earlier.catalogue, journal))
    (refused : ¬ later.tree.Accepts output) :
    (later.catalogue.save later.tree output).2.isThere output = false := by
  have missing : earlier.tree.isThere output = false := by
    rcases Catalogue.load_cases load with ⟨missing, -⟩ | ⟨place, -, reached, there, -, -⟩
    · exact missing
    · exact absurd (advanced.shape.accepts straight
        (accepts_of_bytesAt? proper straight reached there)) refused
  rw [Catalogue.save_of_not_accepts refused]
  exact not_isThere_of_made (advanced.proper proper) straight
    ((advanced.shape.isThere output).symm.trans missing) (made_makeDirectories_parent _ straight)

/-- Where the catalogue cannot be stored at the end, no text is loaded. -/
theorem Advanced.eq_empty_of_not_saves (advanced : Advanced earlier later outcomes)
    (proper : earlier.tree.IsProper) (straight : Straight output.names) {journal last : Journal}
    {stored : Catalogue}
    (load : Catalogue.load earlier.tree output = .ok (earlier.catalogue, journal))
    (refused : ¬ (earlier.catalogue.save earlier.tree output).1 = .ok ())
    (loads : Catalogue.load (later.catalogue.save later.tree output).2 output =
      .ok (stored, last)) : stored = Catalogue.empty := by
  by_cases accepts : later.tree.Accepts output
  · obtain ⟨_, again⟩ := Catalogue.load_save_of_not_isText (fun isText => refused
      ((advanced.saves_iff straight).mp
        ((Catalogue.save_eq_ok_iff straight).mpr ⟨isText, accepts⟩))) straight accepts
    rw [again] at loads
    cases loads
    rfl
  · have missing := advanced.not_there_of_not_accepts proper straight load accepts
    rw [Catalogue.load_of_not_there (Catalogue.look_of_load loads) missing] at loads
    cases loads
    rfl

end Phrasebook.Batch
