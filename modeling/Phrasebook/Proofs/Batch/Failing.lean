import Phrasebook.Proofs.Batch.Run
import Phrasebook.Proofs.Failure

/-!
# Batches that fail

A batch fails for its paths or its stored catalogue before it takes a file, at the first
file that fails, or where the catalogue is stored. The file that fails leaves tree and
catalogue to those that succeeded.
-/

namespace Phrasebook.Batch

open Failure (bind_eq_error_iff)

variable {ctx : Context} {progress : Progress} {before : List Path} {failure : Failure}
  {path : Path}

/-! ## The files of a batch -/

/-- Behind files that succeed, a batch goes on with the others. -/
theorem takeFiles_append {rest : List Path} (passed : (takeFiles ctx progress before).2 = none) :
    takeFiles ctx progress (before ++ rest) =
      takeFiles ctx (takeFiles ctx progress before).1 rest := by
  induction before generalizing progress with
  | nil => rfl
  | cons path before ih =>
    cases supported : Document.isSupported path with
    | false =>
      rw [takeFiles_unsupported supported] at passed
      rw [List.cons_append, takeFiles_unsupported supported, takeFiles_unsupported supported,
        ih passed]
    | true =>
      cases failed : (takeFile ctx progress path).2 with
      | some failure =>
        rw [takeFiles_of_error supported failed] at passed
        cases passed
      | none =>
        rw [takeFiles_of_ok supported failed] at passed
        rw [List.cons_append, takeFiles_of_ok supported failed, takeFiles_of_ok supported failed,
          ih passed]

/-- A batch fails at the first of its files that fails. -/
theorem exists_of_takeFiles_eq_some {paths : List Path}
    (fails : (takeFiles ctx progress paths).2 = some failure) :
    ∃ before path after, paths = before ++ path :: after ∧
      (takeFiles ctx progress before).2 = none ∧ Document.isSupported path = true ∧
      handled ctx (takeFiles ctx progress before).1.tree path = .error failure := by
  induction paths generalizing progress with
  | nil => cases fails
  | cons path paths ih =>
    cases supported : Document.isSupported path with
    | false =>
      rw [takeFiles_unsupported supported] at fails
      obtain ⟨before, other, after, rfl, passed, itsSupport, itsFailure⟩ := ih fails
      rw [← takeFiles_unsupported supported] at passed itsFailure
      exact ⟨path :: before, other, after, rfl, passed, itsSupport, itsFailure⟩
    | true =>
      cases failed : (takeFile ctx progress path).2 with
      | some reason =>
        rw [takeFiles_of_error supported failed] at fails
        obtain rfl := Option.some.inj fails
        refine ⟨[], path, paths, rfl, rfl, supported, ?_⟩
        rcases takeFile_cases ctx progress path with
          ⟨_, _, refused, took⟩ | ⟨_, _, _, _, _, _, took⟩
        · rw [took] at failed
          exact Option.some.inj failed ▸ refused
        · rw [took] at failed
          cases failed
      | none =>
        rw [takeFiles_of_ok supported failed] at fails
        obtain ⟨before, other, after, rfl, passed, itsSupport, itsFailure⟩ := ih fails
        rw [← takeFiles_of_ok supported failed] at passed itsFailure
        exact ⟨path :: before, other, after, rfl, passed, itsSupport, itsFailure⟩

/-- The file that fails leaves tree and catalogue as they are. -/
theorem takeFiles_of_handled_eq_error (passed : (takeFiles ctx progress before).2 = none)
    (supported : Document.isSupported path = true)
    (fails : handled ctx (takeFiles ctx progress before).1.tree path = .error failure)
    (after : List Path) :
    ∃ journal, takeFiles ctx progress (before ++ path :: after) =
      ({ (takeFiles ctx progress before).1 with journal }, some failure) := by
  rw [takeFiles_append passed]
  rcases takeFile_cases ctx (takeFiles ctx progress before).1 path with
    ⟨_, journal, refused, took⟩ | ⟨outcome, _, _, _, processed, committed, -⟩
  · obtain rfl := Except.error.inj (refused.symm.trans fails)
    refine ⟨journal, ?_⟩
    rw [takeFiles_of_error supported (congrArg Prod.snd took), took]
  · rw [handled_eq_ok_iff.2 ⟨processed, _, committed⟩] at fails
    cases fails

/-- A file fails by what comes of it, or the file system refuses to take it back. -/
theorem of_handled_eq_error {tree : FileTree} (fails : handled ctx tree path = .error failure) :
    outcomeOf ctx tree path = .error failure ∨ ∃ fault text, failure = .file fault text := by
  rw [handled] at fails
  rcases bind_eq_error_iff.1 fails with fails | ⟨outcome, -, fails⟩
  · exact .inl fails
  · rcases bind_eq_error_iff.1 fails with fails | ⟨_, -, fails⟩
    · rcases commit_cases ctx outcome with ⟨-, record, stays⟩ | ⟨-, -, record, writes⟩
      · rw [stays] at fails
        cases fails
      · rw [writes] at fails
        cases wrote : tree.write outcome.path (Utf8.encode outcome.after) with
        | ok next =>
          rw [wrote] at fails
          cases fails
        | error reason =>
          rw [wrote] at fails
          obtain rfl := Except.error.inj fails
          obtain ⟨fault, named⟩ := FileTree.exists_of_write_eq_error wrote
          exact .inr ⟨fault, _, named⟩
    · cases fails

/-! ## Batches that fail -/

variable {site : Surroundings} {project : Project} {request : Request} {tree : FileTree}

/-- A batch fails for its source, for its stored catalogue, or at its end. -/
theorem run_eq_error_iff : (run site project request tree).1 = .error failure ↔
    filesOf site project request tree = .error failure ∨
    ∃ paths warnings, filesOf site project request tree = .ok (paths, warnings) ∧
      (Catalogue.load tree (outputOf site project request) = .error failure ∨
        ∃ catalogue loaded, Catalogue.load tree (outputOf site project request) =
            .ok (catalogue, loaded) ∧
          (finish (contextOf site project request) (outputOf site project request)
            (start request tree paths warnings catalogue loaded) paths).1 = .error failure) := by
  cases expanded : filesOf site project request tree with
  | error reason => simp [(run_of_filesOf_error expanded).1]
  | ok found =>
    obtain ⟨paths, warnings⟩ := found
    cases load : Catalogue.load tree (outputOf site project request) with
    | error reason => simp [(run_of_load_error expanded load).1, eq_comm]
    | ok stored =>
      obtain ⟨catalogue, loaded⟩ := stored
      simp only [(run_of_load expanded load).1, reduceCtorEq, false_or, Except.ok.injEq, Prod.mk.injEq]
      constructor
      · exact fun fails => ⟨paths, warnings, ⟨rfl, rfl⟩, catalogue, loaded, ⟨rfl, rfl⟩, fails⟩
      · rintro ⟨_, _, ⟨rfl, rfl⟩, _, _, ⟨rfl, rfl⟩, fails⟩
        exact fails

/-- A batch is without files if its output cannot be located, or for its source. -/
theorem filesOf_eq_error_iff : filesOf site project request tree = .error failure ↔
    site.fault? (request.output.getD project.output) = some failure ∨
    site.fault? (request.output.getD project.output) = none ∧
      Sources.expand site tree project.settings.excluded request.source = .error failure := by
  rw [filesOf]
  cases site.fault? (request.output.getD project.output) <;> simp

end Phrasebook.Batch
