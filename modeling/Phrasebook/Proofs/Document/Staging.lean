import Phrasebook.Proofs.Document.Registration

/-!
# Files that share a catalogue

The texts of a file are staged and reach the shared catalogue when the whole file
succeeds. Over any number of files, of which some may fail, this is the same as
putting the texts of those that succeed straight into the catalogue, in order. What
collisions are recorded on the way is not described here.
-/

namespace Phrasebook.Document

/-- A file on which extraction runs under some settings. -/
structure Job where
  settings : Settings
  cwd : Path
  path : Path
  content : Text
  deriving Repr, DecidableEq

/-- Runs extraction on the file of a job. -/
def Job.run (job : Job) (catalogue : Catalogue) : Except Failure Outcome × Catalogue × Journal :=
  process job.settings job.cwd job.path job.content catalogue

/-- Runs jobs one after another with one catalogue, also after one has failed. The result
is what came of each job, and the catalogue behind the last. -/
def runAll (catalogue : Catalogue) : List Job → List (Except Failure Outcome) × Catalogue
  | [] => ([], catalogue)
  | job :: jobs =>
    let (result, next, _) := job.run catalogue
    let (results, last) := runAll next jobs
    (result :: results, last)

/-- The entries of a job that succeeded. -/
def entriesOf : Except Failure Outcome → Catalogue.Entries
  | .ok outcome => outcome.entries
  | .error _ => []

/-- One job adds the entries of its outcome to the catalogue; a failed one has none. -/
theorem Job.entries_run (job : Job) (catalogue : Catalogue) :
    (job.run catalogue).2.1.entries =
      Catalogue.joined catalogue.entries (entriesOf (job.run catalogue).1) := by
  rcases process_cases job.settings job.cwd job.path job.content catalogue with
    ⟨failure, journal, failed⟩ | ⟨outcome, journal, made⟩
  · rw [Job.run, failed]
    rfl
  · rw [Job.run, made]
    -- Staging drops only what the catalogue would drop as well.
    have stages : (staged outcome.phrases).entries = Catalogue.joined [] outcome.entries :=
      Catalogue.entries_insertAll {} _
    dsimp only
    rw [Catalogue.entries_absorb, stages, Catalogue.joined_joined]
    rfl

/-- A failed job leaves the catalogue as it was. -/
theorem Job.run_of_error {job : Job} {catalogue : Catalogue} {failure : Failure}
    (failed : (job.run catalogue).1 = .error failure) : (job.run catalogue).2.1 = catalogue := by
  rcases process_cases job.settings job.cwd job.path job.content catalogue with
    ⟨_, journal, fails⟩ | ⟨outcome, journal, made⟩
  · rw [Job.run, fails]
  · rw [Job.run, made] at failed
    cases failed

/-- The catalogue behind all jobs but the last is the one that the last finds. -/
theorem runAll_concat (catalogue : Catalogue) (jobs : List Job) (job : Job) :
    (runAll catalogue (jobs ++ [job])).2 = (job.run (runAll catalogue jobs).2).2.1 := by
  induction jobs generalizing catalogue with
  | nil => rfl
  | cons first jobs ih => exact ih _

/-- All jobs together add the entries of their outcomes in order. -/
theorem entries_runAll (catalogue : Catalogue) (jobs : List Job) :
    (runAll catalogue jobs).2.entries =
      Catalogue.joined catalogue.entries ((runAll catalogue jobs).1.flatMap entriesOf) := by
  induction jobs generalizing catalogue with
  | nil => rfl
  | cons job jobs ih =>
    have rest := ih (job.run catalogue).2.1
    rw [job.entries_run, ← Catalogue.joined_append] at rest
    exact rest

/-- Jobs that share a catalogue leave the entries, in their order, that come of storing
one after another those that were there and then those of each job that succeeded; the
first text under a key stays. A job that fails leaves the catalogue and its collisions
exactly as it found them. -/
theorem runAll_stores_directly (catalogue : Catalogue) (distinct : catalogue.Distinct)
    (jobs : List Job) :
    (runAll catalogue jobs).2.entries =
        (Catalogue.ofEntries
          (catalogue.entries ++ (runAll catalogue jobs).1.flatMap entriesOf)).1.entries ∧
      ∀ before job later failure, jobs = before ++ job :: later →
        (job.run (runAll catalogue before).2).1 = .error failure →
        (runAll catalogue (before ++ [job])).2 = (runAll catalogue before).2 := by
  constructor
  · have own : Catalogue.joined [] catalogue.entries = catalogue.entries :=
      Catalogue.joined_of_nodup (by exact distinct)
    rw [entries_runAll, Catalogue.entries_ofEntries, Catalogue.joined_append, own]
  · intro before job later failure _ failed
    rw [runAll_concat]
    exact Job.run_of_error failed

/-- A catalogue with a collision, and two jobs that share it. -/
theorem runAll_stores_directly_pair :
    let catalogue : Catalogue :=
      ⟨[([.scalar 'a'], [.scalar 'x'])], [⟨[.scalar 'a'], [.scalar 'x'], [.scalar 'y']⟩]⟩
    let file (path : Text) (content : String) : Job := ⟨{}, ⟨[], []⟩, .ofText path, content.toList⟩
    let jobs := [file "a.ts".toList "'好' '", file "b.vue".toList "<template>好</template>"]
    catalogue.Distinct ∧
      (runAll catalogue jobs).2.entries =
          (Catalogue.ofEntries
            (catalogue.entries ++ (runAll catalogue jobs).1.flatMap entriesOf)).1.entries ∧
        ∀ before job later failure, jobs = before ++ job :: later →
          (job.run (runAll catalogue before).2).1 = .error failure →
          (runAll catalogue (before ++ [job])).2 = (runAll catalogue before).2 := by
  intro catalogue file jobs
  have distinct : catalogue.Distinct := by
    rw [Catalogue.Distinct]
    decide
  exact ⟨distinct, runAll_stores_directly catalogue distinct jobs⟩

end Phrasebook.Document
