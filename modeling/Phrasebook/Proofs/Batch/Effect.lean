import Phrasebook.Proofs.Batch.Run

/-!
# The exact effect of a batch

A batch that may change files, and whose catalogue is stored at the end, has written
every supported file up to the first that cannot be read or processed, and has stored
the phrases of exactly those files. Reports are not described here.
-/

namespace Phrasebook.Batch

open FileTree

/-- What a batch did to a tree. It took the supported files of `before`, which led to
`outcomes`, and left `rest` alone. -/
structure Effect (ctx : Context) (output : Path) (tree : FileTree) (catalogue : Catalogue)
    (before rest : List Path) (outcomes : List Outcome) (result : Except Failure Report)
    (after : FileTree) : Prop where
  /-- Every file was processed as it stood at the start. -/
  processed : (before.filter Document.isSupported).map (outcomeOf ctx tree) = outcomes.map .ok
  /-- Every file that was taken holds what extraction made of it. -/
  written : ∀ outcome ∈ outcomes, after.read outcome.path = .ok (Utf8.encode outcome.after)
  /-- Every other file but the stored catalogue holds the bytes that it held. -/
  unchanged : ∀ place, place ≠ output.names → (∀ outcome ∈ outcomes, place ≠ outcome.path.names) →
    after.bytesAt? place = tree.bytesAt? place
  /-- The stored catalogue maps the keys of the loaded one and those of the files that
  were taken, each to the text that came first. -/
  stored : ∃ stored journal, Catalogue.load after output = .ok (stored, journal) ∧
    ∀ key, stored.get? key = (catalogue.entries ++ outcomes.flatMap Outcome.entries).lookup key
  /-- The first file that was not taken is a supported one that cannot be read or
  processed, and its failure is that of the batch. -/
  ended : match rest with
    | [] => ∃ report, result = .ok report ∧ report.outcomes = outcomes
    | path :: _ => Document.isSupported path = true ∧
        ∃ failure, outcomeOf ctx tree path = .error failure ∧ result = .error failure

/-- Files at different places, none of them where the catalogue is stored, have the exact
effect when the catalogue can be stored behind them. -/
theorem finish_effect {ctx : Context} (wet : ctx.dryRun = false) {output : Path}
    (straight : Straight output.names) {start : Progress} (first : start.outcomes = [])
    (proper : start.tree.IsProper) (unique : start.catalogue.Distinct) {paths : List Path}
    (named : ∀ path ∈ paths, Straight path.names) (distinct : (paths.map Path.names).Nodup)
    (apart : ∀ path ∈ paths, path.names ≠ output.names)
    (saves : ((takeFiles ctx start paths).1.catalogue.save
      (takeFiles ctx start paths).1.tree output).1 = .ok ()) :
    ∃ before rest outcomes, paths = before ++ rest ∧
      Effect ctx output start.tree start.catalogue before rest outcomes
        (finish ctx output start paths).1 (finish ctx output start paths).2.tree := by
  obtain ⟨before, rest, outcomes, split, processed, advanced, written, ends⟩ :=
    takeFiles_distinct ctx wet start proper named distinct
  generalize took : takeFiles ctx start paths = ended at saves advanced written ends
  obtain ⟨progress, failure⟩ := ended
  obtain ⟨report, listed, tree, result⟩ := finish_of_wet output wet took
  dsimp only at saves advanced written ends
  obtain ⟨stored, journal, load, mapped⟩ :=
    Catalogue.load_save (advanced.distinct unique) straight saves
  refine ⟨before, rest, outcomes, split, processed, fun outcome member => ?_,
    fun place other elsewhere => ?_, ⟨stored, journal, tree ▸ load, fun key => ?_⟩, ?_⟩
  · obtain ⟨among, wrote⟩ := written outcome member
    have among : outcome.path ∈ paths := split ▸ List.mem_append_left rest among
    rw [tree]
    exact Catalogue.read_save _ straight (named _ among) (apart _ among) wrote
  · rw [tree, (Catalogue.save_frame _ _ straight).2 place other,
      advanced.elsewhere place fun outcome member _ => elsewhere outcome member]
  · rw [mapped, advanced.mapped]
  · rw [result, saves]
    cases rest with
    | nil =>
      subst ends
      refine ⟨report, rfl, ?_⟩
      rw [listed, advanced.listed, first, List.nil_append]
    | cons path later =>
      obtain ⟨supported, cause, failed, rfl⟩ := ends
      exact ⟨supported, cause, failed, rfl⟩

/-- The exact effect of a batch that may change files. A source that names nothing or a
catalogue that cannot be loaded leaves the tree as it is. Otherwise, when the files stand
at different places and none of them where the catalogue is stored, and when the catalogue
is stored in the end, the batch wrote exactly the supported files before the first that
cannot be read or processed. -/
theorem run_effect (site : Surroundings) (project : Project) (request : Request)
    (tree : FileTree) (proper : tree.IsProper) (wet : request.dryRun = false) :
    match filesOf site project request tree with
    | .error failure => (run site project request tree).1 = .error failure ∧
        (run site project request tree).2.1 = tree
    | .ok (paths, warnings) =>
      match Catalogue.load tree (outputOf site project request) with
      | .error failure => (run site project request tree).1 = .error failure ∧
          (run site project request tree).2.1 = tree
      | .ok (catalogue, loaded) =>
        let ctx := contextOf site project request
        let output := outputOf site project request
        let last := (takeFiles ctx (start request tree paths warnings catalogue loaded) paths).1
        paths.Nodup → (∀ path ∈ paths, path.names ≠ output.names) →
          (last.catalogue.save last.tree output).1 = .ok () →
          ∃ before rest outcomes, paths = before ++ rest ∧
            Effect ctx output tree catalogue before rest outcomes
              (run site project request tree).1
              (run site project request tree).2.1 := by
  split
  · rename_i failure missing
    exact run_of_filesOf_error missing
  · rename_i paths warnings expanded
    split
    · rename_i failure unloaded
      exact run_of_load_error expanded unloaded
    · rename_i catalogue loaded load
      intro ctx output last distinct apart saves
      obtain ⟨result, after⟩ := run_of_load expanded load
      rw [result, after]
      exact finish_effect wet (straight_outputOf _ _ _) rfl proper (Catalogue.distinct_of_load load)
        (Sources.expand_cases proper (expand_of_filesOf expanded)).1
        (Sources.nodup_names proper (expand_of_filesOf expanded) distinct)
        apart saves

/-! ## A batch that breaks off -/

/-- A directory with a file that is not supported, one that is no text and one behind it. -/
def brokenTree : FileTree where
  files := [([['s'], "a.md".toList], [0x61]), ([['s'], "b.ts".toList], [0xFF]),
    ([['s'], "c.ts".toList], [])]
  directories := [[['s']]]

/-- A batch over the whole of `brokenTree` breaks off at the file that is no text. -/
theorem run_effect_brokenTree :
    let site : Surroundings := ⟨⟨['/'], []⟩, ⟨['/'], []⟩⟩
    let project : Project := .atRoot ⟨['/'], []⟩
    let request : Request := { source := ['s'] }
    brokenTree.IsProper ∧ request.dryRun = false ∧
      ∃ before rest outcomes,
        [Sources.pathOf [['s'], "a.md".toList], Sources.pathOf [['s'], "b.ts".toList],
          Sources.pathOf [['s'], "c.ts".toList]] = before ++ rest ∧
        Effect (contextOf site project request) (outputOf site project request)
          brokenTree {} before rest outcomes (run site project request brokenTree).1
          (run site project request brokenTree).2.1 := by
  intro site project request
  have proper : brokenTree.IsProper := by decide
  refine ⟨proper, rfl, ?_⟩
  have sorted : Sources.filesBelow brokenTree [] (site.locate (Path.ofText ['s'])) =
      [Sources.pathOf [['s'], "a.md".toList], Sources.pathOf [['s'], "b.ts".toList],
        Sources.pathOf [['s'], "c.ts".toList]] :=
    List.mergeSort_of_pairwise (by decide)
  have expanded : filesOf site project request brokenTree =
      .ok ([Sources.pathOf [['s'], "a.md".toList], Sources.pathOf [['s'], "b.ts".toList],
        Sources.pathOf [['s'], "c.ts".toList]], []) := by
    rw [← sorted]
    rfl
  have loaded : Catalogue.load brokenTree (outputOf site project request) = .ok ({}, []) := rfl
  have effect := run_effect site project request brokenTree proper rfl
  rw [expanded, loaded] at effect
  refine effect (by decide) (by decide) ?_
  obtain ⟨outcomes, advanced⟩ := takeFiles_advanced (contextOf site project request) rfl
    (start request brokenTree _ [] {} []) proper (Sources.expand_cases proper
    (expand_of_filesOf expanded)).1
  refine (advanced.saves_iff (straight_outputOf _ _ _)).mpr
    ((Catalogue.save_eq_ok_iff (straight_outputOf _ _ _)).mpr ⟨?_, _, _, rfl, rfl, rfl⟩)
  exact fun entry member => (List.not_mem_nil member).elim

end Phrasebook.Batch
