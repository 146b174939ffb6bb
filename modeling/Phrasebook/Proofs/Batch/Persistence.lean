import Phrasebook.Proofs.Batch.Run

/-!
# What survives a batch

Files are written one by one, and the catalogue is stored once at the end. When it
cannot be stored, the calls in the files that were written name keys that no catalogue
has. Opening the catalogue for writing empties it, so texts that cannot be written take
all other texts with them. Both conditions are exact.
-/

namespace Phrasebook.Batch

open FileTree

section

variable (site : Surroundings) (project : Project) (request : Request) (tree : FileTree)

/-- The outcomes of the files that a batch takes, also when it fails. -/
def outcomesOf : List Outcome :=
  match filesOf site project request tree with
  | .error _ => []
  | .ok (paths, warnings) =>
    match Catalogue.load tree (outputOf site project request) with
    | .error _ => []
    | .ok (catalogue, loaded) =>
      (takeFiles (contextOf site project request)
        (start request tree paths warnings catalogue loaded) paths).1.outcomes

end

section

variable {site : Surroundings} {project : Project} {request : Request} {tree : FileTree}

/-- A batch that may change files ends with the catalogue stored behind the files that it
took. -/
theorem run_stores (proper : tree.IsProper) (wet : request.dryRun = false) {paths : List Path}
    {warnings : Journal} (expanded : filesOf site project request tree = .ok (paths, warnings))
    {catalogue : Catalogue} {loaded : Journal}
    (load : Catalogue.load tree (outputOf site project request) = .ok (catalogue, loaded)) :
    ∃ last, Advanced (start request tree paths warnings catalogue loaded) last
        (outcomesOf site project request tree) ∧
      (run site project request tree).2.1 =
        (last.catalogue.save last.tree (outputOf site project request)).2 := by
  obtain ⟨outcomes, advanced⟩ := takeFiles_advanced (contextOf site project request) wet
    (start request tree paths warnings catalogue loaded) proper
    (Sources.expand_cases proper (expand_of_filesOf expanded)).1
  obtain ⟨progress, failure, took⟩ : ∃ progress failure,
      takeFiles (contextOf site project request)
        (start request tree paths warnings catalogue loaded) paths = (progress, failure) :=
    ⟨_, _, rfl⟩
  rw [took] at advanced
  obtain ⟨-, -, after, -⟩ := finish_of_wet (outputOf site project request) wet took
  have listed : outcomesOf site project request tree = outcomes := by
    simp only [outcomesOf, expanded, load, took]
    exact advanced.listed
  exact ⟨_, listed ▸ advanced, (run_of_load expanded load).2.trans after⟩

/-- A key that a file added is mapped when the batch is over its files. -/
theorem Advanced.contains {earlier later : Progress} {outcomes : List Outcome}
    (advanced : Advanced earlier later outcomes) {outcome : Outcome} (member : outcome ∈ outcomes)
    {phrase : KeyedPhrase} (listed : phrase ∈ outcome.phrases) :
    (later.catalogue.get? (CodePoint.ofText phrase.key)).isSome = true := by
  rw [advanced.mapped, Option.isSome_iff_ne_none, ne_eq, Catalogue.lookup_eq_none_iff_not_mem]
  refine fun missing => missing ?_
  refine List.mem_map.mpr ⟨phrase.entry, List.mem_append_right _ ?_, rfl⟩
  exact List.mem_flatMap.mpr ⟨outcome, member, List.mem_map_of_mem listed⟩

end

/-- After a batch that may change files, the keys extracted from every file with other
bytes are in the stored catalogue exactly if the catalogue loaded at the start could be
stored where it belongs, or no such file had a key to store. -/
theorem keys_stored_iff (site : Surroundings) (project : Project) (request : Request)
    (tree : FileTree) (proper : tree.IsProper) (wet : request.dryRun = false) :
    (∀ outcome ∈ outcomesOf site project request tree,
      (run site project request tree).2.1.read outcome.path ≠ tree.read outcome.path →
        ∀ phrase ∈ outcome.phrases, ∃ stored journal,
          Catalogue.load (run site project request tree).2.1
            (outputOf site project request) = .ok (stored, journal) ∧
          stored.contains (CodePoint.ofText phrase.key) = true) ↔
      (∃ catalogue journal,
        Catalogue.load tree (outputOf site project request) = .ok (catalogue, journal) ∧
        catalogue.IsText ∧ tree.Accepts (outputOf site project request)) ∨
      ∀ outcome ∈ outcomesOf site project request tree,
        (run site project request tree).2.1.read outcome.path ≠ tree.read outcome.path →
          outcome.phrases = [] := by
  have straight := straight_outputOf site project request
  cases expanded : filesOf site project request tree with
  | error failure =>
    have none : outcomesOf site project request tree = [] := by
      simp only [outcomesOf, expanded]
    simp [none]
  | ok found =>
    obtain ⟨paths, warnings⟩ := found
    cases load : Catalogue.load tree (outputOf site project request) with
    | error failure =>
      have none : outcomesOf site project request tree = [] := by
        simp only [outcomesOf, expanded, load]
      simp [none]
    | ok found =>
      obtain ⟨catalogue, loaded⟩ := found
      obtain ⟨last, advanced, after⟩ := run_stores proper wet expanded load
      rw [after]
      by_cases saves : (catalogue.save tree (outputOf site project request)).1 = .ok ()
      · -- The final catalogue is stored, and it maps every key that was added.
        obtain ⟨isText, accepts⟩ := (Catalogue.save_eq_ok_iff straight).mp saves
        refine iff_of_true (fun outcome member _ phrase listed => ?_)
          (.inl ⟨catalogue, loaded, rfl, isText, accepts⟩)
        obtain ⟨stored, journal, loads, mapped⟩ := Catalogue.load_save
          (advanced.distinct (Catalogue.distinct_of_load load)) straight
          ((advanced.saves_iff straight).mpr saves)
        refine ⟨stored, journal, loads, ?_⟩
        rw [Catalogue.contains, mapped]
        exact advanced.contains member listed
      · -- No text is loaded afterwards, so no key can be there.
        constructor
        · intro kept
          refine .inr fun outcome member differs => ?_
          refine List.eq_nil_iff_forall_not_mem.mpr fun phrase listed => ?_
          obtain ⟨stored, journal, loads, contains⟩ := kept outcome member differs phrase listed
          rw [advanced.eq_empty_of_not_saves proper straight load saves loads] at contains
          cases contains
        · rintro (⟨other, journal, same, isText, accepts⟩ | none) outcome member differs phrase listed
          · cases same
            exact absurd ((Catalogue.save_eq_ok_iff straight).mpr ⟨isText, accepts⟩) saves
          · rw [none outcome member differs] at listed
            cases listed

/-- A tree in which a file stands where a directory for the catalogue is needed. -/
def blockedTree : FileTree where
  files := [(["out".toList], [0x61]), (["a.ts".toList], Utf8.encode "x = \"好\"".toList)]

/-- In `blockedTree` no key is stored, so that only files without keys may change. -/
theorem keys_stored_iff_blockedTree :
    let site : Surroundings := ⟨⟨['/'], []⟩, ⟨['/'], []⟩⟩
    let project : Project := .atRoot ⟨['/'], []⟩
    let request : Request :=
      { source := "a.ts".toList, output := some (Path.ofText "out/texts.json".toList) }
    blockedTree.IsProper ∧ request.dryRun = false ∧
      ((∀ outcome ∈ outcomesOf site project request blockedTree,
        (run site project request blockedTree).2.1.read outcome.path ≠
            blockedTree.read outcome.path →
          ∀ phrase ∈ outcome.phrases, ∃ stored journal,
            Catalogue.load (run site project request blockedTree).2.1
              (outputOf site project request) = .ok (stored, journal) ∧
            stored.contains (CodePoint.ofText phrase.key) = true) ↔
        ∀ outcome ∈ outcomesOf site project request blockedTree,
          (run site project request blockedTree).2.1.read outcome.path ≠
              blockedTree.read outcome.path → outcome.phrases = []) := by
  intro site project request
  have proper : blockedTree.IsProper := by decide
  refine ⟨proper, rfl, (keys_stored_iff site project request blockedTree proper rfl).trans ?_⟩
  refine or_iff_right ?_
  rintro ⟨catalogue, journal, -, -, ready, place, made, -⟩
  cases made

/-- After a batch, every text of the catalogue loaded at the start is still there exactly
if the batch left files alone, if it had no files, or if all keys and texts of that
catalogue can be written and its path can still be looked for. That one cannot where the
directories made for it bring a name into reach that is too long. -/
theorem translations_kept_iff (site : Surroundings) (project : Project)
    (request : Request) (tree : FileTree) (proper : tree.IsProper) (catalogue : Catalogue)
    (loaded : Journal)
    (load : Catalogue.load tree (outputOf site project request) = .ok (catalogue, loaded)) :
    (∃ stored journal,
      Catalogue.load (run site project request tree).2.1
        (outputOf site project request) = .ok (stored, journal) ∧
      ∀ key text, catalogue.get? key = some text → stored.get? key = some text) ↔
      request.dryRun = true ∨
      (∃ failure, filesOf site project request tree = .error failure) ∨
      catalogue.IsText ∧ (run site project request tree).2.1.look (outputOf site project request)
          (outputOf site project request) = .ok () := by
  have straight := straight_outputOf site project request
  cases expanded : filesOf site project request tree with
  | error failure =>
    refine iff_of_true ?_ (.inr (.inl ⟨failure, rfl⟩))
    rw [(run_of_filesOf_error expanded).2]
    exact ⟨catalogue, loaded, load, fun _ _ => id⟩
  | ok found =>
    obtain ⟨paths, warnings⟩ := found
    cases wet : request.dryRun with
    | true =>
      refine iff_of_true ?_ (.inl rfl)
      rw [(run_of_load expanded load).2, finish_tree_of_dry _ wet]
      exact ⟨catalogue, loaded, load, fun _ _ => id⟩
    | false =>
      obtain ⟨last, advanced, after⟩ := run_stores proper wet expanded load
      rw [after]
      simp only [Bool.false_eq_true, reduceCtorEq, exists_false, false_or]
      by_cases saves : (catalogue.save tree (outputOf site project request)).1 = .ok ()
      · obtain ⟨stored, journal, loads, mapped⟩ := Catalogue.load_save
          (advanced.distinct (Catalogue.distinct_of_load load)) straight
          ((advanced.saves_iff straight).mpr saves)
        refine iff_of_true ⟨stored, journal, loads, fun key text first => ?_⟩
          ⟨((Catalogue.save_eq_ok_iff straight).mp saves).1, Catalogue.look_of_load loads⟩
        have before : (start request tree paths warnings catalogue loaded).catalogue.entries.lookup key
            = some text := first
        rw [mapped, advanced.mapped, List.lookup_append, before, Option.some_or]
      · constructor
        · -- No text is loaded afterwards, so there was none before.
          rintro ⟨stored, _, loads, kept⟩
          refine ⟨Decidable.by_contra fun noText => ?_, Catalogue.look_of_load loads⟩
          obtain ⟨key, text, first⟩ := Catalogue.exists_get?_of_not_isText noText
          have still := kept key text first
          rw [advanced.eq_empty_of_not_saves proper straight load saves loads] at still
          cases still
        · rintro ⟨isText, looked⟩
          have refused : ¬ tree.Accepts (outputOf site project request) := fun accepts =>
            saves ((Catalogue.save_eq_ok_iff straight).mpr ⟨isText, accepts⟩)
          have missing := advanced.not_there_of_not_accepts proper straight load fun accepts =>
            refused (advanced.shape.symm.accepts straight accepts)
          refine ⟨_, _, Catalogue.load_of_not_there looked missing, fun key text first => ?_⟩
          rcases Catalogue.load_cases load with ⟨-, rfl⟩ | ⟨place, -, reached, there, -, -⟩
          · cases first
          · exact absurd (accepts_of_bytesAt? proper straight reached there) refused

/-- A tree whose catalogue holds a surrogate. -/
def surrogateTree : FileTree where
  files := [(["translations.json".toList],
      Utf8.encode ['{', '"', 'k', '"', ':', '"', '\\', 'u', 'd', '8', '0', '0', '"', '}']),
    (["a.ts".toList], [0xFF])]

/-- A batch over `surrogateTree` loses the catalogue. -/
theorem translations_kept_iff_surrogateTree :
    let site : Surroundings := ⟨⟨['/'], []⟩, ⟨['/'], []⟩⟩
    let project : Project := .atRoot ⟨['/'], []⟩
    let request : Request := { source := "a.ts".toList }
    surrogateTree.IsProper ∧ ∃ catalogue loaded,
      Catalogue.load surrogateTree (outputOf site project request) = .ok (catalogue, loaded) ∧
      ¬ ∃ stored journal,
        Catalogue.load (run site project request surrogateTree).2.1
          (outputOf site project request) = .ok (stored, journal) ∧
        ∀ key text, catalogue.get? key = some text → stored.get? key = some text := by
  intro site project request
  have proper : surrogateTree.IsProper := by decide +kernel
  have held : Catalogue.deserialize
      ['{', '"', 'k', '"', ':', '"', '\\', 'u', 'd', '8', '0', '0', '"', '}'] =
      .ok [([.scalar 'k'], [.surrogate 0xD800 (by decide)])] := by
    rfl
  obtain ⟨loaded, load⟩ : ∃ loaded,
      Catalogue.load surrogateTree (outputOf site project request) = .ok (_, loaded) :=
    Catalogue.load_of_bytesAt? rfl rfl (Utf8.decode_encode _) held
  refine ⟨proper, _, loaded, load, ?_⟩
  rw [translations_kept_iff site project request surrogateTree proper _ loaded load]
  rintro (dry | ⟨failure, missing⟩ | ⟨isText, -⟩)
  · cases dry
  · cases missing
  · revert isText
    decide

end Phrasebook.Batch
