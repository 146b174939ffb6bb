import Phrasebook.Proofs.Batch.Run
import Phrasebook.Proofs.Catalogue.Collisions

/-!
# Every text is accounted for

A text that a batch extracts is mapped at the end or some collision says that it was
dropped, and collisions say nothing else. Texts pass the staged catalogue of their file
on the way to the catalogue of the batch, and can lose in either.
-/

namespace Phrasebook

open List

namespace Catalogue

/-- Whether a catalogue accounts for texts that were added to what had been loaded. -/
structure Accounts (loaded : Catalogue) (added : Entries) (catalogue : Catalogue) : Prop where
  mapped : ∀ key, catalogue.get? key = (loaded.entries ++ added).lookup key
  /-- No text is dropped in silence. -/
  complete : ∀ key text, (key, text) ∈ added →
    catalogue.get? key = some text ∨ ∃ kept, ⟨key, kept, text⟩ ∈ catalogue.collisions
  /-- No collision is invented. -/
  sound : ∀ collision ∈ catalogue.collisions, collision.kept ≠ collision.dropped ∧
    (collision.key, collision.dropped) ∈ added ∧
    (collision.key, collision.kept) ∈ loaded.entries ++ added

/-- A catalogue that takes over staged texts maps each of them or says that it was
dropped, by the staged catalogue or by itself. -/
theorem get?_or_mem_collisions_of_absorb (catalogue : Catalogue) {inserts : Entries}
    {key text : CodePoints} (member : (key, text) ∈ inserts) :
    (catalogue.absorb (ofEntries inserts).1).1.get? key = some text ∨
      ∃ kept, ⟨key, kept, text⟩ ∈ (catalogue.absorb (ofEntries inserts).1).1.collisions := by
  cases staged : (ofEntries inserts).1.get? key with
  | none =>
    rw [get?, entries_ofEntries, lookup_joined, nil_append, lookup_eq_none_iff_not_mem] at staged
    exact absurd (mem_map_of_mem member) staged
  | some first =>
    by_cases same : first = text
    · subst same
      rcases get?_absorb_or_mem_collisions catalogue (mem_entries_of_get? staged) with
        mapped | ⟨kept, -, -, recorded⟩
      · exact .inl mapped
      · exact .inr ⟨kept, recorded⟩
    · have seen : ⟨key, first, text⟩ ∈ (ofEntries inserts).1.collisions :=
        mem_collisions_ofEntries_iff.mpr ⟨member, staged, same⟩
      exact .inr ⟨first, mem_collisions_absorb_iff.mpr (.inl (.inr seen))⟩

namespace Accounts

variable {loaded catalogue : Catalogue} {added : Entries}

/-- A catalogue without collisions accounts for itself. -/
theorem refl (silent : loaded.collisions = []) : Accounts loaded [] loaded where
  mapped key := by rw [append_nil, get?]
  complete _ _ member := absurd member not_mem_nil
  sound collision recorded := by
    rw [silent] at recorded
    cases recorded

/-- Taking over the texts of one more file, all texts are still accounted for. -/
theorem absorb (accounts : Accounts loaded added catalogue) (inserts : Entries) :
    Accounts loaded (added ++ inserts) (catalogue.absorb (ofEntries inserts).1).1 := by
  have mapped : ∀ key, (catalogue.absorb (ofEntries inserts).1).1.get? key =
      (loaded.entries ++ (added ++ inserts)).lookup key := by
    intro key
    rw [get?_absorb, accounts.mapped, get?, entries_ofEntries, lookup_joined, nil_append,
      ← lookup_append, append_assoc]
  refine ⟨mapped, fun key text member => ?_, fun collision recorded => ?_⟩
  · rcases mem_append.mp member with before | new
    · rcases accounts.complete key text before with found | ⟨kept, recorded⟩
      · exact .inl (by rw [get?_absorb, found, Option.some_or])
      · exact .inr ⟨kept, mem_collisions_absorb_iff.mpr (.inl (.inl recorded))⟩
    · exact get?_or_mem_collisions_of_absorb catalogue new
  · rcases mem_collisions_absorb_iff.mp recorded with (before | seen) | ⟨dropped, kept, differs⟩
    · obtain ⟨differs, dropped, kept⟩ := accounts.sound collision before
      refine ⟨differs, mem_append_left _ dropped, ?_⟩
      rw [← append_assoc]
      exact mem_append_left _ kept
    · -- Both texts of a collision within the file were extracted from it.
      obtain ⟨dropped, kept, differs⟩ := mem_collisions_ofEntries_iff.mp seen
      refine ⟨differs, mem_append_right _ dropped, ?_⟩
      have extracted := mem_of_mem_ofEntries (mem_entries_of_get? kept)
      exact mem_append_right _ (mem_append_right _ extracted)
    · refine ⟨differs, mem_append_right _ (mem_of_mem_ofEntries dropped), ?_⟩
      rw [mapped] at kept
      obtain ⟨front, back, split, -⟩ := lookup_eq_some_iff.mp kept
      rw [split]
      simp

end Accounts

end Catalogue

namespace Batch

variable {loaded : Catalogue} {progress : Progress}

/-! ## One file and all files -/

/-- Whether the catalogue of a batch accounts for all that its outcomes list. -/
structure IsAccounted (loaded : Catalogue) (progress : Progress) : Prop where
  accounts : loaded.Accounts (progress.outcomes.flatMap Outcome.entries) progress.catalogue
  distinct : progress.catalogue.Distinct

private theorem isAccounted_takeFile (accounted : IsAccounted loaded progress) (ctx : Context)
    (path : Path) : IsAccounted loaded (takeFile ctx progress path).1 := by
  rcases takeFile_cases ctx progress path with
    ⟨failure, journal, -, failed⟩ | ⟨outcome, tree, record, journal, -, -, took⟩
  · rw [failed]
    exact ⟨accounted.accounts, accounted.distinct⟩
  · rw [took]
    refine ⟨?_, accounted.distinct.absorb _⟩
    dsimp only
    rw [flatMap_append, flatMap_singleton]
    exact accounted.accounts.absorb outcome.entries

private theorem isAccounted_takeFiles (accounted : IsAccounted loaded progress) (ctx : Context)
    (paths : List Path) : IsAccounted loaded (takeFiles ctx progress paths).1 := by
  induction paths generalizing progress with
  | nil => exact accounted
  | cons path paths ih =>
    cases supported : Document.isSupported path with
    | false =>
      rw [takeFiles_unsupported supported]
      exact ih ⟨accounted.accounts, accounted.distinct⟩
    | true =>
      have next := isAccounted_takeFile accounted ctx path
      cases failed : (takeFile ctx progress path).2 with
      | some failure =>
        rw [takeFiles_of_error supported failed]
        exact next
      | none =>
        rw [takeFiles_of_ok supported failed]
        exact ih next

/-! ## The report -/

/-- A report tells of the outcomes and the catalogue after all files, none of which failed,
and of a batch that changes files it says that the catalogue was stored. -/
theorem finish_ok {ctx : Context} {output : Path} {start : Progress} {paths : List Path}
    {report : Report} (ended : (finish ctx output start paths).1 = .ok report) :
    report = reportOf ctx.dryRun output (takeFiles ctx start paths).1 ∧
      (takeFiles ctx start paths).2 = none ∧
      (ctx.dryRun = false →
        ((takeFiles ctx start paths).1.catalogue.save
          (takeFiles ctx start paths).1.tree output).1 = .ok () ∧
        (finish ctx output start paths).2.tree =
          ((takeFiles ctx start paths).1.catalogue.save
            (takeFiles ctx start paths).1.tree output).2) := by
  cases dry : ctx.dryRun with
  | true =>
    rw [finish_of_dry output dry] at ended
    cases failed : (takeFiles ctx start paths).2 with
    | some cause =>
      rw [failed] at ended
      cases ended
    | none =>
      rw [failed] at ended
      exact ⟨(Except.ok.inj ended).symm, rfl, fun wet => absurd wet (by simp)⟩
  | false =>
    obtain ⟨tree, result⟩ := finish_eq_of_wet output dry (Eq.refl (takeFiles ctx start paths).1)
    rw [result] at ended
    split at ended
    · cases ended
    · cases ended
    · rename_i stored saved finished
      exact ⟨(Except.ok.inj ended).symm, finished, fun _ => ⟨saved, tree⟩⟩

/-- The catalogue that a batch ends with: the one that it loads, with what its files add. -/
def catalogueAfter (site : Surroundings) (project : Project) (request : Request)
    (tree : FileTree) : Except Failure Catalogue := do
  let (paths, warnings) ←
    filesOf site project request tree
  let (loaded, journal) ← Catalogue.load tree (outputOf site project request)
  let (progress, _) := takeFiles (contextOf site project request)
    (start request tree paths warnings loaded journal) paths
  return progress.catalogue

/-- A batch that returns a report accounts for every text. The catalogue at its end maps
the first text that was loaded or extracted under a key, and unless the batch leaves files
alone, that is what can be loaded from the output afterwards. Every extracted text is
mapped, or the report has a collision that says it was dropped. Every reported collision is
one of two different texts, of which the dropped one was extracted and the kept one was
loaded or extracted, under its key. -/
theorem run_accounts_for_texts (site : Surroundings) (project : Project)
    (request : Request) (tree : FileTree) (report : Report)
    (returned : (run site project request tree).1 = .ok report) :
    ∃ loaded journal final,
      Catalogue.load tree (outputOf site project request) = .ok (loaded, journal) ∧
      catalogueAfter site project request tree = .ok final ∧
      report.size = final.size ∧
      (∀ key, final.get? key =
        (loaded.entries ++ report.outcomes.flatMap Outcome.entries).lookup key) ∧
      (request.dryRun = false → ∃ stored journal,
        Catalogue.load (run site project request tree).2.1
          (outputOf site project request) = .ok (stored, journal) ∧
        ∀ key, stored.get? key = final.get? key) ∧
      (∀ outcome ∈ report.outcomes, ∀ key text, (key, text) ∈ outcome.entries →
        final.get? key = some text ∨ ∃ kept, ⟨key, kept, text⟩ ∈ report.collisions) ∧
      ∀ collision ∈ report.collisions, collision.kept ≠ collision.dropped ∧
        (∃ outcome ∈ report.outcomes, (collision.key, collision.dropped) ∈ outcome.entries) ∧
        (loaded.get? collision.key = some collision.kept ∨
          ∃ outcome ∈ report.outcomes, (collision.key, collision.kept) ∈ outcome.entries) := by
  cases expanded : filesOf site project request tree with
  | error failure =>
    rw [(run_of_filesOf_error expanded).1] at returned
    cases returned
  | ok found =>
    obtain ⟨paths, warnings⟩ := found
    cases load : Catalogue.load tree (outputOf site project request) with
    | error failure =>
      rw [(run_of_load_error expanded load).1] at returned
      cases returned
    | ok found =>
      obtain ⟨loaded, journal⟩ := found
      obtain ⟨result, treeAfter⟩ := run_of_load expanded load
      rw [result] at returned
      obtain ⟨rfl, -, stores⟩ := finish_ok returned
      have distinct := Catalogue.distinct_of_load load
      have initial : IsAccounted loaded (start request tree paths warnings loaded journal) :=
        ⟨.refl (Catalogue.collisions_of_load load), distinct⟩
      obtain ⟨accounts, stillDistinct⟩ := isAccounted_takeFiles initial
        (contextOf site project request) paths
      refine ⟨loaded, journal, _, rfl, ?_, rfl, accounts.mapped, fun wet => ?_, ?_, ?_⟩
      · simp only [catalogueAfter, expanded, load, bind, Except.bind, pure, Except.pure]
      · obtain ⟨saved, treeSaved⟩ := stores wet
        rw [treeAfter, treeSaved]
        exact Catalogue.load_save stillDistinct (straight_outputOf _ _ _) saved
      · intro outcome listed key text member
        exact accounts.complete key text (mem_flatMap.mpr ⟨outcome, listed, member⟩)
      · intro collision recorded
        obtain ⟨differs, dropped, kept⟩ := accounts.sound collision recorded
        refine ⟨differs, mem_flatMap.mp dropped, ?_⟩
        rcases mem_append.mp kept with before | extracted
        · exact .inl ((Catalogue.lookup_eq_some_iff_mem distinct).mpr before)
        · exact .inr (mem_flatMap.mp extracted)

/-- A report on one supported file has one outcome. -/
theorem exists_outcome_of_finish {ctx : Context} {output path : Path} {report : Report}
    (supported : Document.isSupported path = true) (first : progress.outcomes = [])
    (ended : (finish ctx output progress [path]).1 = .ok report) :
    ∃ outcome, report.outcomes = [outcome] := by
  obtain ⟨rfl, finished, -⟩ := finish_ok ended
  rcases takeFile_cases ctx progress path with
    ⟨failure, _, -, failed⟩ | ⟨outcome, _, _, _, -, -, took⟩
  · rw [takeFiles_of_error supported (by rw [failed])] at finished
    cases finished
  · refine ⟨outcome, ?_⟩
    rw [reportOf, takeFiles_of_ok supported (by rw [took]), took, takeFiles, first]
    rfl

/-- A tree with a stored catalogue, a file that is not supported and a script. -/
def storedTree : FileTree where
  files := [(["translations.json".toList],
      Utf8.encode ['{', '"', 'k', '"', ':', '"', 'a', '"', '}']),
    (["a.md".toList], []), (["a.ts".toList], Utf8.encode "x = \"好\"".toList)]

/-- A batch over the other file of `storedTree` stores the text that it loaded. A report on the
script has one outcome, whose texts are stored or were dropped. -/
theorem run_accounts_for_texts_storedTree :
    let site : Surroundings := ⟨⟨['/'], []⟩, ⟨['/'], []⟩⟩
    let project : Project := .atRoot ⟨['/'], []⟩
    let request : Request := { source := "a.md".toList }
    let scripts : Request := { source := "a.ts".toList }
    (∃ report, (run site project request storedTree).1 = .ok report ∧
      ∃ stored journal,
        Catalogue.load (run site project request storedTree).2.1
          (outputOf site project request) = .ok (stored, journal) ∧
        stored.get? [.scalar 'k'] = some [.scalar 'a']) ∧
    ∀ report, (run site project scripts storedTree).1 = .ok report →
      ∃ outcome stored journal, report.outcomes = [outcome] ∧
        Catalogue.load (run site project scripts storedTree).2.1
          (outputOf site project scripts) = .ok (stored, journal) ∧
        ∀ key text, (key, text) ∈ outcome.entries →
          stored.get? key = some text ∨ ∃ kept, ⟨key, kept, text⟩ ∈ report.collisions := by
  intro site project request scripts
  have expanded : filesOf site project request storedTree =
      .ok ([⟨['/'], ["a.md".toList]⟩], []) := by
    rfl
  have held : Catalogue.deserialize ['{', '"', 'k', '"', ':', '"', 'a', '"', '}'] =
      .ok [([.scalar 'k'], [.scalar 'a'])] := by
    rfl
  obtain ⟨journal, load⟩ : ∃ journal,
      Catalogue.load storedTree (outputOf site project request) = .ok (_, journal) :=
    Catalogue.load_of_bytesAt? rfl rfl (Utf8.decode_encode _) held
  refine ⟨?_, fun report returned => ?_⟩
  case refine_2 =>
    obtain ⟨_, _, _, -, -, -, -, stores, complete, -⟩ :=
      run_accounts_for_texts site project scripts storedTree report returned
    obtain ⟨stored, _, reads, same⟩ := stores rfl
    rw [(run_of_load (show filesOf site project scripts storedTree =
      .ok ([⟨['/'], ["a.ts".toList]⟩], []) from rfl) load).1] at returned
    obtain ⟨outcome, listed⟩ := exists_outcome_of_finish (by decide +kernel) rfl returned
    refine ⟨outcome, stored, _, listed, reads, fun key text member => ?_⟩
    rw [same]
    exact complete outcome (by rw [listed]; exact mem_singleton_self _) key text member
  let begun := start request storedTree [⟨['/'], ["a.md".toList]⟩] []
    (Catalogue.ofEntries [([.scalar 'k'], [.scalar 'a'])]).1 journal
  have took : takeFiles (contextOf site project request) begun
      [⟨['/'], ["a.md".toList]⟩] =
        ({ begun with skipped := begun.skipped ++ [⟨['/'], ["a.md".toList]⟩] }, none) := by
    rw [takeFiles_unsupported (by decide +kernel), takeFiles]
  have saved : (begun.catalogue.save begun.tree (outputOf site project request)).1 = .ok () := by
    have isText : begun.catalogue.IsText := by
      change (Catalogue.ofEntries [([.scalar 'k'], [.scalar 'a'])]).1.IsText
      decide
    exact (Catalogue.save_eq_ok_iff (straight_outputOf _ _ _)).mpr ⟨isText, _, _, rfl, rfl, rfl⟩
  obtain ⟨report, -, -, result⟩ := finish_of_wet (outputOf site project request) rfl took
  rw [saved] at result
  have returned := (run_of_load expanded load).1.trans result
  refine ⟨report, returned, ?_⟩
  obtain ⟨loaded, _, final, loads, -, -, mapped, stores, -⟩ :=
    run_accounts_for_texts site project request storedTree report returned
  obtain ⟨stored, journal, reads, same⟩ := stores rfl
  refine ⟨stored, journal, reads, ?_⟩
  cases load.symm.trans loads
  rw [same, mapped, lookup_append]
  rfl

end Batch

end Phrasebook
