import Phrasebook.Batch
import Phrasebook.Proofs.Catalogue.Storage
import Phrasebook.Proofs.Document.Registration
import Phrasebook.Proofs.Sources

/-!
# How a batch moves on

What one file does to the progress of a batch, and what a list of files does. A file
either fails, and then tree and catalogue stay, or it is written back and its phrases
join the catalogue.
-/

namespace Phrasebook

open List

namespace Batch

open FileTree

variable {ctx : Context} {tree : FileTree} {outcome : Outcome} {path : Path} {failure : Failure}
  {progress : Progress}

/-- What extraction makes of a file as it stands in a tree. -/
def outcomeOf (ctx : Context) (tree : FileTree) (path : Path) : Except Failure Outcome := do
  let content ← tree.readExact path
  (Document.process ctx.settings ctx.site.cwd path content {}).1

/-- The text that a batch leaves in a file. -/
def textLeft (ctx : Context) (outcome : Outcome) : Text :=
  if ctx.dryRun then outcome.before else outcome.after

/-- What comes of a file as it stands in a tree when its result is put back as well. -/
def handled (ctx : Context) (tree : FileTree) (path : Path) : Except Failure Outcome := do
  let outcome ← outcomeOf ctx tree path
  let _ ← commit ctx tree outcome
  return outcome

/-- How progress moves on by the outcomes of files. -/
structure Advanced (earlier later : Progress) (outcomes : List Outcome) : Prop where
  shape : SameShape earlier.tree later.tree
  proper : earlier.tree.IsProper → later.tree.IsProper
  listed : later.outcomes = earlier.outcomes ++ outcomes
  /-- The first text under a key stays. -/
  mapped : ∀ key, later.catalogue.get? key =
    (earlier.catalogue.entries ++ outcomes.flatMap Outcome.entries).lookup key
  isText : later.catalogue.IsText ↔ earlier.catalogue.IsText
  distinct : earlier.catalogue.Distinct → later.catalogue.Distinct
  /-- Only files that change are touched. -/
  elsewhere : ∀ place, (∀ outcome ∈ outcomes, outcome.changed → place ≠ outcome.path.names) →
    later.tree.bytesAt? place = earlier.tree.bytesAt? place

namespace Advanced

variable {earlier middle later : Progress} {first second : List Outcome}

/-- Progress with the same tree, catalogue and outcomes has not moved. -/
theorem still (tree : later.tree = earlier.tree) (catalogue : later.catalogue = earlier.catalogue)
    (outcomes : later.outcomes = earlier.outcomes) : Advanced earlier later [] where
  shape := tree ▸ SameShape.refl _
  proper := tree ▸ id
  listed := by rw [outcomes, append_nil]
  mapped key := by
    rw [catalogue, flatMap_nil, append_nil]
    rfl
  isText := by rw [catalogue]
  distinct := catalogue ▸ id
  elsewhere place _ := by rw [tree]

/-- Moving on twice is moving on by all outcomes. -/
theorem trans (one : Advanced earlier middle first) (two : Advanced middle later second) :
    Advanced earlier later (first ++ second) where
  shape := one.shape.trans two.shape
  proper := two.proper ∘ one.proper
  listed := by rw [two.listed, one.listed, append_assoc]
  mapped key := by
    have before := one.mapped key
    rw [Catalogue.get?] at before
    rw [two.mapped, lookup_append, before, flatMap_append, ← append_assoc, ← lookup_append]
  isText := two.isText.trans one.isText
  distinct := two.distinct ∘ one.distinct
  elsewhere place other := by
    rw [two.elsewhere place fun outcome member =>
        other outcome (mem_append_right _ member),
      one.elsewhere place fun outcome member => other outcome (mem_append_left _ member)]

/-- A path at which no changed file stands reads as before. -/
theorem read (advanced : Advanced earlier later first) {path : Path}
    (straight : Straight path.names)
    (other : ∀ outcome ∈ first, outcome.changed → path.names ≠ outcome.path.names) :
    later.tree.read path = earlier.tree.read path := by
  refine (advanced.shape.read fun place reached => ?_).symm
  obtain rfl := place_eq_names straight (reach_eq_ok_iff.1 reached).2
  exact (advanced.elsewhere _ other).symm

end Advanced

/-! ## One file -/

/-- A file stays as it is, or its bytes become those of the text after extraction. Which of
the two does not depend on the tree. -/
theorem commit_cases (ctx : Context) (outcome : Outcome) :
    (textLeft ctx outcome = outcome.before ∧
      ∃ record, ∀ tree, commit ctx tree outcome = .ok (tree, record)) ∨
    (ctx.dryRun = false ∧ outcome.changed = true ∧
      ∃ record, ∀ tree, commit ctx tree outcome =
        (tree.write outcome.path (Utf8.encode outcome.after)).map fun next => (next, record)) := by
  cases changed : outcome.changed with
  | false =>
    have same : outcome.after = outcome.before := by
      simpa [Outcome.changed] using changed
    refine .inl ⟨by rw [textLeft, same, ite_self], ?_⟩
    simp only [commit, changed, Bool.not_false, if_true]
    exact ⟨_, fun _ => rfl⟩
  | true =>
    cases dry : ctx.dryRun with
    | true =>
      refine .inl ⟨by rw [textLeft, dry, if_pos rfl], ?_⟩
      simp only [commit, changed, dry, Bool.not_true, Bool.false_eq_true, if_false, if_true]
      exact ⟨_, fun _ => rfl⟩
    | false =>
      refine .inr ⟨rfl, rfl, countNote ctx outcome.path "extracted" outcome.phrases.length, ?_⟩
      intro tree
      cases wrote : tree.write outcome.path (Utf8.encode outcome.after) <;>
        simp [commit, changed, dry, wrote, bind, Except.bind, pure, Except.pure, Except.map]

/-- A file that could be read holds its text afterwards, and nothing else changes. -/
theorem commit_eq_ok {next : FileTree} {record : Record}
    (read : tree.readExact outcome.path = .ok outcome.before)
    (committed : commit ctx tree outcome = .ok (next, record)) :
    SameShape tree next ∧ next.read outcome.path = .ok (Utf8.encode (textLeft ctx outcome)) ∧
      ∀ place, (outcome.changed → tree.place outcome.path ≠ .ok place) →
        next.bytesAt? place = tree.bytesAt? place := by
  obtain ⟨bytes, holds, decoded⟩ := readExact_eq_ok_iff.mp read
  rcases commit_cases ctx outcome with ⟨same, _, stays⟩ | ⟨wet, changed, _, writes⟩
  · rw [stays] at committed
    cases committed
    refine ⟨.refl _, ?_, fun _ _ => rfl⟩
    rw [holds, same, Utf8.encode_of_decode decoded]
  · obtain ⟨place, reached, found⟩ := read_eq_ok_iff.mp holds
    have there : (tree.bytesAt? place).isSome := by rw [found]; rfl
    rw [writes] at committed
    cases wrote : tree.write outcome.path (Utf8.encode outcome.after) with
    | error failure =>
      rw [wrote] at committed
      cases committed
    | ok written =>
      rw [wrote] at committed
      cases committed
      obtain ⟨target, leads, -, rfl⟩ := write_eq_ok_iff.mp wrote
      obtain rfl := Except.ok.inj (reached.symm.trans leads)
      refine ⟨sameShape_withBytes _ there, ?_, fun other elsewhere => ?_⟩
      · rw [textLeft, wet, if_neg Bool.false_ne_true]
        exact read_eq_ok_iff.mpr ⟨_, reach_withBytes reached _ _, by simp⟩
      · rw [bytesAt?_withBytes, if_neg]
        rintro rfl
        exact elsewhere changed (reach_eq_ok_iff.1 reached).2

/-- A file that could be read can be written back. -/
theorem commit_of_read (ctx : Context) (proper : tree.IsProper)
    (read : tree.readExact outcome.path = .ok outcome.before) :
    ∃ next record, commit ctx tree outcome = .ok (next, record) ∧ next.IsProper := by
  obtain ⟨bytes, holds, -⟩ := readExact_eq_ok_iff.mp read
  obtain ⟨place, reached, found⟩ := read_eq_ok_iff.mp holds
  have there : (tree.bytesAt? place).isSome := by rw [found]; rfl
  rcases commit_cases ctx outcome with ⟨-, record, stays⟩ | ⟨-, -, record, writes⟩
  · exact ⟨tree, record, stays tree, proper⟩
  · have wrote := write_eq_ok_iff.mpr
      ⟨place, reached, proper.hasDirectory_eq_false there, Eq.refl
        (tree.withBytes place (Utf8.encode outcome.after))⟩
    refine ⟨_, record, ?_, proper.withBytes (Utf8.encode outcome.after) there⟩
    rw [writes, wrote]
    rfl

/-- The outcome of a file has its path and what stood in it. -/
theorem outcomeOf_eq_ok (processed : outcomeOf ctx tree path = .ok outcome) :
    outcome.path = path ∧ tree.readExact path = .ok outcome.before := by
  cases read : tree.readExact path with
  | error failure => simp [outcomeOf, read, bind, Except.bind] at processed
  | ok content =>
    obtain ⟨result, staged, journal, made⟩ : ∃ result staged journal,
        Document.process ctx.settings ctx.site.cwd path content {} =
          (result, staged, journal) := ⟨_, _, _, rfl⟩
    simp only [outcomeOf, read, bind, Except.bind, made] at processed
    subst processed
    obtain ⟨named, same, -⟩ := Document.process_ok made
    exact ⟨named, congrArg _ same.symm⟩

/-- A file is handled when it is processed and put back. -/
theorem handled_eq_ok_iff :
    handled ctx tree path = .ok outcome ↔ outcomeOf ctx tree path = .ok outcome ∧
        ∃ written, commit ctx tree outcome = .ok written := by
  simp only [handled, bind, Except.bind, pure, Except.pure]
  cases outcomeOf ctx tree path with
  | error failure => simp
  | ok made => cases committed : commit ctx tree made <;> grind

theorem handled_of_error (failed : outcomeOf ctx tree path = .error failure) :
    handled ctx tree path = .error failure := by
  simp [handled, failed, bind, Except.bind]

/-- A file fails and leaves all but the reports alone, or its result is put back, its
outcome is listed and the catalogue takes over what the file stages. -/
theorem takeFile_cases (ctx : Context) (progress : Progress) (path : Path) :
    (∃ failure journal, handled ctx progress.tree path = .error failure ∧
      takeFile ctx progress path = ({ progress with journal }, some failure)) ∨
    ∃ outcome tree record journal, outcomeOf ctx progress.tree path = .ok outcome ∧
      commit ctx progress.tree outcome = .ok (tree, record) ∧
      takeFile ctx progress path =
        ({ progress with
            tree, journal,
            catalogue := (progress.catalogue.absorb (Catalogue.ofEntries outcome.entries).1).1,
            outcomes := progress.outcomes ++ [outcome] }, none) := by
  cases read : progress.tree.readExact path with
  | error failure =>
    refine .inl ⟨failure, progress.journal, handled_of_error ?_, ?_⟩
    · simp only [outcomeOf, read, bind, Except.bind]
    · simp only [takeFile, read]
  | ok content =>
    rcases Document.process_cases ctx.settings ctx.site.cwd path content
      {} with ⟨failure, journal, failed⟩ | ⟨outcome, journal, made⟩
    · refine .inl ⟨failure, progress.journal ++ journal, handled_of_error ?_, ?_⟩
      · simp only [outcomeOf, read, bind, Except.bind, failed]
      · simp only [takeFile, read, failed]
    · -- The file starts from an empty catalogue, which becomes the staged one.
      have distinct : (Document.staged outcome.phrases).Distinct :=
        Catalogue.distinct_ofEntries outcome.entries
      rw [distinct.absorb_into_empty] at made
      have processed : outcomeOf ctx progress.tree path = .ok outcome := by
        simp only [outcomeOf, read, bind, Except.bind, made]
      cases committed : commit ctx progress.tree outcome with
      | error failure =>
        refine .inl ⟨failure, progress.journal ++ journal, ?_, ?_⟩
        · simp only [handled, processed, committed, bind, Except.bind]
        · simp only [takeFile, read, made, committed]
      | ok written =>
        obtain ⟨tree, record⟩ := written
        obtain ⟨journal, took⟩ : ∃ journal, takeFile ctx progress path =
            ({ progress with
                tree, journal,
                catalogue := (progress.catalogue.absorb (Document.staged outcome.phrases)).1,
                outcomes := progress.outcomes ++ [outcome] }, none) := by
          simp only [takeFile, read, made, committed]
          exact ⟨_, rfl⟩
        exact .inr ⟨outcome, tree, record, journal, processed, committed, took⟩

/-- A file that cannot be read or processed fails, and nothing moves. -/
theorem takeFile_of_error (failed : outcomeOf ctx progress.tree path = .error failure) :
    (takeFile ctx progress path).2 = some failure ∧
      Advanced progress (takeFile ctx progress path).1 [] := by
  rcases takeFile_cases ctx progress path with
    ⟨cause, journal, refused, took⟩ | ⟨outcome, tree, record, journal, processed, -, -⟩
  · rw [handled_of_error failed] at refused
    obtain rfl := Except.error.inj refused
    rw [took]
    exact ⟨rfl, .still rfl rfl rfl⟩
  · rw [failed] at processed
    cases processed

/-- The catalogue that a file stages holds texts only. -/
theorem isText_ofEntries (outcome : Outcome) : (Catalogue.ofEntries outcome.entries).1.IsText := by
  intro entry member
  obtain ⟨phrase, -, rfl⟩ := mem_map.mp (Catalogue.mem_of_mem_ofEntries member)
  simp [KeyedPhrase.entry]

/-- A file that can be read and processed is written back, and its phrases join the
catalogue. -/
theorem takeFile_of_ok (wet : ctx.dryRun = false) (proper : progress.tree.IsProper)
    (straight : Straight path.names) (processed : outcomeOf ctx progress.tree path = .ok outcome) :
    outcome.path = path ∧ (takeFile ctx progress path).2 = none ∧
      Advanced progress (takeFile ctx progress path).1 [outcome] ∧
      (takeFile ctx progress path).1.tree.read path = .ok (Utf8.encode outcome.after) := by
  obtain ⟨rfl, read⟩ := outcomeOf_eq_ok processed
  obtain ⟨next, record, committed, stillProper⟩ := commit_of_read ctx proper read
  obtain ⟨shape, reads, elsewhere⟩ := commit_eq_ok read committed
  rw [textLeft, wet, if_neg Bool.false_ne_true] at reads
  rcases takeFile_cases ctx progress outcome.path with
    ⟨failure, journal, refused, -⟩ | ⟨made, tree, written, journal, same, wrote, took⟩
  · rw [handled_eq_ok_iff.mpr ⟨processed, _, committed⟩] at refused
    cases refused
  · obtain rfl := Except.ok.inj (processed.symm.trans same)
    rw [committed] at wrote
    cases wrote
    have mapped : ∀ key,
        (progress.catalogue.absorb (Catalogue.ofEntries outcome.entries).1).1.get? key =
          (progress.catalogue.entries ++ [outcome].flatMap Outcome.entries).lookup key := by
      intro key
      rw [Catalogue.get?_absorb, Catalogue.get?, Catalogue.get?, Catalogue.entries_ofEntries,
        Catalogue.lookup_joined, nil_append, flatMap_singleton, lookup_append]
    rw [took]
    exact ⟨rfl, rfl, ⟨shape, fun _ => stillProper, rfl, mapped,
      Catalogue.isText_absorb_iff (isText_ofEntries outcome), fun distinct => distinct.absorb _,
      fun place other => elsewhere place fun changed reached =>
        other outcome mem_cons_self changed (place_eq_names straight reached)⟩, reads⟩

/-- A batch that leaves files alone puts nothing back. -/
theorem commit_of_dry (dry : ctx.dryRun = true) (tree : FileTree) (outcome : Outcome) :
    ∃ record, commit ctx tree outcome = .ok (tree, record) := by
  rcases commit_cases ctx outcome with ⟨-, record, stays⟩ | ⟨wet, -⟩
  · exact ⟨record, stays tree⟩
  · rw [dry] at wet
    cases wet

/-- A file of a batch that leaves files alone leaves the tree alone. -/
theorem takeFile_tree_of_dry (dry : ctx.dryRun = true) (progress : Progress) (path : Path) :
    (takeFile ctx progress path).1.tree = progress.tree := by
  rcases takeFile_cases ctx progress path with
    ⟨failure, journal, -, took⟩ | ⟨outcome, tree, record, journal, -, wrote, took⟩
  · rw [took]
  · obtain ⟨_, committed⟩ := commit_of_dry dry progress.tree outcome
    rw [committed] at wrote
    cases wrote
    rw [took]

/-! ## All files -/

section TakeFiles

variable {paths : List Path}

/-- A file that is not supported is passed over. -/
theorem takeFiles_unsupported (other : Document.isSupported path = false) :
    takeFiles ctx progress (path :: paths) =
      takeFiles ctx { progress with skipped := progress.skipped ++ [path] } paths := by
  simp [takeFiles, other]

/-- A file that fails ends the batch. -/
theorem takeFiles_of_error (supported : Document.isSupported path = true) {failure : Failure}
    (failed : (takeFile ctx progress path).2 = some failure) :
    takeFiles ctx progress (path :: paths) = ((takeFile ctx progress path).1, some failure) := by
  rw [takeFiles, supported, ← Prod.eta (takeFile ctx progress path), failed]
  rfl

/-- A file that succeeds hands on to the next. -/
theorem takeFiles_of_ok (supported : Document.isSupported path = true)
    (succeeded : (takeFile ctx progress path).2 = none) :
    takeFiles ctx progress (path :: paths) =
      takeFiles ctx (takeFile ctx progress path).1 paths := by
  rw [takeFiles, supported, ← Prod.eta (takeFile ctx progress path), succeeded]
  rfl

/-- A batch that leaves files alone leaves the tree alone. -/
theorem takeFiles_tree_of_dry (dry : ctx.dryRun = true) :
    (takeFiles ctx progress paths).1.tree = progress.tree := by
  induction paths generalizing progress with
  | nil => rfl
  | cons path paths ih =>
    cases supported : Document.isSupported path with
    | false => rw [takeFiles_unsupported supported, ih]
    | true =>
      cases failed : (takeFile ctx progress path).2 with
      | some failure =>
        rw [takeFiles_of_error supported failed]
        exact takeFile_tree_of_dry dry progress path
      | none =>
        rw [takeFiles_of_ok supported failed, ih, takeFile_tree_of_dry dry progress path]

/-- A batch moves on by the outcomes of some files. -/
theorem takeFiles_advanced (ctx : Context) (wet : ctx.dryRun = false) (progress : Progress)
    (proper : progress.tree.IsProper) (straight : ∀ path ∈ paths, Straight path.names) :
    ∃ outcomes, Advanced progress (takeFiles ctx progress paths).1 outcomes := by
  induction paths generalizing progress with
  | nil => exact ⟨[], .still rfl rfl rfl⟩
  | cons path paths ih =>
    have later := fun other member => straight other (mem_cons_of_mem path member)
    cases supported : Document.isSupported path with
    | false =>
      rw [takeFiles_unsupported supported]
      obtain ⟨outcomes, advanced⟩ :=
        ih { progress with skipped := progress.skipped ++ [path] } proper later
      have passed : Advanced progress { progress with skipped := progress.skipped ++ [path] } [] :=
        .still rfl rfl rfl
      exact ⟨_, passed.trans advanced⟩
    | true =>
      cases processed : outcomeOf ctx progress.tree path with
      | error failure =>
        obtain ⟨failed, advanced⟩ := takeFile_of_error processed
        rw [takeFiles_of_error supported failed]
        exact ⟨_, advanced⟩
      | ok outcome =>
        obtain ⟨-, succeeded, advanced, -⟩ :=
          takeFile_of_ok wet proper (straight path mem_cons_self) processed
        rw [takeFiles_of_ok supported succeeded]
        obtain ⟨outcomes, more⟩ := ih _ (advanced.proper proper) later
        exact ⟨_, advanced.trans more⟩

/-- How a batch ends with the files that it did not take. -/
def EndsAt (ctx : Context) (tree : FileTree) (failure : Option Failure) : List Path → Prop
  | [] => failure = none
  | path :: _ => Document.isSupported path = true ∧
      ∃ cause, outcomeOf ctx tree path = .error cause ∧ failure = some cause

/-- Extraction from a file does not depend on changes elsewhere. -/
theorem Advanced.outcomeOf {later : Progress} {outcomes : List Outcome}
    (advanced : Advanced progress later outcomes) (straight : Straight path.names)
    (other : ∀ outcome ∈ outcomes, path.names ≠ outcome.path.names) :
    Batch.outcomeOf ctx later.tree path = Batch.outcomeOf ctx progress.tree path := by
  have same := advanced.read straight fun outcome member _ => other outcome member
  simp only [Batch.outcomeOf, readExact, same]

/-- A batch of files at different places takes each as it stood at the start, up to the
first that cannot be read or processed. -/
theorem takeFiles_distinct (ctx : Context) (wet : ctx.dryRun = false)
    (progress : Progress) (proper : progress.tree.IsProper)
    (straight : ∀ path ∈ paths, Straight path.names) (distinct : (paths.map Path.names).Nodup) :
    ∃ before rest outcomes, paths = before ++ rest ∧
      (before.filter Document.isSupported).map (outcomeOf ctx progress.tree) = outcomes.map .ok ∧
      Advanced progress (takeFiles ctx progress paths).1 outcomes ∧
      (∀ outcome ∈ outcomes, outcome.path ∈ before ∧
        (takeFiles ctx progress paths).1.tree.read outcome.path = .ok (Utf8.encode outcome.after)) ∧
      EndsAt ctx progress.tree (takeFiles ctx progress paths).2 rest := by
  induction paths generalizing progress with
  | nil =>
    exact ⟨[], [], [], rfl, rfl, .still rfl rfl rfl, fun _ member => (not_mem_nil member).elim, rfl⟩
  | cons path paths ih =>
    have here := straight path mem_cons_self
    have later := fun other member => straight other (mem_cons_of_mem path member)
    rw [map_cons, nodup_cons] at distinct
    cases supported : Document.isSupported path with
    | false =>
      rw [takeFiles_unsupported supported]
      obtain ⟨before, rest, outcomes, split, processed, advanced, written, ends⟩ :=
        ih { progress with skipped := progress.skipped ++ [path] } proper later
          distinct.2
      have passed : Advanced progress { progress with skipped := progress.skipped ++ [path] } [] :=
        .still rfl rfl rfl
      refine ⟨path :: before, rest, outcomes, by rw [split, cons_append], ?_,
        passed.trans advanced, fun outcome member => ?_, ends⟩
      · rw [filter_cons_of_neg (by simp [supported])]
        exact processed
      · exact ⟨mem_cons_of_mem _ (written outcome member).1, (written outcome member).2⟩
    | true =>
      cases processed : outcomeOf ctx progress.tree path with
      | error failure =>
        obtain ⟨failed, advanced⟩ := takeFile_of_error processed
        rw [takeFiles_of_error supported failed]
        exact ⟨[], path :: paths, [], rfl, rfl, advanced,
          fun _ member => (not_mem_nil member).elim, supported, failure, processed, rfl⟩
      | ok outcome =>
        obtain ⟨named, succeeded, step, wrote⟩ := takeFile_of_ok wet proper here processed
        rw [takeFiles_of_ok supported succeeded]
        obtain ⟨before, rest, outcomes, split, taken, advanced, written, ends⟩ :=
          ih _ (step.proper proper) later distinct.2
        -- What the later files make of the tree they find is what they made of the first one.
        have unaffected : ∀ other ∈ paths,
            outcomeOf ctx (takeFile ctx progress path).1.tree other =
              outcomeOf ctx progress.tree other := by
          intro other member
          refine step.outcomeOf (later other member) fun first only => ?_
          rw [mem_singleton.mp only, named]
          exact fun same => distinct.1 (same ▸ mem_map_of_mem member)
        have among : ∀ other ∈ before, other ∈ paths := fun other member =>
          split ▸ mem_append_left rest member
        refine ⟨path :: before, rest, outcome :: outcomes, by rw [split, cons_append], ?_,
          step.trans advanced, fun one member => ?_, ?_⟩
        · rw [filter_cons_of_pos supported, map_cons, map_cons, processed, ← taken]
          refine congrArg _ (map_congr_left fun other member => (unaffected other ?_).symm)
          exact among other (mem_filter.mp member).1
        · rcases mem_cons.mp member with rfl | member
          · refine ⟨named ▸ mem_cons_self, ?_⟩
            rw [named, advanced.read here, wrote]
            intro other member _ same
            exact distinct.1 (same ▸ mem_map_of_mem (among _ (written other member).1))
          · exact ⟨mem_cons_of_mem _ (written one member).1, (written one member).2⟩
        · cases rest with
          | nil => exact ends
          | cons next more =>
            obtain ⟨isSupported, cause, failed, ended⟩ := ends
            exact ⟨isSupported, cause, unaffected next (by simp [split]) ▸ failed, ended⟩

end TakeFiles

end Batch

end Phrasebook
