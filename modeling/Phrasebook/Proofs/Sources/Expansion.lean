import Phrasebook.Proofs.Glob
import Phrasebook.Proofs.Path
import Phrasebook.Proofs.Sources

/-!
# Where a source is located, and what it is expanded to

The located path of a source spells the place to which the names of the source lead, so
what stands there is found again by its own names. A source that goes on behind a slash is
located below. A pattern is expanded to the files to which it leads and that are not
excluded, in order.
-/

namespace Phrasebook

open List FileTree

variable {path : Path} {tree : FileTree}

namespace FileTree

variable {place : List Text}

/-- A place is that of a file exactly when it is listed as one. -/
theorem isSome_bytesAt?_iff : (tree.bytesAt? place).isSome ↔ place ∈ tree.files.map Prod.fst := by
  constructor
  · intro file
    obtain ⟨stored, member, rfl⟩ := mem_files_of_isSome file
    exact mem_map_of_mem member
  · intro listed
    obtain ⟨stored, member, rfl⟩ := mem_map.1 listed
    cases found : tree.bytesAt? stored.1 with
    | some bytes => rfl
    | none => simpa using lookup_eq_none_iff.1 found stored member

/-- What stands somewhere is reached by its own names. -/
theorem IsProper.reach_pathOf (proper : tree.IsProper)
    (stands : tree.hasDirectory place = true ∨ (tree.bytesAt? place).isSome) :
    tree.reach (Sources.pathOf place) = .ok place := by
  refine reach_eq_ok_iff.2 ⟨?_, stands.elim proper.walk_directory proper.walk_file⟩
  by_cases root : place = []
  · subst root
    decide
  · refine (proper.nameable place ?_).2.2
    rcases stands with directory | file
    · exact mem_append_right _ (by simpa [hasDirectory, root] using directory)
    · exact mem_append_left _ (isSome_bytesAt?_iff.1 file)

private theorem IsProper.isFile_pathOf_iff (proper : tree.IsProper) (straight : Straight place) :
    tree.isFile (Sources.pathOf place) = true ↔ (tree.bytesAt? place).isSome := by
  constructor
  · intro file
    rw [isFile] at file
    cases reached : tree.place (Sources.pathOf place) with
    | error fault => simp [reached] at file
    | ok found =>
      rw [reached] at file
      obtain rfl : found = place := place_eq_names straight reached
      exact file
  · intro file
    simp only [isFile, (reach_eq_ok_iff.1 (proper.reach_pathOf (.inr file))).2, file]

private theorem eq_foldl_of_walk {names base : List Text}
    (reached : tree.walk base names = .ok place) :
    place = names.foldl
      (fun kept name => if name == ['.', '.'] then kept.dropLast else kept ++ [name]) base := by
  induction names generalizing base with
  | nil => exact (Except.ok.inj reached).symm
  | cons name names ih =>
    rw [walk] at reached
    split at reached
    · cases reached
    · rw [foldl_cons]
      split at reached
      · cases reached
      · split at reached
        · rw [if_pos ‹_›]
          exact ih reached
        · rw [if_neg ‹_›]
          exact ih reached

/-- Names lead to the place that is left of them once steps up are taken back. -/
theorem eq_straighten_of_place (reached : tree.place path = .ok place) :
    place = Surroundings.straighten path.names :=
  eq_foldl_of_walk reached

end FileTree

namespace Surroundings

variable (site : Surroundings)

/-- The path as whoever wrote it means it, before steps up are taken back. -/
def meant (path : Path) : Path :=
  site.cwd.append (site.expandHome path)

/-- The located path is that of the place to which the names lead. -/
theorem locate_eq_pathOf {place : List Text} (reached : tree.place (site.meant path) = .ok place) :
    site.locate path = Sources.pathOf place := by
  rw [eq_straighten_of_place reached]
  rfl

/-! ## Sources that go on -/

/-- Names without a step up stay as they are behind others. -/
theorem straighten_append {front back : List Text} (straight : Straight back) :
    straighten (front ++ back) = straighten front ++ back := by
  rw [straighten, foldl_append]
  generalize hkept : foldl _ [] front = kept
  have kept_eq : straighten front = kept := hkept
  rw [kept_eq]
  clear hkept kept_eq
  induction back generalizing kept with
  | nil => exact (append_nil _).symm
  | cons name back ih =>
    obtain ⟨down, straight⟩ := not_or.1 (mt mem_cons.2 straight)
    rw [foldl_cons, if_neg (fun up => down (beq_iff_eq.1 up).symm), ih straight]
    simp

variable {whole : Path} {names : List Text} (same : whole.isAbsolute = path.isAbsolute)
  (longer : whole.names = path.names ++ names)
  (away : names.head?.any (fun name => name.head? == some '~') = false)
include same longer away

/-- Names behind others do not decide where home is. -/
theorem expandHome_append :
    (site.expandHome whole).isAbsolute = (site.expandHome path).isAbsolute ∧
      (site.expandHome whole).names = (site.expandHome path).names ++ names := by
  rw [expandHome, expandHome, same]
  split
  · exact ⟨same, longer⟩
  · rw [longer]
    cases written : path.names with
    | nil =>
      have elsewhere : ∀ later, names ≠ ['~'] :: later := by
        rintro later rfl
        simp at away
      rw [nil_append]
      split
      · exact absurd rfl (elsewhere _)
      · exact ⟨same, by rw [longer, written]⟩
    | cons first later =>
      by_cases home : first = ['~']
      · subst home
        exact ⟨rfl, (append_assoc _ _ _).symm⟩
      · rw [cons_append]
        split
        · rename_i starts
          exact absurd (List.cons.inj starts).1 home
        · split
          · rename_i starts
            exact absurd (List.cons.inj starts).1 home
          · exact ⟨same, by rw [longer, written, cons_append]⟩

/-- What lies below a source is located below it. -/
theorem names_locate_append (straight : Straight names) :
    (site.locate whole).names = (site.locate path).names ++ names := by
  obtain ⟨absolute, below⟩ := site.expandHome_append same longer away
  change straighten (Path.append _ _).names = straighten (Path.append _ _).names ++ names
  rw [← straighten_append straight, Path.append, Path.append, absolute]
  split
  · rw [below]
  · rw [below, append_assoc]

/-- What lies below a source can be located if the source can. -/
theorem fault?_append (clean : ∀ name ∈ names, Path.holdsNull name = false)
    (located : site.fault? path = none) : site.fault? whole = none := by
  obtain ⟨absolute, below⟩ := site.expandHome_append same longer away
  rw [fault?] at located
  split at located
  · cases located
  · rename_i known
    split at located
    · cases located
    · rename_i noNull
      have noneWritten : path.names.any Path.holdsNull = false := by simpa [Path.hasNull] using noNull
      have noneAtAll : whole.hasNull = false := by
        rw [Path.hasNull, longer, any_append, noneWritten, Bool.false_or, any_eq_false]
        simpa using clean
      have firstClean : ∀ list : List Text, list.any Path.holdsNull = false →
          list.head?.any Path.holdsNull = false := by
        intro list none
        cases list with
        | nil => rfl
        | cons first later => simpa using (any_eq_false.1 none) first mem_cons_self
      have notAtHome : (site.expandHome whole).startsAtHome = false := by
        have before : (site.expandHome path).startsAtHome = false := by
          simpa [firstClean _ noneWritten] using known
        rw [Path.startsAtHome] at before ⊢
        rw [absolute, below]
        generalize (site.expandHome path).names = front at before
        cases front with
        | nil => rw [nil_append, away, Bool.and_false]
        | cons first later => exact before
      rw [fault?, notAtHome, noneAtAll]
      rfl

end Surroundings

namespace Sources

open Glob

/-! ## What a source is expanded to -/

theorem pairwise_mergeSort (paths : List Path) :
    (paths.mergeSort Path.precedes).Pairwise fun left right => left.precedes right = true :=
  List.pairwise_mergeSort Path.precedes_trans Path.precedes_total paths

/-- A pattern lists the files to which it leads and whose whole path is not excluded. -/
theorem mem_matchingFiles_iff (proper : tree.IsProper) {excluded : List Text} {pattern : Path}
    (straight : Straight pattern.names) :
    path ∈ matchingFiles tree excluded pattern ↔ ∃ place, path = pathOf place ∧
      (tree.bytesAt? place).isSome ∧ Leads pattern.names place ∧ isExcluded excluded path = false := by
  rw [matchingFiles, mem_filter, mem_mergeSort, mem_map, Bool.and_eq_true, Bool.not_eq_true']
  constructor
  · rintro ⟨⟨place, found, rfl⟩, file, kept⟩
    have stored := (proper.isFile_pathOf_iff (straight_expand proper straight place found)).1 file
    exact ⟨place, rfl, stored, (mem_expand_iff proper stored).1 found, kept⟩
  · rintro ⟨place, rfl, stored, leads, kept⟩
    have found := (mem_expand_iff proper stored).2 leads
    have file := (proper.isFile_pathOf_iff (straight_expand proper straight place found)).2 stored
    exact ⟨⟨place, found, rfl⟩, file, kept⟩

/-- The files of a pattern are in order. -/
theorem pairwise_matchingFiles (tree : FileTree) (excluded : List Text) (pattern : Path) :
    (matchingFiles tree excluded pattern).Pairwise fun left right => left.precedes right = true :=
  (pairwise_mergeSort _).filter _

variable {site : Surroundings} {source : Text}
  (located : site.fault? (Path.ofText source) = none)
include located

/-- A pattern expands to its files. -/
theorem expand_of_isPattern (tree : FileTree) (excluded : List Text)
    (isPattern : Wildcard.isPattern source = true) :
    ∃ warnings, expand site tree excluded source =
      .ok (matchingFiles tree excluded (site.locate (Path.ofText source)), warnings) := by
  simp only [expand, located, isPattern, if_true]
  exact ⟨_, rfl⟩

/-- A directory expands to the files below it. -/
theorem expand_of_isDirectory (proper : tree.IsProper) (excluded : List Text)
    (noPattern : Wildcard.isPattern source = false)
    (directory : tree.isDirectory (site.locate (Path.ofText source)) = true) :
    expand site tree excluded source =
      .ok (filesBelow tree excluded (site.locate (Path.ofText source)), []) := by
  have looked : tree.look (site.locate (Path.ofText source))
      (site.locate (Path.ofText source)) = .ok () := by
    rw [isDirectory] at directory
    split at directory
    · rename_i place reached
      obtain rfl := place_eq_names (site.straight_locate _) reached
      exact look_of_reach (proper.reach_pathOf (.inl directory))
    · cases directory
  simp [expand, located, noPattern, looked, directory, bind, Except.bind, pure, Except.pure]

end Sources

end Phrasebook
