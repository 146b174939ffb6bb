import Phrasebook.Proofs.Sources.Expansion

/-!
# Sources that name a file

A source without wildcards that names a file stands for that file alone, whatever is
excluded. With a wildcard in it the source is a pattern, even where a file has this very
name: it stands for the files that it matches, of which the file need not be one.
-/

namespace Phrasebook

open FileTree Glob

namespace Wildcard

/-- A text without brackets matches itself: its wildcards stand for themselves too. -/
theorem isMatch_self {text : Text} (noBracket : '[' ∉ text) : isMatch text text = true := by
  rw [isMatch, parts]
  induction text with
  | nil => rfl
  | cons head tail ih =>
    obtain ⟨here, later⟩ := not_or.1 (mt List.mem_cons.2 noBracket)
    have rest := ih later
    have notOpen : (head == '[') = false := by simpa using fun same => here same.symm
    have start : tail ∈ tails tail := by cases tail <;> exact List.mem_cons_self
    rw [partsFrom, notOpen]
    split
    · exact List.any_eq_true.2 ⟨tail, List.mem_cons_of_mem _ start, rest⟩
    · split
      · simpa [fits, Part.admits] using rest
      · simpa [fits, Part.admits] using rest

end Wildcard

namespace Glob

/-- Names without brackets lead, as patterns, to the place that they spell. -/
theorem leads_self {place : List Text} (noBracket : ∀ name ∈ place, '[' ∉ name) :
    Leads place place := by
  induction place with
  | nil => exact .nil
  | cons name place ih =>
    obtain ⟨here, later⟩ := List.forall_mem_cons.1 noBracket
    have rest := ih later
    cases isPattern : Wildcard.isPattern name with
    | false => exact .plain isPattern rest
    | true =>
      cases deep : isDeep name with
      | true =>
        refine @Leads.deep name place [name] place deep ?_
          (fun more => more.resolve_left (by simp)) rest
        rw [isDeep, beq_iff_eq] at deep
        subst deep
        decide
      | false =>
        refine .wild deep isPattern ?_ id rest
        rw [matchesName, Wildcard.isMatch_self here, Bool.and_true]
        exact Bool.or_not_self _

end Glob

namespace Sources

/-- A source that names a file stands for that file alone when it has no wildcard, and for
the files that it matches otherwise. Without brackets the file is one of them, unless it is
excluded. -/
theorem expand_of_file (site : Surroundings) {tree : FileTree} (proper : tree.IsProper)
    (excluded : List Text) (source : Text)
    (located : site.fault? (Path.ofText source) = none) (place : List Text)
    (reached : tree.place (site.meant (Path.ofText source)) = .ok place)
    (file : (tree.bytesAt? place).isSome) :
    (Wildcard.isPattern source = false →
      expand site tree excluded source = .ok ([pathOf place], [])) ∧
    (Wildcard.isPattern source = true →
      ∃ files warnings, expand site tree excluded source = .ok (files, warnings) ∧
        files.Pairwise (fun left right => left.precedes right = true) ∧
        (∀ path, path ∈ files ↔ ∃ other, path = pathOf other ∧ (tree.bytesAt? other).isSome ∧
          Leads place other ∧ isExcluded excluded path = false) ∧
        ((∀ name ∈ place, '[' ∉ name) →
          (pathOf place ∈ files ↔ isExcluded excluded (pathOf place) = false))) := by
  have spelled := site.locate_eq_pathOf reached
  have straight : Straight (site.locate (Path.ofText source)).names :=
    site.straight_locate _
  constructor
  · intro noPattern
    have reaches := proper.reach_pathOf (.inr file)
    have found := (reach_eq_ok_iff.1 reaches).2
    have noDirectory : tree.isDirectory (pathOf place) = false := by
      simp only [isDirectory, found, proper.hasDirectory_eq_false file]
    have isFile : tree.isFile (pathOf place) = true := by
      simp only [FileTree.isFile, found, file]
    simp [expand, located, noPattern, spelled, look_of_reach reaches, noDirectory, isFile, bind,
      Except.bind, pure, Except.pure]
  · intro isPattern
    obtain ⟨warnings, expanded⟩ := expand_of_isPattern located tree excluded isPattern
    have listed : ∀ path, path ∈ matchingFiles tree excluded (site.locate (Path.ofText source)) ↔
        ∃ other, path = pathOf other ∧ (tree.bytesAt? other).isSome ∧
          Leads (site.locate (Path.ofText source)).names other ∧
          isExcluded excluded path = false :=
      fun _ => mem_matchingFiles_iff proper straight
    rw [spelled] at expanded listed
    refine ⟨_, warnings, expanded, pairwise_matchingFiles _ _ _, listed, fun noBracket => ?_⟩
    rw [listed]
    constructor
    · rintro ⟨_, -, -, -, kept⟩
      exact kept
    · exact fun kept => ⟨place, rfl, file, leads_self noBracket, kept⟩

/-- A directory with a file whose name has a wildcard, and with one that the name matches. -/
def starredTree : FileTree where
  files := [(["work".toList, "a*.ts".toList], []), (["work".toList, "ab.ts".toList], [])]
  directories := [["work".toList]]

/-- One file is named on a detour and found although it is excluded; the name of the other
one finds both. -/
theorem expand_of_file_starredTree :
    starredTree.IsProper ∧
    expand ⟨pathOf ["work".toList], pathOf []⟩ starredTree ["*.ts".toList] "../work/ab.ts".toList =
      .ok ([pathOf ["work".toList, "ab.ts".toList]], []) ∧
    ∃ files warnings,
      expand ⟨pathOf ["work".toList], pathOf []⟩ starredTree [] "a*.ts".toList =
      .ok (files, warnings) ∧
      pathOf ["work".toList, "a*.ts".toList] ∈ files ∧
      pathOf ["work".toList, "ab.ts".toList] ∈ files := by
  have proper : starredTree.IsProper := by decide
  have plain := (expand_of_file ⟨pathOf ["work".toList], pathOf []⟩ proper ["*.ts".toList]
    "../work/ab.ts".toList (by decide) ["work".toList, "ab.ts".toList] rfl (by decide)).1 (by decide)
  obtain ⟨files, warnings, expanded, -, listed, itself⟩ :=
    (expand_of_file ⟨pathOf ["work".toList], pathOf []⟩ proper [] "a*.ts".toList (by decide)
      ["work".toList, "a*.ts".toList] rfl (by decide)).2 (by decide)
  refine ⟨proper, plain, files, warnings, expanded, (itself (by decide)).2 rfl, ?_⟩
  exact (listed _).2 ⟨_, rfl, by decide, .plain (by decide) (.wild (by decide) (by decide) (by decide)
    (absurd rfl) .nil), rfl⟩

/-- A directory with a file whose name has brackets. -/
def bracketTree : FileTree where
  files := [(["a[1].ts".toList], [])]

/-- Not every file that a source names is found: brackets stand for one character. -/
theorem not_every_file_found :
    ¬ ∀ (site : Surroundings) (tree : FileTree) (excluded : List Text) (source : Text)
      (place : List Text), tree.IsProper → site.fault? (Path.ofText source) = none →
      tree.place (site.meant (Path.ofText source)) = .ok place →
      (tree.bytesAt? place).isSome →
      ∃ journal, expand site tree excluded source = .ok ([pathOf place], journal) := by
  intro found
  have proper : bracketTree.IsProper := by decide
  obtain ⟨journal, expanded⟩ := found ⟨pathOf [], pathOf []⟩ bracketTree [] "a[1].ts".toList
    ["a[1].ts".toList] proper (by decide) rfl (by decide)
  have nothing : Glob.expand bracketTree (pathOf ["a[1].ts".toList]).names = [] := by decide
  have files : matchingFiles bracketTree [] (pathOf ["a[1].ts".toList]) =
    [pathOf ["a[1].ts".toList]] :=
    congrArg Prod.fst (Except.ok.inj expanded)
  rw [matchingFiles, nothing, List.map_nil, List.mergeSort_nil] at files
  cases files

end Sources

end Phrasebook
