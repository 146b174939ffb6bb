import Phrasebook.Proofs.Sources.Expansion

/-!
# Directories and patterns

A directory stands for the files below it, and the pattern of everything below it stands
for the same files. Both list them in order, each once. They part where files are excluded:
a directory looks at the path of a file from the directory on, a pattern at the path from
the root on. The two lists are equal exactly when this makes no difference.
-/

namespace Phrasebook.Sources

open List FileTree Glob

variable {tree : FileTree} {excluded : List Text}

/-- Whether paths are those of the files below a place that are kept, each once and in
order. -/
structure ListsBelow (tree : FileTree) (base : List Text) (keeps : List Text → Bool)
    (paths : List Path) : Prop where
  ordered : paths.Pairwise fun left right => left.precedes right = true
  once : paths.Nodup
  mem_iff : ∀ path, path ∈ paths ↔ ∃ names, names ≠ [] ∧ (tree.bytesAt? (base ++ names)).isSome ∧
    keeps names = true ∧ path = pathOf (base ++ names)

namespace ListsBelow

variable {base : List Text} {keeps others : List Text → Bool} {paths found : List Path}

/-- A file below a place is listed exactly when it is kept. -/
theorem pathOf_mem_iff (lists : ListsBelow tree base keeps paths) {names : List Text}
    (below : names ≠ []) (file : (tree.bytesAt? (base ++ names)).isSome) :
    pathOf (base ++ names) ∈ paths ↔ keeps names = true := by
  rw [lists.mem_iff]
  constructor
  · rintro ⟨other, -, -, kept, same⟩
    obtain rfl := append_cancel_left (Path.mk.inj same).2
    exact kept
  · exact fun kept => ⟨names, below, file, kept, rfl⟩

/-- Two lists of the files below a place are equal exactly when they keep the same. -/
theorem eq_iff (lists : ListsBelow tree base keeps paths) (other : ListsBelow tree base others found) :
    paths = found ↔
      ∀ names, names ≠ [] → (tree.bytesAt? (base ++ names)).isSome → keeps names = others names := by
  constructor
  · rintro rfl names below file
    rw [Bool.eq_iff_iff, ← lists.pathOf_mem_iff below file, ← other.pathOf_mem_iff below file]
  · intro same
    -- Lists in order are equal when their members are, for the order tells paths apart.
    have members : paths.Perm found := by
      refine (perm_ext_iff_of_nodup lists.once other.once).2 fun path => ?_
      rw [lists.mem_iff, other.mem_iff]
      refine exists_congr fun names => and_congr_right fun below => and_congr_right fun file => ?_
      rw [same names below file]
    refine List.Perm.eq_of_pairwise (fun left right isLeft isRight before behind => ?_)
      lists.ordered other.ordered members
    obtain ⟨_, -, -, -, rfl⟩ := (lists.mem_iff _).1 isLeft
    obtain ⟨_, -, -, -, rfl⟩ := (other.mem_iff _).1 isRight
    exact congrArg pathOf (List.cons.inj (Path.parts_eq_of_precedes before behind)).2

/-- Nothing is listed exactly when nothing is kept. -/
theorem eq_nil_iff (lists : ListsBelow tree base keeps paths) :
    paths = [] ↔
      ∀ names, names ≠ [] → (tree.bytesAt? (base ++ names)).isSome → keeps names = false := by
  rw [eq_nil_iff_forall_not_mem]
  constructor
  · intro none names below file
    rw [← Bool.not_eq_true, ← lists.pathOf_mem_iff below file]
    exact none _
  · intro none path member
    obtain ⟨names, below, file, kept, -⟩ := (lists.mem_iff path).1 member
    rw [none names below file] at kept
    cases kept

end ListsBelow

/-! ## The files below a directory -/

/-- A directory lists the files below it whose path from there on is not excluded. -/
theorem listsBelow_filesBelow (once : tree.standing.Nodup) (excluded : List Text) (directory : Path) :
    ListsBelow tree directory.names (fun names => !isExcluded excluded ⟨[], names⟩)
      (filesBelow tree excluded directory) := by
  refine ⟨pairwise_mergeSort _, (mergeSort_perm _ _).nodup_iff.2 ?_,
    fun path => (mergeSort_perm _ _).mem_iff.trans ?_⟩
  · have files : (tree.files.map Prod.fst).Nodup := (nodup_append.1 once).1
    refine List.Pairwise.filterMap _ ?_ (pairwise_map.1 files)
    rintro ⟨one, _⟩ ⟨other, _⟩ different path isOne _ isOther same
    dsimp only at isOne isOther
    split at isOne <;> cases isOne
    split at isOther <;> cases isOther
    exact different (Path.mk.inj same).2
  · rw [mem_filterMap]
    constructor
    · rintro ⟨⟨place, bytes⟩, listed, found⟩
      dsimp only at found
      split at found <;> cases found
      rename_i kept
      simp only [Bool.and_eq_true, List.isPrefixOf_iff_prefix, decide_eq_true_eq] at kept
      obtain ⟨⟨⟨names, rfl⟩, longer⟩, kept⟩ := kept
      refine ⟨names, ?_, isSome_bytesAt?_iff.2 (mem_map_of_mem listed), by simpa using kept, rfl⟩
      rintro rfl
      simp at longer
    · rintro ⟨names, below, file, kept, rfl⟩
      obtain ⟨stored, listed, same⟩ := mem_map.1 (isSome_bytesAt?_iff.1 file)
      refine ⟨stored, listed, ?_⟩
      have longer : 0 < names.length := length_pos_iff.2 below
      dsimp only
      rw [same, if_pos]
      simp only [Bool.and_eq_true, List.isPrefixOf_iff_prefix, decide_eq_true_eq]
      refine ⟨⟨prefix_append _ _, ?_⟩, by simpa using kept⟩
      rw [length_append]
      omega

/-! ## The files that a pattern matches -/

section Everything

variable (proper : tree.IsProper) (once : tree.standing.Nodup) {base : List Text}
  (straight : Straight base) (plain : ∀ name ∈ base, Wildcard.isPattern name = false)
  (shown : ∀ names, (tree.bytesAt? (base ++ names)).isSome → ∀ name ∈ names, isHidden name = false)
include proper once straight plain shown

/-- The pattern of everything below a place lists the files there whose whole path is not
excluded. -/
theorem listsBelow_matchingFiles (excluded : List Text) {pattern : Path}
    (spelled : pattern.names = base ++ everything) :
    ListsBelow tree base (fun names => !isExcluded excluded (pathOf (base ++ names)))
      (matchingFiles tree excluded pattern) := by
  have whole : Straight pattern.names := by
    rw [spelled]
    intro up
    exact (mem_append.1 up).elim straight (by simp [everything])
  refine ⟨pairwise_matchingFiles _ _ _, ?_, fun path => ?_⟩
  · have found : ((Glob.expand tree pattern.names).map pathOf).Nodup := by
      rw [spelled]
      exact (nodup_expand_everything once plain).map fun _ _ same => (Path.mk.inj same).2
    exact ((mergeSort_perm _ _).nodup_iff.2 found).filter _
  · rw [mem_matchingFiles_iff proper whole, spelled]
    constructor
    · rintro ⟨place, rfl, file, fromRoot, kept⟩
      obtain ⟨names, rfl, leads⟩ := (leads_append_iff plain).1 fromRoot
      exact ⟨names, (leads_everything_iff.1 leads).1, file, by simpa using kept, rfl⟩
    · rintro ⟨names, below, file, kept, rfl⟩
      refine ⟨_, rfl, file, (leads_append_iff plain).2 ⟨names, rfl, ?_⟩, by simpa using kept⟩
      exact leads_everything_iff.2 ⟨below, shown names file⟩

end Everything

/-! ## Patterns that name directories -/

private theorem getLast?_withoutSlashes_ne (text : Text) :
    (withoutSlashes text).getLast? ≠ some '/' := by
  rw [withoutSlashes, getLast?_reverse]
  intro slash
  have := head?_dropWhile_not (· == '/') text.reverse
  rw [slash] at this
  cases this

/-- Patterns that name directories exclude a whole path for what lies below a place, or for
the place itself. -/
theorem isExcluded_pathOf_append (directories : ∀ pattern ∈ excluded, pattern.getLast? = some '/')
    (base names : List Text) :
    isExcluded excluded (pathOf (base ++ names)) = true ↔
      isExcluded excluded ⟨[], names⟩ = true ∨ ∃ pattern ∈ excluded,
      withoutSlashes pattern ∈ base := by
  have one : ∀ pattern ∈ excluded, ∀ path : Path,
      excludes path pattern = true ↔ withoutSlashes pattern ∈ path.parts := by
    intro pattern member path
    have nonempty : pattern ≠ [] := by
      rintro rfl
      cases directories [] member
    rw [excludes, if_neg (by simpa using nonempty), if_pos (by simpa using directories pattern member),
      contains_iff_mem]
  have root : ∀ pattern, withoutSlashes pattern ≠ ['/'] := by
    intro pattern same
    have last := getLast?_withoutSlashes_ne pattern
    rw [same] at last
    exact last rfl
  simp only [isExcluded, any_eq_true]
  constructor
  · rintro ⟨pattern, member, found⟩
    rw [one pattern member] at found
    rcases mem_cons.1 found with same | found
    · exact absurd same (root pattern)
    · rcases mem_append.1 found with above | below
      · exact .inr ⟨pattern, member, above⟩
      · exact .inl ⟨pattern, member, (one pattern member _).2 below⟩
  · rintro (⟨pattern, member, below⟩ | ⟨pattern, member, above⟩)
    · refine ⟨pattern, member, (one pattern member _).2 (mem_cons_of_mem _ ?_)⟩
      exact mem_append_right _ ((one pattern member _).1 below)
    · refine ⟨pattern, member, (one pattern member _).2 (mem_cons_of_mem _ ?_)⟩
      exact mem_append_left _ above

/-- Where all patterns name directories, lists by the path from a place on and by the whole
path are equal when the first is empty, or when no pattern names a directory on the way to
the place. -/
theorem ListsBelow.eq_iff_of_directories {base : List Text} {walked matched : List Path}
    (walks : ListsBelow tree base (fun names => !isExcluded excluded ⟨[], names⟩) walked)
    (finds : ListsBelow tree base (fun names => !isExcluded excluded (pathOf (base ++ names))) matched)
    (directories : ∀ pattern ∈ excluded, pattern.getLast? = some '/') :
    walked = matched ↔ walked = [] ∨ ∀ pattern ∈ excluded, withoutSlashes pattern ∉ base := by
  rw [walks.eq_iff finds]
  by_cases above : ∃ pattern ∈ excluded, withoutSlashes pattern ∈ base
  · have all (names : List Text) : isExcluded excluded (pathOf (base ++ names)) = true :=
      (isExcluded_pathOf_append directories base names).2 (.inr above)
    obtain ⟨pattern, member, named⟩ := above
    simp only [all, Bool.not_true]
    rw [← walks.eq_nil_iff]
    exact ⟨.inl, fun either => either.resolve_right fun none => none pattern member named⟩
  · have same (names : List Text) :
        isExcluded excluded (pathOf (base ++ names)) = isExcluded excluded ⟨[], names⟩ := by
      rw [Bool.eq_iff_iff, isExcluded_pathOf_append directories base names, or_iff_left above]
    refine iff_of_true (fun names _ _ => by rw [same]) (.inr fun pattern member named => ?_)
    exact above ⟨pattern, member, named⟩

/-! ## Agreement -/

/-- The text that a source goes on with to name everything below it. -/
def everythingBelow : Text :=
  "/**/*".toList

/-- A directory and the pattern of everything below it list the same files in the same order
exactly when no file there is excluded by one of its paths only. Where all patterns name
directories, that is when nothing is listed or no pattern names the directory or one above
it. -/
theorem expand_everythingBelow_eq_iff (site : Surroundings) {tree : FileTree}
    (proper : tree.IsProper) (once : tree.standing.Nodup) (excluded : List Text) (source : Text)
    (written : source ≠ []) (located : site.fault? (Path.ofText source) = none)
    (noPattern : Wildcard.isPattern source = false) {base : List Text}
    (spelled : (site.locate (Path.ofText source)).names = base)
    (plain : ∀ name ∈ base, Wildcard.isPattern name = false)
    (directory : tree.isDirectory (site.locate (Path.ofText source)) = true)
    (shown : ∀ names, (tree.bytesAt? (base ++ names)).isSome → ∀ name ∈ names, isHidden name = false) :
    ∃ walked matched warnings,
      expand site tree excluded source = .ok (walked, []) ∧
      expand site tree excluded (source ++ everythingBelow) = .ok (matched, warnings) ∧
      ListsBelow tree base (fun names => !isExcluded excluded ⟨[], names⟩) walked ∧
      ListsBelow tree base (fun names => !isExcluded excluded (pathOf (base ++ names))) matched ∧
      (walked = matched ↔ ∀ names, names ≠ [] → (tree.bytesAt? (base ++ names)).isSome →
        isExcluded excluded ⟨[], names⟩ = isExcluded excluded (pathOf (base ++ names))) ∧
      ((∀ pattern ∈ excluded, pattern.getLast? = some '/') →
        (walked = matched ↔ walked = [] ∨ ∀ pattern ∈ excluded, withoutSlashes pattern ∉ base)) := by
  have straight : Straight base := spelled ▸ site.straight_locate _
  have head : (source ++ everythingBelow).head? = source.head? := head?_append_of_ne_nil _ written
  have absolute : (Path.ofText (source ++ everythingBelow)).isAbsolute =
      (Path.ofText source).isAbsolute := by
    rw [Path.isAbsolute_ofText, Path.isAbsolute_ofText, head]
  have longer : (Path.ofText (source ++ everythingBelow)).names =
      (Path.ofText source).names ++ everything :=
    Path.names_ofText_append source "**/*".toList
  have below : (site.locate (Path.ofText (source ++ everythingBelow))).names = base ++ everything :=
    spelled ▸ site.names_locate_append absolute longer rfl (by decide)
  have reachable : site.fault? (Path.ofText (source ++ everythingBelow)) = none :=
    site.fault?_append absolute longer rfl (by decide) located
  have isPattern : Wildcard.isPattern (source ++ everythingBelow) = true := by
    rw [Wildcard.isPattern, any_append]
    exact Bool.or_true _
  have walks := listsBelow_filesBelow once excluded (site.locate (Path.ofText source))
  rw [spelled] at walks
  have finds := listsBelow_matchingFiles proper once straight plain shown excluded below
  obtain ⟨warnings, expanded⟩ := expand_of_isPattern reachable tree excluded isPattern
  refine ⟨_, _, warnings, expand_of_isDirectory located proper excluded noPattern directory,
    expanded, walks, finds, ?_, walks.eq_iff_of_directories finds⟩
  rw [walks.eq_iff finds]
  simp only [Bool.not_inj_iff]

/-- A project with a file in a directory of its own. -/
def projectTree : FileTree where
  files := [(["work".toList, "src".toList, "a.ts".toList], [])]
  directories := [["work".toList], ["work".toList, "src".toList]]

/-- The directory lists the file although a pattern names the project, and the pattern of
everything below it lists nothing. -/
theorem expand_everythingBelow_eq_iff_projectTree :
    projectTree.IsProper ∧ projectTree.standing.Nodup ∧
    ∃ walked matched warnings,
      expand ⟨pathOf ["work".toList], pathOf []⟩ projectTree ["work/".toList] "src".toList =
        .ok (walked, []) ∧
      expand ⟨pathOf ["work".toList], pathOf []⟩ projectTree ["work/".toList] "src/**/*".toList =
        .ok (matched, warnings) ∧
      pathOf ["work".toList, "src".toList, "a.ts".toList] ∈ walked ∧ walked ≠ matched := by
  have proper : projectTree.IsProper := by decide
  have once : projectTree.standing.Nodup := by decide
  have shown : ∀ names, (projectTree.bytesAt? (["work".toList, "src".toList] ++ names)).isSome →
      ∀ name ∈ names, isHidden name = false := by
    intro names file
    have listed := isSome_bytesAt?_iff.1 file
    simp only [projectTree, map_cons, map_nil, mem_singleton] at listed
    obtain rfl : names = ["a.ts".toList] := by simpa using listed
    decide
  obtain ⟨walked, matched, warnings, walks, finds, listed, -, -, agree⟩ :=
    expand_everythingBelow_eq_iff ⟨pathOf ["work".toList], pathOf []⟩ proper once ["work/".toList]
      "src".toList (by decide) (by decide) (by decide) (by decide) (by decide) (by decide) shown
  have member : pathOf ["work".toList, "src".toList, "a.ts".toList] ∈ walked :=
    (listed.mem_iff _).2 ⟨["a.ts".toList], by decide, by decide, by decide, rfl⟩
  refine ⟨proper, once, walked, matched, warnings, walks, finds, member, fun same => ?_⟩
  rcases (agree (by decide)).1 same with none | away
  · rw [none] at member
    cases member
  · exact absurd away (by decide)

end Phrasebook.Sources
