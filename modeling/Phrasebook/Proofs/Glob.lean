import Mathlib.Data.List.Nodup
import Phrasebook.Glob
import Phrasebook.Proofs.FileTree

/-!
# What a pattern matches

The files that a pattern is expanded to are those whose places it spells, name by name,
and nothing else. What stands at the other places of a tree makes no difference.
-/

namespace Phrasebook

open List

namespace FileTree

/-- The places at which something stands. -/
abbrev standing (tree : FileTree) : List (List Text) :=
  tree.files.map Prod.fst ++ tree.directories

/-- Above everything that stands somewhere there are directories. -/
theorem IsProper.hasDirectory_front {tree : FileTree} (proper : tree.IsProper)
    {base names : List Text} (there : base ++ names ∈ tree.standing) (below : names ≠ []) :
    tree.hasDirectory base = true := by
  have above := proper.inside _ there
  rw [dropLast_append_of_ne_nil below] at above
  by_cases last : names.dropLast = []
  · rwa [last, append_nil] at above
  · have directory : base ++ names.dropLast ∈ tree.directories := by
      simpa [hasDirectory, last] using above
    exact IsProper.hasDirectory_front proper (mem_append_right _ directory) last
termination_by names.length
decreasing_by
  rw [length_dropLast]
  exact Nat.sub_lt (length_pos_iff.2 below) Nat.one_pos

private theorem mem_standing_of_isSome {tree : FileTree} {place : List Text}
    (file : (tree.bytesAt? place).isSome) : place ∈ tree.standing := by
  obtain ⟨stored, member, rfl⟩ := mem_files_of_isSome file
  exact mem_append_left _ (mem_map_of_mem member)

end FileTree

namespace Glob

variable {pattern : Text} {place base : List Text} {directoriesOnly : Bool}

/-- Whether name patterns lead to a file by its names. Two stars stand for any names that
are not hidden, and for none where a directory has been reached. Only the last pattern may
use up the names of a file with a wildcard, for the others lead to directories. -/
inductive Leads : List Text → List Text → Prop
  | nil : Leads [] []
  | deep {pattern : Text} {patterns between names : List Text} (deep : isDeep pattern = true)
    (shown : ∀ name ∈ between, isHidden name = false)
    (inside : between = [] ∨ patterns ≠ [] → names ≠ []) (later : Leads patterns names) :
    Leads (pattern :: patterns) (between ++ names)
  | wild {pattern name : Text} {patterns names : List Text} (shallow : isDeep pattern = false)
    (isPattern : Wildcard.isPattern pattern = true) (matched : matchesName pattern name = true)
    (inside : patterns ≠ [] → names ≠ []) (later : Leads patterns names) :
    Leads (pattern :: patterns) (name :: names)
  | plain {pattern : Text} {patterns names : List Text}
    (fixed : Wildcard.isPattern pattern = false) (later : Leads patterns names) :
    Leads (pattern :: patterns) (pattern :: names)

private theorem isPattern_of_isDeep (deep : isDeep pattern = true) :
    Wildcard.isPattern pattern = true := by
  rw [isDeep, beq_iff_eq] at deep
  subst deep
  rfl

/-- Names without wildcards lead to the place that they spell, and on from there. -/
theorem leads_append_iff {fixed patterns : List Text}
    (plain : ∀ name ∈ fixed, Wildcard.isPattern name = false) :
    Leads (fixed ++ patterns) place ↔ ∃ names, place = fixed ++ names ∧ Leads patterns names := by
  induction fixed generalizing place with
  | nil => simp
  | cons first fixed ih =>
    obtain ⟨here, later⟩ := forall_mem_cons.1 plain
    constructor
    · intro leads
      cases leads with
      | deep deep => simp [isPattern_of_isDeep deep] at here
      | wild _ isPattern => simp [isPattern] at here
      | plain _ leads =>
        obtain ⟨names, rfl, rest⟩ := (ih later).1 leads
        exact ⟨names, rfl, rest⟩
    · rintro ⟨names, rfl, leads⟩
      exact .plain here ((ih later).2 ⟨names, rfl, leads⟩)

/-! ## One name pattern -/

private theorem isOpenBelow_iff :
    isOpenBelow base place = true ↔
      ∃ between, between ≠ [] ∧ place = base ++ between ∧ ∀ name ∈ between, isHidden name = false := by
  rw [isOpenBelow, Bool.and_eq_true, Bool.and_eq_true, List.isPrefixOf_iff_prefix, decide_eq_true_eq]
  constructor
  · rintro ⟨⟨⟨between, rfl⟩, longer⟩, shown⟩
    refine ⟨between, ?_, rfl, ?_⟩
    · rintro rfl
      simp at longer
    · simpa using shown
  · rintro ⟨between, nonempty, rfl, shown⟩
    have longer : 0 < between.length := length_pos_iff.2 nonempty
    exact ⟨⟨prefix_append _ _, by rw [length_append]; omega⟩, by simpa using shown⟩

variable {tree : FileTree}

private theorem mem_next_of_deep (deep : isDeep pattern = true) :
    place ∈ next tree directoriesOnly pattern base ↔
      place = base ∧ tree.hasDirectory base = true ∨ place ∈ places tree directoriesOnly ∧
        ∃ between, between ≠ [] ∧ place = base ++ between ∧
        ∀ name ∈ between, isHidden name = false := by
  rw [next, if_pos deep, mem_append, mem_filter, mem_filter, mem_singleton, isOpenBelow_iff]
  exact or_congr_left (and_congr_right fun same => by rw [same])

private theorem mem_next_of_wild (shallow : isDeep pattern = false)
    (isPattern : Wildcard.isPattern pattern = true) :
    place ∈ next tree directoriesOnly pattern base ↔ place ∈ places tree directoriesOnly ∧
        ∃ name, place = base ++ [name] ∧ matchesName pattern name = true := by
  rw [next, if_neg (by simp [shallow]), if_pos isPattern, mem_filter]
  refine and_congr_right fun _ => ?_
  constructor
  · intro found
    simp only [Bool.and_eq_true, Bool.not_eq_true', isEmpty_eq_false_iff, beq_iff_eq] at found
    obtain ⟨⟨nonempty, rfl⟩, matched⟩ := found
    rw [getLast?_eq_some_getLast nonempty] at matched
    exact ⟨_, (dropLast_concat_getLast nonempty).symm, matched⟩
  · rintro ⟨name, rfl, matched⟩
    simpa using matched

private theorem mem_next_of_plain (fixed : Wildcard.isPattern pattern = false) :
    place ∈ next tree directoriesOnly pattern base ↔
      place = base ++ [pattern] ∧ (tree.hasDirectory place = true ∨ (tree.bytesAt? place).isSome) := by
  have shallow : ¬ isDeep pattern = true := fun deep => by
    rw [isPattern_of_isDeep deep] at fixed
    cases fixed
  rw [next, if_neg shallow, if_neg (by simp [fixed])]
  dsimp only
  split
  · rename_i there
    rw [mem_singleton]
    refine ⟨fun same => ⟨same, ?_⟩, fun found => found.1⟩
    rw [same]
    simpa using there
  · rename_i missing
    simp only [not_mem_nil, false_iff, not_and]
    rintro rfl there
    exact missing (by simpa using there)

/-! ## Places on the way to a file -/

section File

variable (proper : tree.IsProper) (file : (tree.bytesAt? place).isSome)
  {patterns middle names : List Text}
include proper file

/-- Directories stand on the way to a file, up to the file itself. -/
theorem hasDirectory_iff (split : place = middle ++ names) :
    tree.hasDirectory middle = true ↔ names ≠ [] := by
  constructor
  · rintro directory rfl
    rw [append_nil] at split
    cases directory.symm.trans (proper.hasDirectory_eq_false (split ▸ file))
  · exact proper.hasDirectory_front
      (split ▸ FileTree.mem_standing_of_isSome file : middle ++ names ∈ tree.standing)

/-- A place on the way to a file can be passed: it is that of a directory, unless it is
the file and the last pattern leads there. -/
theorem mem_places_iff (nonempty : middle ≠ []) (split : place = middle ++ names)
    (leads : Leads patterns names) :
    middle ∈ places tree (!patterns.isEmpty) ↔ (patterns ≠ [] → names ≠ []) := by
  cases patterns with
  | nil =>
    cases leads
    rw [append_nil] at split
    subst split
    refine iff_of_true ?_ (absurd rfl)
    exact perm_append_comm.mem_iff.1 (FileTree.mem_standing_of_isSome file)
  | cons pattern patterns =>
    change middle ∈ tree.directories ↔ _
    rw [forall_prop_of_true (cons_ne_nil _ _), ← hasDirectory_iff proper file split]
    simp [FileTree.hasDirectory, nonempty]

/-- Something stands on the whole way to a file. -/
theorem exists_on_way (split : place = middle ++ names) :
    tree.hasDirectory middle = true ∨ (tree.bytesAt? middle).isSome := by
  by_cases below : names = []
  · rw [below, append_nil] at split
    exact .inr (split ▸ file)
  · exact .inl ((hasDirectory_iff proper file split).2 below)

/-- One pattern leads on the way to a file exactly as the names of the file say. -/
theorem exists_next_iff {pattern : Text} {base : List Text} :
    (∃ middle ∈ next tree (!patterns.isEmpty) pattern base, ∃ names, place = middle ++ names ∧
      Leads patterns names) ↔
    ∃ names, place = base ++ names ∧ Leads (pattern :: patterns) names := by
  constructor
  · rintro ⟨middle, found, names, split, leads⟩
    cases isPattern : Wildcard.isPattern pattern with
    | false =>
      obtain ⟨rfl, -⟩ := (mem_next_of_plain isPattern).1 found
      exact ⟨pattern :: names, by simpa using split, .plain isPattern leads⟩
    | true =>
      cases deep : isDeep pattern with
      | true =>
        rcases (mem_next_of_deep deep).1 found with
          ⟨rfl, directory⟩ | ⟨stands, between, nonempty, rfl, shown⟩
        · have inside := (hasDirectory_iff proper file split).1 directory
          exact ⟨[] ++ names, split, .deep deep (by simp) (fun _ => inside) leads⟩
        · have inside := (mem_places_iff proper file (by simp [nonempty]) split leads).1 stands
          exact ⟨between ++ names, by simpa using split,
            .deep deep shown (fun within => inside (within.resolve_left nonempty)) leads⟩
      | false =>
        obtain ⟨stands, name, rfl, matched⟩ := (mem_next_of_wild deep isPattern).1 found
        have inside := (mem_places_iff proper file (by simp) split leads).1 stands
        exact ⟨name :: names, by simpa using split, .wild deep isPattern matched inside leads⟩
  · rintro ⟨names, split, leads⟩
    cases leads with
    | @deep _ _ between names deep shown inside leads =>
      rw [← append_assoc] at split
      refine ⟨base ++ between, (mem_next_of_deep deep).2 ?_, names, split, leads⟩
      by_cases none : between = []
      · rw [none, append_nil] at split ⊢
        exact .inl ⟨rfl, (hasDirectory_iff proper file split).2 (inside (.inl none))⟩
      · exact .inr ⟨(mem_places_iff proper file (by simp [none]) split leads).2
          (fun more => inside (.inr more)), between, none, rfl, shown⟩
    | @wild _ name _ names shallow isPattern matched inside leads =>
      rw [append_cons] at split
      refine ⟨base ++ [name], (mem_next_of_wild shallow isPattern).2 ?_, names, split, leads⟩
      exact ⟨(mem_places_iff proper file (by simp) split leads).2 inside, name, rfl, matched⟩
    | @plain _ _ names fixed leads =>
      rw [append_cons] at split
      refine ⟨base ++ [pattern], (mem_next_of_plain fixed).2 ?_, names, split, leads⟩
      exact ⟨rfl, exists_on_way proper file split⟩

/-! ## All name patterns -/

/-- Patterns lead from places to the files below them whose names they spell. -/
theorem mem_expandFrom_iff {bases : List (List Text)} :
    place ∈ expandFrom tree patterns bases ↔
      ∃ base ∈ bases, ∃ names, place = base ++ names ∧ Leads patterns names := by
  induction patterns generalizing bases with
  | nil =>
    rw [expandFrom]
    constructor
    · exact fun member => ⟨place, member, [], (append_nil _).symm, .nil⟩
    · rintro ⟨base, member, names, split, leads⟩
      cases leads
      rwa [split, append_nil]
  | cons pattern patterns ih =>
    rw [expandFrom, ih]
    simp only [mem_flatMap]
    constructor
    · rintro ⟨middle, ⟨base, member, found⟩, names, split, leads⟩
      exact ⟨base, member, (exists_next_iff proper file).1 ⟨middle, found, names, split, leads⟩⟩
    · rintro ⟨base, member, reached⟩
      obtain ⟨middle, found, rest⟩ := (exists_next_iff proper file).2 reached
      exact ⟨middle, ⟨base, member, found⟩, rest⟩

/-- A file is among the places that a pattern is expanded to exactly when the pattern
leads there by the names of the file. -/
theorem mem_expand_iff {pattern : List Text} :
    place ∈ expand tree pattern ↔ Leads pattern place := by
  have fixed : ∀ name ∈ pattern.takeWhile fun name => !Wildcard.isPattern name,
      Wildcard.isPattern name = false := by
    intro name member
    simpa using all_eq_true.1 all_takeWhile name member
  have whole := takeWhile_append_dropWhile (p := fun name => !Wildcard.isPattern name) (l := pattern)
  have rest : pattern.drop (pattern.takeWhile fun name => !Wildcard.isPattern name).length =
      pattern.dropWhile fun name => !Wildcard.isPattern name := by
    conv => lhs; arg 2; rw [← whole]
    exact drop_left
  rw [expand, rest]
  conv => rhs; rw [← whole]
  rw [leads_append_iff fixed]
  split
  · rename_i nothing
    rw [nothing]
    split
    · rw [mem_singleton]
      constructor
      · exact fun same => ⟨[], by simpa using same, .nil⟩
      · rintro ⟨names, split, leads⟩
        cases leads
        simpa using split
    · rename_i missing
      simp only [not_mem_nil, false_iff]
      rintro ⟨names, split, leads⟩
      have there := exists_on_way proper file split
      exact missing (by simpa using there)
  · rw [mem_expandFrom_iff proper file]
    simp

end File

/-! ## Everything below a place -/

/-- The patterns for everything below a place. -/
def everything : List Text :=
  [['*', '*'], ['*']]

private theorem isMatch_star (text : Text) : Wildcard.isMatch ['*'] text = true := by
  change (Wildcard.tails text).any isEmpty = true
  induction text with
  | nil => rfl
  | cons head tail ih => simp [Wildcard.tails, ih]

/-- The patterns for everything lead to all files below whose names are not hidden. -/
theorem leads_everything_iff {names : List Text} :
    Leads everything names ↔ names ≠ [] ∧ ∀ name ∈ names, isHidden name = false := by
  constructor
  · intro leads
    cases leads with
    | deep _ shown _ leads =>
      cases leads with
      | deep deep => cases deep
      | plain fixed => cases fixed
      | wild _ _ matched _ leads =>
        cases leads
        refine ⟨by simp, ?_⟩
        simp only [matchesName, Bool.and_eq_true] at matched
        have last := matched.1
        rw [forall_mem_append]
        exact ⟨shown, by simpa [isHidden] using last⟩
    | wild shallow => cases shallow
    | plain fixed => cases fixed
  · rintro ⟨nonempty, shown⟩
    have spelled := dropLast_concat_getLast nonempty
    have last : matchesName ['*'] (names.getLast nonempty) = true := by
      rw [matchesName, isMatch_star, shown _ (getLast_mem nonempty)]
      rfl
    rw [← spelled]
    exact .deep rfl (fun name member => shown name (dropLast_subset _ member))
      (fun _ => cons_ne_nil _ _) (.wild rfl rfl last (absurd rfl) .nil)

/-- Where nothing is listed twice, nothing below a place is found twice. -/
theorem nodup_expand_everything (once : tree.standing.Nodup)
    (plain : ∀ name ∈ base, Wildcard.isPattern name = false) :
    (expand tree (base ++ everything)).Nodup := by
  have fixed : (base ++ everything).takeWhile (fun name => !Wildcard.isPattern name) = base := by
    rw [takeWhile_append_of_pos (by simpa using plain)]
    exact append_nil base
  have expanded : expand tree (base ++ everything) =
      (next tree true ['*', '*'] base).flatMap (next tree false ['*']) := by
    rw [expand, fixed, drop_left]
    simp [everything, expandFrom]
  have all : (places tree false).Nodup := nodup_append_comm.1 once
  have directories : tree.directories.Nodup := (nodup_append.1 once).2.1
  have wild (start : List Text) : next tree false ['*'] start = (places tree false).filter
      fun place => !place.isEmpty && place.dropLast == start &&
        place.getLast?.any (matchesName ['*']) := rfl
  rw [expanded, nodup_flatMap]
  constructor
  · intro start _
    rw [wild]
    exact all.filter _
  · have bases : (next tree true ['*', '*'] base).Nodup := by
      refine nodup_append.2 ⟨(nodup_singleton base).filter _, directories.filter _, ?_⟩
      rintro _ isBase _ isBelow rfl
      have below := (mem_filter.1 isBelow).2
      rw [mem_singleton.1 (mem_filter.1 isBase).1] at below
      simp [isOpenBelow] at below
    -- A place tells by its own names from which directory it was found.
    refine bases.imp fun {one other} different => ?_
    intro place inOne inOther
    rw [wild, mem_filter] at inOne inOther
    simp only [Bool.and_eq_true, beq_iff_eq] at inOne inOther
    exact different (inOne.2.1.2.symm.trans inOther.2.1.2)

end Glob

end Phrasebook
