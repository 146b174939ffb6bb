import Phrasebook.Sources
import Phrasebook.Proofs.FileTree

/-!
# The paths of a source

Every file of a source is named by a path without a step up, and files at different
paths stand at different places. Which files a source names is not described here.
-/

namespace Phrasebook

open List FileTree

namespace Surroundings

/-- Straightened names hold no step up. -/
theorem straight_straighten (names : List Text) : Straight (straighten names) := by
  suffices kept : ∀ before, Straight before →
      Straight (names.foldl
        (fun kept name => if name == ['.', '.'] then kept.dropLast else kept ++ [name]) before) from
    kept [] not_mem_nil
  induction names with
  | nil => exact fun before straight => straight
  | cons name names ih =>
    intro before straight
    refine ih _ ?_
    dsimp only
    split
    · exact fun member => straight (dropLast_subset _ member)
    · rename_i down
      intro member
      rcases mem_append.mp member with before | last
      · exact straight before
      · exact down (beq_iff_eq.mpr (mem_singleton.mp last).symm)

/-- A located path holds no step up. -/
theorem straight_locate (site : Surroundings) (path : Path) : Straight (site.locate path).names :=
  straight_straighten _

end Surroundings

namespace Glob

variable {tree : FileTree} (proper : tree.IsProper)
include proper

/-- One name pattern leads from straight places to straight places. -/
theorem straight_next {directoriesOnly : Bool} {pattern : Text} {base place : List Text}
    (name : pattern ≠ ['.', '.']) (straight : Straight base)
    (found : place ∈ next tree directoriesOnly pattern base) : Straight place := by
  have among : place ∈ places tree directoriesOnly → Straight place := by
    intro member
    refine proper.straight place ?_
    rw [places] at member
    split at member
    · exact mem_append_right _ member
    · exact (perm_append_comm.mem_iff).mp member
  rw [next] at found
  split at found
  · rcases mem_append.mp found with here | below
    · exact mem_singleton.mp (mem_filter.mp here).1 ▸ straight
    · exact among (mem_filter.mp below).1
  · split at found
    · exact among (mem_filter.mp found).1
    · dsimp only at found
      split at found
      · obtain rfl := mem_singleton.mp found
        intro member
        rcases mem_append.mp member with before | last
        · exact straight before
        · exact name (mem_singleton.mp last).symm
      · cases found

/-- Name patterns lead from straight places to straight places. -/
theorem straight_expandFrom {patterns : List Text} {bases : List (List Text)}
    (names : Straight patterns) (straight : ∀ base ∈ bases, Straight base) :
    ∀ place ∈ expandFrom tree patterns bases, Straight place := by
  induction patterns generalizing bases with
  | nil => exact straight
  | cons pattern patterns ih =>
    simp only [Straight, mem_cons, not_or] at names
    refine ih names.2 fun place found => ?_
    obtain ⟨base, member, found⟩ := mem_flatMap.mp found
    exact straight_next proper (fun same => names.1 same.symm) (straight base member) found

/-- A pattern without a step up matches straight places. -/
theorem straight_expand {pattern : List Text} (names : Straight pattern) :
    ∀ place ∈ expand tree pattern, Straight place := by
  have fixed : Straight (pattern.takeWhile fun name => !Wildcard.isPattern name) :=
    fun member => names ((takeWhile_subset _) member)
  intro place found
  simp only [expand] at found
  split at found
  · split at found
    · exact mem_singleton.mp found ▸ fixed
    · cases found
  · refine straight_expandFrom proper (fun member => names (mem_of_mem_drop member)) ?_ place
      found
    intro base member
    exact mem_singleton.mp member ▸ fixed

end Glob

namespace Sources

variable {site : Surroundings} {tree : FileTree} {excluded : List Text} {source : Text}
  {paths : List Path} {journal : Journal}

/-- The paths of a source are those of places, or there is only one. -/
theorem expand_cases (proper : tree.IsProper)
    (expanded : expand site tree excluded source = .ok (paths, journal)) :
    (∀ path ∈ paths, Straight path.names) ∧
      ((∀ path ∈ paths, path = pathOf path.names) ∨ ∃ path, paths = [path]) := by
  have located := site.straight_locate (Path.ofText source)
  simp only [expand] at expanded
  split at expanded
  · cases expanded
  split at expanded
  · cases expanded
    have all : ∀ path ∈ matchingFiles tree excluded (site.locate (Path.ofText source)),
        ∃ place, Straight place ∧ path = pathOf place := by
      intro path member
      have found := mem_mergeSort.mp (mem_filter.mp member).1
      obtain ⟨place, matched, rfl⟩ := mem_map.mp found
      exact ⟨place, Glob.straight_expand proper located place matched, rfl⟩
    refine ⟨fun path member => ?_, .inl fun path member => ?_⟩ <;>
      obtain ⟨place, straight, rfl⟩ := all path member
    · exact straight
    · rfl
  · simp only [bind, Except.bind] at expanded
    split at expanded
    · cases expanded
    split at expanded
    · cases expanded
      have all : ∀ path ∈ filesBelow tree excluded (site.locate (Path.ofText source)),
          ∃ place, Straight place ∧ path = pathOf place := by
        intro path member
        obtain ⟨⟨place, bytes⟩, among, found⟩ := mem_filterMap.mp (mem_mergeSort.mp member)
        dsimp only at found
        split at found
        · exact ⟨place, proper.straight _ (mem_append_left _ (mem_map_of_mem among)),
            (Option.some.inj found).symm⟩
        · cases found
      refine ⟨fun path member => ?_, .inl fun path member => ?_⟩ <;>
        obtain ⟨place, straight, rfl⟩ := all path member
      · exact straight
      · rfl
    · split at expanded
      · cases expanded
        refine ⟨fun path member => ?_, .inr ⟨_, rfl⟩⟩
        obtain rfl := mem_singleton.mp member
        exact located
      · cases expanded

/-- Different paths of a source have different names. -/
theorem nodup_names (proper : tree.IsProper)
    (expanded : expand site tree excluded source = .ok (paths, journal))
    (distinct : paths.Nodup) : (paths.map Path.names).Nodup := by
  rcases (expand_cases proper expanded).2 with all | ⟨path, rfl⟩
  · refine pairwise_map.mpr (List.Pairwise.imp_of_mem ?_ distinct)
    intro left right leftMember rightMember differ same
    exact differ ((all left leftMember).trans (same ▸ (all right rightMember).symm))
  · simp

end Sources

end Phrasebook
