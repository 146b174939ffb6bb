import Phrasebook.FileTree
import Phrasebook.Proofs.Text.Utf8

/-!
# What operations do to a file tree

A write changes the bytes at one place and nothing else. Writing over a file keeps
the shape of the tree, on which alone it depends whether paths lead anywhere.
Making directories adds directories on the way to a path.
-/

namespace Phrasebook.FileTree

open List

variable {tree next : FileTree} {found : List Text} {path : Path} {bytes : Bytes}
  {base names : List Text} {left right : FileTree}

/-- Names without a step up. -/
abbrev Straight (names : List Text) : Prop :=
  ['.', '.'] ∉ names

/-- Whether a place can be named: no name on the way means a step up, and neither a name
nor the path is too long. -/
abbrev Nameable (place : List Text) : Prop :=
  Straight place ∧ (∀ name ∈ place, isLongName name = false) ∧ isLongPath ⟨['/'], place⟩ = false

/-- A tree as a file system has it: no place holds both a file and a directory, every
place can be named, and everything stands in a directory. -/
structure IsProper (tree : FileTree) : Prop where
  apart : ∀ file ∈ tree.files, tree.hasDirectory file.1 = false
  nameable : ∀ place ∈ tree.files.map Prod.fst ++ tree.directories, Nameable place
  inside : ∀ place ∈ tree.files.map Prod.fst ++ tree.directories,
    tree.hasDirectory place.dropLast = true

instance (tree : FileTree) : Decidable tree.IsProper :=
  decidable_of_iff
    ((∀ file ∈ tree.files, tree.hasDirectory file.1 = false) ∧
      (∀ place ∈ tree.files.map Prod.fst ++ tree.directories, Nameable place) ∧
      ∀ place ∈ tree.files.map Prod.fst ++ tree.directories,
        tree.hasDirectory place.dropLast = true)
    ⟨fun ⟨apart, nameable, inside⟩ => ⟨apart, nameable, inside⟩,
      fun ⟨apart, nameable, inside⟩ => ⟨apart, nameable, inside⟩⟩

/-- A file that is found stands among the files. -/
theorem mem_files_of_isSome {place : List Text} (there : (tree.bytesAt? place).isSome) :
    ∃ file ∈ tree.files, file.1 = place := by
  obtain ⟨bytes, found⟩ := Option.isSome_iff_exists.mp there
  rw [bytesAt?, lookup_eq_some_iff] at found
  obtain ⟨before, after, split, -⟩ := found
  exact ⟨(place, bytes), by simp [split], rfl⟩

namespace IsProper

variable (proper : tree.IsProper) {place : List Text}
include proper

/-- No directory stands where a file does. -/
theorem hasDirectory_eq_false (there : (tree.bytesAt? place).isSome) :
    tree.hasDirectory place = false := by
  obtain ⟨file, member, rfl⟩ := mem_files_of_isSome there
  exact proper.apart file member

/-- The places of a proper tree have no dots. -/
theorem straight : ∀ place ∈ tree.files.map Prod.fst ++ tree.directories, Straight place :=
  fun place listed => (proper.nameable place listed).1

end IsProper

/-! ## Places -/

/-- Bytes put at a place are found there, and elsewhere what was there before. -/
theorem lookup_put (place : List Text) (bytes : Bytes) (files : List (List Text × Bytes))
    (other : List Text) :
    (put place bytes files).lookup other =
      if other = place then some bytes else files.lookup other := by
  induction files with
  | nil => by_cases same : other = place <;> simp [put, lookup_cons, same, beq_false_of_ne]
  | cons file files ih =>
    obtain ⟨name, old⟩ := file
    by_cases here : name = place
    · by_cases same : other = place <;>
        simp [put, here, lookup_cons, same, beq_false_of_ne]
    · by_cases same : other = name
      · have differs : ¬ other = place := same ▸ here
        simp [put, here, same]
      · simp [put, here, lookup_cons, beq_false_of_ne same, ih]

/-- Names without a step up lead to the place that they spell. -/
theorem eq_append_of_walk (straight : Straight names) (reached : tree.walk base names = .ok found) :
    found = base ++ names := by
  induction names generalizing base with
  | nil =>
    obtain rfl := Except.ok.inj reached
    exact (append_nil _).symm
  | cons name names ih =>
    simp only [Straight, mem_cons, not_or] at straight
    have down : ¬ name = ['.', '.'] := fun same => straight.1 same.symm
    simp only [walk] at reached
    split at reached
    · cases reached
    · split at reached
      · cases reached
      · simp only [down, beq_iff_eq, if_false] at reached
        simpa using ih straight.2 reached

/-- The place of a path without a step up is the one that its names spell. -/
theorem place_eq_names {place : List Text} (straight : Straight path.names)
    (reached : tree.place path = .ok place) : place = path.names :=
  eq_append_of_walk straight reached

/-- What the file system is asked for is reached where the path is not too long. -/
theorem reach_eq_ok_iff :
    tree.reach path = .ok found ↔ isLongPath path = false ∧ tree.place path = .ok found := by
  rw [reach]
  cases isLongPath path <;> simp

/-- What is reached can be looked for. -/
theorem look_of_reach (reached : tree.reach path = .ok found) : tree.look path path = .ok () := by
  obtain ⟨short, leads⟩ := reach_eq_ok_iff.1 reached
  simp [look, short, leads]

/-- Names lead on exactly when those before the last lead to a directory. -/
theorem walk_concat (tree : FileTree) (base names : List Text) (name : Text)
    (straight : Straight (names ++ [name])) :
    tree.walk base (names ++ [name]) = (do
      let found ← tree.walk base names
      if tree.hasDirectory found then
        if isLongName name then .error .nameTooLong else .ok (found ++ [name])
      else .error (if (tree.bytesAt? found).isSome then .notDirectory else .notFound)) := by
  induction names generalizing base with
  | nil =>
    have down : ¬ name = ['.', '.'] := fun same => straight (by simp [same])
    cases directory : tree.hasDirectory base <;>
      simp [walk, directory, down, bind, Except.bind]
  | cons first names ih =>
    simp only [Straight, cons_append, mem_cons, not_or] at straight
    have down : ¬ first = ['.', '.'] := fun same => straight.1 same.symm
    cases directory : tree.hasDirectory base with
    | false => simp [walk, directory, bind, Except.bind]
    | true =>
      cases long : isLongName first with
      | true => simp [walk, directory, long, bind, Except.bind]
      | false => simp [walk, directory, down, long, ih _ straight.2]

namespace IsProper

variable (proper : tree.IsProper) {place : List Text}
include proper

/-- Something in a directory that is reached is reached. -/
theorem walk_below (listed : place ∈ tree.files.map Prod.fst ++ tree.directories)
    (above : tree.walk [] place.dropLast = .ok place.dropLast) :
    tree.walk [] place = .ok place := by
  by_cases root : place = []
  · subst root
    rfl
  · have spelled := dropLast_concat_getLast root
    have short := (proper.nameable place listed).2.1 _ (getLast_mem root)
    have concat := walk_concat tree [] place.dropLast (place.getLast root)
      (spelled.symm ▸ proper.straight place listed)
    rw [spelled, above] at concat
    simpa [bind, Except.bind, proper.inside place listed, short, spelled] using concat

/-- A directory is reached by its own names. -/
theorem walk_directory (directory : tree.hasDirectory place = true) :
    tree.walk [] place = .ok place := by
  generalize size : place.length = length
  induction length generalizing place with
  | zero =>
    obtain rfl := length_eq_zero_iff.mp size
    rfl
  | succ length ih =>
    have some : place ≠ [] := by
      rintro rfl
      cases size
    have member : place ∈ tree.directories := by
      simpa [hasDirectory, some] using directory
    have among := mem_append_right (tree.files.map Prod.fst) member
    exact proper.walk_below among (ih (proper.inside place among) (by simp [size]))

/-- A file is reached by its own names. -/
theorem walk_file (there : (tree.bytesAt? place).isSome) : tree.walk [] place = .ok place := by
  obtain ⟨file, member, rfl⟩ := mem_files_of_isSome there
  have among : file.1 ∈ tree.files.map Prod.fst ++ tree.directories :=
    mem_append_left _ (mem_map_of_mem member)
  exact proper.walk_below among (proper.walk_directory (proper.inside _ among))

end IsProper

/-! ## Reading -/

/-- A file is read exactly when its path leads to it. -/
theorem read_eq_ok_iff :
    tree.read path = .ok bytes ↔
      ∃ place, tree.reach path = .ok place ∧ tree.bytesAt? place = some bytes := by
  simp only [read]
  cases tree.reach path with
  | error fault => simp [refuse]
  | ok place => cases found : tree.bytesAt? place <;> simp [refuse, found]

/-- A file is read as a text exactly when its bytes are one. -/
theorem readExact_eq_ok_iff {text : Text} :
    tree.readExact path = .ok text ↔
      ∃ bytes, tree.read path = .ok bytes ∧ Utf8.decode bytes = .ok text := by
  simp only [readExact, bind, Except.bind]
  cases tree.read path with
  | error failure => simp
  | ok bytes =>
    cases decoded : Utf8.decode bytes <;>
      simp [decoded, pure, Except.pure, throw, throwThe, MonadExceptOf.throw]

/-! ## Shape -/

/-- Trees with the same directories, and with files at the same places. -/
structure SameShape (left right : FileTree) : Prop where
  directories : left.directories = right.directories
  files : ∀ place, (left.bytesAt? place).isSome = (right.bytesAt? place).isSome

namespace SameShape

variable {other : FileTree}

/-- A tree has its own shape. -/
theorem refl (tree : FileTree) : SameShape tree tree :=
  ⟨rfl, fun _ => rfl⟩

theorem symm (same : SameShape left right) : SameShape right left :=
  ⟨same.directories.symm, fun place => (same.files place).symm⟩

theorem trans (first : SameShape left right) (second : SameShape right other) :
    SameShape left other :=
  ⟨first.directories.trans second.directories, fun place =>
    (first.files place).trans (second.files place)⟩

variable (same : SameShape left right)
include same

private theorem hasDirectory (place : List Text) :
    left.hasDirectory place = right.hasDirectory place := by
  rw [FileTree.hasDirectory, FileTree.hasDirectory, same.directories]

/-- Names lead to the same place in both trees, or nowhere for the same reason. -/
theorem walk (base names : List Text) : left.walk base names = right.walk base names := by
  induction names generalizing base with
  | nil => rfl
  | cons name names ih =>
    simp only [FileTree.walk, same.hasDirectory, same.files, ih]

/-- Paths lead to the same places in them. -/
theorem place (path : Path) : left.place path = right.place path :=
  same.walk [] path.names

private theorem reach (path : Path) : left.reach path = right.reach path := by
  rw [FileTree.reach, same.place, FileTree.reach]

private theorem isDirectory (path : Path) : left.isDirectory path = right.isDirectory path := by
  simp only [FileTree.isDirectory, same.place, same.hasDirectory]

private theorem isFile (path : Path) : left.isFile path = right.isFile path := by
  simp only [FileTree.isFile, same.place, same.files]

/-- The same paths are there in them. -/
theorem isThere (path : Path) : left.isThere path = right.isThere path := by
  simp only [FileTree.isThere, same.isDirectory, same.isFile]

/-- A path that reads the same bytes at its place reads alike. -/
theorem read {path : Path}
    (bytes : ∀ place, left.reach path = .ok place → left.bytesAt? place = right.bytesAt? place) :
    left.read path = right.read path := by
  simp only [FileTree.read, ← same.reach]
  cases reached : left.reach path with
  | error fault => rfl
  | ok place => simp only [bytes place reached, same.hasDirectory]

/-- A path can be written in both trees, or in neither for the same reason. -/
theorem write {α : Type} (path : Path) (bytes : Bytes) (value : α) :
    (left.write path bytes).map (fun _ => value) = (right.write path bytes).map fun _ => value := by
  simp only [FileTree.write, ← same.reach, ← same.hasDirectory]
  cases left.reach path with
  | error fault => rfl
  | ok place => cases directory : left.hasDirectory place <;> simp [directory, refuse, Except.map]

/-- One directory is made in both trees, or in neither. -/
theorem makeDirectory (path : Path) :
    right.makeDirectory path =
      (left.makeDirectory path).map fun next => { next with files := right.files } := by
  simp only [FileTree.makeDirectory, ← same.reach]
  cases left.reach path with
  | error fault => rfl
  | ok place =>
    simp only [bind, Except.bind, same.hasDirectory, same.files]
    split
    · rfl
    · simp [Except.map, pure, Except.pure, same.directories]

/-- The files of the other tree can be put into a tree that came of the first one. -/
theorem withFiles {ready : FileTree} (files : ready.files = left.files) :
    SameShape ready { ready with files := right.files } :=
  ⟨rfl, fun place => by
    rw [bytesAt?, files]
    exact same.files place⟩

private theorem settle (path : Path) (made : Except FileFault FileTree) :
    right.settle path (made.map fun next => { next with files := right.files }) =
      ((left.settle path made).1, { (left.settle path made).2 with files := right.files }) := by
  cases made with
  | ok next => rfl
  | error fault => simp [FileTree.settle, Except.map, same.isDirectory, same.directories]

end SameShape

/-! ## Writing -/

/-- The tree with other bytes at a place. -/
def withBytes (tree : FileTree) (place : List Text) (bytes : Bytes) : FileTree :=
  { tree with files := put place bytes tree.files }

@[simp] theorem bytesAt?_withBytes (tree : FileTree) (place other : List Text) (bytes : Bytes) :
    (tree.withBytes place bytes).bytesAt? other =
      if other = place then some bytes else tree.bytesAt? other :=
  lookup_put place bytes tree.files other

/-- A write succeeds exactly when its path leads to a place without a directory, and
then it puts the bytes there. -/
theorem write_eq_ok_iff :
    tree.write path bytes = .ok next ↔
      ∃ place, tree.reach path = .ok place ∧ tree.hasDirectory place = false ∧
        next = tree.withBytes place bytes := by
  simp only [write]
  cases tree.reach path with
  | error fault => simp [refuse]
  | ok place =>
    cases directory : tree.hasDirectory place with
    | true => simp [refuse, directory]
    | false =>
      simp only [directory, Bool.false_eq_true, if_false, Except.ok.injEq]
      constructor
      · rintro rfl
        exact ⟨place, rfl, directory, rfl⟩
      · rintro ⟨_, rfl, -, rfl⟩
        rfl

/-- Other bytes in the place of a file keep the shape of the tree. -/
theorem sameShape_withBytes {place : List Text} (bytes : Bytes)
    (there : (tree.bytesAt? place).isSome) : SameShape tree (tree.withBytes place bytes) where
  directories := rfl
  files other := by
    rw [bytesAt?_withBytes]
    by_cases same : other = place
    · rw [if_pos same, same, there]
      rfl
    · rw [if_neg same]

private theorem mem_put {place : List Text} {files : List (List Text × Bytes)}
    {file : List Text × Bytes} (member : file ∈ put place bytes files) :
    file = (place, bytes) ∨ file ∈ files := by
  induction files with
  | nil => simpa [put] using member
  | cons head files ih =>
    obtain ⟨name, old⟩ := head
    simp only [put] at member
    split at member
    · rcases mem_cons.mp member with same | later
      · exact .inl same
      · exact .inr (mem_cons_of_mem _ later)
    · rcases mem_cons.mp member with same | later
      · exact .inr (same ▸ mem_cons_self)
      · exact (ih later).imp_right (mem_cons_of_mem _)

/-- Other bytes in the place of a file leave a tree proper. -/
theorem IsProper.withBytes (proper : tree.IsProper) {place : List Text} (bytes : Bytes)
    (there : (tree.bytesAt? place).isSome) : (tree.withBytes place bytes).IsProper := by
  obtain ⟨file, member, rfl⟩ := mem_files_of_isSome there
  have places : ∀ other ∈ (put file.1 bytes tree.files).map Prod.fst,
      other ∈ tree.files.map Prod.fst := by
    intro other among
    obtain ⟨written, stored, rfl⟩ := mem_map.mp among
    rcases mem_put stored with rfl | before
    · exact mem_map.mpr ⟨file, member, rfl⟩
    · exact mem_map_of_mem before
  have all : ∀ other ∈ (put file.1 bytes tree.files).map Prod.fst ++ tree.directories,
      other ∈ tree.files.map Prod.fst ++ tree.directories := by
    intro other among
    rcases mem_append.mp among with among | among
    · exact mem_append_left _ (places other among)
    · exact mem_append_right _ among
  refine ⟨?_, fun other among => proper.nameable other (all other among),
    fun other among => proper.inside other (all other among)⟩
  intro written among
  obtain ⟨old, among, same⟩ := mem_map.mp (places written.1 (mem_map_of_mem among))
  exact same ▸ proper.apart old among

/-! ## Making directories -/

/-- What comes of making the directories on the way to a path: no file changes, only
directories on the way are added, and all of them are there if none was refused. -/
structure Made (tree : FileTree) (path : Path) (result : Except Failure Unit × FileTree) :
    Prop where
  files : result.2.files = tree.files
  kept : tree.directories ⊆ result.2.directories
  added : ∀ place ∈ result.2.directories, place ∈ tree.directories ∨ place <+: path.names
  reached : result.1 = .ok () → result.2.isDirectory path = true

/-- More directories keep every way open. -/
theorem walk_of_subset (next : FileTree) (kept : tree.directories ⊆ next.directories)
    (reached : tree.walk base names = .ok found) : next.walk base names = .ok found := by
  induction names generalizing base with
  | nil => exact reached
  | cons name names ih =>
    cases directory : tree.hasDirectory base with
    | false => simp [walk, directory] at reached
    | true =>
      have still : next.hasDirectory base = true := by
        simp only [hasDirectory, Bool.or_eq_true, contains_iff_mem] at directory ⊢
        exact directory.imp_right (kept ·)
      simp only [walk, directory, still, Bool.not_true, Bool.false_eq_true, if_false] at reached ⊢
      split at reached
      · cases reached
      · rw [if_neg ‹_›]
        split at reached
        · rw [if_pos ‹_›]
          exact ih reached
        · rw [if_neg ‹_›]
          exact ih reached

/-- More directories keep a path that is reached within reach. -/
theorem reach_of_subset (next : FileTree) (kept : tree.directories ⊆ next.directories)
    (reached : tree.reach path = .ok found) : next.reach path = .ok found := by
  obtain ⟨short, reached⟩ := reach_eq_ok_iff.1 reached
  exact reach_eq_ok_iff.2 ⟨short, walk_of_subset next kept reached⟩

/-- Other bytes keep every way open. -/
theorem reach_withBytes (reached : tree.reach path = .ok found) (place : List Text) (bytes : Bytes) :
    (tree.withBytes place bytes).reach path = .ok found :=
  reach_of_subset (tree.withBytes place bytes) (List.Subset.refl tree.directories) reached

/-- A directory that is there already is made by doing nothing. -/
theorem makeDirectoriesFrom_of_isDirectory (directory : tree.isDirectory path = true)
    (short : isLongPath path = false) (depth : Nat) :
    tree.makeDirectoriesFrom depth path = (.ok (), tree) := by
  cases depth with
  | zero => simp [makeDirectoriesFrom, settle, directory]
  | succ depth =>
    have refused : tree.makeDirectory path = .error .alreadyExists := by
      simp only [isDirectory] at directory
      cases reached : tree.place path with
      | error fault => simp [reached] at directory
      | ok place =>
        simp only [reached] at directory
        simp [makeDirectory, reach_eq_ok_iff.2 ⟨short, reached⟩, directory, bind, Except.bind,
          throw, throwThe, MonadExceptOf.throw]
    simp [makeDirectoriesFrom, settle, refused, directory]

/-- Without a new directory the tree stays. -/
theorem made_settle_error (tree : FileTree) (path : Path) (fault : FileFault) :
    Made tree path (tree.settle path (.error fault)) where
  files := rfl
  kept := List.Subset.refl _
  added _ member := .inl member
  reached done := by
    rw [settle] at done ⊢
    split at done
    · exact (Bool.and_eq_true_iff.1 ‹_›).2
    · cases done

/-- What is made below a directory comes on top of what was made above. -/
theorem Made.trans {first second : Except Failure Unit × FileTree}
    (above : Made tree path.parent first) (here : Made first.2 path second) :
    Made tree path second where
  files := here.files.trans above.files
  kept := List.Subset.trans above.kept here.kept
  added place member := (here.added place member).elim
    (fun before => (above.added place before).imp_right (·.trans (List.dropLast_prefix _))) .inr
  reached := here.reached

/-- Making one directory makes that directory. -/
theorem made_of_makeDirectory (straight : Straight path.names)
    (made : tree.makeDirectory path = .ok next) : Made tree path (.ok (), next) := by
  simp only [makeDirectory, bind, Except.bind] at made
  cases reached : tree.reach path with
  | error fault => simp [reached] at made
  | ok place =>
    simp only [reached] at made
    split at made
    · cases made
    · obtain rfl := Except.ok.inj made
      have reached := (reach_eq_ok_iff.1 reached).2
      have spelled := place_eq_names straight reached
      have kept : tree.directories ⊆ tree.directories ++ [place] := subset_append_left _ _
      refine ⟨rfl, kept, ?_, ?_⟩
      · intro other member
        rcases mem_append.mp member with before | new
        · exact .inl before
        · rw [mem_singleton] at new
          exact .inr (new ▸ spelled ▸ prefix_rfl)
      · intro _
        have still := walk_of_subset
          { tree with directories := tree.directories ++ [place] } kept reached
        simp [isDirectory, FileTree.place, still, hasDirectory]

private theorem made_settle (tree : FileTree) (straight : Straight path.names) :
    Made tree path (tree.settle path (tree.makeDirectory path)) := by
  cases made : tree.makeDirectory path with
  | ok next => exact made_of_makeDirectory straight made
  | error fault => exact made_settle_error tree path fault

/-- Making directories makes those on the way, and only those. -/
theorem made_makeDirectoriesFrom (tree : FileTree) (straight : Straight path.names) (depth : Nat) :
    Made tree path (tree.makeDirectoriesFrom depth path) := by
  induction depth generalizing path with
  | zero => exact made_settle_error tree path .notFound
  | succ depth ih =>
    have above : Made tree path.parent (tree.makeDirectoriesFrom depth path.parent) :=
      ih fun member => straight (dropLast_subset _ member)
    have here := made_settle tree straight
    rw [makeDirectoriesFrom]
    cases made : tree.makeDirectory path with
    | ok next =>
      rw [made] at here
      exact here
    | error fault =>
      rw [made] at here
      cases fault with
      | notFound =>
        -- The directory above is made first, and then the directory itself.
        rcases upper : tree.makeDirectoriesFrom depth path.parent with ⟨failure | _, ready⟩
        · rw [upper] at above
          exact above.trans ⟨rfl, List.Subset.refl _, fun _ member => .inl member, nofun⟩
        · rw [upper] at above
          exact above.trans (made_settle ready straight)
      | alreadyExists | notDirectory | isDirectory | nameTooLong => exact here

/-- Directories are made in two trees of the same shape alike. -/
theorem SameShape.makeDirectoriesFrom (same : SameShape left right) (depth : Nat)
    (straight : Straight path.names) :
    right.makeDirectoriesFrom depth path =
      ((left.makeDirectoriesFrom depth path).1,
        { (left.makeDirectoriesFrom depth path).2 with files := right.files }) := by
  induction depth generalizing path with
  | zero => exact same.settle path (.error .notFound)
  | succ depth ih =>
    have above : Straight path.parent.names := fun member =>
      straight (dropLast_subset _ member)
    have here := same.settle path (left.makeDirectory path)
    rw [← same.makeDirectory] at here
    simp only [FileTree.makeDirectoriesFrom]
    cases made : left.makeDirectory path with
    | ok next =>
      rw [made] at here
      rw [same.makeDirectory, made] at here ⊢
      exact here
    | error fault =>
      have also : right.makeDirectory path = .error fault := by
        rw [same.makeDirectory, made]
        rfl
      rw [made, also] at here
      rw [also]
      cases fault with
      | notFound =>
        have files := (made_makeDirectoriesFrom left above depth).files
        rw [ih above]
        rcases upper : left.makeDirectoriesFrom depth path.parent with ⟨failure | _, ready⟩
        · rfl
        · rw [upper] at files
          have sameReady := same.withFiles files
          have later := sameReady.settle path (ready.makeDirectory path)
          rw [← sameReady.makeDirectory] at later
          exact later
      | alreadyExists | notDirectory | isDirectory | nameTooLong => exact here

/-! ## Paths that can be written -/

/-- Whether a file can be written at a path once the directories above it are
made. -/
def Accepts (tree : FileTree) (path : Path) : Prop :=
  ∃ ready place, tree.makeDirectories path.parent = (.ok (), ready) ∧
    ready.reach path = .ok place ∧ ready.hasDirectory place = false

/-- The parent of a path is made. -/
theorem made_makeDirectories_parent (tree : FileTree) (straight : Straight path.names) :
    Made tree path.parent (tree.makeDirectories path.parent) :=
  made_makeDirectoriesFrom tree (fun member => straight (dropLast_subset _ member)) _

/-- Trees of the same shape accept the same paths. -/
theorem SameShape.accepts (same : SameShape left right) (straight : Straight path.names)
    (accepts : left.Accepts path) : right.Accepts path := by
  obtain ⟨ready, place, made, reached, free⟩ := accepts
  have files := (made_makeDirectories_parent left straight).files
  rw [made] at files
  have sameReady := same.withFiles files
  refine ⟨_, place, ?_, (sameReady.reach path).symm.trans reached,
    (sameReady.hasDirectory place).symm.trans free⟩
  rw [makeDirectories, same.makeDirectoriesFrom _
    fun member => straight (dropLast_subset _ member), ← makeDirectories, made]

private theorem exists_join_concat (front : List Text) (name : Text) :
    ∃ rest, Text.join ['/'] (front ++ [name]) = Text.join ['/'] front ++ rest := by
  induction front with
  | nil => exact ⟨_, rfl⟩
  | cons first front ih =>
    obtain ⟨rest, spelled⟩ := ih
    cases front with
    | nil => exact ⟨'/' :: name, by simp [Text.join, intercalate]⟩
    | cons second front => exact ⟨rest, by simpa [Text.join, intercalate] using spelled⟩

/-- A directory above a path is not too long if the path is not. -/
theorem isLongPath_parent (short : isLongPath path = false) : isLongPath path.parent = false := by
  rw [isLongPath, decide_eq_false_iff_not, Nat.not_lt] at short ⊢
  obtain ⟨root, names⟩ := path
  rcases eq_nil_or_concat names with rfl | ⟨front, name, rfl⟩
  · exact short
  · obtain ⟨rest, spelled⟩ := exists_join_concat front name
    have whole : Path.toText ⟨root, front ++ [name]⟩ = root ++ Text.join ['/'] front ++ rest := by
      simp [Path.toText, spelled]
    have above : (Path.mk root (front ++ [name])).parent = ⟨root, front⟩ := by simp [Path.parent]
    rw [concat_eq_append, whole, Utf8.size_append] at short
    rw [concat_eq_append, above, Path.toText]
    split
    · decide
    · exact Nat.le_of_add_right_le short

/-- Above a place that is reached stands a directory. -/
theorem isDirectory_parent_of_place {place : List Text} (straight : Straight path.names)
    (reached : tree.place path = .ok place) : tree.isDirectory path.parent = true := by
  by_cases named : path.names = []
  · simp [isDirectory, FileTree.place, Path.parent, named, walk, hasDirectory]
  · have spelled := dropLast_concat_getLast named
    rw [FileTree.place, ← spelled, walk_concat _ _ _ _ (spelled.symm ▸ straight)] at reached
    simp only [isDirectory]
    change (tree.place path.parent >>= _) = _ at reached
    cases above : tree.place path.parent with
    | error fault => simp [above, bind, Except.bind] at reached
    | ok upper =>
      simp only [above, bind, Except.bind] at reached
      split at reached
      · assumption
      · cases reached

/-- A path with a file at its end is accepted, and no directory has to be made. -/
theorem accepts_of_bytesAt? (proper : tree.IsProper) {place : List Text}
    (straight : Straight path.names) (reached : tree.reach path = .ok place)
    (there : (tree.bytesAt? place).isSome) : tree.Accepts path := by
  obtain ⟨short, found⟩ := reach_eq_ok_iff.1 reached
  exact ⟨tree, place, makeDirectoriesFrom_of_isDirectory
    (isDirectory_parent_of_place straight found) (isLongPath_parent short) _, reached,
    proper.hasDirectory_eq_false there⟩

/-- Nothing stands at the end of a path where only directories above it were made. -/
theorem not_isThere_of_made (proper : tree.IsProper) (straight : Straight path.names)
    (missing : tree.isThere path = false) {result : Except Failure Unit × FileTree}
    (made : Made tree path.parent result) : result.2.isThere path = false := by
  have absent : tree.hasDirectory path.names = false ∧ tree.bytesAt? path.names = none := by
    constructor
    · refine Bool.eq_false_iff.2 fun directory => ?_
      simp [isThere, isDirectory, place, proper.walk_directory directory, directory] at missing
    · refine Option.not_isSome_iff_eq_none.1 fun there => ?_
      simp [isThere, isFile, place, proper.walk_file there, there] at missing
  have named : path.names ≠ [] := fun root => by simp [root, hasDirectory] at absent
  have directory : result.2.hasDirectory path.names = false := by
    refine Bool.eq_false_iff.2 fun directory => ?_
    have member : path.names ∈ result.2.directories := by
      simpa [hasDirectory, named] using directory
    rcases made.added _ member with before | above
    · simp [hasDirectory, before] at absent
    · have shorter := above.length_le
      have positive := length_pos_iff.mpr named
      simp only [Path.parent, length_dropLast] at shorter
      omega
  have file : result.2.bytesAt? path.names = none := by
    rw [bytesAt?, made.files, ← bytesAt?, absent.2]
  cases reached : result.2.place path with
  | error fault => simp [isThere, isDirectory, isFile, reached]
  | ok found =>
    obtain rfl := place_eq_names straight reached
    simp [isThere, isDirectory, isFile, reached, directory, file]

end Phrasebook.FileTree
