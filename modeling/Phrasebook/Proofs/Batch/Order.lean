import Phrasebook.Proofs.Batch.Progress
import Phrasebook.Proofs.Catalogue.Growth
import Phrasebook.Proofs.Document.Staging

/-!
# The order of files

Files at different places do not see each other: in whatever order they are taken, each
is found as it stood at the start, and is left with the same bytes. They share only the
catalogue. Its keys do not depend on the order, and its texts do only where two of them
collide. The order of outcomes, collisions and reports is not described here.
-/

namespace Phrasebook.Batch

open List FileTree

variable {ctx : Context} {start : Progress} {first second : List Path}
  {results more : List (Path × Option Failure)}

/-- Takes every file in turn, also after one has failed. The result is the failure of each
file that failed, and how far the batch has come. -/
def takeEach (ctx : Context) : Progress → List Path → List (Path × Option Failure) × Progress
  | progress, [] => ([], progress)
  | progress, path :: paths =>
    let (next, failure) := takeFile ctx progress path
    let (results, last) := takeEach ctx next paths
    ((path, failure) :: results, last)

/-- Whether the paths of a list lead to different places. -/
def Apart (tree : FileTree) (paths : List Path) : Prop :=
  paths.Pairwise fun left right => tree.place left ≠ tree.place right

/-- The failure of a file that failed. -/
def failureOf : Except Failure Outcome → Option Failure
  | .ok _ => none
  | .error failure => some failure

/-! ## What files leave -/

/-- A file that stands in two trees of one shape with the same bytes fares alike in both. -/
theorem handled_congr (ctx : Context) {left right : FileTree} (same : SameShape left right)
    {path : Path} (bytes : ∀ place, left.reach path = .ok place →
      left.bytesAt? place = right.bytesAt? place) :
    handled ctx left path = handled ctx right path := by
  have processed : outcomeOf ctx left path = outcomeOf ctx right path := by
    simp only [outcomeOf, readExact, same.read bytes]
  simp only [handled, processed, bind, Except.bind, pure, Except.pure]
  cases outcomeOf ctx right path with
  | error failure => rfl
  | ok outcome =>
    dsimp only
    rcases commit_cases ctx outcome with ⟨-, record, stays⟩ | ⟨-, -, record, writes⟩
    · rw [stays, stays]
    · have alike := same.write outcome.path (Utf8.encode outcome.after) outcome
      rw [writes, writes]
      generalize left.write outcome.path (Utf8.encode outcome.after) = first at alike ⊢
      generalize right.write outcome.path (Utf8.encode outcome.after) = second at alike ⊢
      cases first <;> cases second <;> simp_all [Except.map]

/-- What is left when files at different places were taken. All is told by how each file
fared as it stood at the start. -/
structure Taken (ctx : Context) (start : Progress) (paths : List Path)
    (results : List (Path × Option Failure)) (last : Progress) : Prop where
  told : results = paths.map fun path => (path, failureOf (handled ctx start.tree path))
  shape : SameShape start.tree last.tree
  written : ∀ path ∈ paths, ∀ outcome, handled ctx start.tree path = .ok outcome →
    last.tree.read path = .ok (Utf8.encode (textLeft ctx outcome))
  /-- Only at files that did not fail bytes change. -/
  kept : ∀ place, (∀ path ∈ paths, ∀ outcome, handled ctx start.tree path = .ok outcome →
    start.tree.place path ≠ .ok place) → last.tree.bytesAt? place = start.tree.bytesAt? place
  grows : start.catalogue.Grows
    (paths.flatMap fun path => Document.entriesOf (handled ctx start.tree path)) last.catalogue

/-- One file leaves what is told by how it fares. -/
theorem taken_takeFile (ctx : Context) (progress : Progress) (path : Path) :
    Taken ctx progress [path] [(path, (takeFile ctx progress path).2)]
      (takeFile ctx progress path).1 := by
  rcases takeFile_cases ctx progress path with
    ⟨failure, journal, failed, took⟩ | ⟨outcome, tree, record, journal, processed, committed, took⟩
  · rw [took]
    refine ⟨?_, .refl _, fun other member outcome succeeded => ?_, fun _ _ => rfl, ?_⟩
    · rw [map_singleton, failed]
      rfl
    · rw [mem_singleton.mp member, failed] at succeeded
      cases succeeded
    · rw [flatMap_singleton, failed]
      exact .refl _
  · have succeeded := handled_eq_ok_iff.mpr ⟨processed, _, committed⟩
    obtain ⟨rfl, read⟩ := outcomeOf_eq_ok processed
    obtain ⟨shape, reads, elsewhere⟩ := commit_eq_ok read committed
    rw [took]
    refine ⟨?_, shape, fun other member made same => ?_, fun place others => ?_, ?_⟩
    · rw [map_singleton, succeeded]
      rfl
    · rw [mem_singleton.mp member, succeeded] at same
      obtain rfl := Except.ok.inj same
      rw [mem_singleton.mp member]
      exact reads
    · exact elsewhere place fun _ => others _ mem_cons_self _ succeeded
    · rw [flatMap_singleton, succeeded]
      exact Catalogue.grows_absorb progress.catalogue outcome.entries

/-- What files leave, and then others at other places, all of them leave. -/
theorem Taken.append {middle last : Progress} (one : Taken ctx start first results middle)
    (two : Taken ctx middle second more last)
    (apart : ∀ path ∈ first, ∀ other ∈ second, start.tree.place path ≠ start.tree.place other) :
    Taken ctx start (first ++ second) (results ++ more) last := by
  -- The later files are found as they stood at the start, since the earlier ones are elsewhere.
  have unaffected : ∀ path ∈ second,
      handled ctx middle.tree path = handled ctx start.tree path := by
    intro path member
    refine (handled_congr ctx one.shape fun place reached => ?_).symm
    refine (one.kept place fun other among _ _ same => ?_).symm
    exact apart other among path member (same.trans (reach_eq_ok_iff.1 reached).2.symm)
  have places (path : Path) : middle.tree.place path = start.tree.place path :=
    (one.shape.place path).symm
  refine ⟨?_, one.shape.trans two.shape, fun path member outcome succeeded => ?_,
    fun place others => ?_, ?_⟩
  · rw [map_append, one.told, two.told]
    refine congrArg _ (map_congr_left fun path member => ?_)
    rw [unaffected path member]
  · rcases mem_append.mp member with before | after
    · rw [← one.written path before outcome succeeded]
      refine (two.shape.read fun place reached => ?_).symm
      refine (two.kept place fun other among _ _ same => ?_).symm
      have reached := (reach_eq_ok_iff.1 reached).2
      rw [places] at reached same
      exact apart path before other among (reached.trans same.symm)
    · exact two.written path after outcome (unaffected path after ▸ succeeded)
  · have before := one.kept place fun path member =>
      others path (mem_append_left second member)
    rw [← before]
    refine two.kept place fun path member outcome succeeded => ?_
    rw [places]
    exact others path (mem_append_right first member) outcome
      (unaffected path member ▸ succeeded)
  · rw [flatMap_append]
    have later : (second.flatMap fun path => Document.entriesOf (handled ctx middle.tree path)) =
        second.flatMap fun path => Document.entriesOf (handled ctx start.tree path) := by
      rw [flatMap_def, flatMap_def]
      refine congrArg flatten (map_congr_left fun path member => ?_)
      rw [unaffected path member]
    exact one.grows.trans (later ▸ two.grows)

/-- All files that stand at different places leave what is told by how each of them fares. -/
theorem taken_takeEach (ctx : Context) (start : Progress) {paths : List Path}
    (apart : Apart start.tree paths) :
    Taken ctx start paths (takeEach ctx start paths).1 (takeEach ctx start paths).2 := by
  induction paths generalizing start with
  | nil =>
    exact ⟨rfl, .refl _, fun _ member => (not_mem_nil member).elim, fun _ _ => rfl, .refl _⟩
  | cons path paths ih =>
    obtain ⟨here, later⟩ := pairwise_cons.mp apart
    have step := taken_takeFile ctx start path
    have rest := ih (takeFile ctx start path).1
      (later.imp fun differ same => differ (by rwa [step.shape.place, step.shape.place]))
    refine step.append rest fun first only other member => ?_
    rw [mem_singleton.mp only]
    exact here other member

/-! ## Two orders -/

/-- The same files leave the same bytes in any order. -/
theorem Taken.read_eq {one other : Progress} (ones : Taken ctx start first results one)
    (others : Taken ctx start second more other) (same : first.Perm second) (path : Path) :
    one.tree.read path = other.tree.read path := by
  refine (ones.shape.symm.trans others.shape).read fun place reached => ?_
  by_cases touched : ∃ file ∈ first, ∃ outcome,
      handled ctx start.tree file = .ok outcome ∧ start.tree.place file = .ok place
  · obtain ⟨file, member, outcome, succeeded, stands⟩ := touched
    have bytes {last : Progress} (shape : SameShape start.tree last.tree)
        (written : last.tree.read file = .ok (Utf8.encode (textLeft ctx outcome))) :
        last.tree.bytesAt? place = some (Utf8.encode (textLeft ctx outcome)) := by
      obtain ⟨found, leads, holds⟩ := read_eq_ok_iff.mp written
      have leads := (reach_eq_ok_iff.1 leads).2
      rw [← shape.place, stands] at leads
      rw [Except.ok.inj leads, holds]
    rw [bytes ones.shape (ones.written file member outcome succeeded),
      bytes others.shape (others.written file (same.mem_iff.mp member) outcome succeeded)]
  · have untouched : ∀ file ∈ first, ∀ outcome, handled ctx start.tree file = .ok outcome →
        start.tree.place file ≠ .ok place := by
      intro file member outcome succeeded stands
      exact touched ⟨file, member, outcome, succeeded, stands⟩
    rw [ones.kept place untouched, others.kept place fun file member =>
      untouched file (same.mem_iff.mpr member)]

/-- The order of files at different places does not matter. Taken in any two orders, the
same of them fail, for the same reasons, and every path reads the same bytes in the end:
those of a file that did not fail are those of the text that extraction leaves. The two
catalogues have the same keys, those of the files among them. If one order adds no
collision, the other adds none, and both catalogues have the same stored form. -/
theorem file_order_irrelevant (ctx : Context) (start : Progress)
    (distinct : start.catalogue.Distinct) (first second : List Path) (same : first.Perm second)
    (apart : Apart start.tree first) :
    let one := (takeEach ctx start first).2
    let other := (takeEach ctx start second).2
    (takeEach ctx start first).1.Perm (takeEach ctx start second).1 ∧
      (∀ path, one.tree.read path = other.tree.read path) ∧
      (∀ path ∈ first, ∀ outcome, handled ctx start.tree path = .ok outcome →
        one.tree.read path = .ok (Utf8.encode (textLeft ctx outcome)) ∧
        ∀ entry ∈ outcome.entries, entry.1 ∈ one.catalogue.keys) ∧
      (∀ key, key ∈ one.catalogue.keys ↔ key ∈ other.catalogue.keys) ∧
      (one.catalogue.collisions = start.catalogue.collisions →
        other.catalogue.collisions = start.catalogue.collisions ∧
          one.catalogue.serialize = other.catalogue.serialize) := by
  intro one other
  have turned : Apart start.tree second :=
    same.pairwise apart fun differ alike => differ alike.symm
  have ones : Taken ctx start first _ one := taken_takeEach ctx start apart
  have others : Taken ctx start second _ other := taken_takeEach ctx start turned
  have entries := same.flatMap_right fun path =>
    Document.entriesOf (handled ctx start.tree path)
  refine ⟨?_, ones.read_eq others same, fun path member outcome succeeded => ?_, fun key => ?_,
    ones.grows.silent_of_perm others.grows entries distinct⟩
  · rw [ones.told, others.told]
    exact same.map _
  · refine ⟨ones.written path member outcome succeeded, fun entry among => ?_⟩
    refine ones.grows.mem_keys_iff.mpr (.inr (mem_map_of_mem ?_))
    refine mem_flatMap.mpr ⟨path, member, ?_⟩
    rw [succeeded]
    exact among
  · rw [ones.grows.mem_keys_iff, others.grows.mem_keys_iff, (entries.map Prod.fst).mem_iff]

/-- A tree with a script and a component, each with one text. -/
def pairTree : FileTree where
  files := [(["a.ts".toList], Utf8.encode "x = '好'".toList),
    (["b.vue".toList], Utf8.encode "<template>好</template>".toList)]

/-- The files of `pairTree` can be taken in either order. -/
theorem file_order_irrelevant_pairTree :
    let ctx : Context := ⟨⟨⟨['/'], []⟩, ⟨['/'], []⟩⟩, {}, false⟩
    let start : Progress :=
      { tree := pairTree, catalogue := ⟨[([.scalar 'k'], [.scalar 'x'])], []⟩ }
    let script := Sources.pathOf ["a.ts".toList]
    let component := Sources.pathOf ["b.vue".toList]
    let one := (takeEach ctx start [script, component]).2
    let other := (takeEach ctx start [component, script]).2
    start.catalogue.Distinct ∧ Apart start.tree [script, component] ∧
      (takeEach ctx start [script, component]).1.Perm
        (takeEach ctx start [component, script]).1 ∧
      (∀ path, one.tree.read path = other.tree.read path) ∧
      (∀ key, key ∈ one.catalogue.keys ↔ key ∈ other.catalogue.keys) ∧
      (one.catalogue.collisions = start.catalogue.collisions →
        other.catalogue.collisions = start.catalogue.collisions ∧
          one.catalogue.serialize = other.catalogue.serialize) := by
  intro ctx start script component
  have distinct : start.catalogue.Distinct := by
    rw [Catalogue.Distinct]
    decide
  have apart : Apart start.tree [script, component] := by
    have first : start.tree.place script = .ok ["a.ts".toList] := rfl
    have second : start.tree.place component = .ok ["b.vue".toList] := rfl
    have differ : start.tree.place script ≠ start.tree.place component := by
      rw [first, second]
      exact fun same => absurd (Except.ok.inj same) (by decide)
    exact .cons (fun other member => mem_singleton.mp member ▸ differ) (.cons (by simp) .nil)
  obtain ⟨results, reads, -, keys, silent⟩ := file_order_irrelevant ctx start distinct
    [script, component] [component, script] (.swap component script []) apart
  exact ⟨distinct, apart, results, reads, keys, silent⟩

end Phrasebook.Batch
