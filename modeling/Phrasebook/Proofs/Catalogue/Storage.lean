import Phrasebook.Catalogue.Storage
import Phrasebook.Proofs.Catalogue.Entries
import Phrasebook.Proofs.FileTree
import Phrasebook.Proofs.Json.Objects
import Phrasebook.Proofs.Json.RoundTrip
import Phrasebook.Proofs.Text.Utf8

/-!
# Stored catalogues are loaded back

A catalogue that was stored is loaded with the same mapping. A catalogue with a
surrogate in it cannot be stored, and trying leaves an empty file behind.
-/

namespace Phrasebook

open List CodePoint

namespace Text

/-- A text without carriage returns has its line ends unified already. -/
theorem unifyLineEnds_of_not_mem {text : Text} (none : '\r' ∉ text) : unifyLineEnds text = text := by
  fun_induction unifyLineEnds text with
  | case1 => rfl
  | case2 tail => exact absurd mem_cons_self none
  | case3 head tail _ ih =>
    simp only [mem_cons, not_or] at none
    have other : ¬ head = '\r' := fun same => none.1 same.symm
    simp [other, ih none.2]

end Text

namespace Json

/-! ## What the writer spells -/

/-- The hexadecimal digits of a control character hold no carriage return. -/
private theorem control_not_carriage : ∀ code < 0x20, '\r' ∉ Text.hexPadded 4 code := by
  decide

/-- A spelled string holds no carriage return. -/
theorem not_mem_spelled (text : Text) : '\r' ∉ spelled text := by
  have each : ∀ char, '\r' ∉ escaped char := by
    intro char
    have control := control_not_carriage char.toNat
    grind [escaped]
  simp [spelled, each]

/-- A spelled object holds no carriage return. -/
theorem not_mem_spelledObject (entries : List (Text × Text)) : '\r' ∉ spelledObject entries := by
  cases entries with
  | nil => decide
  | cons entry entries =>
    have members : '\r' ∉ spelledMembers entry entries := by
      induction entries generalizing entry with
      | nil => simp [spelledMembers, spelledMember, not_mem_spelled]
      | cons next entries ih =>
        simp [spelledMembers, spelledMember, not_mem_spelled, ih]
    simp [spelledObject, members]

/-- A string is a text exactly when what it spells is one. -/
theorem isText_string (points : CodePoints) :
    CodePoint.IsText (string points) ↔ CodePoint.IsText points := by
  have body : CodePoint.IsText (points.flatMap escapedPoint) ↔ CodePoint.IsText points := by
    induction points with
    | nil => simp
    | cons point points ih =>
      cases point <;> simp [escapedPoint, ih]
  simp [string, body]

/-- An object is a text exactly when its names and texts are. -/
theorem isText_object (entries : List (CodePoints × CodePoints)) :
    CodePoint.IsText (object entries) ↔
      ∀ entry ∈ entries, CodePoint.IsText entry.1 ∧ CodePoint.IsText entry.2 := by
  have joined : ∀ lines : List CodePoints,
      CodePoint.IsText ((ofText [',', '\n']).intercalate lines) ↔
        ∀ line ∈ lines, CodePoint.IsText line := by
    intro lines
    induction lines with
    | nil => simp [intercalate]
    | cons line lines ih =>
      cases lines with
      | nil => simp [intercalate]
      | cons next lines =>
        rw [intercalate_cons_cons, isText_append, isText_append, ih]
        simp
  cases entries with
  | nil => simp [object]
  | cons entry entries =>
    simp only [object, isEmpty_cons, Bool.false_eq_true, if_false, isText_append,
      isText_ofText, joined, member, forall_mem_map, isText_string, true_and,
      and_true]

end Json

namespace Catalogue

open FileTree

variable {catalogue : Catalogue} {tree : FileTree} {path : Path} {journal : Journal} {text : Text}
  {bytes : Bytes} {entries : Entries}

/-- Entries that are texts are the code points of entries of texts. -/
theorem exists_texts (entries : Entries)
    (isText : ∀ entry ∈ entries, CodePoint.IsText entry.1 ∧ CodePoint.IsText entry.2) :
    ∃ texts : List (Text × Text), entries = texts.map Json.pointsOf := by
  induction entries with
  | nil => exact ⟨[], rfl⟩
  | cons entry entries ih =>
    obtain ⟨texts, rest⟩ := ih fun other member =>
      isText other (mem_cons_of_mem _ member)
    obtain ⟨isKey, isValue⟩ := isText entry mem_cons_self
    obtain ⟨key, key_eq⟩ := isText_iff.mp isKey
    obtain ⟨value, value_eq⟩ := isText_iff.mp isValue
    exact ⟨(key, value) :: texts, by rw [rest, map_cons, Json.pointsOf, ← key_eq, ← value_eq]⟩

/-- The entries of a catalogue in the order in which they are stored. -/
def sorted (catalogue : Catalogue) : Entries :=
  catalogue.entries.mergeSort entryPrecedes

/-- A stored catalogue is an object and a line end. -/
theorem serialize_eq (catalogue : Catalogue) :
    catalogue.serialize = Json.object catalogue.sorted ++ [.scalar '\n'] := rfl

theorem sorted_perm (catalogue : Catalogue) : catalogue.sorted.Perm catalogue.entries :=
  mergeSort_perm _ _

private theorem Distinct.sorted (distinct : catalogue.Distinct) :
    (catalogue.sorted.map Prod.fst).Nodup :=
  ((sorted_perm catalogue).map Prod.fst).nodup_iff.mpr distinct

/-- Sorted entries make up a catalogue with the same mapping. -/
theorem get?_ofEntries_sorted (distinct : catalogue.Distinct) (key : CodePoints) :
    (ofEntries catalogue.sorted).1.get? key = catalogue.get? key := by
  rw [get?, entries_ofEntries, lookup_joined, nil_append,
    lookup_perm (sorted_perm catalogue) distinct.sorted, get?]

/-- A catalogue can be written exactly when its keys and texts can. -/
theorem isText_serialize (catalogue : Catalogue) :
    CodePoint.IsText catalogue.serialize ↔ catalogue.IsText := by
  simp only [serialize_eq, isText_append, Json.isText_object,
    isText_scalar_cons, isText_nil, and_true, IsText,
    (sorted_perm catalogue).mem_iff]

/-- What a catalogue of texts is written as holds its entries. -/
theorem deserialize_of_written (distinct : catalogue.Distinct)
    (written : written catalogue.serialize = .ok text) :
    deserialize (Text.unifyLineEnds text) = .ok catalogue.sorted := by
  have spelling := eq_ofText_of_written written
  have isText := (isText_serialize catalogue).mp (isText_iff.mpr ⟨text, spelling⟩)
  obtain ⟨texts, entries⟩ := exists_texts catalogue.sorted fun entry member =>
    isText entry ((sorted_perm catalogue).mem_iff.mp member)
  have spelled : text = Json.spelledObject texts ++ ['\n'] := by
    apply ofText_injective
    rw [← spelling, serialize_eq, entries, Json.object_pointsOf]
    simp
  have names : (texts.map Prod.fst).Nodup := by
    have keys := distinct.sorted
    rw [entries, map_map] at keys
    have same : (Prod.fst ∘ Json.pointsOf : Text × Text → CodePoints) = ofText ∘ Prod.fst := rfl
    rw [same, ← map_map] at keys
    exact List.Pairwise.of_map _ (fun _ _ differs same => differs (congrArg _ same)) keys
  have lines : '\r' ∉ text := by
    simp [spelled, Json.not_mem_spelledObject]
  have some : text.isEmpty = false := by simp [spelled]
  rw [Text.unifyLineEnds_of_not_mem lines, deserialize]
  simp only [some, Bool.false_eq_true, if_false]
  rw [spelled, Json.parse_spelledObject names, entries]
  simp [entriesOf, Json.membersOf, textOf?, Json.pointsOf, filter_map, filterMap_map,
    Function.comp_def]

/-! ## Storing -/

/-- A catalogue is stored where the path is accepted: its text if it has one, and no
byte otherwise. -/
theorem save_of_accepts (straight : Straight path.names) (accepts : tree.Accepts path) :
    ∃ ready : FileTree, ready.reach path = .ok path.names ∧
      ∀ catalogue : Catalogue,
        catalogue.save tree path =
          match written catalogue.serialize with
          | .ok text => (.ok (), ready.withBytes path.names (Utf8.encode text))
          | .error run => (.error (.unwritable run), ready.withBytes path.names []) := by
  obtain ⟨ready, place, made, reached, free⟩ := accepts
  obtain rfl := place_eq_names straight (reach_eq_ok_iff.1 reached).2
  refine ⟨ready, reached, ?_⟩
  intro catalogue
  have writes : ∀ bytes, ready.write path bytes = .ok (ready.withBytes path.names bytes) :=
    fun bytes => write_eq_ok_iff.mpr ⟨_, reached, free, rfl⟩
  simp only [save, made]
  cases written catalogue.serialize <;> simp only [writes]

/-- Storing succeeds exactly for a catalogue of texts at an accepted path. -/
theorem save_eq_ok_iff (straight : Straight path.names) :
    (catalogue.save tree path).1 = .ok () ↔ catalogue.IsText ∧ tree.Accepts path := by
  constructor
  · intro saved
    have accepts : tree.Accepts path := by
      simp only [save] at saved
      split at saved
      · cases saved
      · rename_i ready made
        split at saved
        · cases saved
        · rename_i next wrote
          obtain ⟨place, reached, free, -⟩ := write_eq_ok_iff.mp wrote
          exact ⟨ready, place, made, reached, free⟩
    obtain ⟨ready, -, saves⟩ := save_of_accepts straight accepts
    refine ⟨?_, accepts⟩
    rw [saves] at saved
    split at saved
    · rename_i text written
      exact (isText_serialize catalogue).mp
        (isText_iff.mpr ⟨text, eq_ofText_of_written written⟩)
    · cases saved
  · rintro ⟨isText, accepts⟩
    obtain ⟨ready, -, saves⟩ := save_of_accepts straight accepts
    obtain ⟨text, spelled⟩ := isText_iff.mp ((isText_serialize catalogue).mpr isText)
    rw [saves, spelled, written_ofText]

/-- Storing keeps all directories, and changes no file but the one at the path. -/
theorem save_frame (catalogue : Catalogue) (tree : FileTree) (straight : Straight path.names) :
    tree.directories ⊆ (catalogue.save tree path).2.directories ∧
      ∀ place, place ≠ path.names →
        (catalogue.save tree path).2.bytesAt? place = tree.bytesAt? place := by
  obtain ⟨files, kept, -, -⟩ := made_makeDirectories_parent tree straight
  have unchanged : ∀ place, (tree.makeDirectories path.parent).2.bytesAt? place =
      tree.bytesAt? place := fun place => by rw [bytesAt?, files, bytesAt?]
  simp only [save]
  rcases made : tree.makeDirectories path.parent with ⟨failure | _, ready⟩ <;>
    rw [made] at kept unchanged
  · exact ⟨kept, fun place _ => unchanged place⟩
  · dsimp only
    split
    · exact ⟨kept, fun place _ => unchanged place⟩
    · rename_i next wrote
      obtain ⟨found, reached, -, rfl⟩ := write_eq_ok_iff.mp wrote
      obtain rfl := place_eq_names straight (reach_eq_ok_iff.1 reached).2
      exact ⟨kept, fun place other => by rw [bytesAt?_withBytes, if_neg other, unchanged]⟩

/-- At a path that is not accepted, the directories above it are all that is made. -/
theorem save_of_not_accepts (refused : ¬ tree.Accepts path) :
    (catalogue.save tree path).2 = (tree.makeDirectories path.parent).2 := by
  simp only [save]
  rcases made : tree.makeDirectories path.parent with ⟨failure | _, ready⟩
  · rfl
  · dsimp only
    split
    · rfl
    · rename_i wrote
      obtain ⟨place, reached, free, -⟩ := write_eq_ok_iff.mp wrote
      exact absurd ⟨ready, place, made, reached, free⟩ refused

/-- A file elsewhere reads as before. -/
theorem read_save (catalogue : Catalogue) {other : Path} (straight : Straight path.names)
    (named : Straight other.names) (elsewhere : other.names ≠ path.names)
    (read : tree.read other = .ok bytes) : (catalogue.save tree path).2.read other = .ok bytes := by
  obtain ⟨kept, unchanged⟩ := save_frame catalogue tree straight
  obtain ⟨place, reached, found⟩ := read_eq_ok_iff.mp read
  have spelled := place_eq_names named (reach_eq_ok_iff.1 reached).2
  refine read_eq_ok_iff.mpr ⟨place, reach_of_subset _ kept reached, ?_⟩
  rw [unchanged place (spelled ▸ elsewhere), found]

/-! ## Loading -/

/-- Where nothing stands, an empty catalogue is loaded, if the path can be looked for. -/
theorem load_of_not_there (looked : tree.look path path = .ok ())
    (missing : tree.isThere path = false) : load tree path = .ok (empty, []) := by
  simp [load, looked, missing, bind, Except.bind, pure, Except.pure]

/-- What is loaded was looked for. -/
theorem look_of_load (loaded : load tree path = .ok (catalogue, journal)) :
    tree.look path path = .ok () := by
  rw [load] at loaded
  cases looked : tree.look path path with
  | ok => rfl
  | error failure => simp [looked, bind, Except.bind] at loaded

/-- A file is loaded by what its text holds. -/
theorem load_of_bytesAt? {place : List Text} (reached : tree.reach path = .ok place)
    (found : tree.bytesAt? place = some bytes) (decoded : Utf8.decode bytes = .ok text)
    (held : deserialize (Text.unifyLineEnds text) = .ok entries) :
    ∃ journal, load tree path = .ok ((ofEntries entries).1, journal) := by
  have leads := (reach_eq_ok_iff.1 reached).2
  have looked := look_of_reach reached
  have there : tree.isThere path = true := by simp [isThere, isFile, leads, found]
  have read : tree.readText path = .ok (Text.unifyLineEnds text) := by
    have exact := readExact_eq_ok_iff.mpr ⟨bytes, read_eq_ok_iff.mpr ⟨place, reached, found⟩, decoded⟩
    simp [readText, exact, bind, Except.bind, pure, Except.pure]
  exact ⟨_, by simp [load, looked, there, read, held, bind, Except.bind, pure, Except.pure]; rfl⟩

/-- The members of an object that are texts stand in the order of its members. -/
theorem keys_texts_sublist (members : List (CodePoints × Json.Value)) :
    ((members.filterMap fun (key, value) =>
      (textOf? value).map fun text => (key, text)).map Prod.fst).Sublist (members.map Prod.fst) := by
  induction members with
  | nil => exact .slnil
  | cons member members ih =>
    obtain ⟨key, value⟩ := member
    simp only [filterMap_cons]
    cases textOf? value with
    | none => exact ih.cons key
    | some text => exact ih.cons_cons key

/-- The entries that a stored text holds have different keys. -/
theorem nodup_of_deserialize {content : Text} (held : deserialize content = .ok entries) :
    (entries.map Prod.fst).Nodup := by
  rw [deserialize] at held
  generalize (if content.isEmpty then ['{', '}'] else content) = text at held
  cases parsed : Json.parse text with
  | error fault =>
    rw [parsed] at held
    cases held
  | ok value =>
    rw [parsed] at held
    cases value with
    | object members =>
      dsimp only [entriesOf] at held
      split at held
      · cases held
        exact (keys_texts_sublist members).nodup (Json.nodup_of_parse parsed)
      · cases held
    | _ => cases held

/-- A catalogue is loaded from nothing or from a file. -/
theorem load_cases (loaded : load tree path = .ok (catalogue, journal)) :
    (tree.isThere path = false ∧ catalogue = empty) ∨
      ∃ place entries, tree.reach path = .ok place ∧ (tree.bytesAt? place).isSome ∧
        (entries.map Prod.fst).Nodup ∧ catalogue = (ofEntries entries).1 := by
  have looked := look_of_load loaded
  cases there : tree.isThere path with
  | false =>
    rw [load_of_not_there looked there] at loaded
    cases loaded
    exact .inl ⟨rfl, rfl⟩
  | true =>
    refine .inr ?_
    cases read : tree.readExact path with
    | error failure => simp [load, looked, there, readText, read, bind, Except.bind] at loaded
    | ok text =>
      obtain ⟨bytes, holds, -⟩ := readExact_eq_ok_iff.mp read
      obtain ⟨place, reached, found⟩ := read_eq_ok_iff.mp holds
      cases held : deserialize (Text.unifyLineEnds text) with
      | error fault =>
        simp [load, looked, there, readText, read, held, bind, Except.bind, pure, Except.pure,
          throw, throwThe, MonadExceptOf.throw] at loaded
      | ok entries =>
        simp [load, looked, there, readText, read, held, bind, Except.bind, pure,
          Except.pure] at loaded
        exact ⟨place, entries, reached, by simp [found], nodup_of_deserialize held, loaded.1.symm⟩

/-- A loaded catalogue has different keys. -/
theorem distinct_of_load (loaded : load tree path = .ok (catalogue, journal)) :
    catalogue.Distinct := by
  rcases load_cases loaded with ⟨-, rfl⟩ | ⟨-, entries, -, -, -, rfl⟩
  · exact nodup_nil
  · exact distinct_ofEntries entries

/-- A loaded catalogue has seen no collision. -/
theorem collisions_of_load (loaded : load tree path = .ok (catalogue, journal)) :
    catalogue.collisions = [] := by
  rcases load_cases loaded with ⟨-, rfl⟩ | ⟨-, entries, -, -, distinct, rfl⟩
  · rfl
  · exact collisions_ofEntries_of_nodup distinct

/-- A stored catalogue is loaded with its entries. -/
theorem load_save (distinct : catalogue.Distinct) (straight : Straight path.names)
    (saved : (catalogue.save tree path).1 = .ok ()) :
    ∃ loaded journal, load (catalogue.save tree path).2 path = .ok (loaded, journal) ∧
      ∀ key, loaded.get? key = catalogue.get? key := by
  obtain ⟨isText, accepts⟩ := (save_eq_ok_iff straight).mp saved
  obtain ⟨ready, reached, saves⟩ := save_of_accepts straight accepts
  obtain ⟨text, spelled⟩ := isText_iff.mp ((isText_serialize catalogue).mpr isText)
  have written : written catalogue.serialize = .ok text := by
    rw [spelled, written_ofText]
  rw [saves, written]
  dsimp only
  have stands : (ready.withBytes path.names (Utf8.encode text)).bytesAt? path.names =
      some (Utf8.encode text) := by simp
  obtain ⟨journal, loaded⟩ := load_of_bytesAt? (reach_withBytes reached _ _) stands
    (Utf8.decode_encode text) (deserialize_of_written distinct written)
  exact ⟨_, journal, loaded, get?_ofEntries_sorted distinct⟩

/-- A catalogue that cannot be written leaves an empty one behind. -/
theorem load_save_of_not_isText (noText : ¬ catalogue.IsText) (straight : Straight path.names)
    (accepts : tree.Accepts path) :
    ∃ journal, load (catalogue.save tree path).2 path = .ok (empty, journal) := by
  obtain ⟨ready, reached, saves⟩ := save_of_accepts straight accepts
  obtain ⟨run, refused⟩ := written_of_not_isText
    (mt (isText_serialize catalogue).mp noText)
  rw [saves, refused]
  dsimp only
  have stands : (ready.withBytes path.names []).bytesAt? path.names = some [] := by simp
  have held : deserialize (Text.unifyLineEnds []) = .ok [] := rfl
  exact load_of_bytesAt? (reach_withBytes reached _ _) stands rfl held

end Catalogue

end Phrasebook
