import Mathlib.Data.List.Lex
import Phrasebook.Proofs.Catalogue.Storage

/-!
# The stored form is canonical

What is stored depends on the mapping alone. Keys are stored in order, so that the order
in which they came is forgotten, and what was stored can be read back, so that different
mappings have different stored forms. The order of keys is that of their code points.
-/

namespace Phrasebook

open CodePoint

namespace CodePoint

/-! ## The order of keys -/

/-- A code point is known by its number: no scalar value has the number of a surrogate. -/
theorem eq_of_code_eq {left right : CodePoint} (same : left.code = right.code) : left = right := by
  have outside (char : Char) : ¬ IsSurrogate char.toNat := by
    have valid := char.valid
    simp only [UInt32.isValidChar, Nat.isValidChar] at valid
    simp only [IsSurrogate, Char.toNat]
    omega
  cases left with
  | scalar first =>
    cases right with
    | scalar second => rw [Char.toNat_inj.mp same]
    | surrogate code range =>
      have number : first.toNat = code := same
      exact absurd (number ▸ range) (outside first)
  | surrogate code range =>
    cases right with
    | scalar second =>
      have number : code = second.toNat := same
      exact absurd (number ▸ range) (outside second)
    | surrogate other _ =>
      have number : code = other := same
      subst number
      rfl

/-- Code points stand in the lexicographic order of their numbers. -/
theorem precedes_iff {left right : CodePoints} :
    precedes left right = true ↔ left.map code ≤ right.map code := by
  induction left generalizing right with
  | nil => cases right <;> simp [precedes, le_iff_lt_or_eq]
  | cons head left ih =>
    cases right with
    | nil => simp [precedes, le_iff_lt_or_eq]
    | cons last right =>
      have same : head = last ↔ head.code = last.code := ⟨congrArg code, eq_of_code_eq⟩
      simp [precedes, ih, same, le_iff_lt_or_eq, List.cons_lt_cons_iff, and_or_left, or_assoc]

/-- Code points that precede each other are the same. -/
theorem precedes_antisymm {left right : CodePoints} (before : precedes left right = true)
    (behind : precedes right left = true) : left = right :=
  (List.map_inj_right fun _ _ => eq_of_code_eq).1
    (le_antisymm (precedes_iff.1 before) (precedes_iff.1 behind))

end CodePoint

namespace Catalogue

open FileTree

variable {left right : Catalogue}

/-! ## One mapping, one stored form -/

/-- Entries under different keys are the same up to their order when they map alike. -/
theorem entries_perm_of_get?_eq (distinct : left.Distinct) (others : right.Distinct)
    (same : ∀ key, left.get? key = right.get? key) : left.entries.Perm right.entries := by
  have entriesNodup {catalogue : Catalogue} (distinct : catalogue.Distinct) :
      catalogue.entries.Nodup :=
    List.Pairwise.of_map Prod.fst (fun _ _ differ same => differ (congrArg Prod.fst same)) distinct
  rw [List.perm_ext_iff_of_nodup (entriesNodup distinct) (entriesNodup others)]
  rintro ⟨key, text⟩
  rw [← lookup_eq_some_iff_mem distinct, ← lookup_eq_some_iff_mem others]
  exact iff_of_eq (congrArg (· = some text) (same key))

/-- Sorting forgets the order in which entries came. -/
theorem sorted_eq_of_perm (distinct : left.Distinct) (same : left.entries.Perm right.entries) :
    left.sorted = right.sorted := by
  have ordered (catalogue : Catalogue) :
      catalogue.sorted.Pairwise fun first second => entryPrecedes first second = true := by
    apply List.pairwise_mergeSort
    · intro first second third before behind
      exact precedes_iff.2 (le_trans (precedes_iff.1 before) (precedes_iff.1 behind))
    · intro first second
      rw [Bool.or_eq_true, entryPrecedes, entryPrecedes, precedes_iff, precedes_iff]
      exact le_total _ _
  have all : left.sorted.Perm right.sorted :=
    ((sorted_perm left).trans same).trans (sorted_perm right).symm
  refine List.Perm.eq_of_pairwise (fun first second member other before behind => ?_)
    (ordered left) (ordered right) all
  -- Two entries that stand before each other have one key, and so one text.
  obtain ⟨key, text⟩ := first
  obtain ⟨name, dropped⟩ := second
  obtain rfl : key = name := precedes_antisymm before behind
  have here := (lookup_eq_some_iff_mem distinct).mpr ((sorted_perm left).mem_iff.mp member)
  have there := (lookup_eq_some_iff_mem distinct).mpr
    ((sorted_perm left).mem_iff.mp (all.mem_iff.mpr other))
  rw [here] at there
  rw [Option.some.inj there]

/-- Catalogues with the same mapping have the same stored form. -/
theorem serialize_eq_of_get?_eq (distinct : left.Distinct) (others : right.Distinct)
    (same : ∀ key, left.get? key = right.get? key) : left.serialize = right.serialize := by
  rw [serialize_eq, serialize_eq,
    sorted_eq_of_perm distinct (entries_perm_of_get?_eq distinct others same)]

/-- A catalogue of texts has a text as its stored form. -/
theorem exists_written_of_isText {catalogue : Catalogue} (isText : catalogue.IsText) :
    ∃ text, catalogue.serialize = ofText text ∧ written catalogue.serialize = .ok text := by
  obtain ⟨text, spelled⟩ := isText_iff.mp ((isText_serialize catalogue).mpr isText)
  exact ⟨text, spelled, by rw [spelled, written_ofText]⟩

/-- Catalogues of texts with the same stored form have the same mapping. -/
theorem get?_eq_of_serialize_eq (distinct : left.Distinct) (others : right.Distinct)
    (isText : left.IsText) (same : left.serialize = right.serialize) (key : CodePoints) :
    left.get? key = right.get? key := by
  obtain ⟨text, -, written⟩ := exists_written_of_isText isText
  have held := deserialize_of_written distinct written
  rw [same] at written
  rw [deserialize_of_written others written] at held
  have sorted : right.sorted = left.sorted := Except.ok.inj held
  rw [← get?_ofEntries_sorted distinct, ← sorted, get?_ofEntries_sorted others]

/-! ## Storing and loading -/

/-- At a path that is accepted, a catalogue of texts is stored as its text. -/
theorem save_of_isText {catalogue : Catalogue} (isText : catalogue.IsText) {tree : FileTree}
    {path : Path} (accepts : tree.Accepts path) :
    ∃ text place, catalogue.serialize = ofText text ∧ (catalogue.save tree path).1 = .ok () ∧
      (catalogue.save tree path).2.reach path = .ok place ∧
      (catalogue.save tree path).2.bytesAt? place = some (Utf8.encode text) := by
  obtain ⟨text, spelled, written⟩ := exists_written_of_isText isText
  obtain ⟨ready, place, made, reached, free⟩ := accepts
  have wrote : ready.write path (Utf8.encode text) = .ok (ready.withBytes place (Utf8.encode text)) :=
    write_eq_ok_iff.mpr ⟨place, reached, free, rfl⟩
  have saved : catalogue.save tree path = (.ok (), ready.withBytes place (Utf8.encode text)) := by
    simp only [save, made, written, wrote]
  rw [saved]
  exact ⟨text, place, spelled, rfl, reach_withBytes reached _ _, by simp⟩

/-- A stored catalogue is read back, and its stored form is canonical. Wherever a file can
be written, a catalogue of texts is stored, and what stands in the file is its stored form.
Loading that file gives the same mapping, without collisions and with the same stored form.
Two catalogues of texts have one stored form exactly when they have one mapping, in
whatever order their entries came. -/
theorem stored_form_canonical (catalogue : Catalogue) (distinct : catalogue.Distinct)
    (isText : catalogue.IsText) :
    (∀ (tree : FileTree) (path : Path), tree.Accepts path →
      (catalogue.save tree path).1 = .ok () ∧
        ∃ text loaded journal,
          (catalogue.save tree path).2.readExact path = .ok text ∧
          catalogue.serialize = ofText text ∧
          load (catalogue.save tree path).2 path = .ok (loaded, journal) ∧
          (∀ key, loaded.get? key = catalogue.get? key) ∧
          loaded.collisions = [] ∧
          loaded.serialize = ofText text) ∧
      ∀ other : Catalogue, other.Distinct → other.IsText →
        (catalogue.serialize = other.serialize ↔ ∀ key, catalogue.get? key = other.get? key) := by
  constructor
  · intro tree path accepts
    obtain ⟨text, place, spelled, saved, reached, stands⟩ := save_of_isText isText accepts
    have written : written catalogue.serialize = .ok text := by
      rw [spelled, written_ofText]
    obtain ⟨journal, loads⟩ := load_of_bytesAt? reached stands (Utf8.decode_encode text)
      (deserialize_of_written distinct written)
    have mapped := get?_ofEntries_sorted distinct
    have reads : (catalogue.save tree path).2.readExact path = .ok text :=
      readExact_eq_ok_iff.mpr
        ⟨_, read_eq_ok_iff.mpr ⟨place, reached, stands⟩, Utf8.decode_encode text⟩
    refine ⟨saved, text, _, journal, reads, spelled, loads, mapped, collisions_of_load loads, ?_⟩
    rw [serialize_eq_of_get?_eq (distinct_ofEntries _) distinct mapped, spelled]
  · intro other others _
    constructor
    · exact get?_eq_of_serialize_eq distinct others isText
    · exact serialize_eq_of_get?_eq distinct others

/-- Two texts that are hard to spell: quotes, a backslash, control characters, line ends, a
line separator and a character beyond the base plane. -/
def oddEntries : Entries :=
  [(ofText "say \"\\\"".toList, ofText ['\x00', '\r', '\n', '\x1F']),
    (ofText ['\x7F', '\u2028'], ofText ['好', '😀'])]

/-- The odd entries are stored at the root and read back, and their order is forgotten. -/
theorem stored_form_canonical_oddEntries :
    let catalogue : Catalogue := ⟨oddEntries, []⟩
    let turned : Catalogue := ⟨oddEntries.reverse, []⟩
    let path : Path := ⟨['/'], ["texts.json".toList]⟩
    catalogue.Distinct ∧ catalogue.IsText ∧ FileTree.Accepts {} path ∧
      (∃ text loaded journal,
        (catalogue.save {} path).2.readExact path = .ok text ∧
        load (catalogue.save {} path).2 path = .ok (loaded, journal) ∧
        (∀ key, loaded.get? key = catalogue.get? key) ∧
        loaded.serialize = ofText text) ∧
      catalogue.serialize = turned.serialize := by
  intro catalogue turned path
  have distinct : catalogue.Distinct := by
    rw [Distinct]
    decide
  have turnedDistinct : turned.Distinct := by
    rw [Distinct]
    decide
  have isText : catalogue.IsText := by decide
  have turnedIsText : turned.IsText := by decide
  have accepts : FileTree.Accepts {} path := ⟨{}, path.names, rfl, rfl, rfl⟩
  obtain ⟨stores, canonical⟩ := stored_form_canonical catalogue distinct isText
  obtain ⟨-, text, loaded, journal, reads, -, loads, mapped, -, again⟩ := stores {} path accepts
  refine ⟨distinct, isText, accepts, ⟨text, loaded, journal, reads, loads, mapped, again⟩, ?_⟩
  refine (canonical turned turnedDistinct turnedIsText).mpr fun key => ?_
  exact lookup_perm (List.reverse_perm _).symm distinct key

end Catalogue

end Phrasebook
