import Phrasebook.Catalogue
import Phrasebook.Proofs.Text.CodePoint

/-!
# What a catalogue maps

Whatever way entries come into a catalogue, the first text under a key is the one
that it maps. Collisions and reports are not described here.
-/

namespace Phrasebook.Catalogue

open List

variable {entries : Entries} {entry : CodePoints × CodePoints} {key : CodePoints}
  {catalogue : Catalogue}

/-- Entries with a text for each key. -/
abbrev Entries := List (CodePoints × CodePoints)

/-- Entries with more entries behind them, as far as their keys are new. -/
def joined (entries : Entries) : Entries → Entries
  | [] => entries
  | entry :: more =>
    joined (if (entries.lookup entry.1).isSome then entries else entries ++ [entry]) more

/-- The first of all entries under a key is the one that joined entries map. -/
theorem lookup_joined (entries more : Entries) (key : CodePoints) :
    (joined entries more).lookup key = (entries ++ more).lookup key := by
  induction more generalizing entries with
  | nil => rw [joined, append_nil]
  | cons entry more ih =>
    rw [joined, ih]
    cases taken : entries.lookup entry.1 with
    | none => simp
    | some text =>
      -- The entry is dropped: whoever asks for its key meets the earlier text.
      obtain ⟨name, dropped⟩ := entry
      simp only [Option.isSome_some, if_true, lookup_append, lookup_cons]
      by_cases same : key = name
      · subst same
        simp [taken]
      · simp [beq_false_of_ne same]

/-- Joining in two steps is joining at once. -/
theorem joined_append (entries middle more : Entries) :
    joined entries (middle ++ more) = joined (joined entries middle) more := by
  induction middle generalizing entries with
  | nil => rfl
  | cons entry middle ih => rw [cons_append, joined, joined, ih]

/-- Joining what was joined before is joining one after the other: entries that were
dropped the first time would have been dropped now. -/
theorem joined_joined (entries known more : Entries) :
    joined entries (joined known more) = joined (joined entries known) more := by
  induction more generalizing known with
  | nil => rfl
  | cons entry more ih =>
    rw [joined, ih]
    cases taken : known.lookup entry.1 with
    | none =>
      rw [if_neg (by simp), joined_append, ← joined_append (joined entries known) [entry] more,
        singleton_append]
    | some text =>
      have there : ((joined entries known).lookup entry.1).isSome = true := by
        rw [lookup_joined, lookup_append, taken]
        cases entries.lookup entry.1 <;> rfl
      rw [if_pos (by simp), joined, if_pos there]

/-- Joined entries start with the entries that were there. -/
theorem prefix_joined (entries more : Entries) : entries <+: joined entries more := by
  induction more generalizing entries with
  | nil => exact prefix_rfl
  | cons entry more ih =>
    rw [joined]
    split
    · exact ih entries
    · exact (prefix_append entries [entry]).trans (ih _)

/-- Joined entries come from either side. -/
theorem mem_or_mem_of_mem_joined {more : Entries} (member : entry ∈ joined entries more) :
    entry ∈ entries ∨ entry ∈ more := by
  induction more generalizing entries with
  | nil => exact .inl member
  | cons head more ih =>
    rw [joined] at member
    rcases ih member with before | after
    · split at before
      · exact .inl before
      · rcases mem_append.mp before with before | new
        · exact .inl before
        · exact .inr (by simp_all)
    · exact .inr (mem_cons_of_mem _ after)

/-- Nothing is found under a key exactly when no entry has it. -/
theorem lookup_eq_none_iff_not_mem : entries.lookup key = none ↔ key ∉ entries.map Prod.fst := by
  rw [lookup_eq_none_iff]
  simp only [mem_map, bne_iff_ne, ne_eq, not_exists, not_and]
  constructor
  · intro other entry member same
    exact other entry member same.symm
  · intro other entry member same
    exact other entry member same.symm

/-- Something is found under a key exactly when an entry has it. -/
theorem isSome_lookup_iff_mem :
    (entries.lookup key).isSome = true ↔ key ∈ entries.map Prod.fst := by
  rw [Option.isSome_iff_ne_none, ne_eq, lookup_eq_none_iff_not_mem, Classical.not_not]

/-- Joining keeps keys different. -/
theorem nodup_joined (distinct : (entries.map Prod.fst).Nodup) (more : Entries) :
    ((joined entries more).map Prod.fst).Nodup := by
  induction more generalizing entries with
  | nil => exact distinct
  | cons entry more ih =>
    rw [joined]
    cases taken : entries.lookup entry.1 with
    | some text => simpa using ih distinct
    | none =>
      refine ih ?_
      have fresh := lookup_eq_none_iff_not_mem.mp taken
      simp only [Option.isSome_none, Bool.false_eq_true, if_false, map_append]
      refine nodup_append.mpr ⟨distinct, by simp, ?_⟩
      rintro key member other only rfl
      simp only [map_cons, map_nil, mem_singleton] at only
      exact fresh (only ▸ member)

/-- Under different keys, the key of an entry is new to the entries before it. -/
theorem lookup_eq_none_of_nodup {later : Entries}
    (distinct : ((entries ++ entry :: later).map Prod.fst).Nodup) :
    entries.lookup entry.1 = none := by
  rw [map_append, nodup_append] at distinct
  refine lookup_eq_none_iff_not_mem.mpr fun member => ?_
  exact distinct.2.2 _ member _ (by simp) rfl

/-- Entries under different keys join nothing and lose nothing. -/
theorem joined_of_nodup {entries more : Entries}
    (distinct : ((entries ++ more).map Prod.fst).Nodup) : joined entries more = entries ++ more := by
  induction more generalizing entries with
  | nil => simp [joined]
  | cons entry more ih =>
    rw [joined, lookup_eq_none_of_nodup distinct]
    simpa using @ih (entries ++ [entry]) (by simpa using distinct)

/-- Under different keys, an entry is there exactly when it is mapped. -/
theorem lookup_eq_some_iff_mem (distinct : (entries.map Prod.fst).Nodup) {text : CodePoints} :
    entries.lookup key = some text ↔ (key, text) ∈ entries := by
  induction entries with
  | nil => simp
  | cons entry entries ih =>
    obtain ⟨name, value⟩ := entry
    simp only [map_cons, nodup_cons] at distinct
    rw [lookup_cons]
    by_cases same : key = name
    · subst same
      have only : (key, text) ∉ entries := fun member =>
        distinct.1 (mem_map_of_mem (f := Prod.fst) member)
      simp [only, eq_comm]
    · simp [beq_false_of_ne same, same, ih distinct.2]

/-- The order of entries under different keys does not matter. -/
theorem lookup_perm {left right : Entries} (same : left.Perm right)
    (distinct : (left.map Prod.fst).Nodup) (key : CodePoints) :
    left.lookup key = right.lookup key := by
  have others : (right.map Prod.fst).Nodup := (same.map Prod.fst).nodup_iff.mp distinct
  refine Option.ext fun text => ?_
  rw [lookup_eq_some_iff_mem distinct, lookup_eq_some_iff_mem others, same.mem_iff]

/-! ## Catalogues -/

/-- One entry joins a catalogue. -/
theorem entries_insert (catalogue : Catalogue) (key text : CodePoints) :
    (catalogue.insert key text).1.entries = joined catalogue.entries [(key, text)] := by
  simp only [insert, joined, get?]
  cases catalogue.entries.lookup key with
  | none => simp
  | some kept =>
    simp only [Option.isSome_some, if_true]
    split <;> rfl

/-- Where no step reads the second component of a fold, the first one does not depend on it. -/
private theorem foldl_fst {σ τ α : Type} {step : σ × τ → α → σ × τ}
    (blind : ∀ left right element, left.1 = right.1 →
      (step left element).1 = (step right element).1) (elements : List α) {left right : σ × τ}
    (same : left.1 = right.1) : (elements.foldl step left).1 = (elements.foldl step right).1 := by
  induction elements generalizing left right with
  | nil => exact same
  | cons element elements ih =>
    exact ih (blind left right element same)

/-- Entries are stored one after another. -/
theorem insertAll_cons (catalogue : Catalogue) (entry : CodePoints × CodePoints) (entries : Entries) :
    (catalogue.insertAll (entry :: entries)).1 =
      ((catalogue.insert entry.1 entry.2).1.insertAll entries).1 :=
  foldl_fst (fun _ _ entry same => congrArg (fun current => (insert current entry.1 entry.2).1) same)
    entries rfl

/-- Storing in two steps is storing at once. -/
theorem insertAll_append (catalogue : Catalogue) (left right : Entries) :
    (catalogue.insertAll (left ++ right)).1 = ((catalogue.insertAll left).1.insertAll right).1 := by
  induction left generalizing catalogue with
  | nil => rfl
  | cons entry left ih =>
    rw [cons_append, insertAll_cons, insertAll_cons, ih]

/-- All entries join a catalogue. -/
theorem entries_insertAll (catalogue : Catalogue) (entries : Entries) :
    (catalogue.insertAll entries).1.entries = joined catalogue.entries entries := by
  induction entries generalizing catalogue with
  | nil => rfl
  | cons entry entries ih =>
    rw [insertAll_cons, ih, entries_insert, ← joined_append, singleton_append]

/-- Entries under different new keys are stored behind the others, and none collides. -/
theorem insertAll_of_nodup (distinct : ((catalogue.entries ++ entries).map Prod.fst).Nodup) :
    (catalogue.insertAll entries).1 =
      { catalogue with entries := catalogue.entries ++ entries } := by
  induction entries generalizing catalogue with
  | nil => simp [insertAll]
  | cons entry entries ih =>
    have stored : (catalogue.insert entry.1 entry.2).1 =
        { catalogue with entries := catalogue.entries ++ [entry] } := by
      rw [insert, get?, lookup_eq_none_of_nodup distinct]
    rw [insertAll_cons, stored, ih (by simpa using distinct)]
    simp

/-- The entries of a staged catalogue join the catalogue that takes them over. -/
theorem entries_absorb (catalogue staged : Catalogue) :
    (catalogue.absorb staged).1.entries = joined catalogue.entries staged.entries :=
  entries_insertAll _ _

/-- There is nothing to take over from an empty catalogue. -/
theorem absorb_empty (catalogue : Catalogue) : catalogue.absorb {} = (catalogue, []) := by
  simp [absorb, insertAll]

/-- The entries of a list join nothing. -/
theorem entries_ofEntries (entries : Entries) : (ofEntries entries).1.entries = joined [] entries :=
  entries_insertAll _ _

/-- A catalogue that is made of entries has no others. -/
theorem mem_of_mem_ofEntries (member : entry ∈ (ofEntries entries).1.entries) :
    entry ∈ entries := by
  rw [entries_ofEntries] at member
  exact (mem_or_mem_of_mem_joined member).resolve_left not_mem_nil

/-- Whether all keys and texts of a catalogue can be written. -/
def IsText (catalogue : Catalogue) : Prop :=
  ∀ entry ∈ catalogue.entries, CodePoint.IsText entry.1 ∧ CodePoint.IsText entry.2

instance (catalogue : Catalogue) : Decidable catalogue.IsText :=
  inferInstanceAs (Decidable (∀ entry ∈ catalogue.entries, _))

/-- A catalogue that cannot be written maps something. -/
theorem exists_get?_of_not_isText (noText : ¬ catalogue.IsText) :
    ∃ key text, catalogue.get? key = some text := by
  cases entries : catalogue.entries with
  | nil =>
    refine absurd ?_ noText
    rw [IsText, entries]
    exact fun entry member => (not_mem_nil member).elim
  | cons entry later =>
    obtain ⟨key, text⟩ := entry
    exact ⟨key, text, by simp [get?, entries]⟩

/-- A catalogue in which no key stands twice. -/
def Distinct (catalogue : Catalogue) : Prop :=
  catalogue.keys.Nodup

/-- Entries make up a catalogue in which no key stands twice. -/
theorem distinct_ofEntries (entries : Entries) : (ofEntries entries).1.Distinct := by
  rw [Distinct, keys, entries_ofEntries]
  exact nodup_joined (by exact nodup_nil) entries

/-- Entries under different keys do not collide. -/
theorem collisions_ofEntries_of_nodup (distinct : (entries.map Prod.fst).Nodup) :
    (ofEntries entries).1.collisions = [] := by
  rw [ofEntries, insertAll_of_nodup (by simpa [empty] using distinct)]
  rfl

/-- An empty catalogue that takes over another one becomes it. -/
theorem Distinct.absorb_into_empty {staged : Catalogue} (distinct : staged.Distinct) :
    (absorb {} staged).1 = staged := by
  rw [Catalogue.absorb, insertAll_of_nodup (by simpa [Distinct, keys] using distinct)]
  rfl

/-- A catalogue that takes over another keeps its keys different. -/
theorem Distinct.absorb (distinct : catalogue.Distinct) (staged : Catalogue) :
    (catalogue.absorb staged).1.Distinct := by
  rw [Distinct, keys, entries_absorb]
  exact nodup_joined distinct _

/-- A staged catalogue of texts does not decide whether a catalogue can be written. -/
theorem isText_absorb_iff {staged : Catalogue} (isText : staged.IsText) :
    (catalogue.absorb staged).1.IsText ↔ catalogue.IsText := by
  simp only [IsText, entries_absorb]
  constructor
  · intro all entry member
    exact all entry ((prefix_joined _ _).subset member)
  · intro all entry member
    rcases mem_or_mem_of_mem_joined member with before | after
    · exact all entry before
    · exact isText entry after

/-- A catalogue that takes over another maps what both map, its own texts first. -/
theorem get?_absorb (catalogue staged : Catalogue) (key : CodePoints) :
    (catalogue.absorb staged).1.get? key = (catalogue.get? key).or (staged.get? key) := by
  rw [get?, entries_absorb, lookup_joined, lookup_append]
  rfl

end Phrasebook.Catalogue
