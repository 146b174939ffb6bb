import Phrasebook.Proofs.Catalogue.Canonical
import Phrasebook.Proofs.Catalogue.Collisions

/-!
# How a catalogue grows

Texts come into a catalogue one by one or by way of a staged one. Either way the first
text under a key stays, and a text that is dropped is recorded. Where none is dropped, the
order in which the texts came cannot be told from the stored form.
-/

namespace Phrasebook.Catalogue

open List

/-- How a catalogue grows by texts. The first text under a key stays, and collisions are
only added. None is added exactly when every text is the one that its key maps to. -/
structure Grows (earlier : Catalogue) (added : Entries) (later : Catalogue) : Prop where
  mapped : ∀ key, later.get? key = (earlier.get? key).or (added.lookup key)
  distinct : earlier.Distinct → later.Distinct
  recorded : earlier.collisions <+: later.collisions
  silent : later.collisions = earlier.collisions ↔
    ∀ entry ∈ added, later.get? entry.1 = some entry.2

/-- A record that is carried on twice stays the same exactly when it does both times. -/
private theorem carried_on_iff {α : Type} {first second third : List α} (one : first <+: second)
    (two : second <+: third) : third = first ↔ second = first ∧ third = second := by
  constructor
  · rintro rfl
    have same : second = third := two.eq_of_length_le one.length_le
    exact ⟨same, same.symm⟩
  · rintro ⟨rfl, rfl⟩
    rfl

namespace Grows

variable {earlier middle later : Catalogue} {first second : Entries}

theorem refl (catalogue : Catalogue) : Grows catalogue [] catalogue where
  mapped key := by rw [lookup_nil, Option.or_none]
  distinct := id
  recorded := prefix_rfl
  silent := by simp

/-- A key of an added text is mapped. -/
theorem exists_get?_of_mem (grows : Grows earlier first later) {entry : CodePoints × CodePoints}
    (member : entry ∈ first) : ∃ text, later.get? entry.1 = some text := by
  rw [← Option.isSome_iff_exists, grows.mapped, Option.isSome_or, Bool.or_eq_true]
  exact .inr (isSome_lookup_iff_mem.mpr (mem_map_of_mem member))

/-- A key that is mapped keeps its text. -/
theorem get?_of_some (grows : Grows earlier first later) {key text : CodePoints}
    (mapped : earlier.get? key = some text) : later.get? key = some text := by
  rw [grows.mapped, mapped, Option.some_or]

/-- Growing twice is growing by all texts. -/
theorem trans (one : Grows earlier first middle) (two : Grows middle second later) :
    Grows earlier (first ++ second) later where
  mapped key := by rw [two.mapped, one.mapped, lookup_append, Option.or_assoc]
  distinct := two.distinct ∘ one.distinct
  recorded := one.recorded.trans two.recorded
  silent := by
    rw [carried_on_iff one.recorded two.recorded, one.silent, two.silent, forall_mem_append]
    refine and_congr_left fun _ => forall₂_congr fun entry member => ?_
    -- What the first texts mapped to in between is what they map to in the end.
    obtain ⟨text, found⟩ := one.exists_get?_of_mem member
    rw [found, two.get?_of_some found]

end Grows

/-! ## Ways to grow -/

/-- One text makes a catalogue grow. -/
theorem grows_insert (catalogue : Catalogue) (key text : CodePoints) :
    Grows catalogue [(key, text)] (catalogue.insert key text).1 where
  mapped name := by
    rw [get?, entries_insert, lookup_joined, lookup_append]
    rfl
  distinct distinct := by
    rw [Distinct, keys, entries_insert]
    exact nodup_joined distinct _
  recorded := by
    rw [insert]
    split
    · exact prefix_rfl
    · split
      · exact prefix_rfl
      · exact prefix_append _ _
  silent := by
    rw [forall_mem_singleton, get?_insert, insert]
    cases taken : catalogue.get? key with
    | none => simp
    | some kept =>
      by_cases same : kept = text
      · simp [same]
      · simp [beq_false_of_ne same, same]

/-- Texts that are stored one after another make a catalogue grow. -/
theorem grows_insertAll (catalogue : Catalogue) (entries : Entries) :
    Grows catalogue entries (catalogue.insertAll entries).1 := by
  induction entries generalizing catalogue with
  | nil => exact .refl catalogue
  | cons entry entries ih =>
    rw [insertAll_cons, ← singleton_append]
    exact (grows_insert catalogue entry.1 entry.2).trans (ih _)

/-- A catalogue that takes over a staged one grows by all texts that were staged. -/
theorem grows_absorb (catalogue : Catalogue) (inserts : Entries) :
    Grows catalogue inserts (catalogue.absorb (ofEntries inserts).1).1 := by
  have staged : Grows empty inserts (ofEntries inserts).1 := grows_insertAll empty inserts
  have taken : Grows
      { catalogue with collisions := catalogue.collisions ++ (ofEntries inserts).1.collisions }
      (ofEntries inserts).1.entries (catalogue.absorb (ofEntries inserts).1).1 :=
    grows_insertAll _ _
  have behind := prefix_append catalogue.collisions (ofEntries inserts).1.collisions
  refine ⟨fun key => ?_, taken.distinct, behind.trans taken.recorded, ?_⟩
  · rw [get?_absorb]
    exact congrArg _ (staged.mapped key)
  · have quiet : catalogue.collisions ++ (ofEntries inserts).1.collisions = catalogue.collisions ↔
        ∀ entry ∈ inserts, (ofEntries inserts).1.get? entry.1 = some entry.2 := by
      rw [append_right_eq_self]
      exact staged.silent
    rw [carried_on_iff behind taken.recorded, taken.silent, quiet]
    constructor
    · rintro ⟨kept, stored⟩ entry member
      exact stored entry (mem_entries_of_get? (kept entry member))
    · intro kept
      have stored := fun entry member => kept entry (mem_of_mem_ofEntries member)
      refine ⟨fun entry member => ?_, stored⟩
      -- The text that was staged is mapped in the end, and so is this one.
      obtain ⟨text, found⟩ := staged.exists_get?_of_mem member
      rw [found, ← stored _ (mem_entries_of_get? found), kept entry member]

/-! ## The order of texts -/

namespace Grows

variable {start one other : Catalogue} {first second : Entries}

/-- A catalogue has the keys that it had and those of the texts. -/
theorem mem_keys_iff (grows : Grows start first one) {key : CodePoints} :
    key ∈ one.keys ↔ key ∈ start.keys ∨ key ∈ first.map Prod.fst := by
  rw [keys, keys, ← isSome_lookup_iff_mem, ← isSome_lookup_iff_mem, ← isSome_lookup_iff_mem,
    ← Bool.or_eq_true, ← Option.isSome_or]
  exact iff_of_eq (congrArg (·.isSome = true) (grows.mapped key))

/-- Where texts come in without a collision, they map alike in any order. -/
theorem get?_eq_of_perm (ones : Grows start first one) (others : Grows start second other)
    (same : first.Perm second) (silent : one.collisions = start.collisions) (key : CodePoints) :
    other.get? key = one.get? key := by
  rw [others.mapped]
  cases before : start.get? key with
  | some text => rw [Option.some_or, ones.get?_of_some before]
  | none =>
    rw [Option.none_or]
    cases found : second.lookup key with
    | some text =>
      obtain ⟨front, back, split, -⟩ := lookup_eq_some_iff.mp found
      have member : (key, text) ∈ first := same.mem_iff.mpr (by simp [split])
      exact (ones.silent.mp silent _ member).symm
    | none =>
      have absent : first.lookup key = none := by
        rw [lookup_eq_none_iff_not_mem, (same.map Prod.fst).mem_iff, ← lookup_eq_none_iff_not_mem]
        exact found
      rw [ones.mapped, before, absent]
      rfl

/-- Where texts come in without a collision, they do in any order, and the stored form is
the same. -/
theorem silent_of_perm (ones : Grows start first one) (others : Grows start second other)
    (same : first.Perm second) (distinct : start.Distinct)
    (silent : one.collisions = start.collisions) :
    other.collisions = start.collisions ∧ one.serialize = other.serialize := by
  have alike := ones.get?_eq_of_perm others same silent
  constructor
  · refine others.silent.mpr fun entry member => ?_
    rw [alike, ones.silent.mp silent entry (same.mem_iff.mpr member)]
  · exact serialize_eq_of_get?_eq (ones.distinct distinct) (others.distinct distinct)
      fun key => (alike key).symm

end Grows

end Phrasebook.Catalogue
