import Phrasebook.Proofs.Catalogue.Entries

/-!
# What collisions tell

A text that is stored under a taken key is dropped, and the collision names the text
that was kept. Texts that a catalogue stores itself collide with what it maps from
then on. A collision that it takes over from a staged catalogue was judged there: the
text that won in the staged catalogue may lose when its entries are stored, and then
this second collision is recorded too.
-/

namespace Phrasebook.Catalogue

open List

variable {catalogue : Catalogue} {key text : CodePoints} {collision : Collision} {entries : Entries}
  {staged : Catalogue}

/-! ## Storing texts -/

/-- A catalogue that stores texts maps what it mapped, and then what came first. -/
theorem get?_insertAll (catalogue : Catalogue) (entries : Entries) (key : CodePoints) :
    (catalogue.insertAll entries).1.get? key = (catalogue.get? key).or (entries.lookup key) := by
  rw [get?, entries_insertAll, lookup_joined, lookup_append]
  rfl

/-- A key maps to the first text that came under it. -/
theorem get?_insert (catalogue : Catalogue) (key text : CodePoints) :
    (catalogue.insert key text).1.get? key = some ((catalogue.get? key).getD text) := by
  rw [get?, entries_insert, lookup_joined, lookup_append, get?]
  cases catalogue.entries.lookup key <;> simp

/-- A key is new exactly when nothing was stored under it. -/
theorem insert_isNew_iff (catalogue : Catalogue) (key text : CodePoints) :
    (catalogue.insert key text).2.2 = true ↔ catalogue.get? key = none := by
  rw [insert]
  cases catalogue.get? key with
  | none => simp
  | some kept => cases same : kept == text <;> simp [same]

/-- One text collides exactly when its key is taken by another one. -/
theorem mem_collisions_insert_iff :
    collision ∈ (catalogue.insert key text).1.collisions ↔
      collision ∈ catalogue.collisions ∨ (collision.key, collision.dropped) = (key, text) ∧
          catalogue.get? key = some collision.kept ∧ collision.kept ≠ collision.dropped := by
  obtain ⟨name, kept, dropped⟩ := collision
  rw [insert]
  cases taken : catalogue.get? key with
  | none => simp
  | some first =>
    by_cases same : first = text
    · have alike : (first == text) = true := beq_iff_eq.mpr same
      simp only [alike, if_true, Prod.mk.injEq, Option.some.injEq]
      constructor
      · exact .inl
      · rintro (before | ⟨⟨-, rfl⟩, rfl, differs⟩)
        · exact before
        · exact absurd same differs
    · have apart : (first == text) = false := beq_false_of_ne same
      simp only [apart, Bool.false_eq_true, if_false, mem_append, mem_singleton,
        Collision.mk.injEq, Prod.mk.injEq, Option.some.injEq]
      refine or_congr_right ⟨?_, ?_⟩
      · rintro ⟨rfl, rfl, rfl⟩
        exact ⟨⟨rfl, rfl⟩, rfl, same⟩
      · rintro ⟨⟨rfl, rfl⟩, rfl, -⟩
        exact ⟨rfl, rfl, rfl⟩

/-- Storing texts records exactly those that differ from what their keys map to in the
end, since the first text under a key is there to stay. -/
theorem mem_collisions_insertAll_iff :
    collision ∈ (catalogue.insertAll entries).1.collisions ↔
      collision ∈ catalogue.collisions ∨ (collision.key, collision.dropped) ∈ entries ∧
          (catalogue.insertAll entries).1.get? collision.key = some collision.kept ∧
          collision.kept ≠ collision.dropped := by
  induction entries generalizing catalogue with
  | nil => simp [insertAll]
  | cons entry entries ih =>
    obtain ⟨key, text⟩ := entry
    rw [insertAll_cons, ih, mem_collisions_insert_iff, mem_cons, or_assoc]
    refine or_congr_right ?_
    rw [or_and_right]
    refine or_congr_left ?_
    -- What the entry met under its key is what is found there in the end, unless the key was free.
    have final : ((catalogue.insert key text).1.insertAll entries).1.get? key =
        some ((catalogue.get? key).getD text) := by
      rw [get?_insertAll, get?_insert, Option.some_or]
    constructor
    · rintro ⟨same, taken, differs⟩
      obtain ⟨rfl, rfl⟩ := Prod.mk.inj same
      exact ⟨rfl, by rw [final, taken, Option.getD_some], differs⟩
    · rintro ⟨same, found, differs⟩
      obtain ⟨rfl, rfl⟩ := Prod.mk.inj same
      refine ⟨rfl, ?_, differs⟩
      rw [final] at found
      cases taken : catalogue.get? collision.key with
      | none =>
        rw [taken, Option.getD_none] at found
        exact absurd (Option.some.inj found).symm differs
      | some first =>
        rw [taken, Option.getD_some] at found
        exact found

/-- What a catalogue maps stays when it stores texts. -/
theorem get?_insertAll_of_some (mapped : catalogue.get? key = some text) (entries : Entries) :
    (catalogue.insertAll entries).1.get? key = some text := by
  rw [get?_insertAll, mapped, Option.some_or]

/-! ## Taking over a staged catalogue -/

/-- A catalogue that takes over another has the collisions of both, and one for every
entry that differs from what it maps. -/
theorem mem_collisions_absorb_iff :
    collision ∈ (catalogue.absorb staged).1.collisions ↔
      (collision ∈ catalogue.collisions ∨ collision ∈ staged.collisions) ∨
        (collision.key, collision.dropped) ∈ staged.entries ∧
          (catalogue.absorb staged).1.get? collision.key = some collision.kept ∧
          collision.kept ≠ collision.dropped := by
  rw [absorb, mem_collisions_insertAll_iff, mem_append]

/-- A staged catalogue has a collision for exactly the texts that it does not map. -/
theorem mem_collisions_ofEntries_iff :
    collision ∈ (ofEntries entries).1.collisions ↔ (collision.key, collision.dropped) ∈ entries ∧
        (ofEntries entries).1.get? collision.key = some collision.kept ∧
        collision.kept ≠ collision.dropped := by
  rw [ofEntries, mem_collisions_insertAll_iff]
  simp [empty]

/-- What a catalogue maps is one of its entries. -/
theorem mem_entries_of_get? (mapped : catalogue.get? key = some text) :
    (key, text) ∈ catalogue.entries := by
  obtain ⟨before, after, split, -⟩ := lookup_eq_some_iff.mp mapped
  rw [split]
  simp

/-- An entry that a catalogue takes over is mapped afterwards or recorded as dropped. -/
theorem get?_absorb_or_mem_collisions (catalogue : Catalogue)
    (member : (key, text) ∈ staged.entries) :
    (catalogue.absorb staged).1.get? key = some text ∨
      ∃ kept, kept ≠ text ∧ (catalogue.absorb staged).1.get? key = some kept ∧
        ⟨key, kept, text⟩ ∈ (catalogue.absorb staged).1.collisions := by
  cases found : (catalogue.absorb staged).1.get? key with
  | none =>
    -- The key cannot be free, since the staged entry has it.
    rw [get?, entries_absorb, lookup_joined, lookup_eq_none_iff_not_mem] at found
    refine absurd (mem_map.mpr ⟨(key, text), ?_, rfl⟩) found
    exact mem_append_right _ member
  | some kept =>
    by_cases same : kept = text
    · exact .inl (congrArg some same)
    · exact .inr ⟨kept, same, rfl, mem_collisions_absorb_iff.mpr (.inr ⟨member, found, same⟩)⟩

/-! ## Sequences of operations -/

/-- A way to bring texts into a catalogue. -/
inductive Operation where
  | insert (key text : CodePoints)
  | merge (entries : Entries)
  /-- Takes over a staged catalogue into which texts were put one after another. -/
  | absorb (inserts : Entries)
  deriving Repr, DecidableEq

/-- A catalogue after one operation. -/
def Operation.apply (catalogue : Catalogue) : Operation → Catalogue
  | .insert key text => (catalogue.insert key text).1
  | .merge entries => (catalogue.insertAll entries).1
  | .absorb inserts => (catalogue.absorb (ofEntries inserts).1).1

/-- What operations make of the empty catalogue. -/
def after (operations : List Operation) : Catalogue :=
  operations.foldl Operation.apply empty

/-- Whether a collision says what the catalogue maps. -/
def IsCurrent (catalogue : Catalogue) (collision : Collision) : Prop :=
  catalogue.get? collision.key = some collision.kept ∧ collision.dropped ≠ collision.kept

/-- Whether the text that a collision says was kept has itself lost against the one that
the catalogue maps, which another collision says. -/
def IsSuperseded (catalogue : Catalogue) (collision : Collision) : Prop :=
  collision.dropped ≠ collision.kept ∧ ∃ current, current ≠ collision.kept ∧
    catalogue.get? collision.key = some current ∧
    ⟨collision.key, current, collision.kept⟩ ∈ catalogue.collisions

/-- An operation changes no text that is mapped, and forgets no collision. -/
theorem Operation.keeps (operation : Operation) (catalogue : Catalogue) :
    (∀ key text, catalogue.get? key = some text →
      (operation.apply catalogue).get? key = some text) ∧
    ∀ collision ∈ catalogue.collisions, collision ∈ (operation.apply catalogue).collisions := by
  cases operation with
  | insert key text =>
    have single : (catalogue.insert key text).1 = (catalogue.insertAll [(key, text)]).1 := by
      rw [insertAll_cons]
      rfl
    rw [apply, single]
    exact ⟨fun _ _ mapped => get?_insertAll_of_some mapped _,
      fun _ member => mem_collisions_insertAll_iff.mpr (.inl member)⟩
  | merge entries =>
    exact ⟨fun _ _ mapped => get?_insertAll_of_some mapped _,
      fun _ member => mem_collisions_insertAll_iff.mpr (.inl member)⟩
  | absorb inserts =>
    refine ⟨fun key text mapped => ?_, fun _ member => ?_⟩
    · rw [apply, get?_absorb, mapped, Option.some_or]
    · exact mem_collisions_absorb_iff.mpr (.inl (.inl member))

private theorem IsCurrent.apply (current : catalogue.IsCurrent collision) (operation : Operation) :
    (operation.apply catalogue).IsCurrent collision :=
  ⟨(operation.keeps catalogue).1 _ _ current.1, current.2⟩

private theorem IsSuperseded.apply (superseded : catalogue.IsSuperseded collision)
    (operation : Operation) :
    (operation.apply catalogue).IsSuperseded collision := by
  obtain ⟨differs, current, other, mapped, recorded⟩ := superseded
  obtain ⟨maps, records⟩ := operation.keeps catalogue
  exact ⟨differs, current, other, maps _ _ mapped, records _ recorded⟩

/-- A collision that a staged catalogue saw is current in the one that takes it over, or
the text that it says was kept has lost there. -/
theorem isCurrent_or_isSuperseded_of_absorb (catalogue : Catalogue) {inserts : Entries}
    (seen : collision ∈ (ofEntries inserts).1.collisions) :
    (catalogue.absorb (ofEntries inserts).1).1.IsCurrent collision ∨
      (catalogue.absorb (ofEntries inserts).1).1.IsSuperseded collision := by
  obtain ⟨-, mapped, differs⟩ := mem_collisions_ofEntries_iff.mp seen
  rcases get?_absorb_or_mem_collisions catalogue (mem_entries_of_get? mapped) with
    found | ⟨current, other, found, recorded⟩
  · exact .inl ⟨found, differs.symm⟩
  · exact .inr ⟨differs.symm, current, other, found, recorded⟩

/-- A collision that an operation adds is current, or a staged catalogue brought it and it
is superseded. -/
theorem Operation.adds (operation : Operation)
    (added : collision ∈ (operation.apply catalogue).collisions)
    (new : collision ∉ catalogue.collisions) :
    (operation.apply catalogue).IsCurrent collision ∨
      (operation.apply catalogue).IsSuperseded collision ∧
        ∃ inserts, operation = .absorb inserts ∧ collision ∈ (ofEntries inserts).1.collisions := by
  cases operation with
  | insert key text =>
    obtain ⟨same, taken, differs⟩ := (mem_collisions_insert_iff.mp added).resolve_left new
    obtain ⟨rfl, rfl⟩ := Prod.mk.inj same
    refine .inl ⟨?_, differs.symm⟩
    rw [apply, get?_insert, taken, Option.getD_some]
  | merge entries =>
    obtain ⟨-, mapped, differs⟩ := (mem_collisions_insertAll_iff.mp added).resolve_left new
    exact .inl ⟨mapped, differs.symm⟩
  | absorb inserts =>
    rcases mem_collisions_absorb_iff.mp added with (before | seen) | ⟨-, mapped, differs⟩
    · exact absurd before new
    · rcases isCurrent_or_isSuperseded_of_absorb catalogue seen with current | superseded
      · exact .inl current
      · exact .inr ⟨superseded, inserts, rfl, seen⟩
    · exact .inl ⟨mapped, differs.symm⟩

/-- Whether every collision that some operations led to is current, or one of them brought
it from a staged catalogue and it is superseded. -/
def Tells (operations : List Operation) (catalogue : Catalogue) : Prop :=
  ∀ collision ∈ catalogue.collisions, catalogue.IsCurrent collision ∨
    catalogue.IsSuperseded collision ∧ ∃ inserts, .absorb inserts ∈ operations ∧
      collision ∈ (ofEntries inserts).1.collisions

private theorem Tells.apply {operations : List Operation} (tells : Tells operations catalogue)
    (operation : Operation) : Tells (operations ++ [operation]) (operation.apply catalogue) := by
  intro collision recorded
  by_cases known : collision ∈ catalogue.collisions
  · rcases tells collision known with current | ⟨superseded, inserts, member, seen⟩
    · exact .inl (current.apply operation)
    · exact .inr ⟨superseded.apply operation, inserts, mem_append_left _ member, seen⟩
  · rcases operation.adds recorded known with current | ⟨superseded, inserts, rfl, seen⟩
    · exact .inl current
    · exact .inr ⟨superseded, inserts, mem_append_right _ mem_cons_self, seen⟩

private theorem Tells.foldl {earlier : List Operation} (tells : Tells earlier catalogue)
    (operations : List Operation) :
    Tells (earlier ++ operations) (operations.foldl Operation.apply catalogue) := by
  induction operations generalizing earlier catalogue with
  | nil =>
    rw [append_nil]
    exact tells
  | cons operation operations ih =>
    have next := ih (tells.apply operation)
    rw [append_assoc, singleton_append] at next
    exact next

/-- After any operations, every recorded collision names two different texts, and the
catalogue maps its key to the one that was kept. The exception is a collision that was
taken over from a staged catalogue, whose kept text has lost against one that the
catalogue had: the key is mapped to that one, and the loss is recorded as well. -/
theorem collisions_current_or_superseded (operations : List Operation) (collision : Collision)
    (recorded : collision ∈ (after operations).collisions) :
    (after operations).IsCurrent collision ∨ (after operations).IsSuperseded collision ∧
        ∃ inserts, .absorb inserts ∈ operations ∧ collision ∈ (ofEntries inserts).1.collisions := by
  have start : Tells [] empty := fun _ member => absurd member not_mem_nil
  exact start.foldl operations collision recorded

/-- A catalogue with one text takes over a staged catalogue with two others under the same
key. -/
def overtaken : List Operation :=
  [.merge [([.scalar 'k'], [.scalar 'a'])],
    .absorb [([.scalar 'k'], [.scalar 'b']), ([.scalar 'k'], [.scalar 'c'])]]

/-- The collision of the two staged texts is superseded. -/
theorem collisions_current_or_superseded_overtaken :
    ⟨[.scalar 'k'], [.scalar 'b'], [.scalar 'c']⟩ ∈ (after overtaken).collisions ∧
      ((after overtaken).IsCurrent ⟨[.scalar 'k'], [.scalar 'b'], [.scalar 'c']⟩ ∨
        (after overtaken).IsSuperseded ⟨[.scalar 'k'], [.scalar 'b'], [.scalar 'c']⟩ ∧
          ∃ inserts, .absorb inserts ∈ overtaken ∧
            ⟨[.scalar 'k'], [.scalar 'b'], [.scalar 'c']⟩ ∈ (ofEntries inserts).1.collisions) := by
  have recorded : ⟨[.scalar 'k'], [.scalar 'b'], [.scalar 'c']⟩ ∈ (after overtaken).collisions := by
    decide
  exact ⟨recorded, collisions_current_or_superseded overtaken _ recorded⟩

/-- Not every recorded collision says what the catalogue maps. -/
theorem not_all_collisions_current :
    ¬ ∀ operations : List Operation, ∀ collision ∈ (after operations).collisions,
      (after operations).get? collision.key = some collision.kept ∧
        collision.dropped ≠ collision.kept := by
  intro all
  have mapped := (all overtaken ⟨[.scalar 'k'], [.scalar 'b'], [.scalar 'c']⟩ (by decide)).1
  have actual : (after overtaken).get? [.scalar 'k'] = some [.scalar 'a'] := by decide
  rw [actual] at mapped
  cases mapped

end Phrasebook.Catalogue
