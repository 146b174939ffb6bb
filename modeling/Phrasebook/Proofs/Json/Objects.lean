import Phrasebook.Json.Reader

/-!
# The keys of objects

An object that is read has different keys, also when its text repeats one. Values
inside of objects and arrays are not looked at here.
-/

namespace Phrasebook

open List

namespace Mapping

variable {κ α : Type} [BEq κ]

/-- The keys of a mapping into which a value was put are the new one and those before. -/
theorem mem_keys_put {key name : κ} {value : α} {mapping : List (κ × α)}
    (member : name ∈ (put key value mapping).map Prod.fst) :
    name = key ∨ name ∈ mapping.map Prod.fst := by
  induction mapping with
  | nil => exact .inl (by simpa [put] using member)
  | cons pair mapping ih =>
    obtain ⟨other, old⟩ := pair
    rw [put] at member
    split at member
    · exact .inr member
    · rcases mem_cons.mp member with rfl | later
      · exact .inr mem_cons_self
      · exact (ih later).imp_right (mem_cons_of_mem _)

variable [LawfulBEq κ]

/-- Putting a value into a mapping keeps its keys different. -/
theorem nodup_put (key : κ) (value : α) {mapping : List (κ × α)}
    (distinct : (mapping.map Prod.fst).Nodup) : ((put key value mapping).map Prod.fst).Nodup := by
  induction mapping with
  | nil => simp [put]
  | cons pair mapping ih =>
    obtain ⟨other, old⟩ := pair
    obtain ⟨fresh, distinct⟩ := nodup_cons.mp distinct
    rw [put]
    split
    · exact nodup_cons.mpr ⟨fresh, distinct⟩
    · rename_i differs
      refine nodup_cons.mpr ⟨fun member => ?_, ih distinct⟩
      rcases mem_keys_put member with same | there
      · exact differs (beq_iff_eq.mpr same)
      · exact fresh there

/-- The mapping of any pairs has different keys. -/
theorem nodup_ofPairs (pairs : List (κ × α)) : ((ofPairs pairs).map Prod.fst).Nodup := by
  suffices from_ : ∀ mapping : List (κ × α), (mapping.map Prod.fst).Nodup →
      ((pairs.foldl (fun mapping pair => put pair.1 pair.2 mapping) mapping).map Prod.fst).Nodup by
    exact from_ [] (by simp)
  induction pairs with
  | nil => exact fun _ distinct => distinct
  | cons pair pairs ih =>
    exact fun mapping distinct => ih _ (nodup_put pair.1 pair.2 distinct)

end Mapping

namespace Json

/-- Whether a value is no object or has different keys. -/
def Value.IsKeyed : Value → Prop
  | .object members => (members.map Prod.fst).Nodup
  | _ => True

namespace Reader

/-- Whether all that a reader can yield has a property. -/
def Yields {α : Type} (reader : Reader α) (property : α → Prop) : Prop :=
  ∀ cursor value later, reader.run cursor = .ok (value, later) → property value

namespace Yields

variable {α β : Type} {property : β → Prop}

private theorem pure {value : β} (holds : property value) : Yields (Pure.pure value) property := by
  intro cursor result later read
  cases read
  exact holds

private theorem fault (problem : Problem) : Yields (Reader.fault problem) property := by
  intro cursor result later read
  cases read

/-- What two readers in a row yield is what the second one yields. -/
theorem bind {reader : Reader α} {next : α → Reader β}
    (later : ∀ value, Yields (next value) property) : Yields (reader >>= next) property := by
  intro cursor result last read
  rw [StateT.run_bind] at read
  cases first : reader.run cursor with
  | error problem =>
    rw [first] at read
    cases read
  | ok found =>
    rw [first] at read
    exact later found.1 found.2 result last read

end Yields

/-- Every object that is read has different keys. -/
theorem isKeyed_value (fuel : Nat) : Yields (value fuel) Value.IsKeyed := by
  cases fuel with
  | zero => exact .fault _
  | succ fuel =>
    rw [value]
    refine .bind fun next => ?_
    split
    · exact .bind fun _ => .pure trivial
    · refine .bind fun _ => .bind fun _ => .bind fun next => ?_
      split
      · exact .bind fun _ => .pure nodup_nil
      · exact .bind fun members => .pure (Mapping.nodup_ofPairs members)
    · refine .bind fun _ => .bind fun _ => .bind fun next => ?_
      split
      · exact .bind fun _ => .pure trivial
      · exact .bind fun _ => .pure trivial
    · refine .bind fun cursor => ?_
      split
      · rename_i length atom found
        split
        · exact .fault _
        refine .bind fun _ => .pure ?_
        -- Words and numbers are no objects.
        rw [atom?] at found
        split at found
        · rename_i word other known
          have member := mem_of_find?_eq_some known
          cases found
          simp only [words, mem_cons, Prod.mk.injEq, not_mem_nil, or_false] at member
          rcases member with ⟨-, rfl⟩ | ⟨-, rfl⟩ | ⟨-, rfl⟩ | ⟨-, rfl⟩ | ⟨-, rfl⟩ | ⟨-, rfl⟩ <;>
            trivial
        · dsimp only at found
          split at found
          · cases found
          · cases found
            trivial
      · exact .fault _

private theorem isKeyed_document : Yields document Value.IsKeyed := by
  rw [document]
  refine .bind fun next => ?_
  have rest : Yields (do
      blanks
      let result ← value ((← get).rest.length + 1)
      blanks
      if (← get).rest.isEmpty then return result else fault .extra) Value.IsKeyed := by
    refine .bind fun _ => .bind fun cursor => ?_
    intro start result last read
    rw [StateT.run_bind] at read
    cases first : (value (cursor.rest.length + 1)).run start with
    | error problem =>
      rw [first] at read
      cases read
    | ok found =>
      rw [first] at read
      have keyed := isKeyed_value _ _ _ _ first
      have ending : Yields (do
          blanks
          if (← get).rest.isEmpty then return found.1 else fault .extra) Value.IsKeyed := by
        refine .bind fun _ => .bind fun cursor => ?_
        split
        · exact .pure keyed
        · exact .fault _
      exact ending found.2 result last read
  split
  · exact .bind fun _ => rest
  · exact rest

end Reader

/-- Every object that a text writes has different keys. -/
theorem nodup_of_parse {text : Text} {members : List (CodePoints × Value)}
    (parsed : parse text = .ok (.object members)) : (members.map Prod.fst).Nodup := by
  rw [parse] at parsed
  cases read : Reader.document.run (Cursor.start text) with
  | error fault =>
    rw [read] at parsed
    cases parsed
  | ok found =>
    obtain ⟨value, later⟩ := found
    rw [read] at parsed
    cases parsed
    exact Reader.isKeyed_document _ _ _ read

end Json

end Phrasebook
