import Phrasebook.Proofs.Call
import Phrasebook.Proofs.Document.Registration

/-!
# A stage as a function of its buffer

The key of a phrase depends on nothing but its text and the file. What a stage makes of
a buffer is therefore a function of the buffer: a walk from left to right that puts the
spelled pieces in the places that the stage found.
-/

namespace Phrasebook.Markup

open Pass

namespace Piece

variable {scope : Scope} {setting : Setting} {added : List KeyedPhrase}

/-- The text that is stored for a phrase. -/
def storedText (candidate : Candidate) : Text :=
  match Pass.readable candidate.value with
  | .ok text => text
  | .error _ => []

/-- The call for a phrase. -/
def callText (scope : Scope) (candidate : Candidate) : Text :=
  scope.call (storedText candidate) candidate.quote candidate.exprs

/-- The text of pieces, all phrases among them being readable. -/
def spell (scope : Scope) : List Piece → Text
  | [] => []
  | fixed text :: pieces => text ++ spell scope pieces
  | call candidate :: pieces => callText scope candidate ++ spell scope pieces

@[simp] theorem spell_append (scope : Scope) (left right : List Piece) :
    spell scope (left ++ right) = spell scope left ++ spell scope right := by
  induction left with
  | nil => rfl
  | cons piece left ih => cases piece <;> simp [spell, ih]

private theorem key_of_emits_register {span : Span} {candidate : Candidate} {key : Text}
    (emits : Emits (Pass.register scope span setting candidate.value) (.ok key) added) :
    key = Key.ofText (storedText candidate) scope.path scope.keyLength := by
  cases located : Pass.located span candidate.value with
  | ok text =>
    rw [storedText, (located_eq_ok_iff.1 located).2]
    exact Except.ok.inj (emits.unique (.register scope span setting located)).1
  | error failure => cases (emits.unique (.register_error scope span setting located)).1

/-- Pieces are rendered as they are spelled. -/
theorem eq_spell_of_emits_render {pieces : List Piece} {text : Text}
    (emits : Emits (render scope setting pieces) (.ok text) added) : text = spell scope pieces := by
  induction pieces generalizing text added with
  | nil => exact (Emits.pure_iff.1 emits).1
  | cons piece pieces ih =>
    cases piece with
    | fixed fixed =>
      obtain ⟨later, first, second, renders, yields, -⟩ :=
        emits.of_bind (registers_render _ _ _) fun _ => .pure _
      obtain ⟨rfl, -⟩ := Emits.pure_iff.1 yields
      rw [spell, ih renders]
    | call candidate =>
      obtain ⟨key, first, second, registers, rest, -⟩ :=
        emits.of_bind (.register _ _ _ _) fun _ =>
          .bind (registers_render _ _ _) fun _ => .pure _
      obtain ⟨later, second, third, renders, yields, -⟩ :=
        rest.of_bind (registers_render _ _ _) fun _ => .pure _
      obtain ⟨rfl, -⟩ := Emits.pure_iff.1 yields
      rw [spell, callText, Scope.call, ih renders, key_of_emits_register registers]

end Piece

namespace Stage

variable {scope : Scope} {buffer : Text} {added : List KeyedPhrase}
  {places : List (Found (List Piece))} {stage : Stage} {after : Text}

/-- Places with the text of their pieces. -/
def contents (scope : Scope) (places : List (Found (List Piece))) : List (Found Text) :=
  places.map fun place => ⟨place.start, place.stop, Piece.spell scope place.value⟩

/-- A buffer after a stage, all phrases that it finds being readable. -/
def applied (scope : Scope) (stage : Stage) (buffer : Text) : Text :=
  Edit.copy 0 buffer (contents scope (find scope.functions buffer stage))

/-- The changes of a stage are in order. -/
theorem ordered_contents (scope : Scope) {length : Nat} (ordered : Found.Ordered 0 length places) :
    Found.Ordered 0 length (contents scope places) := by
  rw [contents, ← List.filterMap_eq_map]
  refine ordered.filterMap fun place kept kept_eq => ?_
  cases kept_eq
  exact ⟨rfl, rfl⟩

/-- The edits of a stage are those of its places where something changes. -/
theorem eq_of_emits_edits {edits : List (Edit Char)}
    (emits : Emits (Stage.edits scope stage buffer places) (.ok edits) added) :
    edits = ((contents scope places).filter fun place =>
      place.value != buffer.slice place.start place.stop).map Edit.ofFound := by
  induction places generalizing edits added with
  | nil => exact (Emits.pure_iff.1 emits).1
  | cons place places ih =>
    obtain ⟨content, first, second, renders, rest, -⟩ :=
      emits.of_bind (registers_render _ _ _) fun _ =>
        .bind (registers_edits _ _ _ _) fun _ => .pure _
    obtain ⟨later, second, third, others, yields, -⟩ :=
      rest.of_bind (registers_edits _ _ _ _) fun _ => .pure _
    obtain ⟨rfl, -⟩ := Emits.pure_iff.1 yields
    obtain rfl := Piece.eq_spell_of_emits_render renders
    obtain rfl := ih others
    rw [contents, contents, List.map_cons, List.filter_cons]
    split <;> simp_all [Edit.ofFound]

/-- A stage that succeeds gives the applied buffer. -/
theorem eq_applied_of_emits (emits : Emits (Stage.apply scope stage buffer) (.ok after) added) :
    after = applied scope stage buffer := by
  have reports (edits : List (Edit Char)) : Registers (do
      unless edits.isEmpty do
        Pass.note scope .debug .extraction
          (stage.name.toList ++ " rewrote ".toList ++ Text.ofNat edits.length ++ " spans".toList)
      return Edit.applyAll buffer edits) := by
    cases edits.isEmpty with
    | true => exact .pure _
    | false => exact .bind (.note _ _ _ _) fun _ => .pure _
  obtain ⟨edits, first, second, finds, rest, -⟩ := emits.of_bind (registers_edits _ _ _ _) reports
  have yields : after = Edit.applyAll buffer edits := by
    cases empty : edits.isEmpty with
    | true =>
      rw [empty] at rest
      exact (Emits.pure_iff.1 rest).1
    | false =>
      rw [empty] at rest
      obtain ⟨_, first, second, -, yields, -⟩ :=
        Emits.of_bind (.note _ _ _ _) (fun _ => .pure _) rest
      exact (Emits.pure_iff.1 yields).1
  have ordered := ordered_contents scope (ordered_find scope.functions buffer stage)
  have skipped := Edit.copy_filter ordered
  rw [yields, eq_of_emits_edits finds, Edit.applyAll_eq_copy ordered.filter]
  exact skipped

/-- The stages that succeed give the buffer that each makes of the one before. -/
theorem eq_foldl_of_emits {stages : List Stage}
    (emits : Emits (Stage.applyAll scope stages buffer) (.ok after) added) :
    after = stages.foldl (fun buffer stage => applied scope stage buffer) buffer := by
  induction stages generalizing buffer added with
  | nil => exact (Emits.pure_iff.1 emits).1
  | cons stage stages ih =>
    obtain ⟨next, first, second, applies, rest, -⟩ :=
      emits.of_bind (registers_apply _ _ _) fun _ => registers_applyAll _ _ _
    obtain rfl := eq_applied_of_emits applies
    exact ih rest

end Stage

end Phrasebook.Markup
