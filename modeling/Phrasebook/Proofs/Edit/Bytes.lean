import Phrasebook.Proofs.Edit.Separate
import Phrasebook.Proofs.Text.Utf8
import Phrasebook.Script.Extract

/-!
# Edits of a text and of its bytes

An edit of a text is also an edit of its bytes: an offset that counts characters becomes
the number of bytes before it. As long as edits do not overlap, editing the bytes gives the
bytes of the edited text.
-/

namespace Phrasebook

open List

/-! ## Places in bytes -/

namespace Edit

variable {script : Text} {places : List (Found Text)}

/-- A place in a script as a place in its bytes. -/
def inBytes (script : Text) (place : Found Text) : Found Bytes where
  start := Utf8.size (script.take place.start)
  stop := Utf8.size (script.take place.stop)
  value := Utf8.encode place.value

/-- The bytes of a copy are the copy of the bytes. -/
theorem encode_copy {offset : Nat} (above : ∀ place ∈ places, offset ≤ place.start)
    (proper : ∀ place ∈ places, place.start ≤ place.stop)
    (sorted : places.Pairwise fun left right => left.stop ≤ right.start) :
    copy (Utf8.size (script.take offset)) (Utf8.encode (script.drop offset))
        (places.map (inBytes script)) =
      Utf8.encode (copy offset (script.drop offset) places) := by
  induction places generalizing offset with
  | nil => rfl
  | cons place later ih =>
    obtain ⟨before, sorted⟩ := pairwise_cons.1 sorted
    obtain ⟨here, proper⟩ := forall_mem_cons.1 proper
    have start := above place mem_cons_self
    have rest := ih before proper sorted
    have front : (inBytes script place).start - Utf8.size (script.take offset) =
        Utf8.size ((script.drop offset).take (place.start - offset)) := by
      rw [inBytes, Utf8.size_take script start, Nat.add_sub_cancel_left]
    have back : (inBytes script place).stop - Utf8.size (script.take offset) =
        Utf8.size ((script.drop offset).take (place.stop - offset)) := by
      rw [inBytes, Utf8.size_take script (Nat.le_trans start here), Nat.add_sub_cancel_left]
    rw [map_cons, copy, copy, front, back, Utf8.take_encode, Utf8.drop_encode,
      drop_drop_sub (Nat.le_trans start here), Utf8.encode_append, Utf8.encode_append, ← rest]
    rfl

/-- A place that holds a character takes bytes. -/
theorem start_lt_stop_inBytes {place : Found Text} {offset : Nat} (inside : offset < script.length)
    (above : place.start ≤ offset) (below : offset < place.stop) :
    (inBytes script place).start < (inBytes script place).stop :=
  Nat.lt_of_le_of_lt (Utf8.size_take_le script above) (Utf8.size_take_lt script below inside)

/-! ## Edits in bytes -/

open Script (byteEdit)

section Bytes

variable {text : Text} {edits : List (Edit Char)}

private theorem found_byteEdit (text : Text) (edit : Edit Char) :
    (byteEdit text edit).found = inBytes text edit.found :=
  rfl

private theorem Within.byteEdit {edit : Edit Char} (within : edit.Within text.length) :
    (byteEdit text edit).Within (Utf8.encode text).length := by
  obtain ⟨-, proper, inside⟩ := within
  have sizes := Utf8.size_take_le text (show edit.start.toNat ≤ edit.stop.toNat by omega)
  have total := Utf8.size_take_le text (show edit.stop.toNat ≤ text.length by omega)
  rw [take_length] at total
  simp only [Within, Script.byteEdit, Utf8.length_encode]
  omega

private theorem Clear.byteEdit {left right : Edit Char} (clear : Clear left right) :
    Clear (byteEdit text left) (byteEdit text right) := by
  simp only [Clear, Script.byteEdit, Int.ofNat_le]
  rcases clear with before | behind
  · exact .inl (Utf8.size_take_le text (by omega))
  · exact .inr (Utf8.size_take_le text (by omega))

/-- Edits in bytes are applied in the order of the edits that they come from. -/
theorem appliedFirst_byteEdit {left right : Edit Char} (leftWithin : left.Within text.length)
    (rightWithin : right.Within text.length) :
    appliedFirst (byteEdit text left) (byteEdit text right) = appliedFirst left right := by
  obtain ⟨leftStart, leftProper, leftStop⟩ := leftWithin
  obtain ⟨rightStart, rightProper, rightStop⟩ := rightWithin
  have starts := @Utf8.size_take_le_iff text right.start.toNat left.start.toNat (by omega)
  have reversed := @Utf8.size_take_le_iff text left.start.toNat right.start.toNat (by omega)
  have stops := @Utf8.size_take_le_iff text right.stop.toNat left.stop.toNat (by omega)
  rw [Bool.eq_iff_iff, appliedFirst_iff, appliedFirst_iff]
  simp only [byteEdit]
  omega

private theorem leftToRight_byteEdit (within : ∀ edit ∈ edits, edit.Within text.length) :
    leftToRight (edits.map (byteEdit text)) = (leftToRight edits).map (byteEdit text) := by
  have sorted := map_mergeSort (fun left leftMember right rightMember =>
    (@appliedFirst_byteEdit text left right (within left leftMember)
      (within right rightMember)).symm)
  rw [leftToRight, leftToRight, ← sorted, map_reverse]

/-- The bytes of an edited text are the edited bytes. Several insertions at one place come in
the same order in both. -/
theorem encode_applyAll_of_clear (within : ∀ edit ∈ edits, edit.Within text.length)
    (clear : edits.Pairwise Clear) :
    Utf8.encode (applyAll text edits) =
      applyAll (Utf8.encode text) (edits.map (byteEdit text)) := by
  have same := leftToRight_perm edits
  have rowWithin : ∀ edit ∈ leftToRight edits, edit.Within text.length :=
    fun edit member => within edit (same.mem_iff.1 member)
  have before := pairwise_of_clear within clear same (pairwise_leftToRight edits)
  have proper : ∀ place ∈ (leftToRight edits).map found, place.start ≤ place.stop := by
    refine forall_mem_map.2 fun edit member => ?_
    obtain ⟨-, proper, -⟩ := rowWithin edit member
    simp only [found]
    omega
  have sorted : ((leftToRight edits).map found).Pairwise fun left right =>
      left.stop ≤ right.start := by
    refine pairwise_map.2 (before.imp fun {left right} stops => ?_)
    simp only [found]
    omega
  have copied := @encode_copy text _ 0 (fun _ _ => Nat.zero_le _) proper sorted
  have byteWithin : ∀ edit ∈ edits.map (byteEdit text), edit.Within (Utf8.encode text).length :=
    forall_mem_map.2 fun edit member => (within edit member).byteEdit
  have byteClear : (edits.map (byteEdit text)).Pairwise Clear :=
    pairwise_map.2 (clear.imp Clear.byteEdit)
  have places : (leftToRight (edits.map (byteEdit text))).map found =
      ((leftToRight edits).map found).map (inBytes text) := by
    rw [leftToRight_byteEdit within, map_map, map_map]
    exact map_congr_left fun edit _ => found_byteEdit text edit
  calc Utf8.encode (applyAll text edits)
      = Utf8.encode (copy 0 text ((leftToRight edits).map found)) := by
        rw [applyAll_eq_copy_leftToRight within clear]
    _ = copy 0 (Utf8.encode text) (((leftToRight edits).map found).map (inBytes text)) :=
        copied.symm
    _ = applyAll (Utf8.encode text) (edits.map (byteEdit text)) := by
        rw [applyAll_eq_copy_leftToRight byteWithin byteClear, places]

/-- Editing a text and editing its bytes is the same: the bytes of the edited text are the
edited bytes, which can therefore be read. -/
theorem applyAll_in_bytes (within : ∀ edit ∈ edits, edit.Within text.length)
    (separate : Separate edits) :
    Utf8.encode (applyAll text edits) = applyAll (Utf8.encode text) (edits.map (byteEdit text)) ∧
      Utf8.decode (applyAll (Utf8.encode text) (edits.map (byteEdit text))) =
        .ok (applyAll text edits) ∧
      Script.rewritten text edits = .ok (applyAll text edits) := by
  have bytes := encode_applyAll_of_clear within ((separate_iff within).1 separate)
  have decoded : Utf8.decode (applyAll (Utf8.encode text) (edits.map (byteEdit text))) =
      .ok (applyAll text edits) := by
    rw [← bytes, Utf8.decode_encode]
  refine ⟨bytes, decoded, ?_⟩
  rw [Script.rewritten]
  split
  · rename_i none
    rw [List.isEmpty_iff.1 none, applyAll_nil]
  · rw [decoded]

/-- Edits of a text whose characters take one to four bytes, two of them insertions at the
same place. -/
def wideEdits : List (Edit Char) :=
  [⟨1, 1, ['é']⟩, ⟨4, 4, ['!']⟩, ⟨1, 1, ['界']⟩, ⟨2, 3, ['𝄞', '-']⟩]

/-- The bytes of a text with wide characters are edited like the text. -/
theorem applyAll_in_bytes_wideEdits :
    (∀ edit ∈ wideEdits, edit.Within "aé好😀".toList.length) ∧ Separate wideEdits ∧
      Utf8.decode (applyAll (Utf8.encode "aé好😀".toList)
        (wideEdits.map (byteEdit "aé好😀".toList))) = .ok "a界éé𝄞-😀!".toList := by
  have within : ∀ edit ∈ wideEdits, edit.Within "aé好😀".toList.length := by decide
  have separate : Separate wideEdits := (separate_iff within).2 (by decide)
  refine ⟨within, separate, ?_⟩
  rw [(applyAll_in_bytes within separate).2.1]
  cbv

end Bytes

end Edit

end Phrasebook
