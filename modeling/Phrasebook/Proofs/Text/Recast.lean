import Phrasebook.Proofs.Edit

/-!
# Changes in recognised places

A scan finds places in a text, and some of them get another content. The result is
described by recursion along the text: characters at which nothing is recognised are
copied, and what is recognised changes. What a change may depend on is the gap since the
last place, so that an argument about the new text can go from place to place.
-/

namespace Phrasebook.Text

variable {α : Type} {recognise : Text → Option (Nat × α)} {change : Found α → Option Text}

/-- A text with changes in what a recogniser takes of it. What stands between the changed
places is copied; `gap` is what stands before the text, back to the last place. -/
inductive Recast (recognise : Text → Option (Nat × α))
    (changes : (gap : Text) → α → (taken new : Text) → Prop) : (gap text after : Text) → Prop
  | nil {gap : Text} : Recast recognise changes gap [] []
  | keep {gap : Text} {head : Char} {tail after : Text} (nothing : recognise (head :: tail) = none)
      (later : Recast recognise changes (gap ++ [head]) tail after) :
      Recast recognise changes gap (head :: tail) (head :: after)
  | take {gap taken rest new after : Text} {value : α}
      (recognised : recognise (taken ++ rest) = some (taken.length, value))
      (changed : changes gap value taken new) (later : Recast recognise changes [] rest after) :
      Recast recognise changes gap (taken ++ rest) (new ++ after)

/-- Whether a text is empty or ends with something that a recogniser takes. -/
def EndsTaken (recognise : Text → Option (Nat × α)) (text : Text) : Prop :=
  text = [] ∨ ∃ front taken rest value, text = front ++ taken ∧
    recognise (taken ++ rest) = some (taken.length, value)

/-- A place with the text that a change puts there. -/
def withContent (change : Found α → Option Text) (found : Found α) : Option (Found Text) :=
  (change found).map fun content => ⟨found.start, found.stop, content⟩

private theorem ordered_withContent {offset length : Nat} {places : List (Found α)}
    (ordered : Found.Ordered offset length places) :
    Found.Ordered offset length (places.filterMap (withContent change)) := by
  refine ordered.filterMap fun place kept kept_eq => ?_
  obtain ⟨content, -, rfl⟩ := Option.map_eq_some_iff.1 kept_eq
  exact ⟨rfl, rfl⟩

/-- Contents that are put in places of a scan recast the text. -/
theorem recast_copy {changes : Text → α → Text → Text → Prop} (bounded : Bounded fun _ => recognise)
    {whole : Text} (holds : ∀ done gap taken rest value, whole = done ++ gap ++ (taken ++ rest) →
      EndsTaken recognise done → recognise (taken ++ rest) = some (taken.length, value) →
      changes gap value taken ((change
        ⟨(done ++ gap).length, (done ++ gap).length + taken.length, value⟩).getD taken)) :
    Recast recognise changes [] whole (Edit.copy 0 whole
      ((scan (fun _ => recognise) whole).filterMap (withContent change))) := by
  suffices from_ : ∀ text done gap prev, whole = done ++ gap ++ text →
      EndsTaken recognise done → Recast recognise changes gap text
        (Edit.copy (done ++ gap).length text ((scanFrom (fun _ => recognise) (done ++ gap).length 0
          prev text).filterMap (withContent change))) from
    from_ whole [] [] none rfl (.inl rfl)
  intro text
  induction text using @cut_induction _ recognise with
  | bounded => exact bounded none _ _ _ ‹_›
  | nil => exact fun done gap prev _ _ => .nil
  | plain head tail nothing ih =>
    intro done gap prev split ends
    have later := ih done (gap ++ [head]) (some head) (by simp [split]) ends
    have size : (done ++ (gap ++ [head])).length = (done ++ gap).length + 1 := by
      rw [← List.append_assoc, List.length_append, List.length_singleton]
    have ordered := @ordered_scanFrom _ _ bounded ((done ++ gap).length + 1) 0 (some head) tail
      (Nat.zero_le _)
    rw [size] at later
    rw [scanFrom_of_none nothing,
      Edit.copy_advance (Nat.le_add_right _ 1) (ordered_withContent ordered),
      Nat.add_sub_cancel_left]
    exact .keep nothing later
  | taken taken rest value recognised ih =>
    intro done gap prev split ends
    have nonempty : taken ≠ [] := by
      rintro rfl
      exact absurd (bounded none _ _ _ recognised).1 (by simp)
    have later := ih (done ++ gap ++ taken) [] taken.getLast? (by simp [split])
      (.inr ⟨done ++ gap, taken, rest, value, rfl, recognised⟩)
    rw [List.append_nil, List.length_append] at later
    have changed := holds done gap taken rest value split ends recognised
    have ordered := @ordered_scanFrom _ _ bounded ((done ++ gap).length + taken.length) 0
      taken.getLast? rest (Nat.zero_le _)
    rw [scanFrom_of_some nonempty recognised]
    generalize (done ++ gap).length = offset at *
    cases content : change ⟨offset, offset + taken.length, value⟩ with
    | none =>
      rw [content] at changed
      rw [List.filterMap_cons_none (by rw [withContent, content]; rfl),
        Edit.copy_advance (Nat.le_add_right offset taken.length) (ordered_withContent ordered),
        Nat.add_sub_cancel_left, List.take_left, List.drop_left]
      exact .take recognised changed later
    | some new =>
      rw [content] at changed
      rw [List.filterMap_cons_some (by rw [withContent, content]; rfl), Edit.copy, Nat.sub_self,
        Nat.add_sub_cancel_left, List.drop_left]
      exact .take recognised changed later

end Phrasebook.Text
