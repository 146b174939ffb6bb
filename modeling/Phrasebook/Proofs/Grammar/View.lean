import Phrasebook.Grammar.View

/-!
# Views stand in order

The parts of a view stand one behind the other between its start and its end, whatever
the tree is that it shows. Nothing is said about the text that the tree was read from.
-/

namespace Phrasebook.Grammar

variable {ν φ τ : Type}

namespace View

mutual

/-- Whether a view ends behind its start, and its parts stand in order between the two. -/
def Nested : View ν φ → Prop
  | node _ _ start stop _ _ parts => NestedBetween start stop parts

/-- Whether views stand one behind the other between two places. -/
def NestedBetween (lower upper : Nat) : List (View ν φ) → Prop
  | [] => lower ≤ upper
  | part :: parts => lower ≤ part.start ∧ part.Nested ∧ NestedBetween part.stop upper parts

end

theorem nested_iff {view : View ν φ} :
    view.Nested ↔ NestedBetween view.start view.stop view.parts := by
  cases view
  rw [Nested]
  rfl

mutual

theorem Nested.le {view : View ν φ} (nested : view.Nested) : view.start ≤ view.stop := by
  cases view with
  | node title field start stop missing cost parts =>
    rw [Nested] at nested
    exact NestedBetween.le nested

private theorem NestedBetween.le {lower upper : Nat} {parts : List (View ν φ)}
    (nested : NestedBetween lower upper parts) : lower ≤ upper := by
  cases parts with
  | nil =>
    rw [NestedBetween] at nested
    exact nested
  | cons part parts =>
    rw [NestedBetween] at nested
    obtain ⟨above, inner, later⟩ := nested
    have own := Nested.le inner
    have rest := NestedBetween.le later
    omega

end

/-- One nested view stands in order between its start and its end. -/
theorem nestedBetween_singleton {view : View ν φ} (nested : view.Nested) :
    NestedBetween view.start view.stop [view] := by
  rw [NestedBetween, NestedBetween]
  exact ⟨Nat.le_refl _, nested, Nat.le_refl _⟩

namespace NestedBetween

variable {lower middle upper : Nat} {parts more : List (View ν φ)}

private theorem mono {least : Nat} (below : least ≤ lower)
    (nested : NestedBetween lower upper parts) :
    NestedBetween least upper parts := by
  cases parts with
  | nil =>
    rw [NestedBetween] at *
    omega
  | cons part parts =>
    rw [NestedBetween] at *
    exact ⟨Nat.le_trans below nested.1, nested.2⟩

/-- Views behind others stand in order with them. -/
theorem append (front : NestedBetween lower middle parts)
    (back : NestedBetween middle upper more) : NestedBetween lower upper (parts ++ more) := by
  induction parts generalizing lower with
  | nil =>
    rw [NestedBetween] at front
    exact back.mono front
  | cons part parts ih =>
    rw [NestedBetween] at front
    rw [List.cons_append, NestedBetween]
    exact ⟨front.1, front.2.1, ih front.2.2⟩

/-- Every one of some views is nested and stands between the same places. -/
theorem of_mem (nested : NestedBetween lower upper parts) {part : View ν φ}
    (member : part ∈ parts) : part.Nested ∧ lower ≤ part.start ∧ part.stop ≤ upper := by
  induction parts generalizing lower with
  | nil => cases member
  | cons first parts ih =>
    rw [NestedBetween] at nested
    obtain ⟨above, inner, later⟩ := nested
    rcases List.mem_cons.mp member with rfl | member
    · exact ⟨inner, above, later.le⟩
    · obtain ⟨isNested, least, most⟩ := ih later member
      have own := inner.le
      exact ⟨isNested, by omega, most⟩

/-- Of two views, the earlier one ends before the later one starts. -/
theorem pairwise (nested : NestedBetween lower upper parts) :
    parts.Pairwise fun left right => left.stop ≤ right.start := by
  induction parts generalizing lower with
  | nil => exact .nil
  | cons part parts ih =>
    rw [NestedBetween] at nested
    obtain ⟨-, -, later⟩ := nested
    exact .cons (fun other member => (later.of_mem member).2.1) (ih later)

end NestedBetween

end View

/-! ## What is seen of a tree -/

/-- Whether what is seen behind an offset stands in order. -/
structure Sight.InOrder (offset : Nat) (sight : Sight ν φ) : Prop where
  start : offset ≤ sight.start
  nested : View.NestedBetween sight.start sight.stop sight.views

private theorem Summary.inOrder_place (summary : Summary ν φ τ) (offset : Nat) :
    (summary.place offset).InOrder offset := by
  refine ⟨Nat.le_add_right _ _, ?_⟩
  rw [Summary.place, View.NestedBetween]
  exact Nat.le_add_right _ _

namespace Tree

variable (plan : Blueprint ν φ)

/-- Whether a tree is shown or not, it stands where its parts do. -/
theorem inOrder_shownAs {label : Label ν φ} {outer : Option φ} {summary : Summary ν φ τ}
    {offset : Nat} {inside : Option φ → Sight ν φ} (ordered : ∀ field, (inside field).InOrder offset) :
    (shownAs plan label outer summary inside).InOrder offset := by
  rw [shownAs]
  cases title? plan summary label.shown with
  | none => exact ordered _
  | some title =>
    obtain ⟨above, nested⟩ := ordered none
    have whole : View.Nested (.node title (label.field.or outer) (inside none).start
        (inside none).stop summary.missing (node summary []).cost (inside none).views) :=
      View.nested_iff.mpr nested
    exact ⟨above, View.nestedBetween_singleton whole⟩

mutual

private theorem inOrder_sight (label : Label ν φ) (outer : Option φ) (offset : Nat)
    (tree : Tree ν φ τ) :
    (tree.sight plan label outer offset).InOrder offset := by
  match tree with
  | node summary [] =>
    rw [sight]
    exact inOrder_shownAs plan fun _ => summary.inOrder_place offset
  | node summary (part :: parts) =>
    rw [sight]
    exact inOrder_shownAs plan fun field => inOrder_sightOfAll _ field offset (part :: parts)

private theorem inOrder_sightOfAll (labels : List (Label ν φ)) (outer : Option φ) (offset : Nat)
    (parts : List (Tree ν φ τ)) : (sightOfAll plan labels outer offset parts).InOrder offset := by
  match parts with
  | [] =>
    rw [sightOfAll]
    refine ⟨Nat.le_refl _, ?_⟩
    unfold View.NestedBetween
    exact Nat.le_refl _
  | part :: parts =>
    rw [sightOfAll]
    generalize (if part.isExtra then _ else _ : Label ν φ × List (Label ν φ)) = following
    have first := inOrder_sight following.1 outer offset part
    have rest := inOrder_sightOfAll following.2 outer
      (part.sight plan following.1 outer offset).stop parts
    exact ⟨first.start, first.nested.append (rest.nested.mono rest.start)⟩

end

/-- The view of a tree is nested. -/
theorem nested_view (tree : Tree ν φ τ) : (tree.view plan).Nested := by
  rw [view, View.nested_iff]
  dsimp only [View.start, View.stop, View.parts]
  split
  · exact (tree.summary.inOrder_place 0).nested
  · exact (inOrder_sightOfAll plan _ _ _ _).nested

end Tree

end Phrasebook.Grammar
