import Phrasebook.Text.CodePoint

/-!
# Code points that are texts

Code points can be written exactly when they are the code points of a text.
-/

namespace Phrasebook.CodePoint

open List

variable {points : CodePoints} {text : Text}

/-- Whether code points are a text: none of them is a surrogate. -/
def IsText (points : CodePoints) : Prop :=
  (toText? points).isSome = true

instance (points : CodePoints) : Decidable (IsText points) :=
  inferInstanceAs (Decidable (_ = true))

/-- The code points of a text make up that text. -/
@[simp] theorem toText?_ofText (text : Text) : toText? (ofText text) = some text := by
  induction text with
  | nil => rfl
  | cons char text ih =>
    simpa [ofText, toText?] using ih

/-- Code points that make up a text are the code points of that text. -/
theorem eq_ofText_of_toText? (made : toText? points = some text) : points = ofText text := by
  induction points generalizing text with
  | nil =>
    cases made
    rfl
  | cons point points ih =>
    cases point with
    | surrogate code range => cases made
    | scalar char =>
      simp only [toText?, Option.map_eq_some_iff] at made
      obtain ⟨tail, made, rfl⟩ := made
      rw [ih made]
      rfl

/-- Code points are a text exactly when they are the code points of one. -/
theorem isText_iff : IsText points ↔ ∃ text, points = ofText text := by
  constructor
  · intro isText
    obtain ⟨text, made⟩ := Option.isSome_iff_exists.mp isText
    exact ⟨text, eq_ofText_of_toText? made⟩
  · rintro ⟨text, rfl⟩
    simp [IsText]

/-- The code points of a text are a text. -/
@[simp] theorem isText_ofText (text : Text) : IsText (ofText text) :=
  isText_iff.mpr ⟨text, rfl⟩

@[simp] theorem ofText_nil : ofText [] = [] := rfl

@[simp] theorem ofText_cons (char : Char) (text : Text) :
    ofText (char :: text) = scalar char :: ofText text := rfl

@[simp] theorem ofText_append (left right : Text) :
    ofText (left ++ right) = ofText left ++ ofText right :=
  map_append

/-- Different texts have different code points. -/
theorem ofText_injective {left right : Text} (same : ofText left = ofText right) : left = right := by
  have made := toText?_ofText left
  rw [same, toText?_ofText] at made
  exact (Option.some.inj made).symm

@[simp] theorem isText_nil : IsText [] := rfl

@[simp] theorem isText_scalar_cons (char : Char) (points : CodePoints) :
    IsText (scalar char :: points) ↔ IsText points := by
  simp [IsText, toText?]

@[simp] theorem not_isText_surrogate_cons (code : Nat) (range : IsSurrogate code)
    (points : CodePoints) : ¬ IsText (surrogate code range :: points) := by
  simp [IsText, toText?]

/-- Two lists of code points are a text together exactly when each is one. -/
@[simp] theorem isText_append (left right : CodePoints) :
    IsText (left ++ right) ↔ IsText left ∧ IsText right := by
  induction left with
  | nil => simp
  | cons point left ih =>
    cases point with
    | scalar char => simpa using ih
    | surrogate code range => simp

/-- A run of surrogates is found exactly when code points are no text. -/
theorem find?_eq_none_iff (offset : Nat) (points : CodePoints) :
    SurrogateRun.find? offset points = none ↔ IsText points := by
  induction points generalizing offset with
  | nil => simp [SurrogateRun.find?]
  | cons point points ih =>
    cases point with
    | scalar char => simpa [SurrogateRun.find?] using ih (offset + 1)
    | surrogate code range => simp [SurrogateRun.find?]

/-- The code points of a text are written as that text. -/
@[simp] theorem written_ofText (text : Text) : written (ofText text) = .ok text := by
  have none := (find?_eq_none_iff 0 (ofText text)).mpr (isText_ofText text)
  simp [written, none]

/-- Code points that are no text cannot be written. -/
theorem written_of_not_isText (noText : ¬ IsText points) : ∃ run, written points = .error run := by
  cases found : SurrogateRun.find? 0 points with
  | none => exact absurd ((find?_eq_none_iff 0 points).mp found) noText
  | some run => exact ⟨run, by simp [written, found]⟩

/-- What is written is a text with the same code points. -/
theorem eq_ofText_of_written (wrote : written points = .ok text) : points = ofText text := by
  by_cases isText : IsText points
  · obtain ⟨other, rfl⟩ := isText_iff.mp isText
    rw [written_ofText] at wrote
    rw [Except.ok.inj wrote]
  · obtain ⟨run, refused⟩ := written_of_not_isText isText
    rw [refused] at wrote
    cases wrote

/-- A text keeps its ideographs as code points. -/
theorem hasIdeograph_ofText (text : Text) : hasIdeograph (ofText text) = Text.hasIdeograph text :=
  any_map

/-! ## Trimming -/

private theorem isText_iff_forall :
    IsText points ↔ ∀ point ∈ points, ∃ char, point = scalar char := by
  induction points with
  | nil => simp
  | cons point points ih => cases point <;> simp [ih]

private theorem isText_reverse : IsText points.reverse ↔ IsText points := by
  simp [isText_iff_forall]

private theorem isText_dropWhile : IsText (points.dropWhile isBlank) ↔ IsText points := by
  induction points with
  | nil => rfl
  | cons point points ih =>
    cases blank : isBlank point with
    | false => rw [dropWhile_cons_of_neg (by simp [blank])]
    | true =>
      cases point with
      | surrogate code range => cases blank
      | scalar char =>
        rw [dropWhile_cons_of_pos blank, ih, isText_scalar_cons]

/-- Blanks are no surrogates, so trimming makes nothing a text that was none. -/
theorem isText_trim : IsText (trim points) ↔ IsText points := by
  rw [trim, isText_reverse, isText_dropWhile, isText_reverse, isText_dropWhile]

private theorem dropWhile_ofText (text : Text) :
    (ofText text).dropWhile isBlank = ofText (text.dropWhile Text.isBlank) :=
  dropWhile_map

private theorem trim_ofText (text : Text) : trim (ofText text) = ofText (Text.trim text) := by
  rw [trim, dropWhile_ofText, ofText, ← map_reverse, ← ofText, dropWhile_ofText, ofText,
    ← map_reverse]
  rfl

/-- Trimmed code points are written exactly when all of them are, and then as the trimmed
text. -/
theorem written_trim_eq_ok_iff :
    written (trim points) = .ok text ↔ ∃ whole, points = ofText whole ∧ text = Text.trim whole := by
  constructor
  · intro wrote
    have trimmed := eq_ofText_of_written wrote
    obtain ⟨whole, rfl⟩ := isText_iff.1 (isText_trim.1 (isText_iff.2 ⟨text, trimmed⟩))
    rw [trim_ofText] at trimmed
    exact ⟨whole, rfl, (ofText_injective trimmed).symm⟩
  · rintro ⟨whole, rfl, rfl⟩
    rw [trim_ofText, written_ofText]

/-- A text occurs in another exactly when its code points do. -/
theorem ofText_infix_iff {needle : Text} : ofText needle <:+: ofText text ↔ needle <:+: text := by
  constructor
  · rintro ⟨before, behind, whole⟩
    obtain ⟨front, back, rfl, frontEq, -⟩ := map_eq_append_iff.1 whole.symm
    obtain ⟨lead, middle, rfl, -, middleEq⟩ := map_eq_append_iff.1 frontEq
    rw [← ofText_injective middleEq]
    exact ⟨lead, back, rfl⟩
  · exact fun occurs => occurs.map scalar

end Phrasebook.CodePoint
