import Mathlib.Data.List.Lex
import Phrasebook.Path

/-!
# The order of paths, and texts of paths

Paths stand in the order of their parts, which is linear. The names of a text are those
before a slash in it and then those behind the slash.
-/

namespace Phrasebook

open Text

/-! ## Order -/

namespace Text

/-- Texts stand in the lexicographic order of their scalar values. -/
theorem precedes_iff {left right : Text} :
    precedes left right = true ↔ left.map Char.toNat ≤ right.map Char.toNat := by
  induction left generalizing right with
  | nil => cases right <;> simp [precedes, le_iff_lt_or_eq]
  | cons head left ih =>
    cases right with
    | nil => simp [precedes, le_iff_lt_or_eq]
    | cons last right =>
      simp [precedes, ih, ← Char.toNat_inj, le_iff_lt_or_eq, List.cons_lt_cons_iff, and_or_left,
        or_assoc]

end Text

namespace Path

/-- Parts stand in the lexicographic order of their texts. -/
theorem precedesParts_iff {left right : List Text} :
    precedes.go left right = true ↔
      left.map (List.map Char.toNat) ≤ right.map (List.map Char.toNat) := by
  induction left generalizing right with
  | nil => cases right <;> simp [precedes.go, le_iff_lt_or_eq]
  | cons head left ih =>
    cases right with
    | nil => simp [precedes.go, le_iff_lt_or_eq]
    | cons last right =>
      have alike : head.map Char.toNat = last.map Char.toNat ↔ head = last :=
        List.map_inj_right fun _ _ => Char.toNat_inj.1
      rw [precedes.go, List.map_cons, List.map_cons, le_iff_lt_or_eq, List.cons_lt_cons_iff]
      by_cases same : head = last
      · simp [same, ih, le_iff_lt_or_eq]
      · simp [same, alike, Text.precedes_iff, le_iff_lt_or_eq]

theorem precedes_trans (left middle right : Path) (first : left.precedes middle = true)
    (second : middle.precedes right = true) : left.precedes right = true :=
  precedesParts_iff.2 (le_trans (precedesParts_iff.1 first) (precedesParts_iff.1 second))

theorem precedes_total (left right : Path) : (left.precedes right || right.precedes left) = true := by
  rw [Bool.or_eq_true, precedes, precedes, precedesParts_iff, precedesParts_iff]
  exact le_total _ _

/-- Paths that precede each other have the same parts. -/
theorem parts_eq_of_precedes {left right : Path} (before : left.precedes right = true)
    (behind : right.precedes left = true) : left.parts = right.parts :=
  (List.map_inj_right fun _ _ => (List.map_inj_right fun _ _ => Char.toNat_inj.1).1).1
    (le_antisymm (precedesParts_iff.1 before) (precedesParts_iff.1 behind))

end Path

/-! ## Texts -/

/-- The pieces of a text are those before a separator and those behind it. -/
theorem Text.splitOn_append (separator : Char) (front back : Text) :
    splitOn separator (front ++ separator :: back) =
      splitOn separator front ++ splitOn separator back := by
  have nonempty (text : Text) : splitOn separator text ≠ [] := by
    cases text with
    | nil => simp [splitOn]
    | cons head tail =>
      rw [splitOn]
      split
      · simp
      · split <;> simp
  induction front with
  | nil =>
    rw [List.nil_append, splitOn]
    cases pieces : splitOn separator back with
    | nil => exact absurd pieces (nonempty back)
    | cons piece later => simp [splitOn, pieces]
  | cons head front ih =>
    rw [List.cons_append, splitOn, ih, splitOn]
    cases pieces : splitOn separator front with
    | nil => exact absurd pieces (nonempty front)
    | cons piece later =>
      dsimp only [List.cons_append]
      split <;> rfl

namespace Path

/-- A text that goes on behind a slash names what lies below. -/
theorem names_ofText_append (front back : Text) :
    (ofText (front ++ '/' :: back)).names = (ofText front).names ++ (ofText back).names := by
  simp only [ofText, splitOn_append, List.filter_append]

/-- A path is absolute when its text starts with a slash. -/
theorem isAbsolute_ofText (text : Text) : (ofText text).isAbsolute = (text.head? == some '/') := by
  cases text with
  | nil => rfl
  | cons head tail =>
    by_cases slash : head = '/'
    · subst slash
      simp only [isAbsolute, ofText, rootOf, List.takeWhile_cons, beq_self_eq_true, if_true,
        List.length_cons, List.head?_cons]
      split
      · simp_all
      · split <;> rfl
    · simp [isAbsolute, ofText, rootOf, slash]

end Path

end Phrasebook
