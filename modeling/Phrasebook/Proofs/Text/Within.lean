import Phrasebook.Proofs.Text.Scan

/-!
# Scans of a part

A recogniser that takes nothing before and nothing behind a part of a text, and that sees at
every place of the part what it sees in the part alone, finds in the text what it finds in the
part. Only the offsets differ.
-/

namespace Phrasebook

/-- What was found in a part of a text that starts at an offset, by its place in the text. -/
def Found.within {α : Type} (offset : Nat) (found : Found α) : Found α :=
  ⟨offset + found.start, offset + found.stop, found.value⟩

namespace Text

variable {α : Type} {recognise : Text → Option (Nat × α)}

/-- A scan finds nothing where nothing is recognised. -/
theorem scanFrom_eq_nil {text : Text} (nothing : ∀ rest, rest <:+ text → recognise rest = none)
    (offset : Nat) (prev : Option Char) :
    scanFrom (fun _ => recognise) offset 0 prev text = [] := by
  have passed := @scanFrom_append _ (fun _ => recognise) text [] (fun head tail ends _ => by
    rw [List.append_nil]
    exact nothing _ ends) offset prev
  rw [List.append_nil] at passed
  rw [passed, scanFrom]

/-- A scan finds in a part what it finds in the part alone, if nothing behind it matters. -/
theorem scanFrom_within (bounded : Bounded fun _ => recognise) {behind : Text}
    (nothing : ∀ rest, rest <:+ behind → recognise rest = none) (offset start : Nat)
    (prev other : Option Char) {part : Text} {skip : Nat} (inside : skip ≤ part.length)
    (same : ∀ rest, rest <:+ part → recognise (rest ++ behind) = recognise rest) :
    scanFrom (fun _ => recognise) (offset + start) skip prev (part ++ behind) =
      (scanFrom (fun _ => recognise) start skip other part).map (Found.within offset) := by
  induction part generalizing start skip prev other with
  | nil =>
    obtain rfl : skip = 0 := by simpa using inside
    exact scanFrom_eq_nil nothing _ _
  | cons head tail ih =>
    have later {skip : Nat} (inside : skip ≤ tail.length) :=
      ih (start + 1) (some head) (some head) inside
        fun rest ends => same rest (ends.trans (List.suffix_cons _ _))
    rw [List.cons_append]
    cases skip with
    | succ skip => exact later (by simpa using inside)
    | zero =>
      have here := same (head :: tail) List.suffix_rfl
      rw [List.cons_append] at here
      rw [scanFrom, scanFrom, here]
      cases recognised : recognise (head :: tail) with
      | none => exact later (Nat.zero_le _)
      | some success =>
        obtain ⟨length, value⟩ := success
        have bound := (bounded none _ _ _ recognised).2
        rw [List.length_cons] at bound
        rw [List.map_cons, ← later (by omega)]
        simp only [Found.within, Nat.add_assoc]

/-- The scan of a text finds what the scan of a part finds, if nothing else matters. -/
theorem scan_within (bounded : Bounded fun _ => recognise) {front part behind : Text}
    (before : ∀ head tail, head :: tail <:+ front →
      recognise (head :: (tail ++ (part ++ behind))) = none)
    (nothing : ∀ rest, rest <:+ behind → recognise rest = none)
    (same : ∀ rest, rest <:+ part → recognise (rest ++ behind) = recognise rest) :
    scan (fun _ => recognise) (front ++ (part ++ behind)) =
      (scan (fun _ => recognise) part).map (Found.within front.length) := by
  rw [scan, scanFrom_append (fun head tail ends _ => before head tail ends), Nat.zero_add]
  exact scanFrom_within bounded nothing front.length 0 _ none (Nat.zero_le _) same

end Text

end Phrasebook
