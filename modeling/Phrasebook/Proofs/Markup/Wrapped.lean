import Phrasebook.Markup.Wrapped
import Phrasebook.Proofs.Text.Blank
import Phrasebook.Proofs.Text.Scan

/-!
# Wrapped literals

A literal is wrapped when a lookup call opens right before it. The test reads the window before
the literal from the left, at every place where a name may start; what it answers is said here
about the buffer alone.
-/

namespace Phrasebook.Markup

open List Text

variable {text : Text} {functions : Functions}

private theorem endsInCall_iff {names : List Text} {prev : Option Char} :
    endsInCall names prev text = true ↔ ∃ front opening, text = front ++ opening ∧
      startsName (front.getLast?.or prev) = true ∧ opensCall names opening = true := by
  induction text generalizing prev with
  | nil => simp [endsInCall, and_assoc]
  | cons head tail ih =>
    rw [endsInCall, Bool.or_eq_true, Bool.and_eq_true, ih]
    constructor
    · rintro (⟨starts, opens⟩ | ⟨front, opening, rfl, starts, opens⟩)
      · exact ⟨[], _, rfl, starts, opens⟩
      · exact ⟨head :: front, opening, rfl, by rwa [getLast?_cons_or], opens⟩
    · rintro ⟨front, opening, whole, starts, opens⟩
      cases front with
      | nil => exact .inl ⟨starts, by rwa [whole]⟩
      | cons first front =>
        obtain ⟨rfl, rfl⟩ := List.cons.inj whole
        exact .inr ⟨front, opening, rfl, by rwa [getLast?_cons_or] at starts, opens⟩

/-- A literal is wrapped when a call opens right before it, near enough and with a name of
its own. -/
theorem isWrapped_iff {functions : Functions} {text rest : Text} :
    isWrapped functions (text ++ rest) text.length = true ↔ ∃ front opening,
      text = front ++ opening ∧ opening.length ≤ window ∧
      startsName front.getLast? = true ∧ opensCall (callNames functions) opening = true := by
  have stop : min (text.length : Int).toNat (text ++ rest).length = text.length := by simp
  have start : min ((text.length : Int) - window).toNat (text ++ rest).length =
      text.length - window := by
    rw [length_append]
    omega
  have prev : (if (text.length - window == 0) = true then none
      else (text ++ rest)[text.length - window - 1]?) =
        (text.take (text.length - window)).getLast? := by
    split
    · simp_all
    · rename_i far
      have far : text.length - window ≠ 0 := by simpa using far
      rw [getLast?_eq_getElem?, length_take, Nat.min_eq_left (Nat.sub_le _ _),
        getElem?_take_of_lt (by omega), getElem?_append_left (by omega)]
  simp only [isWrapped, stop, start]
  rw [prev, slice, take_left, endsInCall_iff]
  have whole := take_append_drop (text.length - window) text
  have size : (text.drop (text.length - window)).length ≤ window := by
    rw [length_drop]
    omega
  have far : (text.take (text.length - window)) = [] ∨
      (text.drop (text.length - window)).length = window := by
    rw [length_drop, ← length_eq_zero_iff, length_take]
    omega
  generalize text.take (text.length - window) = distant at *
  generalize text.drop (text.length - window) = near at *
  subst whole
  constructor
  · rintro ⟨front, opening, rfl, starts, opens⟩
    refine ⟨distant ++ front, opening, (append_assoc _ _ _).symm, ?_, ?_, opens⟩
    · rw [length_append] at size
      omega
    · rwa [getLast?_append]
  · rintro ⟨front, opening, split, inside, starts, opens⟩
    rcases append_eq_append_iff.1 split with ⟨middle, rfl, rfl⟩ | ⟨middle, rfl, rfl⟩
    · exact ⟨middle, opening, rfl, by rwa [← getLast?_append], opens⟩
    · obtain rfl : middle = [] := by
        rw [length_append] at inside
        rcases far with nothing | full
        · exact (append_eq_nil_iff.1 nothing).2
        · exact length_eq_zero_iff.1 (by omega)
      exact ⟨[], near, rfl, by simpa using starts, opens⟩

private theorem isWrapped_length_iff :
    isWrapped functions text text.length = true ↔ ∃ front opening,
      text = front ++ opening ∧ opening.length ≤ window ∧
      startsName front.getLast? = true ∧ opensCall (callNames functions) opening = true := by
  simpa using @isWrapped_iff functions text []

/-- A text opens a call when it is a name, blanks, a parenthesis and blanks. -/
theorem opensCall_iff {names : List Text} :
    opensCall names text = true ↔ ∃ name ∈ names, ∃ gap inside,
      text = name ++ (gap ++ '(' :: inside) ∧ Text.AllBlank gap ∧ Text.AllBlank inside := by
  constructor
  · intro opens
    obtain ⟨name, known, opensWith⟩ := any_eq_true.1 opens
    split at opensWith
    · cases opensWith
    · rename_i rest stripped
      obtain rfl := strip?_eq_some_iff.1 stripped
      split at opensWith
      · rename_i inside trimmed
        refine ⟨name, known, rest.takeWhile isBlank, inside, ?_, ?_, all_eq_true.1 opensWith⟩
        · rw [← trimmed, trimStart, takeWhile_append_dropWhile]
        · exact all_eq_true.1 all_takeWhile
      · cases opensWith
  · rintro ⟨name, known, gap, inside, rfl, gapBlank, insideBlank⟩
    refine any_eq_true.2 ⟨name, known, ?_⟩
    rw [strip?_append]
    dsimp only
    rw [trimStart, dropWhile_append_of_pos gapBlank]
    exact all_eq_true.2 insideBlank

/-- Names are made of the names of the functions. -/
theorem mem_of_mem_callNames {name : Text} (known : name ∈ callNames functions) {char : Char}
    (member : char ∈ name) : char ∈ functions.markup ∨ char ∈ functions.script := by
  simp only [callNames] at known
  split at known
  · rw [mem_singleton.1 known] at member
    cases member
  · have either := (mem_filter.1 known).1
    simp only [mem_cons, not_mem_nil, or_false] at either
    rcases either with rfl | rfl
    · exact .inl member
    · exact .inr member

/-- Whether a literal is wrapped is decided behind the last quote before it. -/
theorem isWrapped_of_append {functions : Functions} {quote : Char}
    (unnamed : quote ∉ functions.markup ∧ quote ∉ functions.script)
    (other : quote ≠ '(' ∧ isBlank quote = false) {done gap rest : Text}
    (ends : done = [] ∨ ∃ front, done = front ++ [quote])
    (wrapped : isWrapped functions (done ++ gap ++ rest) (done ++ gap).length = true) :
    isWrapped functions gap gap.length = true := by
  obtain ⟨front, opening, split, near, starts, opens⟩ := isWrapped_iff.1 wrapped
  have unquoted : quote ∉ opening := by
    obtain ⟨name, known, blanks, inside, rfl, blank, insideBlank⟩ := opensCall_iff.1 opens
    simp only [mem_append, mem_cons, not_or]
    refine ⟨fun member => ?_, fun member => ?_, other.1, fun member => ?_⟩
    · exact (mem_of_mem_callNames known member).elim unnamed.1 unnamed.2
    · rw [blank quote member] at other
      cases other.2
    · rw [insideBlank quote member] at other
      cases other.2
  rw [isWrapped_length_iff]
  rcases append_eq_append_iff.1 split with ⟨middle, rfl, rfl⟩ | ⟨middle, rfl, rfl⟩
  · refine ⟨middle, opening, rfl, near, ?_, opens⟩
    cases last : middle.getLast? with
    | none => rfl
    | some char => rwa [getLast?_append, last] at starts
  · have nothing : middle = [] := by
      rcases eq_nil_or_concat middle with none | ⟨before, last, rfl⟩
      · exact none
      · rcases ends with empty | ⟨text, whole⟩
        · simp at empty
        · rw [concat_eq_append, ← append_assoc] at whole
          have same : last = quote := by simpa using (append_inj' whole rfl).2
          exact absurd (by simp [same]) unquoted
    subst nothing
    exact ⟨[], gap, rfl, near, rfl, opens⟩

/-- What wraps a literal wraps it behind anything that no name goes on from. -/
theorem isWrapped_append {done gap : Text} (rest : Text) (ends : startsName done.getLast? = true)
    (wrapped : isWrapped functions gap gap.length = true) :
    isWrapped functions (done ++ gap ++ rest) (done ++ gap).length = true := by
  obtain ⟨front, opening, rfl, near, starts, opens⟩ := isWrapped_length_iff.1 wrapped
  refine isWrapped_iff.2 ⟨done ++ front, opening, (append_assoc _ _ _).symm, near, ?_, opens⟩
  rw [getLast?_append]
  cases last : front.getLast? with
  | none => exact ends
  | some char => rwa [last] at starts

private theorem callNames_of_named (named : functions.markup ≠ [] ∧ functions.script ≠ []) :
    callNames functions = [functions.markup, functions.script] := by
  simp [callNames, named]

/-! ## Calls around a position -/

/-- A call opens at `start` and its argument at `pos`: between them stand its name and a
parenthesis, with blanks around the latter, and the name is not the end of a longer one. -/
structure OpensAt (buffer name : Text) (start pos : Nat) : Prop where
  spelled : ∃ gap inside, buffer.slice start pos = name ++ (gap ++ '(' :: inside) ∧
    Text.AllBlank gap ∧ Text.AllBlank inside
  alone : start = 0 ∨ ∃ char, buffer[start - 1]? = some char ∧ isNamePart char = false

private theorem OpensAt.start_lt {buffer name : Text} {start pos : Nat}
    (opens : OpensAt buffer name start pos) : start < pos := by
  obtain ⟨gap, inside, spelled, -⟩ := opens.spelled
  have size := congrArg List.length spelled
  simp only [slice, length_drop, length_take, length_append, length_cons] at size
  omega

private theorem startsName_getLast?_iff {front : Text} (rest : Text) :
    startsName front.getLast? = true ↔ front.length = 0 ∨
      ∃ char, (front ++ rest)[front.length - 1]? = some char ∧ isNamePart char = false := by
  rcases eq_nil_or_concat front with rfl | ⟨before, last, rfl⟩
  · simp [startsName]
  · simp [startsName]

/-- A position is wrapped exactly when one of the two calls opens before it, not before the
window. The character before the call is looked at even when it stands before the window. -/
theorem isWrapped_iff_opensAt {functions : Functions}
    (named : functions.markup ≠ [] ∧ functions.script ≠ []) {buffer : Text} {pos : Nat}
    (inside : pos ≤ buffer.length) :
    isWrapped functions buffer pos = true ↔
      ∃ name ∈ [functions.markup, functions.script], ∃ start, pos - 64 ≤ start ∧
        OpensAt buffer name start pos := by
  obtain ⟨text, rest, rfl, rfl⟩ : ∃ text rest, buffer = text ++ rest ∧ pos = text.length :=
    ⟨_, _, (take_append_drop pos buffer).symm, by rw [length_take]; omega⟩
  rw [isWrapped_iff, callNames_of_named named]
  constructor
  · rintro ⟨front, opening, rfl, near, starts, opens⟩
    obtain ⟨name, known, gap, blanks, rfl, gapBlank, blank⟩ := opensCall_iff.1 opens
    refine ⟨name, known, front.length, ?_, ⟨gap, blanks, ?_, gapBlank, blank⟩, ?_⟩
    · rw [length_append]
      simp only [window] at near
      omega
    · rw [slice, take_left, drop_left]
    · rw [append_assoc]
      exact (startsName_getLast?_iff _).1 starts
  · rintro ⟨name, known, start, near, opens⟩
    have before := opens.start_lt
    obtain ⟨gap, blanks, spelled, gapBlank, blank⟩ := opens.spelled
    obtain ⟨front, opening, rfl, rfl⟩ : ∃ front opening,
        text = front ++ opening ∧ start = front.length :=
      ⟨_, _, (take_append_drop start text).symm, by rw [length_take]; omega⟩
    rw [slice, take_left, drop_left] at spelled
    refine ⟨front, opening, rfl, ?_, ?_, ?_⟩
    · rw [length_append] at near
      simp only [window]
      omega
    · have alone := opens.alone
      rw [append_assoc] at alone
      exact (startsName_getLast?_iff _).2 alone
    · exact opensCall_iff.2 ⟨name, known, gap, blanks, spelled, gapBlank, blank⟩

/-- Behind another sign the longer name opens a call over a line break; behind a letter neither
name does, although the shorter one ends the longer. -/
theorem isWrapped_iff_opensAt_suffixName :
    let functions : Functions := { markup := ['$', 't'], script := ['t'] }
    (functions.markup ≠ [] ∧ functions.script ≠ []) ∧
      (∃ name ∈ [functions.markup, functions.script], ∃ start, 6 - 64 ≤ start ∧
        OpensAt ['.', '$', 't', ' ', '(', '\n', '\''] name start 6) ∧
      ¬ ∃ name ∈ [functions.markup, functions.script], ∃ start, 6 - 64 ≤ start ∧
        OpensAt ['x', '$', 't', ' ', '(', '\n', '\''] name start 6 := by
  intro functions
  have named : functions.markup ≠ [] ∧ functions.script ≠ [] := by decide
  refine ⟨named, (isWrapped_iff_opensAt named (by decide)).1 (by decide +kernel), ?_⟩
  refine (not_congr (isWrapped_iff_opensAt named (by decide))).1 ?_
  decide +kernel

end Phrasebook.Markup
