import Phrasebook.Text.Blank
import Phrasebook.Text.Digit

/-!
# Blanks around a text

Trimming takes blanks away and nothing else; in particular it takes no ideograph.
-/

namespace Phrasebook.Text

open List

variable {char : Char} {text lead : Text}

theorem hasIdeograph_append (left right : Text) :
    hasIdeograph (left ++ right) = (hasIdeograph left || hasIdeograph right) :=
  any_append

theorem hasIdeograph_cons (head : Char) (tail : Text) :
    hasIdeograph (head :: tail) = (isIdeograph head || hasIdeograph tail) :=
  any_cons

/-- A written number holds no ideograph. -/
theorem hasIdeograph_ofNat (number : Nat) : hasIdeograph (ofNat number) = false := by
  rw [hasIdeograph, any_eq_false]
  intro char member
  have isDigit := Nat.isDigit_of_mem_toDigits (by decide) (by decide) member
  have range : 48 ≤ char.toNat ∧ char.toNat ≤ 57 := by
    simpa [Char.isDigit, UInt32.le_iff_toNat_le] using isDigit
  simp only [isIdeograph, isIdeographCode, Bool.and_eq_true, decide_eq_true_eq]
  omega

/-- No blank is an ideograph. -/
theorem isIdeograph_of_isBlank (blank : isBlank char = true) : isIdeograph char = false := by
  simp only [isBlank, Bool.or_eq_true, Bool.and_eq_true, decide_eq_true_eq, beq_iff_eq] at blank
  simp only [isIdeograph, isIdeographCode, Bool.and_eq_false_iff, decide_eq_false_iff_not]
  omega

/-- No digit is a blank: the blanks lie between the rows of digits. -/
theorem isDigit_of_isBlank (blank : isBlank char = true) : isDigit char = false := by
  have between : ∀ first ∈ zeros, 32 < first ∧ first + 10 ≤ 0x85 ∨ 0xA0 < first ∧ first + 10 ≤ 0x1680 ∨
      0x1680 < first ∧ first + 10 ≤ 0x2000 ∨ 0x205F < first ∧ first + 10 ≤ 0x3000 ∨
      0x3000 < first := by decide
  rw [isDigit, digitValue?, Option.isSome_map, ← Bool.not_eq_true, find?_isSome]
  rintro ⟨first, member, row⟩
  have gap := between first member
  simp only [isBlank, Bool.or_eq_true, Bool.and_eq_true, decide_eq_true_eq, beq_iff_eq] at blank row
  omega

private theorem hasIdeograph_dropWhile (text : Text) :
    hasIdeograph (text.dropWhile isBlank) = hasIdeograph text := by
  induction text with
  | nil => rfl
  | cons head tail ih =>
    cases blank : isBlank head with
    | true =>
      rw [dropWhile_cons_of_pos blank, ih]
      simp [hasIdeograph, isIdeograph_of_isBlank blank]
    | false => rw [dropWhile_cons_of_neg (by simp [blank])]

/-- Trimming takes no ideograph away. -/
@[simp] theorem hasIdeograph_trim (text : Text) : hasIdeograph (trim text) = hasIdeograph text := by
  have reversed (text : Text) : hasIdeograph text.reverse = hasIdeograph text := any_reverse
  rw [trim, trimEnd, trimStart, reversed, hasIdeograph_dropWhile, reversed, hasIdeograph_dropWhile]

/-! ## Blanks at the ends -/

/-- Whether a text consists of blanks. -/
def AllBlank (text : Text) : Prop :=
  ∀ char ∈ text, isBlank char = true

instance (text : Text) : Decidable (AllBlank text) :=
  decidable_of_iff (text.all isBlank = true) all_eq_true

/-- Whether a text has no blank at either end. -/
def Trimmed (text : Text) : Prop :=
  (∀ char ∈ text.head?, isBlank char = false) ∧ ∀ char ∈ text.getLast?, isBlank char = false

instance (text : Text) : Decidable (Trimmed text) :=
  decidable_of_iff ((text.head?.all (!isBlank ·) && text.getLast?.all (!isBlank ·)) = true)
    (by rw [Trimmed]; cases text.head? <;> cases text.getLast? <;> simp)

private theorem dropWhile_of_head (starts : ∀ char ∈ text.head?, isBlank char = false) :
    text.dropWhile isBlank = text := by
  cases text with
  | nil => rfl
  | cons head tail => rw [dropWhile_cons_of_neg (by simp [starts head (by simp)])]

private theorem dropWhile_append (blank : AllBlank lead)
    (starts : ∀ char ∈ text.head?, isBlank char = false) :
    (lead ++ text).dropWhile isBlank = text := by
  rw [dropWhile_append_of_pos blank, dropWhile_of_head starts]

private theorem takeWhile_append (blank : AllBlank lead)
    (starts : ∀ char ∈ text.head?, isBlank char = false) :
    (lead ++ text).takeWhile isBlank = lead := by
  rw [takeWhile_append_of_pos blank]
  cases text with
  | nil => simp
  | cons head tail => simp [starts head (by simp)]

/-- Blanks around a trimmed text are what is cut. -/
theorem cutBlanks_append {lead core trail : Text} (leadBlank : AllBlank lead)
    (trailBlank : AllBlank trail) (nonempty : core ≠ []) (trimmed : Trimmed core) :
    cutBlanks (lead ++ core ++ trail) = (lead, core, trail) := by
  have starts : ∀ char ∈ (core ++ trail).head?, isBlank char = false := by
    obtain ⟨head, tail, rfl⟩ := exists_cons_of_ne_nil nonempty
    exact trimmed.1
  have ends : ∀ char ∈ core.reverse.head?, isBlank char = false := by
    rw [head?_reverse]
    exact trimmed.2
  have cut : trim (lead ++ core ++ trail) = core := by
    rw [trim, trimStart, trimEnd, append_assoc, dropWhile_append leadBlank starts,
      reverse_append, dropWhile_append (by simpa [AllBlank] using trailBlank) ends,
      reverse_reverse]
  rw [cutBlanks, cut, append_assoc, takeWhile_append leadBlank starts, ← append_assoc]
  simp only [← length_append, drop_left]

/-- A text is cut into blanks, the trimmed text and blanks. -/
theorem exists_cutBlanks (text : Text) : ∃ lead trail,
    cutBlanks text = (lead, trim text, trail) ∧ text = lead ++ trim text ++ trail ∧
      AllBlank lead ∧ AllBlank trail := by
  have whole := @List.takeWhile_append_dropWhile _ isBlank text
  have inner := @List.takeWhile_append_dropWhile _ isBlank (text.dropWhile isBlank).reverse
  have core : text = text.takeWhile isBlank ++ trim text ++
      ((text.dropWhile isBlank).reverse.takeWhile isBlank).reverse := by
    rw [trim, trimEnd, trimStart, append_assoc, ← reverse_append, inner, reverse_reverse, whole]
  have behind : text.drop ((text.takeWhile isBlank).length + (trim text).length) =
      ((text.dropWhile isBlank).reverse.takeWhile isBlank).reverse := by
    rw [← length_append]
    conv => lhs; arg 2; rw [core]
    rw [drop_left]
  refine ⟨text.takeWhile isBlank, _, by rw [cutBlanks, behind], core, ?_, ?_⟩
  · exact all_eq_true.1 all_takeWhile
  · intro char member
    exact all_eq_true.1 all_takeWhile char (mem_reverse.1 member)

/-- What trimming leaves has no blank at either end. -/
theorem trimmed_trim (text : Text) : Trimmed (trim text) := by
  have bare (list : Text) : ∀ char ∈ (list.dropWhile isBlank).head?, isBlank char = false := by
    intro char first
    have visible := head?_dropWhile_not isBlank list
    rwa [Option.mem_def.1 first] at visible
  constructor
  · intro char first
    -- Blanks are cut off at the end, so the first character stays if there is one.
    have starts : trim text <+: trimStart text := by
      rw [trim, trimEnd, ← reverse_suffix, reverse_reverse]
      exact dropWhile_suffix _
    obtain ⟨rest, whole⟩ := starts
    refine bare text char ?_
    rw [← trimStart, ← whole, head?_append, Option.mem_def.1 first]
    rfl
  · intro char last
    rw [trim, trimEnd, getLast?_reverse] at last
    exact bare _ char last

/-- A text without blanks at its ends is left as it is. -/
theorem Trimmed.trim_eq (trimmed : Trimmed text) : trim text = text := by
  cases text with
  | nil => rfl
  | cons head tail =>
    have cut := @cutBlanks_append [] (head :: tail) [] (by simp [AllBlank]) (by simp [AllBlank])
      (by simp) trimmed
    simp only [nil_append, append_nil, cutBlanks, Prod.mk.injEq] at cut
    exact cut.2.1

end Phrasebook.Text
