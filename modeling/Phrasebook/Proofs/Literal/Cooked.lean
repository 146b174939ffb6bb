import Phrasebook.Literal.Cooked
import Phrasebook.Proofs.Text.CodePoint

/-!
# Cooking a body in parts

A body is cooked from left to right, escape by escape. Where a part of it does not end in
the middle of an escape, and no escape looks beyond its end, the part is cooked by itself.
A text without backslashes is its own value.
-/

namespace Phrasebook.Literal

open List Text

variable {text digits behind : Text} {points : CodePoints} {rest front body : Text} {head : Char}

/-! ## One escape -/

/-- Hexadecimal digits are as many as asked for. -/
theorem hexDigits?_eq_some_iff {count : Nat} :
    hexDigits? count text = some digits ↔ ∃ later, text = digits ++ later ∧ digits.length = count ∧
      ∀ digit ∈ digits, isHex digit = true := by
  simp only [hexDigits?, Option.ite_none_right_eq_some, Bool.and_eq_true, beq_iff_eq,
    all_eq_true, Option.some.injEq]
  constructor
  · rintro ⟨⟨size, hex⟩, rfl⟩
    exact ⟨text.drop count, (take_append_drop _ _).symm, size, hex⟩
  · rintro ⟨later, rfl, rfl, hex⟩
    rw [take_left]
    exact ⟨⟨rfl, hex⟩, rfl⟩

/-- Digits in braces are one or more. -/
theorem bracedDigits?_eq_some_iff :
    bracedDigits? text = some digits ↔ ∃ later, text = '{' :: (digits ++ '}' :: later) ∧
      digits ≠ [] ∧ ∀ digit ∈ digits, isHex digit = true := by
  constructor
  · intro read
    unfold bracedDigits? at read
    split at read
    · rename_i rest
      obtain ⟨behind, whole⟩ := @List.takeWhile_prefix _ rest isHex
      have hex := all_eq_true.1 (@List.all_takeWhile _ isHex rest)
      dsimp only at read
      generalize rest.takeWhile isHex = found at read whole hex
      subst whole
      rw [drop_left] at read
      split at read
      · simp only [Option.ite_none_left_eq_some, Option.some.injEq] at read
        obtain ⟨nonempty, rfl⟩ := read
        exact ⟨_, rfl, by simpa using nonempty, hex⟩
      · cases read
    · cases read
  · rintro ⟨later, rfl, nonempty, hex⟩
    have taken : (digits ++ '}' :: later).takeWhile isHex = digits := by
      rw [takeWhile_append_of_pos hex, takeWhile_cons_of_neg (by decide), append_nil]
    simp [bracedDigits?, taken, nonempty]

theorem escape?_unicode (rest : Text) :
    escape? ('u' :: rest) =
      match bracedDigits? rest with
      | some digits => some (digits.length + 3, .numbered (hexNumberOf digits))
      | none =>
        match hexDigits? 4 rest with
        | some digits => some (5, .numbered (hexNumberOf digits))
        | none => some (1, .plain ['u']) :=
  rfl

theorem escape?_hex (rest : Text) :
    escape? ('x' :: rest) =
      match hexDigits? 2 rest with
      | some digits => some (3, .numbered (hexNumberOf digits))
      | none => some (1, .plain ['x']) :=
  rfl

/-- Most escapes are of a single character. -/
theorem escape?_simple {first : Char} {rest : Text} (unicode : first ≠ 'u') (hex : first ≠ 'x')
    (lineEnd : first = '\r' → rest.head? ≠ some '\n') :
    escape? (first :: rest) = some (1, .plain (simple first)) := by
  unfold escape?
  split <;> simp_all

private theorem not_mem_of_isHex (hex : ∀ digit ∈ digits, isHex digit = true) :
    '\\' ∉ digits :=
  fun member => absurd (hex _ member) (by decide)

/-- An escape takes a character and maybe more behind it, none of which is a backslash. -/
theorem exists_of_escape? {length : Nat} {escape : Escape}
    (known : escape? rest = some (length, escape)) :
    ∃ first taken later, rest = first :: (taken ++ later) ∧ length = taken.length + 1 ∧
      '\\' ∉ taken := by
  cases rest with
  | nil => cases known
  | cons first rest =>
    by_cases unicode : first = 'u'
    · subst unicode
      rw [escape?_unicode] at known
      split at known
      · rename_i digits braced
        obtain ⟨later, rfl, -, hex⟩ := bracedDigits?_eq_some_iff.1 braced
        cases known
        exact ⟨'u', '{' :: digits ++ ['}'], later, by simp, by simp, by simp [not_mem_of_isHex hex]⟩
      · split at known
        · rename_i digits four
          obtain ⟨later, rfl, size, hex⟩ := hexDigits?_eq_some_iff.1 four
          cases known
          exact ⟨'u', digits, later, rfl, by rw [size], not_mem_of_isHex hex⟩
        · cases known
          exact ⟨'u', [], rest, rfl, rfl, by simp⟩
    by_cases hex : first = 'x'
    · subst hex
      rw [escape?_hex] at known
      split at known
      · rename_i digits two
        obtain ⟨later, rfl, size, hex⟩ := hexDigits?_eq_some_iff.1 two
        cases known
        exact ⟨'x', digits, later, rfl, by rw [size], not_mem_of_isHex hex⟩
      · cases known
        exact ⟨'x', [], rest, rfl, rfl, by simp⟩
    by_cases lineEnd : first = '\r' ∧ rest.head? = some '\n'
    · obtain ⟨rfl, starts⟩ := lineEnd
      obtain ⟨later, rfl⟩ := head?_eq_some_iff.1 starts
      cases known
      exact ⟨'\r', ['\n'], later, rfl, rfl, by decide⟩
    · rw [escape?_simple unicode hex fun isReturn starts => lineEnd ⟨isReturn, starts⟩] at known
      cases known
      exact ⟨first, [], rest, rfl, rfl, by simp⟩

private theorem escape?_isSome (nonempty : rest ≠ []) :
    ∃ length escape, escape? rest = some (length, escape) := by
  cases rest with
  | nil => exact absurd rfl nonempty
  | cons first rest =>
    unfold escape?
    split <;> simp_all
    · split
      · simp
      · split <;> simp
    · split <;> simp

/-! ## What stands behind an escape -/

/-- Whether no escape that starts before a text reaches into it. -/
structure Sealed (behind : Text) : Prop where
  head : ∀ char ∈ behind.head?, isHex char = false ∧ char ≠ '}' ∧ char ≠ '\n'
  braced : bracedDigits? behind = none

/-- Digits at the start of a text that is sealed off end in it. -/
private theorem Sealed.split {later : Text} (sealed : Sealed behind)
    (hex : ∀ digit ∈ digits, isHex digit = true) (whole : text ++ behind = digits ++ later) :
    ∃ between, text = digits ++ between ∧ later = between ++ behind := by
  rcases append_eq_append_iff.1 whole with ⟨between, rfl, rest⟩ | ⟨between, rfl, rest⟩
  · cases between with
    | nil => exact ⟨[], by simp, by simpa using rest.symm⟩
    | cons first between =>
      subst rest
      have other := (sealed.head first (by simp)).1
      rw [hex first (by simp)] at other
      cases other
  · exact ⟨between, rfl, rest⟩

private theorem hexDigits?_append (sealed : Sealed behind) (count : Nat) (text : Text) :
    hexDigits? count (text ++ behind) = hexDigits? count text := by
  ext digits
  rw [hexDigits?_eq_some_iff, hexDigits?_eq_some_iff]
  constructor
  · rintro ⟨later, whole, size, hex⟩
    obtain ⟨between, rfl, -⟩ := sealed.split hex whole
    exact ⟨between, rfl, size, hex⟩
  · rintro ⟨later, rfl, size, hex⟩
    exact ⟨later ++ behind, by simp, size, hex⟩

private theorem bracedDigits?_append (sealed : Sealed behind) (text : Text) :
    bracedDigits? (text ++ behind) = bracedDigits? text := by
  cases text with
  | nil => exact sealed.braced
  | cons first text =>
    ext digits
    rw [bracedDigits?_eq_some_iff, bracedDigits?_eq_some_iff]
    constructor
    · rintro ⟨later, whole, nonempty, hex⟩
      obtain ⟨rfl, inside⟩ := List.cons.inj whole
      obtain ⟨between, rfl, rest⟩ := sealed.split hex inside
      cases between with
      | nil =>
        obtain rfl : '}' :: later = behind := rest
        exact absurd rfl (sealed.head '}' rfl).2.1
      | cons brace between =>
        obtain ⟨rfl, -⟩ := List.cons.inj rest
        exact ⟨between, rfl, nonempty, hex⟩
    · rintro ⟨later, whole, nonempty, hex⟩
      obtain ⟨rfl, rfl⟩ := List.cons.inj whole
      exact ⟨later ++ behind, by simp, nonempty, hex⟩

/-- An escape does not see what is sealed off from it. -/
theorem escape?_append {rest behind : Text} (nonempty : rest ≠ []) (sealed : Sealed behind) :
    escape? (rest ++ behind) = escape? rest := by
  obtain ⟨first, rest, rfl⟩ := exists_cons_of_ne_nil nonempty
  by_cases unicode : first = 'u'
  · subst unicode
    rw [cons_append, escape?_unicode, escape?_unicode, bracedDigits?_append sealed,
      hexDigits?_append sealed]
  by_cases hex : first = 'x'
  · subst hex
    rw [cons_append, escape?_hex, escape?_hex, hexDigits?_append sealed]
  cases rest with
  | nil =>
    rw [escape?_simple unicode hex (by simp), singleton_append, escape?_simple unicode hex]
    intro _ starts
    exact (sealed.head '\n' starts).2.2 rfl
  | cons second rest =>
    by_cases lineEnd : first = '\r' ∧ second = '\n'
    · obtain ⟨rfl, rfl⟩ := lineEnd
      rfl
    · have other (rest : Text) : first = '\r' → (second :: rest).head? ≠ some '\n' :=
        fun isReturn starts => lineEnd ⟨isReturn, Option.some.inj starts⟩
      rw [escape?_simple unicode hex (other rest)]
      exact escape?_simple unicode hex (other (rest ++ behind))

/-! ## Cooking step by step -/

/-- Two values one behind the other. -/
def both (left right : Except EscapeFault CodePoints) : Except EscapeFault CodePoints := do
  let first ← left
  let second ← right
  return first ++ second

@[simp] theorem both_ok (left right : CodePoints) : both (.ok left) (.ok right) =
    .ok (left ++ right) :=
  rfl

@[simp] theorem both_nil (right : Except EscapeFault CodePoints) : both (.ok []) right = right := by
  cases right <;> rfl

private theorem both_assoc (left middle right : Except EscapeFault CodePoints) :
    both (both left middle) right = both left (both middle right) := by
  cases left with
  | error fault => rfl
  | ok first =>
    cases middle with
    | error fault => rfl
    | ok second =>
      cases right with
      | error fault => rfl
      | ok third => exact congrArg Except.ok (append_assoc _ _ _)

private theorem both_eq_ok_iff {left right : Except EscapeFault CodePoints} :
    both left right = .ok points ↔
      ∃ first second, left = .ok first ∧ right = .ok second ∧ points = first ++ second := by
  cases left with
  | error fault => simp [both, bind, Except.bind]
  | ok first =>
    cases right with
    | error fault => simp [both, bind, Except.bind]
    | ok second => simp [eq_comm]

private theorem cookFrom_eq (skip : Nat) (text : Text) : cookFrom skip text = cook
    (text.drop skip) := by
  induction text generalizing skip with
  | nil => cases skip <;> rfl
  | cons head tail ih =>
    cases skip with
    | zero => rfl
    | succ skip => exact ih skip

@[simp] theorem cook_nil : cook [] = .ok [] :=
  rfl

/-- A plain character stands for itself. -/
theorem cook_cons (plain : head ≠ '\\') (tail : Text) :
    cook (head :: tail) = both (.ok [.scalar head]) (cook tail) := by
  rw [cook, cookFrom]
  · rfl
  · exact plain

/-- An escape stands for its value. -/
theorem cook_escape {rest : Text} {length : Nat} {escape : Escape}
    (known : escape? rest = some (length, escape)) :
    cook ('\\' :: rest) = both escape.value (cook (rest.drop length)) := by
  rw [cook, cookFrom, known]
  simp only [cookFrom_eq]
  rfl

/-- A body is nothing, or a backslash alone, or a character other than a backslash or an
escape before another body. -/
@[elab_as_elim]
theorem cook_induction {motive : Text → Prop} (nil : motive []) (last : motive ['\\'])
    (plain : ∀ head tail, head ≠ '\\' → motive tail → motive (head :: tail))
    (escape : ∀ first taken later escape, '\\' ∉ taken →
      escape? (first :: (taken ++ later)) = some (taken.length + 1, escape) → motive later →
        motive ('\\' :: first :: (taken ++ later))) (text : Text) : motive text := by
  generalize bound : text.length = size
  induction size using Nat.strongRecOn generalizing text with
  | ind size ih =>
    cases text with
    | nil => exact nil
    | cons head tail =>
      by_cases isPlain : head = '\\'
      · subst isPlain
        by_cases nonempty : tail = []
        · subst nonempty
          exact last
        · obtain ⟨length, kind, known⟩ := escape?_isSome nonempty
          obtain ⟨first, taken, later, rfl, rfl, free⟩ := exists_of_escape? known
          refine escape first taken later kind free known (ih _ ?_ later rfl)
          simp only [length_cons, length_append] at bound
          omega
      · exact plain head tail isPlain (ih _ (by simp at bound; omega) tail rfl)

/-- A text without backslashes is its own value. -/
theorem cook_append_of_not_mem (free : '\\' ∉ front) (rest : Text) :
    cook (front ++ rest) = both (.ok (CodePoint.ofText front)) (cook rest) := by
  induction front with
  | nil => simp
  | cons head front ih =>
    rw [mem_cons, not_or] at free
    rw [cons_append, cook_cons (Ne.symm free.1), ih free.2, ← both_assoc]
    rfl

/-- A text without backslashes is cooked as it is. -/
theorem cook_of_not_mem (free : '\\' ∉ text) : cook text = .ok (CodePoint.ofText text) := by
  simpa using cook_append_of_not_mem free []

/-! ## Parts of a body -/

/-- Whether a text ends in a backslash that takes along what stands behind it. -/
def escapesNext : Text → Bool
  | [] => false
  | ['\\'] => true
  | '\\' :: _ :: rest => escapesNext rest
  | _ :: rest => escapesNext rest

private theorem escapesNext_cons (plain : head ≠ '\\') (tail : Text) :
    escapesNext (head :: tail) = escapesNext tail := by
  cases tail <;> simp [escapesNext, plain]

private theorem escapesNext_append_of_not_mem (free : '\\' ∉ front) (rest : Text) :
    escapesNext (front ++ rest) = escapesNext rest := by
  induction front with
  | nil => rfl
  | cons head front ih =>
    rw [mem_cons, not_or] at free
    rw [cons_append, escapesNext_cons (Ne.symm free.1), ih free.2]

/-- A part that leaves no escape open is cooked by itself. -/
theorem cook_append {part : Text} (closed : escapesNext part = false) (sealed : Sealed behind) :
    cook (part ++ behind) = both (cook part) (cook behind) := by
  induction part using cook_induction with
  | nil => simp
  | last => cases closed
  | plain head tail isPlain ih =>
    rw [escapesNext_cons isPlain] at closed
    rw [cons_append, cook_cons isPlain, cook_cons isPlain, ih closed, both_assoc]
  | escape first taken later kind free known ih =>
    have closedLater : escapesNext later = false := by
      rwa [escapesNext, escapesNext_append_of_not_mem free] at closed
    have same := (@escape?_append _ _ (cons_ne_nil first (taken ++ later)) sealed).trans known
    rw [cook_escape known, cons_append, cook_escape same]
    simp [ih closedLater, both_assoc]

/-- A text that leaves an escape open ends in the backslash of it. -/
theorem exists_of_escapesNext (opened : escapesNext text = true) :
    ∃ part, text = part ++ ['\\'] ∧ escapesNext part = false := by
  induction text using escapesNext.induct with
  | case1 => cases opened
  | case2 => exact ⟨[], rfl, rfl⟩
  | case3 first rest ih =>
    obtain ⟨part, rfl, closed⟩ := ih opened
    exact ⟨'\\' :: first :: part, rfl, closed⟩
  | case4 head rest alone before ih =>
    have plain : head ≠ '\\' := by
      intro isBackslash
      cases rest with
      | nil => exact alone isBackslash rfl
      | cons second rest => exact before second rest isBackslash rfl
    rw [escapesNext_cons plain] at opened
    obtain ⟨part, rfl, closed⟩ := ih opened
    exact ⟨head :: part, rfl, by rw [escapesNext_cons plain, closed]⟩

/-- A character that no escape of several characters holds, and that stands for itself
behind a backslash. -/
def isOrdinary (char : Char) : Bool :=
  !isHex char && !contains ['{', '}', '\n', '\r', 'u', 'x', '\\'] char &&
    simple char == [char]

/-- What starts with an ordinary character and holds no backslash is kept, even behind a
backslash. -/
theorem infix_of_cook {first : Char} {inside : Text} (ordinary : isOrdinary first = true)
    (free : '\\' ∉ inside) (cooked : cook body = .ok points) (within : first :: inside <:+: body) :
    CodePoint.ofText (first :: inside) <:+: points := by
  obtain ⟨before, after, rfl⟩ := within
  simp only [isOrdinary, Bool.and_eq_true, Bool.not_eq_true', contains_eq_mem,
    decide_eq_false_iff_not, mem_cons, not_mem_nil, or_false, not_or, beq_iff_eq]
    at ordinary
  obtain ⟨⟨hex, opening, closing, lineFeed, lineReturn, unicode, coded, plain⟩, same⟩ := ordinary
  have word : cook (first :: inside ++ after) =
      both (.ok (CodePoint.ofText (first :: inside))) (cook after) :=
    cook_append_of_not_mem (by simp [free, Ne.symm plain]) after
  have escaped : cook ('\\' :: (first :: inside ++ after)) = cook (first :: inside ++ after) := by
    rw [cons_append,
      cook_escape (escape?_simple unicode coded fun isReturn => absurd isReturn lineReturn),
      cook_cons plain, same]
    rfl
  have sealed : Sealed (first :: inside ++ after) := by
    refine ⟨by simp [hex, closing, lineFeed], ?_⟩
    simp [bracedDigits?, opening]
  have sealedEscape : Sealed ('\\' :: (first :: inside ++ after)) :=
    ⟨by simp [isHex, hexValue?], rfl⟩
  -- Either way the word is cooked behind what stands before it.
  have split : ∃ front, cook (before ++ first :: inside ++ after) =
      both front (both (.ok (CodePoint.ofText (first :: inside))) (cook after)) := by
    cases opened : escapesNext before with
    | false =>
      refine ⟨cook before, ?_⟩
      rw [← word, append_assoc, cook_append opened sealed]
    | true =>
      obtain ⟨part, rfl, closed⟩ := exists_of_escapesNext opened
      refine ⟨cook part, ?_⟩
      rw [← word, ← escaped, append_assoc, append_assoc, singleton_append,
        cook_append closed sealedEscape]
  obtain ⟨front, whole⟩ := split
  rw [whole, both_eq_ok_iff] at cooked
  obtain ⟨start, second, -, rest, rfl⟩ := cooked
  obtain ⟨word, later, wordValue, -, rfl⟩ := both_eq_ok_iff.1 rest
  cases wordValue
  exact ⟨start, later, by simp⟩

private theorem isOrdinary_of_isIdeograph {char : Char} (ideograph : isIdeograph char = true) :
    isOrdinary char = true := by
  simp only [isIdeograph, isIdeographCode, Bool.and_eq_true, decide_eq_true_eq] at ideograph
  have small : ∀ other ∈ ['{', '}', '\n', '\r', 'u', 'x', '\\', 'n', 'r', 't', 'b', 'f', 'v', '0'],
      other.toNat < 0x4E00 := by simp
  have apart : ∀ other ∈ ['{', '}', '\n', '\r', 'u', 'x', '\\', 'n', 'r', 't', 'b', 'f', 'v', '0'],
      char ≠ other := by
    rintro other member rfl
    have below := small char member
    omega
  have hex : isHex char = false := by
    rw [isHex, hexValue?, if_neg (by simp; omega), if_neg (by simp; omega),
      if_neg (by simp; omega)]
    rfl
  have separator : ¬ (char.toNat = 0x2028 ∨ char.toNat = 0x2029) := by omega
  simp only [forall_mem_cons] at apart
  simp [isOrdinary, simple, hex, separator, apart]

/-- An ideograph of a body is one of its value. -/
theorem hasIdeograph_of_cook (cooked : cook body = .ok points)
    (ideograph : hasIdeograph body = true) : CodePoint.hasIdeograph points = true := by
  obtain ⟨char, member, isIdeograph⟩ := any_eq_true.1 ideograph
  obtain ⟨before, after, rfl⟩ := append_of_mem member
  have occurs := infix_of_cook (isOrdinary_of_isIdeograph isIdeograph) (by simp) cooked
    (show [char] <:+: before ++ char :: after from ⟨before, after, by simp⟩)
  exact any_eq_true.2 ⟨.scalar char, occurs.subset (by simp), isIdeograph⟩

end Phrasebook.Literal
