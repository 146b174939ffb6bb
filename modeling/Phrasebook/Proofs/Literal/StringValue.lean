import Phrasebook.Proofs.Literal.Cooked
import Phrasebook.Proofs.Text.Utf16
import Phrasebook.Proofs.Text.Utf8

/-!
# The value of a string literal

The body of a string literal is a row of parts: characters, escapes and continued lines. The
language gives it a row of UTF-16 units as its value, and read as a text the halves of a
surrogate pair are one code point, however they were written. Cooking gives every part code
points of its own. The two agree unless a line is continued behind a lone carriage return,
which cooking keeps, or the halves of a pair stand side by side, which cooking does not join.
-/

namespace Phrasebook.Literal

open List Text CodePoint

/-- How a line ends. -/
inductive LineEnd where
  | lineFeed
  | carriageReturn
  | returnAndFeed
  | lineSeparator
  | paragraphSeparator

/-- A line end as it is written. -/
def LineEnd.text : LineEnd → Text
  | lineFeed => ['\n']
  | carriageReturn => ['\r']
  | returnAndFeed => ['\r', '\n']
  | lineSeparator => [Char.ofNat 0x2028]
  | paragraphSeparator => [Char.ofNat 0x2029]

/-- Whether a character forms an escape with nothing but a backslash. Line ends, the digits
that a strict script refuses and the letters of longer escapes do not. -/
def isSingle (char : Char) : Bool :=
  !contains ['\n', '\r', Char.ofNat 0x2028, Char.ofNat 0x2029, 'u', 'x', '1', '2', '3', '4',
    '5', '6', '7', '8', '9'] char

/-- The code point of an escape of a single character. -/
def singleCode (char : Char) : Nat :=
  match char with
  | 'b' => 0x08
  | 't' => 0x09
  | 'n' => 0x0A
  | 'v' => 0x0B
  | 'f' => 0x0C
  | 'r' => 0x0D
  | '0' => 0x00
  | other => other.toNat

/-- A part of the body of a string literal. -/
inductive Part where
  /-- A character that stands for itself. -/
  | plain (char : Char) (unescaped : char ∉ ['\\', '\n', '\r'])
  | single (char : Char) (allowed : isSingle char = true)
  /-- An escape with two hexadecimal digits. -/
  | short (digits : Text) (size : digits.length = 2)
      (hex : ∀ digit ∈ digits, isHex digit = true)
  /-- An escape with four hexadecimal digits. -/
  | long (digits : Text) (size : digits.length = 4)
      (hex : ∀ digit ∈ digits, isHex digit = true)
  /-- An escape with hexadecimal digits between braces. -/
  | braced (digits : Text) (nonempty : digits ≠ [])
      (hex : ∀ digit ∈ digits, isHex digit = true)
      (range : hexNumberOf digits ≤ 0x10FFFF)
  /-- A line that goes on behind its end. -/
  | continued (lineEnd : LineEnd)

namespace Part

/-- A part as it is written. -/
def text : Part → Text
  | plain char _ => [char]
  | single char _ => ['\\', char]
  | short digits _ _ => '\\' :: 'x' :: digits
  | long digits _ _ => '\\' :: 'u' :: digits
  | braced digits _ _ _ => '\\' :: 'u' :: '{' :: digits ++ ['}']
  | continued lineEnd => '\\' :: lineEnd.text

/-- The code point that a part stands for. A continued line stands for none. -/
def code? : Part → Option Nat
  | plain char _ => some char.toNat
  | single char _ => some (singleCode char)
  | short digits _ _ => some (hexNumberOf digits)
  | long digits _ _ => some (hexNumberOf digits)
  | braced digits _ _ _ => some (hexNumberOf digits)
  | continued _ => none

/-- What cooking makes of a part. -/
def cooked : Part → CodePoints
  | continued .carriageReturn => [.scalar '\r']
  | part => part.code?.toList.map ofNat

end Part

/-- A body as it is written. -/
def bodyText (parts : List Part) : Text :=
  parts.flatMap Part.text

/-- The UTF-16 units of a body. -/
def units (parts : List Part) : List Nat :=
  Utf16.encode (parts.filterMap Part.code?)

/-- The value of a body as a text. -/
def value (parts : List Part) : CodePoints :=
  (Utf16.decode (units parts)).map ofNat

/-- Whether the halves of a surrogate pair follow each other, with continued lines between
them at most. -/
def SplitsPair (parts : List Part) : Prop :=
  ∃ before high between low after, parts = before ++ high :: (between ++ low :: after) ∧
    (∃ code ∈ high.code?, Utf16.IsHigh code) ∧ (∀ part ∈ between, part.code? = none) ∧
    ∃ code ∈ low.code?, Utf16.IsLow code

/-! ## Numbers of parts -/

private theorem hexValue_lt {digit : Char} {number : Nat} (known : hexValue? digit = some number) :
    number < 16 := by
  simp only [hexValue?, Bool.and_eq_true, decide_eq_true_eq] at known
  grind

/-- Digits write a number below the power with as many places. -/
theorem hexNumberOf_lt (digits : Text) : hexNumberOf digits < Nat.pow 16 digits.length := by
  have below (start : Nat) : digits.foldl (fun number digit =>
      number * 16 + (hexValue? digit).getD 0) start < (start + 1) * Nat.pow 16 digits.length := by
    induction digits generalizing start with
    | nil => simp
    | cons digit digits ih =>
      have small : (hexValue? digit).getD 0 < 16 := by
        cases known : hexValue? digit with
        | none => decide
        | some number => exact hexValue_lt known
      calc _ < (start * 16 + (hexValue? digit).getD 0 + 1) * Nat.pow 16 digits.length :=
            ih _
        _ ≤ ((start + 1) * 16) * Nat.pow 16 digits.length := Nat.mul_le_mul_right _ (by omega)
        _ = (start + 1) * Nat.pow 16 (digits.length + 1) := by
            rw [Nat.mul_assoc, Nat.mul_comm 16]
            rfl
  simpa [hexNumberOf] using below 0

private theorem singleCode_lt (char : Char) : singleCode char < 0x110000 := by
  have range := Utf8.toNat_range char
  unfold singleCode
  split <;> omega

namespace Part

/-- A part stands for a code point. -/
theorem code_lt {part : Part} {code : Nat} (known : code ∈ part.code?) : code < 0x110000 := by
  cases part with
  | plain char _ =>
    obtain rfl : char.toNat = code := by simpa [code?] using known
    have range := Utf8.toNat_range char
    omega
  | single char _ =>
    obtain rfl : singleCode char = code := by simpa [code?] using known
    exact singleCode_lt char
  | short digits size _ =>
    obtain rfl : hexNumberOf digits = code := by simpa [code?] using known
    have bound := hexNumberOf_lt digits
    rw [size] at bound
    exact Nat.lt_trans bound (by decide)
  | long digits size _ =>
    obtain rfl : hexNumberOf digits = code := by simpa [code?] using known
    have bound := hexNumberOf_lt digits
    rw [size] at bound
    exact Nat.lt_trans bound (by decide)
  | braced digits _ _ range =>
    obtain rfl : hexNumberOf digits = code := by simpa [code?] using known
    omega
  | continued _ => cases known

/-! ## Cooking part by part -/

/-- No part starts with a line feed. -/
theorem exists_text_eq (part : Part) : ∃ first rest, part.text = first :: rest ∧ first ≠ '\n' := by
  cases part with
  | plain char unescaped =>
    simp only [mem_cons, not_or] at unescaped
    exact ⟨char, [], rfl, unescaped.2.1⟩
  | _ => exact ⟨'\\', _, rfl, by decide⟩

/-- A carriage return is kept where a line is continued behind it. Every other part is cooked
as what it stands for. -/
theorem cooked_cases (part : Part) :
    part = continued .carriageReturn ∨ part.cooked = part.code?.toList.map CodePoint.ofNat := by
  cases part with
  | continued lineEnd =>
    cases lineEnd with
    | carriageReturn => exact .inl rfl
    | _ => exact .inr rfl
  | _ => exact .inr rfl

private theorem ofNat_toNat (char : Char) : CodePoint.ofNat char.toNat = .scalar char := by
  have range := Utf8.toNat_range char
  rw [CodePoint.ofNat, dif_neg (by simp only [IsSurrogate]; omega), Char.ofNat_toNat]

private theorem simple_eq {char : Char} (allowed : isSingle char = true) :
    ofText (simple char) = [.ofNat (singleCode char)] := by
  unfold singleCode
  split
  iterate 7 rfl
  · simp only [isSingle, Bool.not_eq_true', contains_eq_mem, decide_eq_false_iff_not,
      mem_cons, not_or] at allowed
    have separator : ¬ (char.toNat = 0x2028 ∨ char.toNat = 0x2029) := by
      rintro (code | code)
      · exact allowed.2.2.1 (by rw [← code, Char.ofNat_toNat])
      · exact allowed.2.2.2.1 (by rw [← code, Char.ofNat_toNat])
    have same : simple char = [char] := by simp_all [simple]
    rw [same, ofNat_toNat]
    rfl

/-- An escape by number is cooked as its code point. -/
theorem value_numbered {code : Nat} (range : code < 0x110000) :
    (Escape.numbered code).value = .ok [ofNat code] := by
  rw [Escape.value, if_pos range]

/-- A part is cooked by itself, whatever stands behind it that is no line feed. -/
theorem cook_text (part : Part) {rest : Text} (behind : rest.head? ≠ some '\n') :
    cook (part.text ++ rest) = both (.ok part.cooked) (cook rest) := by
  have coded {code : Nat} {taken : Text} (known : code ∈ part.code?)
      (escape : escape? (taken ++ rest) = some (taken.length, .numbered code)) :
      cook ('\\' :: (taken ++ rest)) = both (.ok [.ofNat code]) (cook rest) := by
    rw [cook_escape escape, value_numbered (code_lt known), drop_left]
  cases part with
  | plain char unescaped =>
    simp only [mem_cons, not_or] at unescaped
    change _ = both (.ok [CodePoint.ofNat char.toNat]) (cook rest)
    rw [ofNat_toNat]
    exact cook_cons unescaped.1 rest
  | single char allowed =>
    have other : char ≠ 'u' ∧ char ≠ 'x' ∧ char ≠ '\r' := by
      refine ⟨?_, ?_, ?_⟩ <;> rintro rfl <;> cases allowed
    have escape := @escape?_simple _ rest other.1 other.2.1
      fun isReturn => absurd isReturn other.2.2
    refine (cook_escape escape).trans ?_
    rw [Escape.value, simple_eq allowed]
    rfl
  | short digits size hex =>
    refine @coded _ ('x' :: digits) rfl ?_
    rw [cons_append, escape?_hex, hexDigits?_eq_some_iff.2 ⟨rest, rfl, size, hex⟩]
    simp [size]
  | long digits size hex =>
    have unbraced : bracedDigits? (digits ++ rest) = none := by
      rw [Option.eq_none_iff_forall_ne_some]
      intro found braced
      obtain ⟨later, whole, -⟩ := bracedDigits?_eq_some_iff.1 braced
      cases digits with
      | nil => cases size
      | cons first digits =>
        obtain ⟨rfl, -⟩ := List.cons.inj whole
        exact absurd (hex '{' (by simp)) (by decide)
    refine @coded _ ('u' :: digits) rfl ?_
    rw [cons_append, escape?_unicode, unbraced, hexDigits?_eq_some_iff.2 ⟨rest, rfl, size, hex⟩]
    simp [size]
  | braced digits nonempty hex range =>
    have braced : bracedDigits? ('{' :: digits ++ ['}'] ++ rest) = some digits :=
      bracedDigits?_eq_some_iff.2 ⟨rest, by simp, nonempty, hex⟩
    refine @coded _ ('u' :: '{' :: digits ++ ['}']) rfl ?_
    rw [cons_append, cons_append, escape?_unicode, braced]
    simp
  | continued lineEnd =>
    cases lineEnd with
    | carriageReturn =>
      exact cook_escape (escape?_simple (by decide) (by decide) fun _ => behind)
    | returnAndFeed => exact @cook_escape ('\r' :: '\n' :: rest) _ _ rfl
    | lineFeed => exact @cook_escape ('\n' :: rest) _ _ rfl
    | lineSeparator => exact @cook_escape (Char.ofNat 0x2028 :: rest) _ _ rfl
    | paragraphSeparator => exact @cook_escape (Char.ofNat 0x2029 :: rest) _ _ rfl

end Part

private theorem head?_bodyText (parts : List Part) : (bodyText parts).head? ≠ some '\n' := by
  cases parts with
  | nil => simp [bodyText]
  | cons part parts =>
    obtain ⟨first, rest, text, other⟩ := part.exists_text_eq
    simpa [bodyText, text] using other

/-- A body is cooked part by part. -/
theorem cook_bodyText (parts : List Part) :
    cook (bodyText parts) = .ok (parts.flatMap Part.cooked) := by
  induction parts with
  | nil => rfl
  | cons part parts ih =>
    rw [bodyText, flatMap_cons, ← bodyText, part.cook_text (head?_bodyText parts),
      ih, both_ok, flatMap_cons]

/-! ## Cooked values and values -/

private theorem codes_lt {parts : List Part} {code : Nat}
    (member : code ∈ parts.filterMap Part.code?) :
    code < 0x110000 := by
  obtain ⟨part, -, known⟩ := mem_filterMap.1 member
  exact Part.code_lt known

/-- A body in which no line is continued behind a carriage return is cooked as the code points
that its parts stand for. -/
theorem flatMap_cooked {parts : List Part} (unreturned : .continued .carriageReturn ∉ parts) :
    parts.flatMap Part.cooked = (parts.filterMap Part.code?).map CodePoint.ofNat := by
  induction parts with
  | nil => rfl
  | cons part parts ih =>
    rw [mem_cons, not_or] at unreturned
    have here := part.cooked_cases.resolve_left (Ne.symm unreturned.1)
    rw [flatMap_cons, here, ih unreturned.2]
    cases known : part.code? <;> simp [known]

/-- Carriage returns that are kept make the cooked body longer. -/
theorem length_flatMap_cooked (parts : List Part) :
    (parts.filterMap Part.code?).length ≤ (parts.flatMap Part.cooked).length ∧
      ((parts.flatMap Part.cooked).length = (parts.filterMap Part.code?).length →
        .continued .carriageReturn ∉ parts) := by
  induction parts with
  | nil => simp
  | cons part parts ih =>
    obtain ⟨bound, full⟩ := ih
    rw [flatMap_cons, length_append]
    rcases part.cooked_cases with rfl | here
    · have none : Part.code? (.continued .carriageReturn) = none := rfl
      rw [filterMap_cons_none none]
      have one : (Part.cooked (.continued .carriageReturn)).length = 1 := rfl
      exact ⟨by omega, fun same => by omega⟩
    · have other : .continued .carriageReturn ≠ part := by
        rintro rfl
        cases here
      rw [here]
      cases known : part.code? with
      | none =>
        rw [filterMap_cons_none known, mem_cons, not_or]
        exact ⟨by simpa using bound, fun same => ⟨other, full (by simpa using same)⟩⟩
      | some code =>
        rw [filterMap_cons_some known, mem_cons, not_or]
        simp only [Option.toList_some, map_cons, map_nil, length_cons, length_nil]
        exact ⟨by omega, fun same => ⟨other, full (by omega)⟩⟩

/-- Pairs of halves among parts are those among their code points. -/
theorem splitsPair_iff {parts : List Part} :
    SplitsPair parts ↔ Utf16.HoldsPair (parts.filterMap Part.code?) := by
  constructor
  · rintro ⟨before, high, between, low, after, rfl, ⟨first, isFirst, isHigh⟩, silent,
      second, isSecond, isLow⟩
    have nothing : between.filterMap Part.code? = [] := filterMap_eq_nil_iff.2 silent
    refine ⟨before.filterMap Part.code?, first, second, after.filterMap Part.code?, ?_,
      isHigh, isLow⟩
    simp [filterMap_append, filterMap_cons_some isFirst, filterMap_cons_some isSecond, nothing]
  · rintro ⟨before, first, second, after, whole, isHigh, isLow⟩
    obtain ⟨front, rest, rfl, -, codes⟩ := filterMap_eq_append_iff.1 whole
    obtain ⟨lead, high, later, rfl, -, isFirst, codes⟩ := filterMap_eq_cons_iff.1 codes
    obtain ⟨between, low, last, rfl, silent, isSecond, -⟩ := filterMap_eq_cons_iff.1 codes
    exact ⟨front ++ lead, high, between, low, last, by simp, ⟨first, isFirst, isHigh⟩, silent,
      second, isSecond, isLow⟩

/-- How cooking relates to the value of a string literal, for every body. Cooking always
succeeds and gives each part its own code points. The result is the value exactly when no line
is continued behind a lone carriage return and no surrogate pair is written half by half. -/
theorem cook_eq_value_iff (parts : List Part) :
    cook (bodyText parts) = .ok (parts.flatMap Part.cooked) ∧
    (cook (bodyText parts) = .ok (value parts) ↔
      .continued .carriageReturn ∉ parts ∧ ¬ SplitsPair parts) := by
  refine ⟨cook_bodyText parts, ?_⟩
  rw [cook_bodyText, Except.ok.injEq, splitsPair_iff]
  obtain ⟨shorter, paired⟩ := Utf16.length_decode_encode fun _ => @codes_lt parts _
  obtain ⟨longer, returned⟩ := length_flatMap_cooked parts
  constructor
  · -- Kept returns only add code points and joined pairs only take some away.
    intro same
    have size := congrArg List.length same
    rw [value, units, length_map] at size
    exact ⟨returned (by omega), paired (by omega)⟩
  · rintro ⟨unreturned, unpaired⟩
    rw [flatMap_cooked unreturned, value, units, Utf16.decode_encode (fun _ => codes_lt) unpaired]

example : value [.long ['d', '8', '3', 'd'] rfl (all_eq_true.1 rfl), .continued .lineFeed,
    .long ['d', 'e', '0', '0'] rfl (all_eq_true.1 rfl)] =
      [.scalar (Char.ofNat 0x1F600)] := by decide

end Phrasebook.Literal
