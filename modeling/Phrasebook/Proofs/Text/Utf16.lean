import Phrasebook.Text.CodePoint

/-!
# Code units

A code point beyond the first plane is written in UTF-16 as two units, the halves of a
surrogate pair. Reading units joins every such pair. Code points that are written and read
back are therefore the same, unless two of them already were the halves of a pair.
-/

namespace Phrasebook.Utf16

open List

variable {code low : Nat} {codes : List Nat}

/-- The first half of a surrogate pair. -/
abbrev IsHigh (code : Nat) : Prop :=
  0xD800 ≤ code ∧ code ≤ 0xDBFF

/-- The second half of a surrogate pair. -/
abbrev IsLow (code : Nat) : Prop :=
  0xDC00 ≤ code ∧ code ≤ 0xDFFF

/-- The code point that two halves stand for. -/
def join (high low : Nat) : Nat :=
  0x10000 + (high - 0xD800) * 0x400 + (low - 0xDC00)

/-- The units of a code point. -/
def encodePoint (code : Nat) : List Nat :=
  if code < 0x10000 then [code]
  else [0xD800 + (code - 0x10000) / 0x400, 0xDC00 + (code - 0x10000) % 0x400]

/-- The units of code points. -/
def encode (codes : List Nat) : List Nat :=
  codes.flatMap encodePoint

/-- The code points that units stand for. Halves that are no pair stay. -/
def decode : List Nat → List Nat
  | high :: low :: later =>
    if IsHigh high ∧ IsLow low then join high low :: decode later
    else high :: decode (low :: later)
  | units => units

/-- Whether the halves of a pair stand side by side. -/
def HoldsPair (codes : List Nat) : Prop :=
  ∃ before high low after, codes = before ++ high :: low :: after ∧ IsHigh high ∧ IsLow low

private theorem holdsPair_cons_iff :
    HoldsPair (code :: codes) ↔
      (IsHigh code ∧ ∃ low ∈ codes.head?, IsLow low) ∨ HoldsPair codes := by
  constructor
  · rintro ⟨before, high, low, after, whole, isHigh, isLow⟩
    cases before with
    | nil =>
      obtain ⟨rfl, rfl⟩ := List.cons.inj whole
      exact .inl ⟨isHigh, low, rfl, isLow⟩
    | cons first before =>
      obtain ⟨rfl, rfl⟩ := List.cons.inj whole
      exact .inr ⟨before, high, low, after, rfl, isHigh, isLow⟩
  · rintro (⟨isHigh, low, first, isLow⟩ | ⟨before, high, low, after, rfl, isHigh, isLow⟩)
    · obtain ⟨after, rfl⟩ := head?_eq_some_iff.1 first
      exact ⟨[], code, low, after, rfl, isHigh, isLow⟩
    · exact ⟨code :: before, high, low, after, rfl, isHigh, isLow⟩

/-! ## Reading what was written -/

/-- A unit that is followed by no other half of its own is read by itself. -/
theorem decode_cons {unit : Nat} {units : List Nat}
    (single : IsHigh unit → ∀ low ∈ units.head?, ¬ IsLow low) :
    decode (unit :: units) = unit :: decode units := by
  cases units with
  | nil => rfl
  | cons low later =>
    rw [decode, if_neg]
    rintro ⟨isHigh, isLow⟩
    exact single isHigh low rfl isLow

/-- A pair is read as the code point that it stands for. -/
theorem decode_pair {high : Nat} (isHigh : IsHigh high) (isLow : IsLow low) (units : List Nat) :
    decode (high :: low :: units) = join high low :: decode units := by
  rw [decode, if_pos ⟨isHigh, isLow⟩]

/-- A code point beyond the first plane is written as a pair that stands for it. -/
theorem exists_encodePoint (beyond : 0x10000 ≤ code) (range : code < 0x110000) :
    ∃ high low, encodePoint code = [high, low] ∧ IsHigh high ∧ IsLow low ∧
      join high low = code := by
  refine ⟨0xD800 + (code - 0x10000) / 0x400, 0xDC00 + (code - 0x10000) % 0x400, ?_, ?_⟩
  · rw [encodePoint, if_neg (Nat.not_lt.2 beyond)]
  · exact ⟨⟨by omega, by omega⟩, ⟨by omega, by omega⟩, by unfold join; omega⟩

/-- What is written starts with the second half of a pair only where a code point is one. -/
theorem head?_of_isLow (range : ∀ code ∈ codes, code < 0x110000)
    (first : low ∈ (encode codes).head?) (isLow : IsLow low) : low ∈ codes.head? := by
  cases codes with
  | nil => exact first
  | cons code codes =>
    by_cases plane : code < 0x10000
    · simpa [encode, encodePoint, plane] using first
    · obtain ⟨high, other, units, isHigh, -⟩ :=
        exists_encodePoint (Nat.not_lt.1 plane) (range code (by simp))
      obtain rfl : high = low := by simpa [encode, units] using first
      simp only [IsHigh, IsLow] at isHigh isLow
      omega

/-- A code point that makes no pair with the next one is read back. -/
theorem decode_encode_cons (range : ∀ other ∈ code :: codes, other < 0x110000)
    (single : IsHigh code → ∀ low ∈ codes.head?, ¬ IsLow low) :
    decode (encode (code :: codes)) = code :: decode (encode codes) := by
  obtain ⟨here, later⟩ := forall_mem_cons.1 range
  by_cases plane : code < 0x10000
  · have units : encode (code :: codes) = code :: encode codes := by
      simp [encode, encodePoint, plane]
    rw [units]
    refine decode_cons fun isHigh low first isLow => ?_
    exact single isHigh low (head?_of_isLow later first isLow) isLow
  · obtain ⟨high, low, units, isHigh, isLow, joined⟩ :=
      exists_encodePoint (Nat.not_lt.1 plane) here
    have whole : encode (code :: codes) = high :: low :: encode codes := by simp [encode, units]
    rw [whole, decode_pair isHigh isLow, joined]

/-- The halves of a pair are read as one code point. -/
theorem decode_encode_pair {high : Nat} (isHigh : IsHigh high) (isLow : IsLow low)
    (codes : List Nat) :
    decode (encode (high :: low :: codes)) = join high low :: decode (encode codes) := by
  have first : high < 0x10000 := by
    simp only [IsHigh] at isHigh
    omega
  have second : low < 0x10000 := by
    simp only [IsLow] at isLow
    omega
  have units : encode (high :: low :: codes) = high :: low :: encode codes := by
    simp [encode, encodePoint, first, second]
  rw [units, decode_pair isHigh isLow]

/-- Code points without pairs are read back. -/
theorem decode_encode (range : ∀ code ∈ codes, code < 0x110000) (unpaired : ¬ HoldsPair codes) :
    decode (encode codes) = codes := by
  induction codes with
  | nil => rfl
  | cons code codes ih =>
    rw [holdsPair_cons_iff, not_or] at unpaired
    obtain ⟨here, later⟩ := unpaired
    rw [decode_encode_cons range fun isHigh low first isLow => here ⟨isHigh, low, first, isLow⟩,
      ih (forall_mem_cons.1 range).2 later]

/-- Every pair that is read makes the code points fewer. -/
theorem length_decode_encode (range : ∀ code ∈ codes, code < 0x110000) :
    (decode (encode codes)).length ≤ codes.length ∧
      ((decode (encode codes)).length = codes.length → ¬ HoldsPair codes) := by
  -- A pair takes two code points at once, so the induction is on the number of them.
  generalize size : codes.length = count
  induction count using Nat.strongRecOn generalizing codes with
  | ind count ih =>
    subst size
    cases codes with
    | nil => exact ⟨Nat.le_refl _, fun _ ⟨before, _, _, _, whole, _⟩ => by simp at whole⟩
    | cons code codes =>
      have later := (forall_mem_cons.1 range).2
      by_cases paired : IsHigh code ∧ ∃ low ∈ codes.head?, IsLow low
      · obtain ⟨isHigh, low, first, isLow⟩ := paired
        obtain ⟨rest, rfl⟩ := head?_eq_some_iff.1 first
        obtain ⟨bound, -⟩ := ih rest.length
          (by simp only [length_cons]; omega) (forall_mem_cons.1 later).2 rfl
        rw [decode_encode_pair isHigh isLow]
        simp only [length_cons]
        exact ⟨by omega, fun same => by omega⟩
      · obtain ⟨bound, full⟩ := ih codes.length (by simp) later rfl
        rw [decode_encode_cons range fun isHigh low first isLow =>
          paired ⟨isHigh, low, first, isLow⟩, holdsPair_cons_iff]
        simp only [length_cons]
        exact ⟨by omega, fun same => not_or.2 ⟨paired, full (by omega)⟩⟩

end Phrasebook.Utf16
