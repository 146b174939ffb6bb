import Phrasebook.Text.Utf8

/-!
# UTF-8 in both directions

Reading the bytes of a text gives the text back, and the bytes that a text was read
from are the bytes it is written as. Nothing here is about where a faulty sequence
is reported.
-/

namespace Phrasebook.Utf8

open List

variable {code : Nat} {bytes : Bytes} {char : Char} {tails low high result : Nat} {text : Text}

/-! ### Numbers of characters and bytes -/

/-- The number of a character is that of a scalar value. -/
theorem toNat_range (char : Char) :
    char.toNat < 0xD800 ∨ 0xDFFF < char.toNat ∧ char.toNat < 0x110000 :=
  char.valid

/-- A character made from the number of a scalar value has that number. -/
theorem toNat_ofNat (code : Nat) (range : code < 0xD800 ∨ 0xDFFF < code ∧ code < 0x110000) :
    (Char.ofNat code).toNat = code := by
  have valid : code.isValidChar := range
  rw [Char.ofNat, dif_pos valid]
  rfl

/-- A byte made from a small number has that number. -/
theorem toNat_byte (number : Nat) (small : number < 256) : (UInt8.ofNat number).toNat = number := by
  rw [UInt8.toNat_ofNat']
  omega

/-- A byte is made from its own number. -/
theorem byte_of_toNat (byte : UInt8) {number : Nat} (same : byte.toNat = number) :
    UInt8.ofNat number = byte := by
  subst same
  exact UInt8.ofNat_toNat

/-! ### One character -/

/-- A tail byte in range contributes its six low bits. -/
theorem readTails_cons {byte : UInt8} (least : low ≤ byte.toNat) (most : byte.toNat ≤ high)
    (later : readTails tails 0x80 0xBF (code * 64 + (byte.toNat - 0x80)) bytes = .ok result) :
    readTails (tails + 1) low high code (byte :: bytes) = .ok result := by
  simp [readTails, least, most, later]

/-- Where reading tail bytes succeeds, the first one is in range and the others are
read behind it. -/
theorem readTails_succ (read : readTails (tails + 1) low high code bytes = .ok result) :
    ∃ byte rest, bytes = byte :: rest ∧ low ≤ byte.toNat ∧ byte.toNat ≤ high ∧
      readTails tails 0x80 0xBF (code * 64 + (byte.toNat - 0x80)) rest = .ok result := by
  cases bytes with
  | nil => simp [readTails] at read
  | cons byte rest =>
    simp only [readTails] at read
    split at read
    · rename_i range
      simp only [Bool.and_eq_true, decide_eq_true_eq] at range
      split at read
      · rename_i later
        injection read with same
        exact ⟨byte, rest, rfl, range.1, range.2, by rw [later, same]⟩
      · cases read
    · cases read

/-- The bytes of a character beyond ASCII, as reading sees them: a first byte with
its demands, and the bytes that meet them. -/
structure Sequence (char : Char) where
  first : UInt8
  tails : Bytes
  lead : Lead
  encoded : encodeCharacter char = first :: tails
  beyond : 0x80 ≤ first.toNat
  demanded : lead? first.toNat = some lead
  enough : tails.length = lead.tails
  read : ∀ rest, readTails lead.tails lead.low lead.high lead.bits (tails ++ rest) = .ok char.toNat

/-- Characters of two bytes. -/
theorem sequence_of_two (least : 0x80 ≤ char.toNat) (most : char.toNat < 0x800) :
    Nonempty (Sequence char) := by
  have first := toNat_byte (0xC0 + char.toNat / 64) (by omega)
  have second := toNat_byte (0x80 + char.toNat / 1 % 64) (by omega)
  refine ⟨⟨UInt8.ofNat (0xC0 + char.toNat / 64),
    [UInt8.ofNat (0x80 + char.toNat / 1 % 64)],
    ⟨1, 0x80, 0xBF, char.toNat / 64⟩, ?_, ?_, ?_, rfl, ?_⟩⟩
  · simp only [encodeCharacter]
    rw [if_neg (by omega), if_pos most]
  · omega
  · rw [first, lead?, if_neg (by omega), if_pos (by omega)]
    simp
  · intro rest
    simp only
    apply readTails_cons (by omega) (by omega)
    rw [second]
    exact congrArg Except.ok (by omega)

/-- Characters of three bytes. The first byte narrows the range of the second so
that nothing shorter and no surrogate is written. -/
theorem sequence_of_three (least : 0x800 ≤ char.toNat) (most : char.toNat < 0x10000) :
    Nonempty (Sequence char) := by
  have range := toNat_range char
  have first := toNat_byte (0xE0 + char.toNat / 4096) (by omega)
  have second := toNat_byte (0x80 + char.toNat / 64 % 64) (by omega)
  have third := toNat_byte (0x80 + char.toNat / 1 % 64) (by omega)
  refine ⟨⟨UInt8.ofNat (0xE0 + char.toNat / 4096),
    [UInt8.ofNat (0x80 + char.toNat / 64 % 64), UInt8.ofNat (0x80 + char.toNat / 1 % 64)],
    ⟨2, if 0xE0 + char.toNat / 4096 == 0xE0 then 0xA0 else 0x80,
      if 0xE0 + char.toNat / 4096 == 0xED then 0x9F else 0xBF, char.toNat / 4096⟩,
      ?_, ?_, ?_, rfl, ?_⟩⟩
  · simp only [encodeCharacter]
    rw [if_neg (by omega), if_neg (by omega), if_pos most]
  · omega
  · rw [first, lead?, if_neg (by omega), if_neg (by omega), if_pos (by omega)]
    simp
  · intro rest
    simp only [beq_iff_eq]
    apply readTails_cons
    · rw [second]
      split <;> omega
    · rw [second]
      split <;> omega
    apply readTails_cons (by omega) (by omega)
    rw [second, third]
    exact congrArg Except.ok (by omega)

/-- Characters of four bytes. -/
theorem sequence_of_four (least : 0x10000 ≤ char.toNat) : Nonempty (Sequence char) := by
  have range := toNat_range char
  have first := toNat_byte (0xF0 + char.toNat / 262144) (by omega)
  have second := toNat_byte (0x80 + char.toNat / 4096 % 64) (by omega)
  have third := toNat_byte (0x80 + char.toNat / 64 % 64) (by omega)
  have fourth := toNat_byte (0x80 + char.toNat / 1 % 64) (by omega)
  refine ⟨⟨UInt8.ofNat (0xF0 + char.toNat / 262144),
    [UInt8.ofNat (0x80 + char.toNat / 4096 % 64), UInt8.ofNat (0x80 + char.toNat / 64 % 64),
      UInt8.ofNat (0x80 + char.toNat / 1 % 64)],
    ⟨3, if 0xF0 + char.toNat / 262144 == 0xF0 then 0x90 else 0x80,
      if 0xF0 + char.toNat / 262144 == 0xF4 then 0x8F else 0xBF, char.toNat / 262144⟩,
      ?_, ?_, ?_, rfl, ?_⟩⟩
  · simp only [encodeCharacter]
    rw [if_neg (by omega), if_neg (by omega), if_neg (by omega)]
  · omega
  · rw [first, lead?, if_neg (by omega), if_neg (by omega), if_neg (by omega), if_pos (by omega)]
    simp
  · intro rest
    simp only [beq_iff_eq]
    apply readTails_cons
    · rw [second]
      split <;> omega
    · rw [second]
      split <;> omega
    apply readTails_cons (by omega) (by omega)
    apply readTails_cons (by omega) (by omega)
    rw [second, third, fourth]
    exact congrArg Except.ok (by omega)

/-- Every character beyond ASCII is written as a sequence that reading accepts. -/
theorem sequence_nonempty (char : Char) (beyond : 0x80 ≤ char.toNat) :
    Nonempty (Sequence char) := by
  by_cases two : char.toNat < 0x800
  · exact sequence_of_two beyond two
  · by_cases three : char.toNat < 0x10000
    · exact sequence_of_three (by omega) three
    · exact sequence_of_four (by omega)

/-- A sequence that reading accepts is how its character is written. -/
theorem encodeCharacter_of_read {first : UInt8} {lead : Lead}
    (demanded : lead? first.toNat = some lead)
    (read : readTails lead.tails lead.low lead.high lead.bits bytes = .ok code) :
    encodeCharacter (Char.ofNat code) = first :: bytes.take lead.tails := by
  have bound : first.toNat < 256 := first.toNat_lt
  simp only [lead?, beq_iff_eq] at demanded
  split at demanded
  · cases demanded
  split at demanded
  · -- two bytes
    cases demanded
    dsimp only at read
    obtain ⟨second, rest, rfl, least, most, read⟩ := readTails_succ read
    simp only [readTails] at read
    have same := Except.ok.inj read
    have number := toNat_ofNat code (by omega)
    simp only [encodeCharacter, number, take_succ_cons, take_zero]
    rw [if_neg (by omega), if_pos (by omega), byte_of_toNat first (by omega),
      byte_of_toNat second (by omega)]
  split at demanded
  · -- three bytes
    cases demanded
    dsimp only at read
    obtain ⟨second, rest, rfl, least, most, read⟩ := readTails_succ read
    obtain ⟨third, rest, rfl, thirdLeast, thirdMost, read⟩ := readTails_succ read
    simp only [readTails] at read
    have same := Except.ok.inj read
    have tight : 0x80 ≤ second.toNat ∧ second.toNat ≤ 0xBF ∧
        (first.toNat = 0xE0 → 0xA0 ≤ second.toNat) ∧ (first.toNat = 0xED → second.toNat ≤ 0x9F) := by
      split at least <;> split at most <;> omega
    have number := toNat_ofNat code (by omega)
    simp only [encodeCharacter, number, take_succ_cons, take_zero]
    rw [if_neg (by omega), if_neg (by omega), if_pos (by omega),
      byte_of_toNat first (by omega), byte_of_toNat second (by omega),
      byte_of_toNat third (by omega)]
  split at demanded
  · -- four bytes
    cases demanded
    dsimp only at read
    obtain ⟨second, rest, rfl, least, most, read⟩ := readTails_succ read
    obtain ⟨third, rest, rfl, thirdLeast, thirdMost, read⟩ := readTails_succ read
    obtain ⟨fourth, rest, rfl, fourthLeast, fourthMost, read⟩ := readTails_succ read
    simp only [readTails] at read
    have same := Except.ok.inj read
    have tight : 0x80 ≤ second.toNat ∧ second.toNat ≤ 0xBF ∧
        (first.toNat = 0xF0 → 0x90 ≤ second.toNat) ∧ (first.toNat = 0xF4 → second.toNat ≤ 0x8F) := by
      split at least <;> split at most <;> omega
    have number := toNat_ofNat code (by omega)
    simp only [encodeCharacter, number, take_succ_cons, take_zero]
    rw [if_neg (by omega), if_neg (by omega), if_neg (by omega),
      byte_of_toNat first (by omega), byte_of_toNat second (by omega),
      byte_of_toNat third (by omega), byte_of_toNat fourth (by omega)]
  · cases demanded

/-! ### Whole texts -/

/-- Bytes that belong to the last character are passed over. -/
theorem decodeFrom_pass (offset : Nat) (bytes rest : Bytes) :
    decodeFrom offset bytes.length (bytes ++ rest) = decodeFrom (offset + bytes.length) 0 rest := by
  induction bytes generalizing offset with
  | nil => rfl
  | cons byte bytes ih =>
    rw [length_cons, cons_append, decodeFrom, ih, Nat.add_right_comm, Nat.add_assoc]

/-- The bytes of a character are read as that character. -/
theorem decodeFrom_character (offset : Nat) (char : Char) (rest : Bytes) :
    ∃ next, decodeFrom offset 0 (encodeCharacter char ++ rest) =
      (decodeFrom next 0 rest).map (char :: ·) := by
  by_cases ascii : char.toNat < 0x80
  · have number := toNat_byte char.toNat (by omega)
    refine ⟨offset + 1, ?_⟩
    simp only [encodeCharacter, if_pos ascii, singleton_append, decodeFrom, number]
    rw [Char.ofNat_toNat]
  · obtain ⟨sequence⟩ := sequence_nonempty char (by omega)
    refine ⟨offset + 1 + sequence.tails.length, ?_⟩
    have notAscii : ¬ sequence.first.toNat < 0x80 := by
      have beyond := sequence.beyond
      omega
    simp only [sequence.encoded, cons_append, decodeFrom, if_neg notAscii, sequence.demanded,
      sequence.read rest, Char.ofNat_toNat]
    rw [← sequence.enough, decodeFrom_pass]

/-- Reading the bytes of a text gives the text back. -/
theorem decode_encode (text : Text) : decode (encode text) = .ok text := by
  suffices ∀ offset, decodeFrom offset 0 (encode text) = .ok text from this 0
  induction text with
  | nil => exact fun offset => rfl
  | cons char text ih =>
    intro offset
    obtain ⟨next, read⟩ := decodeFrom_character offset char (encode text)
    rw [encode, flatMap_cons, ← encode, read, ih]
    rfl

/-- A text that was read from bytes is written as the same bytes. The statement
counts the bytes that still belong to the character before. -/
theorem encode_of_decodeFrom {offset skip : Nat} (read : decodeFrom offset skip bytes = .ok text) :
    encode text = bytes.drop skip := by
  induction bytes generalizing offset skip text with
  | nil =>
    simp only [decodeFrom] at read
    cases read
    simp [encode]
  | cons byte bytes ih =>
    cases skip with
    | succ skip => exact ih read
    | zero =>
      simp only [decodeFrom] at read
      split at read
      · rename_i ascii
        cases later : decodeFrom (offset + 1) 0 bytes with
        | error fault =>
          rw [later] at read
          cases read
        | ok tail =>
          rw [later] at read
          cases read
          have number := toNat_ofNat byte.toNat (by omega)
          have rest := ih later
          simp only [encode, flatMap_cons, encodeCharacter, number, if_pos ascii]
          rw [UInt8.ofNat_toNat]
          simpa [encode] using rest
      · split at read
        · cases read
        · rename_i lead demanded
          split at read
          · rename_i code tails
            cases later : decodeFrom (offset + 1) lead.tails bytes with
            | error fault =>
              rw [later] at read
              cases read
            | ok tail =>
              rw [later] at read
              cases read
              have rest := ih later
              rw [encode, flatMap_cons, encodeCharacter_of_read demanded tails, ← encode, rest,
                cons_append, take_append_drop, drop_zero]
          · cases read

/-- The bytes that a text was read from are the bytes that it is written as. -/
theorem encode_of_decode (read : decode bytes = .ok text) : encode text = bytes :=
  encode_of_decodeFrom read

/-! ### Offsets in characters and in bytes -/

theorem encode_append (left right : Text) : encode (left ++ right) = encode left ++ encode right :=
  flatMap_append

private theorem length_encodeCharacter (char : Char) :
    (encodeCharacter char).length = width char := by
  rw [encodeCharacter, width]
  split
  · rfl
  · split
    · rfl
    · split <;> rfl

theorem length_encode (text : Text) : (encode text).length = size text := by
  induction text with
  | nil => rfl
  | cons head tail ih =>
    change (encodeCharacter head ++ encode tail).length = width head + size tail
    rw [length_append, length_encodeCharacter, ih]

theorem size_append (left right : Text) : size (left ++ right) = size left + size right := by
  rw [← length_encode, encode_append, length_append, length_encode, length_encode]

/-- The bytes before a character are those of the characters before it. -/
theorem take_encode (text : Text) (pos : Nat) :
    (encode text).take (size (text.take pos)) = encode (text.take pos) := by
  rw [← length_encode]
  conv => lhs; arg 2; rw [← take_append_drop pos text, encode_append]
  exact take_left

/-- The bytes between two characters are those of the characters between them. -/
theorem drop_take_encode (text : Text) (start stop : Nat) :
    ((encode text).take (size (text.take stop))).drop (size (text.take start)) =
      encode (text.slice start stop) := by
  rw [take_encode, Text.slice]
  by_cases ordered : start ≤ stop
  · have before : (text.take stop).take start = text.take start := by
      rw [take_take, Nat.min_eq_left ordered]
    conv => lhs; arg 2; rw [← take_append_drop start (text.take stop), encode_append, before]
    rw [← length_encode, drop_left]
  · -- Nothing stands between places in the wrong order.
    have inside : text.take start = text.take stop ++ (text.take start).drop stop := by
      conv => lhs; rw [← take_append_drop stop (text.take start), take_take,
        Nat.min_eq_left (by omega : stop ≤ start)]
    have short : (text.take stop).drop start = [] := by
      rw [drop_eq_nil_iff, length_take]
      omega
    rw [short, ← length_encode, drop_eq_nil_iff.mpr]
    · rfl
    · rw [inside, encode_append, length_append]
      omega

/-- Encoding is undone. -/
theorem text_encode (text : Text) : Utf8.text (encode text) = text := by
  rw [Utf8.text, decode_encode]
  rfl

/-- Dropping characters drops their bytes. -/
theorem drop_encode (text : Text) (pos : Nat) :
    (encode text).drop (size (text.take pos)) = encode (text.drop pos) := by
  rw [← length_encode]
  conv => lhs; arg 2; rw [← take_append_drop pos text, encode_append]
  exact drop_left

private theorem size_pos {text : Text} (nonempty : text ≠ []) : 0 < size text := by
  cases text with
  | nil => exact absurd rfl nonempty
  | cons head tail =>
    have width_pos : 0 < width head := by
      rw [width]
      split
      · omega
      · split
        · omega
        · split <;> omega
    exact Nat.add_pos_left width_pos _

/-- What stands before an offset takes as many bytes as what stands before an earlier one
and what stands between them. -/
theorem size_take (text : Text) {start stop : Nat} (before : start ≤ stop) :
    size (text.take stop) = size (text.take start) + size ((text.drop start).take (stop - start)) := by
  rw [← size_append, ← take_add, Nat.add_sub_cancel' before]

/-- Fewer characters have no more bytes. -/
theorem size_take_le (text : Text) {start stop : Nat} (before : start ≤ stop) :
    size (text.take start) ≤ size (text.take stop) := by
  rw [size_take text before]
  exact Nat.le_add_right _ _

/-- Different offsets in a text are different offsets in its bytes. -/
theorem size_take_lt (text : Text) {start stop : Nat} (before : start < stop)
    (inside : start < text.length) : size (text.take start) < size (text.take stop) := by
  have between : (text.drop start).take (stop - start) ≠ [] := by
    refine ne_nil_of_length_pos ?_
    rw [length_take, length_drop]
    omega
  rw [size_take text (Nat.le_of_lt before)]
  exact Nat.lt_add_of_pos_right (size_pos between)

/-- Offsets in bytes stand in the order of the offsets in characters. -/
theorem size_take_le_iff (text : Text) {start stop : Nat} (inside : start ≤ text.length) :
    size (text.take start) ≤ size (text.take stop) ↔ start ≤ stop := by
  refine ⟨fun sizes => ?_, size_take_le text⟩
  by_cases behind : stop < start
  · have reversed := size_take_lt text behind (by omega)
    omega
  · omega

/-- Whether a place that is counted in bytes stands between two characters of a text. -/
def IsBoundary (text : Text) (offset : Nat) : Prop :=
  ∃ pos ≤ text.length, size (text.take pos) = offset

/-- Places behind the end of a text mean its end. -/
theorem isBoundary_size_take (text : Text) (pos : Nat) :
    IsBoundary text (size (text.take pos)) := by
  refine ⟨min pos text.length, Nat.min_le_right _ _, ?_⟩
  rw [← take_take, take_length]

/-- The characters before a place are those that the bytes before it hold. -/
theorem characterOffset_size_take {text : Text} {pos : Nat} (inside : pos ≤ text.length) :
    characterOffset (encode text) (size (text.take pos)) = pos := by
  rw [characterOffset, take_encode, text_encode, length_take, Nat.min_eq_left inside]

end Phrasebook.Utf8
