import Phrasebook.Text.Utf8

/-!
# MD5

The message digest from which keys are derived. A message is padded to whole
blocks of sixteen words, and each block turns the four words of the state in
sixty-four steps.
-/

namespace Phrasebook.Digest.Md5

/-- The four words that the blocks of a message turn. -/
structure State where
  a : UInt32
  b : UInt32
  c : UInt32
  d : UInt32
  deriving Repr, DecidableEq

/-- The state before the first block. -/
def initial : State :=
  ⟨0x67452301, 0xEFCDAB89, 0x98BADCFE, 0x10325476⟩

/-- The rotations of the four steps that each round repeats. -/
def rotations : Array UInt32 :=
  #[7, 12, 17, 22, 5, 9, 14, 20, 4, 11, 16, 23, 6, 10, 15, 21]

/-- The constant of each step: the integer part of 2³² times the sine of the
step's number, without its sign. -/
def sines : Array UInt32 :=
  #[
    0xD76AA478, 0xE8C7B756, 0x242070DB, 0xC1BDCEEE, 0xF57C0FAF, 0x4787C62A,
    0xA8304613, 0xFD469501, 0x698098D8, 0x8B44F7AF, 0xFFFF5BB1, 0x895CD7BE,
    0x6B901122, 0xFD987193, 0xA679438E, 0x49B40821, 0xF61E2562, 0xC040B340,
    0x265E5A51, 0xE9B6C7AA, 0xD62F105D, 0x02441453, 0xD8A1E681, 0xE7D3FBC8,
    0x21E1CDE6, 0xC33707D6, 0xF4D50D87, 0x455A14ED, 0xA9E3E905, 0xFCEFA3F8,
    0x676F02D9, 0x8D2A4C8A, 0xFFFA3942, 0x8771F681, 0x6D9D6122, 0xFDE5380C,
    0xA4BEEA44, 0x4BDECFA9, 0xF6BB4B60, 0xBEBFBC70, 0x289B7EC6, 0xEAA127FA,
    0xD4EF3085, 0x04881D05, 0xD9D4D039, 0xE6DB99E5, 0x1FA27CF8, 0xC4AC5665,
    0xF4292244, 0x432AFF97, 0xAB9423A7, 0xFC93A039, 0x655B59C3, 0x8F0CCC92,
    0xFFEFF47D, 0x85845DD1, 0x6FA87E4F, 0xFE2CE6E0, 0xA3014314, 0x4E0811A1,
    0xF7537E82, 0xBD3AF235, 0x2AD7D2BB, 0xEB86D391]

/-- A word turned to the left. -/
def rotate (word amount : UInt32) : UInt32 :=
  (word <<< amount) ||| (word >>> (32 - amount))

/-- One step of a block. -/
def step (words : Array UInt32) (state : State) (index : Nat) : State :=
  let (mixed, word) :=
    if index < 16 then ((state.b &&& state.c) ||| (~~~state.b &&& state.d), index)
    else if index < 32 then
      ((state.d &&& state.b) ||| (~~~state.d &&& state.c), (5 * index + 1) % 16)
    else if index < 48 then (state.b ^^^ state.c ^^^ state.d, (3 * index + 5) % 16)
    else (state.c ^^^ (state.b ||| ~~~state.d), 7 * index % 16)
  let sum := mixed + state.a + sines.getD index 0 + words.getD word 0
  let amount := rotations.getD (index / 16 * 4 + index % 4) 0
  ⟨state.d, state.b + rotate sum amount, state.b, state.c⟩

/-- The state after a block. -/
def turn (state : State) (words : Array UInt32) : State :=
  let stepped := (List.range 64).foldl (step words) state
  ⟨state.a + stepped.a, state.b + stepped.b, state.c + stepped.c, state.d + stepped.d⟩

/-- The bytes of a number, least significant first. -/
def littleEndian : (count number : Nat) → Bytes
  | 0, _ => []
  | count + 1, number => UInt8.ofNat (number % 256) :: littleEndian count (number / 256)

/-- A message with its padding: one bit, zeros up to eight bytes before the end
of a block, and the length of the message in bits. -/
def padded (message : Bytes) : Bytes :=
  let zeros := (119 - message.length % 64) % 64
  message ++ 0x80 :: List.replicate zeros 0 ++ littleEndian 8 (8 * message.length)

/-- Four bytes at a time as words, least significant byte first. -/
def wordsOf : Bytes → List UInt32
  | a :: b :: c :: d :: bytes =>
    (a.toUInt32 ||| (b.toUInt32 <<< 8) ||| (c.toUInt32 <<< 16) ||| (d.toUInt32 <<< 24)) ::
      wordsOf bytes
  | _ => []

/-- The words of each of `count` blocks. -/
def blocksOf : (count : Nat) → List UInt32 → List (Array UInt32)
  | 0, _ => []
  | count + 1, words => (words.take 16).toArray :: blocksOf count (words.drop 16)

/-- The digest of a message in lower-case hexadecimal. -/
def hex (message : Bytes) : Text :=
  let words := wordsOf (padded message)
  let state := (blocksOf (words.length / 16) words).foldl turn initial
  let word (value : UInt32) : Bytes := littleEndian 4 value.toNat
  (word state.a ++ word state.b ++ word state.c ++ word state.d).flatMap
    fun byte => Text.hexPadded 2 byte.toNat

end Phrasebook.Digest.Md5
