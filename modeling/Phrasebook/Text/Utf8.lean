import Phrasebook.Text.Digit

/-!
# UTF-8

Writing a text as bytes, and reading bytes back as a text. Reading fails at the
first byte that no well-formed sequence allows, and says which bytes are at
fault and why.
-/

namespace Phrasebook

/-- The content of a file or buffer. -/
abbrev Bytes := List UInt8

namespace Utf8

/-- The bytes of one character. -/
def encodeCharacter (char : Char) : Bytes :=
  let code := char.toNat
  let tail (shift : Nat) : UInt8 := UInt8.ofNat (0x80 + code / shift % 64)
  if code < 0x80 then [UInt8.ofNat code]
  else if code < 0x800 then [UInt8.ofNat (0xC0 + code / 64), tail 1]
  else if code < 0x10000 then [UInt8.ofNat (0xE0 + code / 4096), tail 64, tail 1]
  else [UInt8.ofNat (0xF0 + code / 262144), tail 4096, tail 64, tail 1]

/-- The bytes of a text. -/
def encode (text : Text) : Bytes :=
  text.flatMap encodeCharacter

/-- The number of bytes that a character takes. -/
def width (char : Char) : Nat :=
  let code := char.toNat
  if code < 0x80 then 1 else if code < 0x800 then 2 else if code < 0x10000 then 3 else 4

/-- The number of bytes that a text takes. -/
def size (text : Text) : Nat :=
  (text.map width).foldr (· + ·) 0

/-- Why bytes are not well-formed. -/
inductive Reason where
  | badStart
  | badContinuation
  | truncated
  deriving Repr, DecidableEq

/-- A reason in words. -/
def Reason.message : Reason → String
  | badStart => "invalid start byte"
  | badContinuation => "invalid continuation byte"
  | truncated => "unexpected end of data"

/-- The bytes at which reading fails. -/
structure Fault where
  start : Nat
  bytes : Bytes
  reason : Reason
  deriving Repr, DecidableEq

/-- The message about a fault names its one byte, or the offsets of its ends. -/
def Fault.message (fault : Fault) : String :=
  match fault.bytes with
  | [byte] =>
    "'utf-8' codec can't decode byte 0x" ++ String.ofList (Text.hexPadded 2 byte.toNat) ++
      s!" in position {fault.start}: {fault.reason.message}"
  | bytes =>
    "'utf-8' codec can't decode bytes in position " ++
      s!"{fault.start}-{fault.start + bytes.length - 1}: {fault.reason.message}"

/-- What a first byte asks for: the number of bytes after it, the range of the
first of them, and the bits that it contributes itself. -/
structure Lead where
  tails : Nat
  low : Nat
  high : Nat
  bits : Nat

/-- The demands of a first byte beyond ASCII, if it can start a sequence. -/
def lead? (byte : Nat) : Option Lead :=
  if byte < 0xC2 then none
  else if byte < 0xE0 then some ⟨1, 0x80, 0xBF, byte - 0xC0⟩
  else if byte < 0xF0 then
    some ⟨2, if byte == 0xE0 then 0xA0 else 0x80, if byte == 0xED then 0x9F else 0xBF, byte - 0xE0⟩
  else if byte < 0xF5 then
    some ⟨3, if byte == 0xF0 then 0x90 else 0x80, if byte == 0xF4 then 0x8F else 0xBF, byte - 0xF0⟩
  else none

/-- Reads the bytes that `lead` still asks for. Success gives the code; failure
gives how many of them were well-formed and whether the bytes ran out. -/
def readTails : (tails low high code : Nat) → Bytes → Except (Nat × Reason) Nat
  | 0, _, _, code, _ => .ok code
  | _ + 1, _, _, _, [] => .error (0, .truncated)
  | tails + 1, low, high, code, byte :: bytes =>
    if low ≤ byte.toNat && byte.toNat ≤ high then
      match readTails tails 0x80 0xBF (code * 64 + (byte.toNat - 0x80)) bytes with
      | .ok result => .ok result
      | .error (taken, reason) => .error (taken + 1, reason)
    else .error (0, .badContinuation)

/-- Reads a text from bytes that start at `offset`; `skip` counts the bytes that
still belong to the last character. -/
def decodeFrom : (offset skip : Nat) → Bytes → Except Fault Text
  | _, _, [] => .ok []
  | offset, skip + 1, _ :: bytes => decodeFrom (offset + 1) skip bytes
  | offset, 0, byte :: bytes =>
    if byte.toNat < 0x80 then
      (decodeFrom (offset + 1) 0 bytes).map (Char.ofNat byte.toNat :: ·)
    else
      match lead? byte.toNat with
      | none => .error ⟨offset, [byte], .badStart⟩
      | some lead =>
        match readTails lead.tails lead.low lead.high lead.bits bytes with
        | .ok code => (decodeFrom (offset + 1) lead.tails bytes).map (Char.ofNat code :: ·)
        | .error (taken, reason) => .error ⟨offset, byte :: bytes.take taken, reason⟩

/-- The text that bytes hold, or the first fault. -/
def decode (bytes : Bytes) : Except Fault Text :=
  decodeFrom 0 0 bytes

/-- The text that bytes hold which are known to be well-formed. -/
def text (bytes : Bytes) : Text :=
  (decode bytes).toOption.getD []

/-- The number of characters before a place that is counted in bytes. -/
def characterOffset (bytes : Bytes) (offset : Nat) : Nat :=
  (text (bytes.take offset)).length

end Utf8

end Phrasebook
