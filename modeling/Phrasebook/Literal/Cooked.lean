import Phrasebook.Text.CodePoint

/-!
# Cooked literals

The value of the body of a string or template literal: escapes stand for the
characters they name, and escaped line ends are removed. A backslash at the very
end stays as it is.
-/

namespace Phrasebook.Literal

/-- Why an escape has no value. -/
inductive EscapeFault where
  /-- The number is beyond the last code point. -/
  | outOfRange
  /-- The number does not even fit in 31 bits. -/
  | tooLarge
  deriving Repr, DecidableEq

/-- A fault in words. -/
def EscapeFault.message : EscapeFault → String
  | outOfRange => "chr() arg not in range(0x110000)"
  | tooLarge => "Python int too large to convert to C int"

/-- What an escape stands for. -/
inductive Escape where
  /-- A code point by number. -/
  | numbered (code : Nat)
  /-- Code points that the escape spells out. -/
  | plain (text : Text)
  deriving Repr, DecidableEq

/-- The text of an escape of a single character. -/
def simple (char : Char) : Text :=
  if char == 'n' then ['\n']
  else if char == 'r' then ['\r']
  else if char == 't' then ['\t']
  else if char == 'b' then [Char.ofNat 8]
  else if char == 'f' then [Char.ofNat 12]
  else if char == 'v' then [Char.ofNat 11]
  else if char == '0' then [Char.ofNat 0]
  else if char == '\n' then []
  else if char.toNat == 0x2028 || char.toNat == 0x2029 then []
  else [char]

/-- Exactly `count` hexadecimal digits at the start of a text. -/
def hexDigits? (count : Nat) (text : Text) : Option Text :=
  let digits := text.take count
  if digits.length == count && digits.all Text.isHex then some digits else none

/-- Hexadecimal digits between braces at the start of a text. -/
def bracedDigits? : Text → Option Text
  | '{' :: rest =>
    let digits := rest.takeWhile Text.isHex
    match rest.drop digits.length with
    | '}' :: _ => if digits.isEmpty then none else some digits
    | _ => none
  | _ => none

/-- The escape behind a backslash, and how many characters it takes. -/
def escape? : Text → Option (Nat × Escape)
  | [] => none
  | '\r' :: '\n' :: _ => some (2, .plain [])
  | 'u' :: rest =>
    match bracedDigits? rest with
    | some digits => some (digits.length + 3, .numbered (Text.hexNumberOf digits))
    | none =>
      match hexDigits? 4 rest with
      | some digits => some (5, .numbered (Text.hexNumberOf digits))
      | none => some (1, .plain ['u'])
  | 'x' :: rest =>
    match hexDigits? 2 rest with
    | some digits => some (3, .numbered (Text.hexNumberOf digits))
    | none => some (1, .plain ['x'])
  | char :: _ => some (1, .plain (simple char))

/-- The code points that an escape stands for. -/
def Escape.value : Escape → Except EscapeFault (List CodePoint)
  | plain text => .ok (CodePoint.ofText text)
  | numbered code =>
    if code < 0x110000 then .ok [CodePoint.ofNat code]
    else if code < 0x80000000 then .error .outOfRange
    else .error .tooLarge

/-- Cooks a body; `skip` counts the characters that still belong to the last
escape. -/
def cookFrom : (skip : Nat) → Text → Except EscapeFault (List CodePoint)
  | _, [] => .ok []
  | skip + 1, _ :: rest => cookFrom skip rest
  | 0, '\\' :: rest =>
    match escape? rest with
    | none => .ok [.scalar '\\']
    | some (length, escape) => do
      let value ← escape.value
      let later ← cookFrom length rest
      return value ++ later
  | 0, char :: rest => do
    let later ← cookFrom 0 rest
    return .scalar char :: later

/-- The value of a literal's body. -/
def cook (body : Text) : Except EscapeFault (List CodePoint) :=
  cookFrom 0 body

end Phrasebook.Literal
