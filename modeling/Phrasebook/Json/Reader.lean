import Phrasebook.Json.Basic
import Phrasebook.Literal.Cooked
import Phrasebook.Mapping
import Phrasebook.Number.Integer

/-!
# Reading JSON

The value that a text writes, or the first fault in it. An object with a repeated
name keeps the last value under it.
-/

namespace Phrasebook

/-- The rest of a text, and how many characters stand before it. -/
structure Cursor where
  rest : Text
  offset : Nat
  deriving Repr, DecidableEq

namespace Cursor

/-- The cursor at the start of a text. -/
def start (text : Text) : Cursor := ⟨text, 0⟩

/-- The cursor some characters further on. -/
def advance (cursor : Cursor) (count : Nat) : Cursor :=
  ⟨cursor.rest.drop count, cursor.offset + count⟩

end Cursor

namespace Json

/-- Reads a part of a text or stops at a fault. -/
abbrev Reader := StateT Cursor (Except Fault)

/-- The characters between lexemes. -/
def isBlank (char : Char) : Bool :=
  char == ' ' || char == '\t' || char == '\n' || char == '\r'

/-- The character that an escape of one letter stands for. -/
def simpleEscape? (letter : Char) : Option Char :=
  if letter == '"' || letter == '\\' || letter == '/' then some letter
  else if letter == 'b' then some (Char.ofNat 8)
  else if letter == 'f' then some (Char.ofNat 12)
  else if letter == 'n' then some '\n'
  else if letter == 'r' then some '\r'
  else if letter == 't' then some '\t'
  else none

/-- Whether a code is that of a surrogate that comes first. -/
def isHighSurrogate (code : Nat) : Bool :=
  0xD800 ≤ code && code ≤ 0xDBFF

/-- Whether a code is that of a surrogate that comes second. -/
def isLowSurrogate (code : Nat) : Bool :=
  0xDC00 ≤ code && code ≤ 0xDFFF

/-- The character that two surrogates write. -/
def pairOf (high low : Nat) : Char :=
  Char.ofNat (0x10000 + (high - 0xD800) * 0x400 + (low - 0xDC00))

/-- The second escape of a pair, behind the digits of the first. -/
def secondEscape? : Text → Option Text
  | '\\' :: 'u' :: rest => if 4 < rest.length then some rest else none
  | _ => none

/-- The code point of an escape by number, whose letter stands at `offset`, and how
many characters it takes from there. The string must go on behind the digits. -/
def numberedEscape (offset : Nat) (rest : Text) : Except Fault (Nat × CodePoint) :=
  if rest.length ≤ 4 then .error ⟨.unicodeEscape, offset⟩
  else
    match Literal.hexDigits? 4 rest with
    | none => .error ⟨.unicodeEscape, offset⟩
    | some digits =>
      let code := Text.hexNumberOf digits
      match if isHighSurrogate code then secondEscape? (rest.drop 4) else none with
      | none => .ok (5, .ofNat code)
      | some second =>
        match Literal.hexDigits? 4 second with
        | none => .error ⟨.unicodeEscape, offset + 6⟩
        | some others =>
          let low := Text.hexNumberOf others
          if isLowSurrogate low then .ok (11, .scalar (pairOf code low)) else .ok (5, .ofNat code)

/-- The code point of an escape behind its backslash, and how many characters it
takes. The string starts at `begin`, and `offset` is that of the escape. -/
def escape (begin offset : Nat) : Text → Except Fault (Nat × CodePoint)
  | [] => .error ⟨.unterminated, begin⟩
  | letter :: rest =>
    if letter == 'u' then numberedEscape offset rest
    else
      match simpleEscape? letter with
      | some char => .ok (1, .scalar char)
      | none => .error ⟨.escape, offset - 1⟩

/-- The text of a string behind its opening quote, and how many characters it
takes with its closing quote. The string starts at `begin`; `skip` counts the
characters of the escape just met. -/
def stringFrom (begin : Nat) : (skip offset : Nat) → Text → Except Fault (CodePoints × Nat)
  | _, _, [] => .error ⟨.unterminated, begin⟩
  | skip + 1, offset, _ :: tail => do
    let (text, length) ← stringFrom begin skip (offset + 1) tail
    return (text, length + 1)
  | 0, offset, head :: tail =>
    if head == '"' then .ok ([], 1)
    else if head == '\\' then do
      let (size, point) ← escape begin (offset + 1) tail
      let (text, length) ← stringFrom begin size (offset + 1) tail
      return (point :: text, length + 1)
    else if head.toNat < 0x20 then .error ⟨.control, offset⟩
    else do
      let (text, length) ← stringFrom begin 0 (offset + 1) tail
      return (.scalar head :: text, length + 1)

/-- The length of the digits at the start of a text. -/
def digits (text : Text) : Nat :=
  (text.takeWhile Char.isDigit).length

/-- The length of the part of a number behind its point. -/
def fraction : Text → Nat
  | '.' :: rest => if digits rest == 0 then 0 else digits rest + 1
  | _ => 0

/-- The length of the exponent of a number. -/
def exponent : Text → Nat
  | mark :: rest =>
    if mark == 'e' || mark == 'E' then
      let sign := if rest.head? == some '+' || rest.head? == some '-' then 1 else 0
      let count := digits (rest.drop sign)
      if count == 0 then 0 else 1 + sign + count
    else 0
  | [] => 0

/-- The length of a number without its sign; zero when there is none. -/
def unsignedLength (text : Text) : Nat :=
  let whole := if text.head? == some '0' then 1 else digits text
  if whole == 0 then 0
  else
    let point := fraction (text.drop whole)
    whole + point + exponent (text.drop (whole + point))

/-- The length of a number; zero when there is none. -/
def numberLength : Text → Nat
  | '-' :: rest => let length := unsignedLength rest; if length == 0 then 0 else length + 1
  | text => unsignedLength text

/-- The words that write values. Those for numbers without digits count as
numbers. -/
def words : List (Text × Value) :=
  [("null".toList, .null), ("true".toList, .bool true), ("false".toList, .bool false),
    ("NaN".toList, .number "NaN".toList), ("Infinity".toList, .number "Infinity".toList),
    ("-Infinity".toList, .number "-Infinity".toList)]

/-- A word or a number at the start of a text, and how many characters it takes. -/
def atom? (text : Text) : Option (Nat × Value) :=
  match words.find? fun (word, _) => word.isPrefixOf text with
  | some (word, value) => some (word.length, value)
  | none =>
    let length := numberLength text
    if length == 0 then none else some (length, .number (text.take length))

/-- The number of digits of a whole number that has more of them than are read. -/
def longDigits? : Value → Option Nat
  | .number literal =>
    let digits := literal.dropWhile (· == '-')
    if digits.all Char.isDigit && Number.digitLimit < digits.length then some digits.length
    else none
  | _ => none

namespace Reader

/-- The next character. -/
def next : Reader (Option Char) := do
  return (← get).rest.head?

/-- Passes characters. -/
def pass (count : Nat) : Reader Unit :=
  modify fun cursor => cursor.advance count

/-- Passes the characters between lexemes. -/
def blanks : Reader Unit :=
  modify fun cursor => cursor.advance (cursor.rest.takeWhile isBlank).length

/-- Stops with a problem here. -/
def fault {α : Type} (problem : Problem) : Reader α := do
  throw ⟨problem, (← get).offset⟩

/-- Passes one character with the blanks behind it, or stops with a problem. -/
def expect (char : Char) (problem : Problem) : Reader Unit := do
  if (← next) == some char then
    pass 1
    blanks
  else fault problem

/-- A string. -/
def string : Reader CodePoints := do
  let cursor ← get
  let (text, length) ← stringFrom cursor.offset 0 (cursor.offset + 1) (cursor.rest.drop 1)
  pass (length + 1)
  return text

mutual

/-- A value that is at most `fuel` values deep and long. -/
def value : (fuel : Nat) → Reader Value
  | 0 => fault .value
  | fuel + 1 => do
    match ← next with
    | some '"' => return .string (← string)
    | some '{' =>
      pass 1
      blanks
      if (← next) == some '}' then
        pass 1
        return .object []
      else return .object (Mapping.ofPairs (← members fuel))
    | some '[' =>
      pass 1
      blanks
      if (← next) == some ']' then
        pass 1
        return .array []
      else return .array (← items fuel)
    | _ =>
      match atom? (← get).rest with
      | some (length, atom) =>
        match longDigits? atom with
        | some digits => fault (.longNumber digits)
        | none =>
          pass length
          return atom
      | none => fault .value

/-- The members of an object up to and with its closing brace. -/
def members : (fuel : Nat) → Reader (List (CodePoints × Value))
  | 0 => fault .value
  | fuel + 1 => do
    if (← next) != some '"' then fault .propertyName
    let key ← string
    blanks
    expect ':' .colon
    let member ← value fuel
    blanks
    if (← next) == some '}' then
      pass 1
      return [(key, member)]
    expect ',' .comma
    return (key, member) :: (← members fuel)

/-- The items of an array up to and with its closing bracket. -/
def items : (fuel : Nat) → Reader (List Value)
  | 0 => fault .value
  | fuel + 1 => do
    let item ← value fuel
    blanks
    if (← next) == some ']' then
      pass 1
      return [item]
    expect ',' .comma
    return item :: (← items fuel)

end

/-- A whole text. -/
def document : Reader Value := do
  if (← next) == some (Char.ofNat 0xFEFF) then fault .byteOrderMark
  blanks
  let result ← value ((← get).rest.length + 1)
  blanks
  if (← get).rest.isEmpty then return result else fault .extra

end Reader

/-- The value that a text writes. -/
def parse (text : Text) : Except Fault Value :=
  (Reader.document.run (Cursor.start text)).map Prod.fst

end Json

end Phrasebook
