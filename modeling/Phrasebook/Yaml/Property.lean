import Phrasebook.Number.Integer
import Phrasebook.Text.Utf8
import Phrasebook.Yaml.Token

/-!
# Tags, anchors and directives of YAML

What stands before a node or before a document.
-/

namespace Phrasebook.Yaml.Lexer

/-- The name of an anchor, behind its sign. -/
def anchorName : Lexer Text := do
  pass 1
  let name ← passWhile isNamePart
  require !name.isEmpty
  let next ← peek
  require (blankOrEnd next || next.any "?:,]\x7d%@".toList.contains ||
    next == some (Char.ofNat 0x60))
  return name

/-- A character of a tag that stands for itself. -/
def isTagPart (char : Char) : Bool :=
  char.isAlphanum || "-;/?:@&=+$,_.!~*'()[]".toList.contains char

/-- The bytes of the escapes that come next. -/
def tagBytes : (fuel : Nat) → Lexer Bytes
  | 0 => pure []
  | fuel + 1 => do
    if ← sees '%' then
      pass 1
      let digits := (← rest).take 2
      require (digits.length == 2 && digits.all Text.isHex)
      pass 2
      return UInt8.ofNat (Text.hexNumberOf digits) :: (← tagBytes fuel)
    else return []

/-- The rest of the text of a tag. -/
def tagRest : (fuel : Nat) → Lexer Text
  | 0 => pure []
  | fuel + 1 => do
    let plain ← passWhile isTagPart
    if ← sees '%' then
      match Utf8.decode (← tagBytes ((← rest).length + 1)) with
      | .ok escaped => return plain ++ escaped ++ (← tagRest fuel)
      | .error _ => fault
    else return plain

/-- The text of a tag behind its handle. -/
def tagText : Lexer Text := do
  let next ← peek
  require (next.any fun char => isTagPart char || char == '%')
  tagRest ((← rest).length + 1)

/-- The handle of a tag. -/
def tagHandle : Lexer Text := do
  require (← sees '!')
  pass 1
  if ← sees ' ' then return ['!']
  let name ← passWhile isNamePart
  require (← sees '!')
  pass 1
  return '!' :: name ++ ['!']

/-- Whether the tag that comes next has a handle of two exclamation marks. -/
def namesHandle (text : Text) : Bool :=
  ((text.drop 1).takeWhile fun char => !(char == ' ' || isBreak char)).contains '!'

/-- A tag. -/
def tag : Lexer Token := do
  let next ← peek 1
  let token : Token ←
    if next == some '<' then do
      pass 2
      let text ← tagText
      require (← sees '>')
      pass 1
      pure (.tag none text)
    else if blankOrEnd next then do
      pass 1
      pure (.tag none ['!'])
    else if namesHandle (← rest) then do
      let handle ← tagHandle
      pure (.tag (some handle) (← tagText))
    else do
      pass 1
      pure (.tag (some ['!']) (← tagText))
  require (spaceOrEnd (← peek))
  return token

/-- A number in a directive. -/
def directiveNumber : Lexer Nat := do
  let digits ← passWhile Char.isDigit
  require !digits.isEmpty
  match Number.readInteger 10 digits with
  | .ok number => return number.toNat
  | .error reason => throw (.scalar (.value (reason.message 10 digits)))

/-- What a directive of a certain name says. -/
def directiveBody (name : Text) : Lexer Directive := do
  if name == "YAML".toList then
    let _ ← passWhile (· == ' ')
    let major ← directiveNumber
    require (← sees '.')
    pass 1
    let _ ← directiveNumber
    require (spaceOrEnd (← peek))
    return .version major
  else if name == "TAG".toList then
    let _ ← passWhile (· == ' ')
    let handle ← tagHandle
    require (← sees ' ')
    let _ ← passWhile (· == ' ')
    let start ← tagText
    require (spaceOrEnd (← peek))
    return .handle handle start
  else
    let _ ← passWhile (!isBreak ·)
    return .other

/-- A directive up to the end of its line. -/
def directive : Lexer Token := do
  pass 1
  let name ← passWhile isNamePart
  require (!name.isEmpty && spaceOrEnd (← peek))
  let body ← directiveBody name
  let _ ← passWhile (· == ' ')
  if ← sees '#' then let _ ← passWhile (!isBreak ·)
  require (breakOrEnd (← peek))
  let _ ← lineBreak
  return .directive body

end Phrasebook.Yaml.Lexer
