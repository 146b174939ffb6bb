import Phrasebook.Yaml.Token

/-!
# Scalars of YAML

How the text of a scalar is written: plain, between quotes, or as a block.
Loops over a scalar take fuel from the length of what follows.
-/

namespace Phrasebook.Yaml.Lexer

/-! ### Between quotes -/

/-- The characters that an escape of one letter stands for. -/
def letterEscapes : List (Char × Char) :=
  [('0', Char.ofNat 0), ('a', Char.ofNat 7), ('b', Char.ofNat 8), ('t', '\t'), ('\t', '\t'),
    ('n', '\n'), ('v', Char.ofNat 0xB), ('f', Char.ofNat 0xC), ('r', '\r'), ('e', Char.ofNat 0x1B),
    (' ', ' '), ('"', '"'), ('\\', '\\'), ('/', '/'), ('N', Char.ofNat 0x85),
    ('_', Char.ofNat 0xA0), ('L', Char.ofNat 0x2028), ('P', Char.ofNat 0x2029)]

/-- How many digits an escape by number has. -/
def escapeDigits : List (Char × Nat) :=
  [('x', 2), ('u', 4), ('U', 8)]

/-- The line ends that blank lines inside a quoted scalar stand for. -/
def quotedBreaks : (fuel : Nat) → Lexer Text
  | 0 => pure []
  | fuel + 1 => do
    require !(← separatorAhead)
    let _ ← passWhile fun char => char == ' ' || char == '\t'
    let line ← lineBreak
    if line.isEmpty then return [] else return line ++ (← quotedBreaks fuel)

/-- The character of an escape by number. A surrogate becomes the replacement
character. -/
def numberedEscape (count : Nat) : Lexer Text := do
  let digits := (← rest).take count
  require (digits.length == count && digits.all Text.isHex)
  let code := Text.hexNumberOf digits
  if 0x7FFFFFFF < code then throw (.escape .tooLarge)
  if 0x10FFFF < code then throw (.escape .outOfRange)
  pass count
  return [if 0xD800 ≤ code && code ≤ 0xDFFF then Char.ofNat 0xFFFD else Char.ofNat code]

/-- What an escape behind its backslash stands for. -/
def quotedEscape : Lexer Text := do
  match ← peek with
  | none => fault
  | some letter =>
    match letterEscapes.lookup letter with
    | some char =>
      pass 1
      return [char]
    | none =>
      match escapeDigits.lookup letter with
      | some count =>
        pass 1
        numberedEscape count
      | none =>
        require (isBreak letter)
        let _ ← lineBreak
        quotedBreaks ((← rest).length + 1)

/-- A character that needs no thought inside quotes. -/
def isQuotedPlain (char : Char) : Bool :=
  !(char == '\'' || char == '"' || char == '\\' || char == ' ' ||
    char == '\t' || isBreak char)

/-- The text of a quoted scalar up to the next blank or its end. -/
def quotedWord (double : Bool) : (fuel : Nat) → Lexer Text
  | 0 => pure []
  | fuel + 1 => do
    let plain ← passWhile isQuotedPlain
    let next ← peek
    if !double && next == some '\'' && (← peek 1) == some '\'' then
      pass 2
      return plain ++ '\'' :: (← quotedWord double fuel)
    else if (double && next == some '\'') || (!double && (next == some '"' || next == some '\\'))
    then
      pass 1
      return plain ++ next.toList ++ (← quotedWord double fuel)
    else if double && next == some '\\' then
      pass 1
      let escaped ← quotedEscape
      return plain ++ escaped ++ (← quotedWord double fuel)
    else return plain

/-- The text that blanks and line ends inside quotes stand for: a single line end
is a space. -/
def quotedSpaces : Lexer Text := do
  let blanks ← passWhile fun char => char == ' ' || char == '\t'
  require (← peek).isSome
  let line ← lineBreak
  if line.isEmpty then return blanks
  let later ← quotedBreaks ((← rest).length + 1)
  return (if line != ['\n'] then line else if later.isEmpty then [' '] else []) ++ later

/-- The rest of a quoted scalar with its closing quote. -/
def quotedRest (double : Bool) : (fuel : Nat) → Lexer Text
  | 0 => fault
  | fuel + 1 => do
    if ← sees (if double then '"' else '\'') then
      pass 1
      return []
    let spaces ← quotedSpaces
    let word ← quotedWord double ((← rest).length + 1)
    return spaces ++ word ++ (← quotedRest double fuel)

/-- A quoted scalar. -/
def quoted : Lexer Token := do
  let double ← sees '"'
  pass 1
  let first ← quotedWord double ((← rest).length + 1)
  let later ← quotedRest double ((← rest).length + 1)
  return .scalar (first ++ later) false

/-! ### Plain -/

/-- The length of a run of a plain scalar. -/
def plainRun (flow : Bool) : Text → Nat
  | [] => 0
  | head :: tail =>
    let indicator := flow && ",?[]\x7b\x7d".toList.contains head
    let ends := head == ':' &&
      (blankOrEnd tail.head? || (flow && tail.head?.any ",[]\x7b\x7d".toList.contains))
    if blankOrEnd (some head) || indicator || ends then 0 else 1 + plainRun flow tail

/-- The line ends of blank lines inside a plain scalar; `none` where a line
separates documents. -/
def plainBreaks : (fuel : Nat) → Lexer (Option Text)
  | 0 => pure (some [])
  | fuel + 1 => do
    if ← sees ' ' then
      pass 1
      plainBreaks fuel
    else
      let line ← lineBreak
      if line.isEmpty then return some []
      if ← separatorAhead then return none
      return (← plainBreaks fuel).map (line ++ ·)

/-- The text that blanks and line ends inside a plain scalar stand for; `none` where
a line separates documents. -/
def plainSpaces : Lexer (Option Text) := do
  let blanks ← passWhile (· == ' ')
  let line ← lineBreak
  if line.isEmpty then return some blanks
  allowKey true
  if ← separatorAhead then return none
  match ← plainBreaks ((← rest).length + 1) with
  | none => return none
  | some later =>
    return some
      ((if line != ['\n'] then line else if later.isEmpty then [' '] else []) ++ later)

/-- The rest of a plain scalar that is indented to at least a column; `spaces` stand
before it. -/
def plainRest (column : Int) : (fuel : Nat) → (spaces : Text) → Lexer Text
  | 0, _ => pure []
  | fuel + 1, spaces => do
    if ← sees '#' then return []
    let length := plainRun (← inFlow) (← rest)
    if length == 0 then return []
    allowKey false
    let run := (← rest).take length
    pass length
    let next := (← plainSpaces).getD []
    let stops := next.isEmpty || (← sees '#') ||
      (!(← inFlow) && ((← get).spot.column : Int) < column)
    if stops then return spaces ++ run
    else return spaces ++ run ++ (← plainRest column fuel next)

/-- A plain scalar. -/
def plain : Lexer Token := do
  let column := (← get).indent + 1
  return .scalar (← plainRest column ((← rest).length + 1) []) true

/-! ### Blocks -/

/-- What is done with the line ends behind a block scalar. -/
inductive Chomping where
  | clip
  | strip
  | keep
  deriving Repr, DecidableEq

/-- The sign of a chomping. -/
def chomping? : Option Char → Option Chomping
  | some '+' => some .keep
  | some '-' => some .strip
  | _ => none

/-- A chomping, if one is written. -/
def chomping : Lexer (Option Chomping) := do
  match chomping? (← peek) with
  | some found =>
    pass 1
    return some found
  | none => return none

/-- An indentation, if one is written. -/
def increment : Lexer (Option Nat) := do
  match ← peek with
  | some digit =>
    if digit.isDigit then
      require (digit != '0')
      pass 1
      return some (digit.toNat - '0'.toNat)
    else return none
  | none => return none

/-- The head of a block scalar up to the end of its line. -/
def blockHead : Lexer (Chomping × Option Nat) := do
  let first ← chomping
  let count ← increment
  let last ← if first.isNone && count.isSome then chomping else pure none
  require (spaceOrEnd (← peek))
  let _ ← passWhile (· == ' ')
  if ← sees '#' then let _ ← passWhile (!isBreak ·)
  require (breakOrEnd (← peek))
  let _ ← lineBreak
  return ((first.or last).getD .clip, count)

/-- The line ends before a block scalar, and the largest column of a blank there. -/
def blockIndentation : (fuel : Nat) → Lexer (Text × Nat)
  | 0 => pure ([], 0)
  | fuel + 1 => do
    if ← sees ' ' then
      pass 1
      let column := (← get).spot.column
      let (breaks, largest) ← blockIndentation fuel
      return (breaks, max column largest)
    else
      let line ← lineBreak
      if line.isEmpty then return ([], 0)
      let (breaks, largest) ← blockIndentation fuel
      return (line ++ breaks, largest)

/-- Passes spaces up to a column. -/
def blockSpaces (column : Nat) : Lexer Unit := do
  let spaces := (← rest).takeWhile (· == ' ')
  pass (min spaces.length (column - (← get).spot.column))

/-- The line ends between lines of a block scalar. -/
def blockBreaks (column : Nat) : (fuel : Nat) → Lexer Text
  | 0 => pure []
  | fuel + 1 => do
    blockSpaces column
    let line ← lineBreak
    if line.isEmpty then return [] else return line ++ (← blockBreaks column fuel)

/-- Whether a line of a block scalar comes next. -/
def atBlockLine (column : Nat) : Lexer Bool := do
  return (← get).spot.column == column && (← peek).isSome

/-- Whether a blank comes next. -/
def atBlank : Lexer Bool := do
  return (← sees ' ') || (← sees '\t')

/-- The lines of a block scalar with `breaks` before them: its text, its last line
end, and the line ends behind it. -/
def blockLines (folded : Bool) (column : Nat) :
    (fuel : Nat) → (breaks : Text) → Lexer (Text × Text × Text)
  | 0, breaks => pure ([], [], breaks)
  | fuel + 1, breaks => do
    if !(← atBlockLine column) then return ([], [], breaks)
    let leading := !(← atBlank)
    let line ← passWhile (!isBreak ·)
    let ending ← lineBreak
    let later ← blockBreaks column ((← rest).length + 1)
    if ← atBlockLine column then
      let folds := folded && ending == ['\n'] && leading && !(← atBlank)
      let joint := if folds then (if later.isEmpty then [' '] else []) else ending
      let (text, last, behind) ← blockLines folded column fuel later
      return (breaks ++ line ++ joint ++ text, last, behind)
    else return (breaks ++ line, ending, later)

/-- A block scalar, folded or literal. -/
def block (folded : Bool) : Lexer Token := do
  pass 1
  let (chomped, count) ← blockHead
  let least := max 1 ((← get).indent + 1).toNat
  let fuel := (← rest).length + 1
  let (column, breaks) ←
    match count with
    | none => do
      let (breaks, largest) ← blockIndentation fuel
      pure (max least largest, breaks)
    | some count => do
      let column := least + count - 1
      pure (column, ← blockBreaks column fuel)
  let (text, last, behind) ← blockLines folded column fuel breaks
  let tail := match chomped with
    | .strip => []
    | .clip => last
    | .keep => last ++ behind
  return .scalar (text ++ tail) false

end Phrasebook.Yaml.Lexer
