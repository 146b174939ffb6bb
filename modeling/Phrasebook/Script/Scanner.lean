import Phrasebook.Grammar.Machine
import Phrasebook.Grammar.Scan
import Phrasebook.Script.Construct
import Phrasebook.Text.Class

/-!
# What patterns do not describe

Some parts of a script depend on what follows them, or on what could stand in their
place: the end of a statement without a semicolon, the question mark of a condition,
the texts of templates and of elements, and comments in the manner of markup.
-/

namespace Phrasebook.Script

open Grammar (Blueprint Scanned TerminalSet)
open Grammar.Scan (ended isBlank look pass passText?)

/-- The end of a line. -/
def endsLine (char : Char) : Bool :=
  char == '\n' || char.toNat == 0x2028 || char.toNat == 0x2029

/-! ### Comments -/

/-- Why a look ahead over blanks and comments ends. -/
inductive Sight where
  /-- Something else comes next. -/
  | clear
  /-- A comment within a line came, and something else comes next. -/
  | commented
  /-- A slash that is no comment came. -/
  | slash
  deriving Repr, DecidableEq

/-- What a look ahead over blanks and comments has seen. -/
structure Ahead where
  sight : Sight
  pos : Nat
  /-- Whether there was a comment. -/
  comment : Bool

/-- The end of a comment. -/
structure BlockEnd where
  pos : Nat
  closed : Bool
  /-- Whether a line has ended in the comment. -/
  hasLineEnd : Bool

/-- Looks for the end of a comment; `fuel` bounds its length. -/
def blockEnd (text : Array Char) : (fuel pos : Nat) → (hasLineEnd : Bool) → BlockEnd
  | 0, pos, hasLineEnd => ⟨pos, false, hasLineEnd⟩
  | fuel + 1, pos, hasLineEnd =>
    let next := look text pos
    if next == ended then ⟨pos, false, hasLineEnd⟩
    else if next == '*' && look text (pos + 1) == '/' then ⟨pos + 2, true, hasLineEnd⟩
    else blockEnd text fuel (pos + 1) (hasLineEnd || endsLine next)

/-- Looks over blanks and comments. With `stops`, a comment between two marks ends the
look unless a slash follows it. A comment between two marks counts as one in untyped
scripts only. -/
def lookOver (lang : Language) (stops : Bool) (text : Array Char) :
    (fuel pos : Nat) → (comment hasLineEnd : Bool) → Ahead
  | 0, pos, comment, _ => ⟨.clear, pos, comment⟩
  | fuel + 1, pos, comment, hasLineEnd =>
    let start := pass isBlank text pos
    if look text start != '/' then ⟨.clear, start, comment⟩
    else
      let mark := look text (start + 1)
      if mark == '/' then
        lookOver lang stops text fuel (pass (!endsLine ·) text (start + 2)) true hasLineEnd
      else if mark == '*' then
        let block := blockEnd text (text.size - start) (start + 2) hasLineEnd
        let comment := comment || (block.closed && lang == .javascript)
        if stops && block.closed && look text block.pos != '/' then
          ⟨if block.hasLineEnd then .clear else .commented, block.pos, comment⟩
        else lookOver lang stops text fuel block.pos comment block.hasLineEnd
      else ⟨.slash, start + 1, comment⟩

/-- Looks over blanks and comments from a place. -/
def aheadOf (lang : Language) (stops : Bool) (text : Array Char) (pos : Nat) : Ahead :=
  lookOver lang stops text (text.size - pos + 1) pos false false

/-! ### Ends of statements -/

/-- What could stand at a place. -/
structure Possible where
  semicolon : Bool
  signature : Bool
  template : Bool
  ternary : Bool
  elementText : Bool
  comment : Bool
  /-- An operator between two values. -/
  operator : Bool
  escape : Bool
  regex : Bool

/-- Whether a statement ends at a place, and how far the script was read for that. -/
structure Ending where
  ends : Bool
  pos : Nat
  /-- Whether there was a comment. -/
  comment : Bool := false

/-- Whether a word that starts with the letters of an operator is more than that. -/
def passesOperator (text : Array Char) (pos : Nat) : Ending :=
  let rec follow : (letters : List Char) → Nat → Ending
    | [], pos => ⟨Text.isLetter (look text pos), pos, false⟩
    | letter :: letters, pos =>
      if look text pos == letter then follow letters (pos + 1)
      else ⟨true, pos, false⟩
  if look text pos != 'n' then ⟨true, pos, false⟩
  else if !Text.isLetter (look text (pos + 1)) then ⟨false, pos + 1, false⟩
  else follow "stanceof".toList (pos + 1)

/-- Whether a new statement starts at a place that a line end is before. -/
def startsStatement (lang : Language) (possible : Possible) (text : Array Char)
    (pos : Nat) : Ending :=
  let next := look text pos
  let after := look text (pos + 1)
  let typed := lang == .typescript
  let stays (ends : Bool) : Ending := ⟨ends, pos, false⟩
  let reads (ends : Bool) : Ending := ⟨ends, pos + 1, false⟩
  if "`,;*%>=?^|&/:<".toList.contains next then stays false
  else match next with
    | '(' | '[' => stays (typed && !possible.operator)
    | '.' => if typed then stays false else reads after.isDigit
    | '{' => stays (!(typed && possible.signature))
    | '+' => reads (after == '+')
    | '-' => reads (after == '-')
    | '!' => reads (after != '=')
    | 'i' => passesOperator text (pos + 1)
    | _ => stays true

/-- Whether a statement of an untyped script ends at a place; `fuel` bounds the
blanks. -/
def endsUntyped (possible : Possible) (text : Array Char) :
    (fuel pos : Nat) → (comment : Bool) → Ending
  | 0, pos, comment => ⟨false, pos, comment⟩
  | fuel + 1, pos, comment =>
    let next := look text pos
    if next == ended then ⟨true, pos, comment⟩
    else
      let ahead : Ahead :=
        if next == '/' then aheadOf .javascript true text pos
        else ⟨.commented, pos, false⟩
      let comment := comment || ahead.comment
      let next := look text ahead.pos
      match ahead.sight with
      | .slash => ⟨false, ahead.pos, comment⟩
      | sight =>
        if sight == .clear && !possible.operator && next != ',' && next != '=' then
          ⟨true, ahead.pos, comment⟩
        else if next == '}' then ⟨true, ahead.pos, comment⟩
        else if endsLine next then
          let line := aheadOf .javascript false text (ahead.pos + 1)
          let comment := comment || line.comment
          if line.sight == .slash then ⟨false, line.pos, comment⟩
          else { startsStatement .javascript possible text line.pos with comment }
        else if !isBlank next then ⟨false, ahead.pos, comment⟩
        else endsUntyped possible text fuel (ahead.pos + 1) comment

/-- Whether a statement of a typed script ends at a place; `fuel` bounds the blanks. -/
def endsTyped (possible : Possible) (text : Array Char) : (fuel pos : Nat) → Ending
  | 0, pos => ⟨false, pos, false⟩
  | fuel + 1, pos =>
    let next := look text pos
    if next == ended then ⟨true, pos, false⟩
    else if next == '}' then
      let behind := pass isBlank text (pos + 1)
      ⟨look text behind != ':' || possible.operator, behind, false⟩
    else if next == '\n' then
      let line := aheadOf .typescript false text (pos + 1)
      if line.sight == .slash then ⟨false, line.pos, line.comment⟩
      else { startsStatement .typescript possible text line.pos with comment := line.comment }
    else if !isBlank next then ⟨false, pos, false⟩
    else endsTyped possible text fuel (pos + 1)

/-- Whether a statement ends at a place. -/
def endsAt (possible : Possible) (text : Array Char) (pos : Nat) : Language → Ending
  | .javascript => endsUntyped possible text (text.size - pos + 1) pos false
  | .typescript => endsTyped possible text (text.size - pos + 1) pos

/-! ### Other parts -/

/-- A part of a script by its ends. -/
structure Part where
  construct : Construct
  start : Nat
  stop : Nat

/-- The question mark of a condition. One that belongs to another operator, or to a
parameter that can be left out, is none. -/
def ternaryAt (lang : Language) (text : Array Char) (pos : Nat) : Option Part :=
  let start := pass isBlank text pos
  let after := look text (start + 1)
  let found : Part := ⟨.ternaryMark, start, start + 1⟩
  if look text start != '?' || after == '?' then none
  else match lang with
    | .javascript =>
      if after == '.' && !(look text (start + 2)).isDigit then none else some found
    | .typescript =>
      let behind := pass isBlank text (start + 1)
      let next := look text behind
      if after == '.' || next == ':' || next == ')' || next == ',' then none
      else if next == '.' && !(look text (behind + 1)).isDigit then none
      else some found

/-- The place at which the text of a template ends, if it ends; `fuel` bounds its
length. -/
def templateEnd (text : Array Char) : (fuel pos : Nat) → Option Nat
  | 0, _ => none
  | fuel + 1, pos =>
    let next := look text pos
    if next == ended then none
    else if next == Char.ofNat 0x60 || next == '\\' then some pos
    else if next == '$' && look text (pos + 1) == '{' then some pos
    else templateEnd text fuel (pos + 1)

/-- The text of a template up to a mark. -/
def templateAt (text : Array Char) (pos : Nat) : Option Part :=
  match templateEnd text (text.size - pos + 1) pos with
  | some stop => if pos < stop then some ⟨.templateCharacters, pos, stop⟩ else none
  | none => none

/-- A comment in the manner of markup, which a line ends. The part starts at `start`
unless blanks come first. -/
def markupCommentAt (text : Array Char) (start pos : Nat) : Option Part :=
  let behind := pass isBlank text pos
  let opened? := match look text behind with
    | '<' => passText? text behind "<!--".toList
    | '-' => passText? text behind "-->".toList
    | _ => none
  opened?.map fun opened =>
    ⟨.htmlComment, if behind == pos then start else behind, pass (!endsLine ·) text opened⟩

/-- Reads the text of an element. The result says where it ends, and whether it holds
more than blanks around line ends; `fuel` bounds its length. -/
def elementTextFrom (text : Array Char) :
    (fuel pos : Nat) → (atLineEnd holdsText : Bool) → Nat × Bool
  | 0, pos, _, holdsText => (pos, holdsText)
  | fuel + 1, pos, atLineEnd, holdsText =>
    let next := look text pos
    if next == ended || "<>\x7b\x7d&".toList.contains next then (pos, holdsText)
    else if next == '\n' then elementTextFrom text fuel (pos + 1) true holdsText
    else
      let blankLine := atLineEnd && isBlank next
      elementTextFrom text fuel (pos + 1) blankLine (holdsText || !blankLine)

/-! ### The scanner -/

/-- The part that is found at a place where some parts are possible. -/
def partAt (lang : Language) (possible : Possible) (text : Array Char) (pos : Nat) :
    Option Part :=
  let (afterText, holdsText) :=
    if possible.elementText then
      elementTextFrom text (text.size - pos) pos false false
    else (pos, false)
  if possible.template then
    if possible.semicolon then none else templateAt text pos
  else if holdsText then some ⟨.elementText, pos, afterText⟩
  else if possible.semicolon || possible.signature then
    let ending := endsAt possible text afterText lang
    if ending.ends then some ⟨.automaticSemicolon, afterText, afterText⟩
    else if !ending.comment && possible.ternary && look text ending.pos == '?' then
      ternaryAt lang text ending.pos
    else none
  else if possible.ternary then ternaryAt lang text afterText
  else if possible.comment && !possible.operator && !possible.escape && !possible.regex then
    markupCommentAt text pos afterText
  else none

/-- The scanner of a language. It remembers nothing. -/
def scanner (lang : Language) (plan : Blueprint Construct Field) :
    Array Char → Nat → TerminalSet → Option Unit → Option (Scanned Unit) :=
  let semicolon := plan.terminalOf .automaticSemicolon
  let signature := plan.terminalOf .signatureSemicolon
  let template := plan.terminalOf .templateCharacters
  let ternary := plan.terminalOf .ternaryMark
  let elementText := plan.terminalOf .elementText
  let comment := plan.terminalOf .htmlComment
  let operator := plan.tokenNumber (.literal "||")
  let escape := plan.terminalOf .escapeSequence
  let regex := plan.terminalOf .regexPattern
  fun text pos wanted _ =>
    let possible : Possible :=
      { semicolon := wanted.has semicolon
        signature := wanted.has signature
        template := wanted.has template
        ternary := wanted.has ternary
        elementText := wanted.has elementText
        comment := wanted.has comment
        operator := wanted.has operator
        escape := wanted.has escape
        regex := wanted.has regex }
    (partAt lang possible text pos).map fun part =>
      { lexeme := ⟨plan.terminalOf part.construct, part.start, part.stop⟩ }

end Phrasebook.Script
