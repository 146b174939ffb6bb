import Phrasebook.Component.Grammar
import Phrasebook.Grammar.Machine
import Phrasebook.Grammar.Scan
import Phrasebook.Text.Lower
import Phrasebook.Text.Class

/-!
# Tags and texts

The scanner of components remembers the open elements. By them it knows which end tag
belongs to an element, and where an element ends without one. It also finds comments,
the texts between tags, and the content of scripts and styles.
-/

namespace Phrasebook.Component

open Grammar (Blueprint Scanned TerminalSet)
open Grammar.Scan (isBlank isOver look pass)

/-- The names of open elements in capitals, the innermost one first. -/
abbrev OpenElements := List Text

/-! ### Elements -/

/-- Elements that have no content. -/
def voidNames : List Text :=
  ["AREA", "BASE", "BASEFONT", "BGSOUND", "BR", "COL", "COMMAND", "EMBED", "FRAME", "HR", "IMAGE",
    "IMG", "INPUT", "ISINDEX", "KEYGEN", "LINK", "MENUITEM", "META", "NEXTID", "PARAM", "SOURCE",
    "TRACK", "WBR"].map String.toList

/-- All other elements of the markup language. -/
def knownNames : List Text :=
  ["A", "ABBR", "ADDRESS", "ARTICLE", "ASIDE", "AUDIO", "B", "BDI", "BDO", "BLOCKQUOTE", "BODY",
    "BUTTON", "CANVAS", "CAPTION", "CITE", "CODE", "COLGROUP", "DATA", "DATALIST", "DD", "DEL",
    "DETAILS", "DFN", "DIALOG", "DIV", "DL", "DT", "EM", "FIELDSET", "FIGCAPTION", "FIGURE",
    "FOOTER", "FORM", "H1", "H2", "H3", "H4", "H5", "H6", "HEAD", "HEADER", "HGROUP", "HTML", "I",
    "IFRAME", "INS", "KBD", "LABEL", "LEGEND", "LI", "MAIN", "MAP", "MARK", "MATH", "MENU",
    "METER", "NAV", "NOSCRIPT", "OBJECT", "OL", "OPTGROUP", "OPTION", "OUTPUT", "P", "PICTURE",
    "PRE", "PROGRESS", "Q", "RB", "RP", "RT", "RTC", "RUBY", "S", "SAMP", "SCRIPT", "SECTION",
    "SELECT", "SLOT", "SMALL", "SPAN", "STRONG", "STYLE", "SUB", "SUMMARY", "SUP", "SVG", "TABLE",
    "TBODY", "TD", "TEMPLATE", "TEXTAREA", "TFOOT", "TH", "THEAD", "TIME", "TITLE", "TR", "U",
    "UL", "VAR", "VIDEO"].map String.toList

/-- The kind of an element: its name if the markup language has it. All others are of
one kind. -/
def kind (name : Text) : Option Text :=
  if voidNames.contains name || knownNames.contains name then some name else none

/-- The elements that end a paragraph. -/
def paragraphEnders : List Text :=
  ["ADDRESS", "ARTICLE", "ASIDE", "BLOCKQUOTE", "DETAILS", "DIV", "DL", "FIELDSET", "FIGCAPTION",
    "FIGURE", "FOOTER", "FORM", "H1", "H2", "H3", "H4", "H5", "H6", "HEADER", "HR", "MAIN", "NAV",
    "OL", "P", "PRE", "SECTION"].map String.toList

/-- Elements with the elements that end them. -/
def enders : List (Text × List Text) :=
  [("LI", ["LI"]), ("DT", ["DT", "DD"]), ("DD", ["DT", "DD"]), ("RB", ["RB", "RT", "RP"]),
    ("RT", ["RB", "RT", "RP"]), ("RP", ["RB", "RT", "RP"]), ("OPTGROUP", ["OPTGROUP"]),
    ("TR", ["TR"]), ("TD", ["TD", "TH", "TR"]), ("TH", ["TD", "TH", "TR"])].map
      fun (name, others) => (name.toList, others.map String.toList)

/-- Whether an element can hold another one. -/
def canHold (parent child : Text) : Bool :=
  if parent == ['P'] then !paragraphEnders.contains child
  else if parent == "COLGROUP".toList then child == "COL".toList
  else !((enders.lookup parent).getD []).contains child

/-! ### Names -/

/-- A character of the name of an element. -/
def isNamePart (char : Char) : Bool :=
  Text.isLetterOrDigit char || char == '-' || char == ':'

/-- The name at a place in capitals, and the place behind it. -/
def nameAt (text : Array Char) (pos : Nat) : Text × Nat :=
  let stop := pass isNamePart text pos
  ((text.extract pos stop).toList.map Text.capital, stop)

/-! ### Parts -/

/-- What could stand at a place. -/
structure Possible where
  startName : Bool
  endName : Bool
  implicitEnd : Bool
  rawText : Bool
  textFragment : Bool
  interpolation : Bool
  selfClosing : Bool

/-- A part that was found, with the elements that are open behind it. -/
structure Part where
  /-- The construct; the end of an empty element is none. -/
  construct : Option Construct
  stop : Nat
  opened : OpenElements

/-- The place at which a raw text ends: where its end tag starts. `found` are the
characters of the end tag that were just found, `left` are the others, `stop` is the
place behind the last character that is none of them, and `fuel` bounds the
characters. -/
def rawEnd (ending : List Char) (text : Array Char) :
    (fuel pos stop : Nat) → (left : List Char) → Nat
  | 0, _, stop, _ => stop
  | _ + 1, _, stop, [] => stop
  | fuel + 1, pos, stop, expected :: left =>
    if isOver text pos then stop
    else if Text.capital (look text pos) == expected then
      rawEnd ending text fuel (pos + 1) stop left
    else rawEnd ending text fuel (pos + 1) (pos + 1) ending

/-- The content of a script or of a style. -/
def rawTextAt (opened : OpenElements) (text : Array Char) (pos : Nat) : Option Part :=
  match opened with
  | [] => none
  | name :: _ =>
    let ending := if name == "SCRIPT".toList then "</SCRIPT".toList else "</STYLE".toList
    let stop := rawEnd ending text (text.size - pos + 1) pos pos ending
    some ⟨some .rawText, stop, opened⟩

/-- How a text between tags ends. -/
inductive TextEnd where
  /-- Something else starts. -/
  | followed (stop : Nat)
  /-- An interpolation ends. -/
  | closed (stop : Nat)
  | none

/-- Looks for the end of a text between tags; `isFirst` says that nothing was read yet,
and `fuel` bounds the characters. -/
def textEnd (interpolation : Bool) (text : Array Char) :
    (fuel pos : Nat) → (isFirst : Bool) → TextEnd
  | 0, _, _ => .none
  | fuel + 1, pos, isFirst =>
    let next := look text pos
    let after := look text (pos + 1)
    let goOn := textEnd interpolation text fuel (pos + 1) false
    if isOver text pos then .none
    else if isFirst && next == '>' && !interpolation then .none
    else match next with
      | '<' =>
        if Text.isLetter after || after == '!' || after == '?' || after == '/' then
          .followed pos
        else goOn
      | '{' => if after == '{' then .followed pos else goOn
      | '}' => if interpolation && after == '}' then .closed pos else goOn
      | _ => goOn

/-- A text between tags, or the text of an interpolation. -/
def textAt (possible : Possible) (opened : OpenElements) (text : Array Char) (pos : Nat) :
    Option Part :=
  let found (construct : Construct) (stop : Nat) : Option Part :=
    if pos < stop then some ⟨some construct, stop, opened⟩ else none
  match textEnd possible.interpolation text (text.size - pos + 1) pos true with
  | .followed stop => found .textFragment stop
  | .closed stop => found .interpolationText stop
  | .none => none

/-- The place behind a comment whose start was read, if it ends. `dashes` counts the
dashes just read, and `fuel` bounds the characters. -/
def commentEnd (text : Array Char) : (fuel pos dashes : Nat) → Option Nat
  | 0, _, _ => none
  | fuel + 1, pos, dashes =>
    if isOver text pos then none
    else match look text pos with
      | '-' => commentEnd text fuel (pos + 1) (dashes + 1)
      | '>' => if 2 ≤ dashes then some (pos + 1) else commentEnd text fuel (pos + 1) 0
      | _ => commentEnd text fuel (pos + 1) 0

/-- A comment whose first two characters were read. -/
def commentAt (opened : OpenElements) (text : Array Char) (pos : Nat) : Option Part :=
  if look text pos == '-' && look text (pos + 1) == '-' then
    (commentEnd text (text.size - pos) (pos + 2) 0).map fun stop =>
      ⟨some .comment, stop, opened⟩
  else none

/-- The end of the innermost element before a tag or before the end of the text, if it
has none of its own. The name of the tag starts at `pos`. -/
def implicitEndAt (opened : OpenElements) (text : Array Char) (pos stop : Nat) :
    Option Part :=
  let closes := look text pos == '/'
  let start := if closes then pos + 1 else pos
  let (name, behind) := nameAt text start
  let atEnd := text.size ≤ behind
  let found : Option Part := some ⟨some .implicitEnd, stop, opened.tail⟩
  match opened with
  | [] => none
  | parent :: _ =>
    if !closes && voidNames.contains parent then found
    else if name.isEmpty && !atEnd then none
    else if closes then
      if parent == name then none
      else if opened.any fun other => kind other == kind name then found
      else none
    else
      let endsWithText := ["HTML", "HEAD", "BODY"].any fun other => parent == other.toList
      if !canHold ((kind parent).getD []) ((kind name).getD []) || (endsWithText && atEnd) then found
      else none

/-- The name in a start tag. -/
def startNameAt (opened : OpenElements) (text : Array Char) (pos : Nat) : Option Part :=
  let (name, stop) := nameAt text pos
  let construct : Construct :=
    if name == "TEMPLATE".toList then .templateStartName
    else if name == "SCRIPT".toList then .scriptStartName
    else if name == "STYLE".toList then .styleStartName
    else .startName
  if name.isEmpty then none else some ⟨some construct, stop, name :: opened⟩

/-- The name in an end tag, which belongs to the innermost element or to none. -/
def endNameAt (opened : OpenElements) (text : Array Char) (pos : Nat) : Option Part :=
  let (name, stop) := nameAt text pos
  if name.isEmpty then none
  else if opened.head? == some name then some ⟨some .endName, stop, opened.tail⟩
  else some ⟨some .strayEndName, stop, opened⟩

/-- The end of a tag that is a whole element. -/
def selfClosingAt (opened : OpenElements) (text : Array Char) (pos : Nat) : Option Part :=
  if look text (pos + 1) == '>' && !opened.isEmpty then
    some ⟨none, pos + 2, opened.tail⟩
  else none

/-- The part at a place, and the place behind the blanks in front of it. -/
def partAt (possible : Possible) (opened : OpenElements) (text : Array Char) (pos : Nat) :
    Option (Nat × Part) :=
  let faulty := possible.startName && possible.rawText
  if possible.rawText && !possible.startName && !possible.endName then
    (rawTextAt opened text pos).map fun part => (pos, part)
  else
    let start := pass isBlank text pos
    let next := look text start
    let found :=
      if !faulty && next != '<' && (possible.textFragment || possible.interpolation) then
        textAt possible opened text start
      else if next == '<' then
        if look text (start + 1) == '!' then commentAt opened text (start + 2)
        else if possible.implicitEnd then implicitEndAt opened text (start + 1) start
        else none
      else if isOver text start then
        if possible.implicitEnd then implicitEndAt opened text start start else none
      else if next == '/' then
        if possible.selfClosing then selfClosingAt opened text start else none
      else if possible.rawText then none
      else if possible.startName then startNameAt opened text start
      else if possible.endName then endNameAt opened text start
      else none
    found.map fun part => (start, part)

/-! ### The scanner -/

/-- The token that ends a tag that is a whole element. The scanner finds it too. -/
def selfClosing (plan : Blueprint Construct Field) : Nat :=
  plan.tokenNumber (.literal "/>")

/-- The scanner of components. -/
def scanner (plan : Blueprint Construct Field) :
    Array Char → Nat → TerminalSet → Option OpenElements → Option (Scanned OpenElements) :=
  let terminal := plan.terminalOf
  fun text pos wanted memory =>
    let possible : Possible :=
      { startName := wanted.has (terminal .startName)
        endName := wanted.has (terminal .endName)
        implicitEnd := wanted.has (terminal .implicitEnd)
        rawText := wanted.has (terminal .rawText)
        textFragment := wanted.has (terminal .textFragment)
        interpolation := wanted.has (terminal .interpolationText)
        selfClosing := wanted.has (selfClosing plan) }
    (partAt possible (memory.getD []) text pos).map fun (start, part) =>
      let found := match part.construct with
        | some construct => terminal construct
        | none => selfClosing plan
      { lexeme := ⟨found, start, part.stop⟩, memory := some part.opened }

end Phrasebook.Component
