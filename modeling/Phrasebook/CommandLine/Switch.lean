import Phrasebook.Text.Digit

/-!
# Switches of the command line

The switches, how they are spelled, and which words of a command line are meant
as switches.
-/

namespace Phrasebook.CommandLine

/-- A switch. -/
inductive Switch where
  | help
  | output
  | config
  | dryRun
  | verbose
  | logFile
  deriving Repr, DecidableEq

namespace Switch

/-- Every switch, in the order of the help text. -/
def all : List Switch := [help, output, config, dryRun, verbose, logFile]

/-- The spellings of a switch. -/
def spellings : Switch → List String
  | help => ["-h", "--help"]
  | output => ["-o", "--output"]
  | config => ["-c", "--config"]
  | dryRun => ["--dry-run"]
  | verbose => ["-v", "--verbose"]
  | logFile => ["--log-file"]

/-- Whether a value follows a switch. -/
def takesValue : Switch → Bool
  | output | config | logFile => true
  | help | dryRun | verbose => false

/-- The name of a switch in messages. -/
def name (switch : Switch) : Text :=
  Text.join ['/'] (switch.spellings.map String.toList)

/-- Every spelling with its switch. -/
def table : List (Text × Switch) :=
  all.flatMap fun switch => switch.spellings.map fun spelling => (spelling.toList, switch)

/-- The switch of a spelling. -/
def ofSpelling? (spelling : Text) : Option Switch :=
  table.lookup spelling

end Switch

/-- A value that is written in one word with its switch. -/
structure Attached where
  /-- Whether an equals sign stands in front of it. -/
  signed : Bool
  text : Text
  deriving Repr, DecidableEq

/-- A switch as a word writes it. -/
structure Spelled where
  switch : Switch
  /-- Whether the spelling has two dashes. -/
  long : Bool
  attached : Option Attached := none
  deriving Repr, DecidableEq

/-- What a word of the command line is. -/
inductive Word where
  | value (text : Text)
  | switch (spelled : Spelled)
  /-- A word that looks like a switch and is none. -/
  | stray (text : Text)
  /-- The two dashes behind which every word is a value. -/
  | separator
  deriving Repr, DecidableEq

/-- A fault in the use of the command line. -/
inductive Misuse where
  | ambiguous (word : Text) (spellings : List Text)
  | missingValue (switch : Switch)
  | unusedValue (switch : Switch) (value : Text)
  | missingSource
  | unknownWords (words : List Text)
  deriving Repr, DecidableEq

namespace Word

/-- Whether a word writes a negative number. -/
def isNegativeNumber : Text → Bool
  | '-' :: rest =>
    let (whole, behind) := rest.span Text.isDigit
    match behind with
    | [] => !whole.isEmpty
    | '.' :: fraction => !fraction.isEmpty && fraction.all Text.isDigit
    | _ => false
  | _ => false

/-- A word cut at its first equals sign. -/
def cutValue (word : Text) : Text × Option Attached :=
  match Text.cutAt? ['='] word with
  | some (spelling, behind) => (spelling, some ⟨true, behind⟩)
  | none => (word, none)

/-- Whether a spelling has two dashes. -/
def isLong (spelling : Text) : Bool :=
  ['-', '-'].isPrefixOf spelling

/-- The switches that a word may abbreviate: a start of a long spelling, or a short
spelling with its value behind it. -/
def candidates (word : Text) : List (Text × Spelled) :=
  if isLong word then
    let (start, attached) := cutValue word
    (Switch.table.filter fun (spelling, _) => start.isPrefixOf spelling).map
      fun (spelling, found) => (spelling, ⟨found, true, attached⟩)
  else
    (Switch.table.filter fun (spelling, _) => spelling == word.take 2).map
      fun (spelling, found) => (spelling, ⟨found, false, some ⟨false, word.drop 2⟩⟩)

/-- A switch that a word spells out, alone or with an equals sign. -/
def spelledOut? (word : Text) : Option Spelled :=
  match Switch.ofSpelling? word with
  | some found => some ⟨found, isLong word, none⟩
  | none =>
    let (spelling, attached) := cutValue word
    (Switch.ofSpelling? spelling).map fun found => ⟨found, isLong spelling, attached⟩

/-- What a word is, before any separator. -/
def ofText (word : Text) : Except Misuse Word :=
  if word.head? != some '-' || word.length == 1 then .ok (.value word)
  else
    match spelledOut? word with
    | some spelled => .ok (.switch spelled)
    | none =>
      match candidates word with
      | [(_, spelled)] => .ok (.switch spelled)
      | [] => .ok (if isNegativeNumber word || word.contains ' ' then .value word else .stray word)
      | several => .error (.ambiguous word (several.map Prod.fst))

/-- What the words of a command line are. -/
def ofTexts : List Text → Except Misuse (List Word)
  | [] => .ok []
  | word :: words =>
    if word == ['-', '-'] then .ok (.separator :: words.map .value)
    else do
      let first ← ofText word
      let later ← ofTexts words
      return first :: later

end Word

end Phrasebook.CommandLine
