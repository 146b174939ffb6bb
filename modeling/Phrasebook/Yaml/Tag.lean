import Phrasebook.Yaml.Moment
import Phrasebook.Yaml.Plain

/-!
# Tags of YAML

The kinds of value that a tag names, and the kind of a plain scalar without one.
-/

namespace Phrasebook.Yaml

/-- A kind of value. -/
inductive Tag where
  | null
  | bool
  | int
  | float
  | binary
  | timestamp
  | text
  | sequence
  | mapping
  | set
  | orderedMapping
  | pairs
  /-- The key under which other mappings are merged. -/
  | merge
  /-- The key of a default value. -/
  | default
  /-- A kind that this library has no values of. -/
  | unknown
  deriving Repr, DecidableEq

namespace Tag

/-- The names of kinds, behind what the standard tags start with. -/
def names : List (String × Tag) :=
  [("null", null), ("bool", bool), ("int", int), ("float", float), ("binary", binary),
    ("timestamp", timestamp), ("str", text), ("seq", sequence), ("map", mapping), ("set", set),
    ("omap", orderedMapping), ("pairs", pairs), ("merge", merge), ("value", default)]

/-- What the standard tags start with. -/
def standard : Text :=
  "tag:yaml.org,2002:".toList

/-- The kind that a whole tag names. -/
def ofName (name : Text) : Tag :=
  ((Text.strip? standard name).bind fun short =>
    (names.find? fun entry => entry.1.toList == short).map Prod.snd).getD unknown

/-- The kind of a plain scalar that ends in no line end. -/
def ofLine (content : Text) : Tag :=
  if (Plain.truth? content).isSome then bool
  else if Plain.isDecimal content then float
  else if Plain.isInteger content then int
  else if content == ['<', '<'] then merge
  else if Plain.isNull content then null
  else if Moment.isPlain content then timestamp
  else if content == ['='] then default
  else if content == ['!'] || content == ['&'] || content == ['*'] then unknown
  else text

/-- The kind of a scalar without a tag of its own. One line end at its end does not
count, unless there is nothing else. -/
def ofPlain (content : Text) : Tag :=
  if content == ['\n'] then text
  else if content.getLast? == some '\n' then ofLine content.dropLast
  else ofLine content

end Tag

end Phrasebook.Yaml
