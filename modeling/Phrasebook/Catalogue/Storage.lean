import Phrasebook.Catalogue
import Phrasebook.FileTree
import Phrasebook.Json.Reader
import Phrasebook.Json.Writer

/-!
# Stored catalogues

A catalogue is stored as one JSON object with its keys in order. A file that does
not exist is an empty catalogue; so is an empty file.
-/

namespace Phrasebook.Catalogue

/-- Whether an entry comes no later than another. -/
def entryPrecedes (left right : CodePoints × CodePoints) : Bool :=
  CodePoint.precedes left.1 right.1

/-- The text of a stored catalogue. Surrogates in the catalogue keep it from being
written. -/
def serialize (catalogue : Catalogue) : CodePoints :=
  Json.object (catalogue.entries.mergeSort entryPrecedes) ++ [.scalar '\n']

/-- The text that a value is, if it is one. -/
def textOf? : Json.Value → Option CodePoints
  | .string text => some text
  | _ => none

/-- The entries of an object whose values are texts. -/
def entriesOf : Json.Value → Except CatalogueFault (List (CodePoints × CodePoints))
  | .object members =>
    let others := members.filter fun (_, value) => (textOf? value).isNone
    if others.isEmpty then
      .ok (members.filterMap fun (key, value) => (textOf? value).map fun text => (key, text))
    else .error (.notText ((others.map Prod.fst).mergeSort CodePoint.precedes))
  | _ => .error .notObject

/-- What a fault in a stored text means for the catalogue. -/
def faultOf (text : Text) (fault : Json.Fault) : CatalogueFault :=
  match fault.problem with
  | .longNumber digits => .longNumber digits
  | _ => .malformed (fault.message text)

/-- The entries that a stored text holds. -/
def deserialize (content : Text) : Except CatalogueFault (List (CodePoints × CodePoints)) :=
  let text := if content.isEmpty then ['{', '}'] else content
  match Json.parse text with
  | .error fault => .error (faultOf text fault)
  | .ok value => entriesOf value

/-- Loads the catalogue stored at a path. -/
def load (tree : FileTree) (path : Path) : Except Failure (Catalogue × Journal) := do
  tree.look path path
  if !tree.isThere path then return (empty, [])
  match deserialize (← tree.readText path) with
  | .error fault => throw (.catalogue path.toText fault)
  | .ok entries =>
    let report : Record :=
      ⟨.debug, .catalogue, "Loaded ".toList ++ Text.ofNat entries.length ++
        " existing entries from ".toList ++ path.toText⟩
    let (catalogue, collisions) := ofEntries entries
    return (catalogue, report :: collisions)

/-- Stores a catalogue at a path, whose directories are made where they are
missing. The tree keeps the directories made even when something is refused. Opening
the file empties it, so a catalogue that cannot be written leaves it empty. -/
def save (catalogue : Catalogue) (tree : FileTree) (path : Path) :
    Except Failure Unit × FileTree :=
  match tree.makeDirectories path.parent with
  | (.error failure, ready) => (.error failure, ready)
  | (.ok _, ready) =>
    let (result, bytes) : Except Failure Unit × Bytes :=
      match CodePoint.written catalogue.serialize with
      | .ok text => (.ok (), Utf8.encode text)
      | .error run => (.error (.unwritable run), [])
    match ready.write path bytes with
    | .error failure => (.error failure, ready)
    | .ok next => (result, next)

end Phrasebook.Catalogue
