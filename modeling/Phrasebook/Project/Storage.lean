import Phrasebook.Project
import Phrasebook.Yaml.Document

/-!
# Stored settings

A project keeps its settings in a file of its root directory. A setting that the
file leaves out, or gives a value of the wrong kind, keeps its default; lengths of
keys and names of calls are checked.
-/

namespace Phrasebook

namespace Yaml

/-- A whole number as texts show it. -/
def shownInteger (number : Int) : Except Failure Text :=
  match Number.shownInteger? number with
  | some text => .ok text
  | none => .error .numberTooLong

namespace Value

/-- The text of a text or a number. -/
def asText : Value → Except Failure (Option Text)
  | text content => .ok (some content)
  | int number => (shownInteger number).map some
  | float number => .ok (some number.shown)
  | _ => .ok none

/-- A whole number, or a text that writes one. -/
def asInteger? : Value → Option Int
  | int number => some number
  | text content => (Number.readInteger 10 content).toOption
  | _ => none

/-- The text of an item of a list. -/
def asItem : Value → Except Failure (Option Text)
  | bool true => .ok (some "True".toList)
  | bool false => .ok (some "False".toList)
  | value => value.asText

end Value

namespace Document

/-- The texts of a list. A text alone is a list of one; bytes are a list of
numbers. -/
def asTexts (document : Document) (value : Value) : Except Failure (List Text) :=
  match value with
  | .text content => .ok [content]
  | .bytes content => .ok (content.map fun byte => Text.ofNat byte.toNat)
  | _ =>
    match document.collection? value with
    | some (.sequence items) => (items.mapM Value.asItem).map (·.filterMap id)
    | _ => .ok []

/-- The entries of a mapping; any other value has none. -/
def asEntries (document : Document) (value : Value) : List (Text × Value) :=
  match document.collection? value with
  | some (.mapping entries) => entries
  | _ => []

end Document

end Yaml

namespace Project

/-- The name of the file with the settings. -/
def fileName : Text := ".i18nify.yml".toList

/-- Entries of settings by name, in their document. -/
structure Entries where
  document : Yaml.Document := {}
  values : List (Text × Yaml.Value) := []

namespace Entries

/-- The value under a name. -/
def get? (entries : Entries) (name : String) : Option Yaml.Value :=
  entries.values.lookup name.toList

/-- The entries under a name. -/
def sectionOf (entries : Entries) (name : String) : Entries where
  document := entries.document
  values := ((entries.get? name).map entries.document.asEntries).getD []

/-- The text under a name, or another one where it is empty or missing. -/
def nameOr (entries : Entries) (name : String) (default : Text) : Except Failure Text := do
  match entries.get? name with
  | none => return default
  | some value => return ((← value.asText).filter (!·.isEmpty)).getD default

end Entries

/-- The length of keys that entries ask for. -/
def keyLength (entries : Entries) (default : Int) : Except Failure Int :=
  match (entries.sectionOf "keys").get? "hash_length" with
  | none => .ok default
  | some value =>
    match value.asInteger? with
    | some length =>
      if 1 ≤ length && length ≤ 32 then .ok length else .error (.settings .hashLength)
    | none => .error (.settings .hashLength)

/-- The logging calls that entries name: each has exactly one dot. -/
def loggingCalls (entries : Entries) (default : List Text) : Except Failure (List Text) := do
  match entries.get? "logging_calls" with
  | none => return default
  | some value =>
    let calls ← entries.document.asTexts value
    let malformed := calls.filter fun call => call.count '.' != 1
    if malformed.isEmpty then return calls
    else throw (.settings (.loggingCalls malformed))

/-- The settings of entries. -/
def settingsOf (entries : Entries) : Except Failure Settings := do
  let default : Settings := {}
  let keyLength ← keyLength entries default.keyLength
  let functions := entries.sectionOf "functions"
  let markup ← functions.nameOr "template" default.functions.markup
  let script ← functions.nameOr "script" default.functions.script
  let loggingCalls ← loggingCalls entries default.loggingCalls
  let imports := entries.sectionOf "imports"
  let source ← imports.nameOr "source" default.accessor.source
  let name ← imports.nameOr "accessor" default.accessor.name
  let excluded ← match entries.get? "exclude_paths" with
    | none => pure default.excluded
    | some value => entries.document.asTexts value
  return {
    functions := { markup, script }
    accessor := { source, name }
    keyLength
    loggingCalls
    excluded }

/-- The entries that a settings file holds. -/
def entriesOf (name content : Text) : Except Failure Entries :=
  if (Text.trim content).isEmpty then .ok {}
  else
    match Yaml.load content with
    | .error .malformed => .error (.settings (.malformed name))
    | .error (.scalar fault) => .error (.scalar fault)
    | .error (.escape fault) => .error (.escape fault)
    | .ok document =>
      match document.collection? document.root with
      | some (.mapping values) => .ok { document, values }
      | _ => if document.isVoid document.root then .ok {} else .error (.settings .notMapping)

/-- The path of the catalogue that entries name. -/
def outputOf (site : Surroundings) (root : Path) (entries : Entries) :
    Except Failure Path := do
  let output ← entries.nameOr "output" "translations.json".toList
  if output.contains (Char.ofNat 0) then throw .nullInPath
  return site.resolve (root.append (Path.ofText output))

/-- The project at a root with a settings file of some name and content. -/
def ofFile (site : Surroundings) (root : Path) (name content : Text) :
    Except Failure Project := do
  let entries ← entriesOf name content
  let output ← outputOf site root entries
  let settings ← settingsOf entries
  return { root, output, settings }

/-- The settings file that a path means: the one in a directory, or the file itself. -/
def filePath (site : Surroundings) (tree : FileTree) (path : Path) : Except Failure Path := do
  let place := site.expandHome path
  let whole := site.cwd.append place
  tree.look place whole
  return site.resolve
    (if tree.isDirectory whole then whole.append ⟨[], [fileName]⟩ else whole)

/-- Loads the project of a directory or of a settings file. A file that does not
exist leaves every default. -/
def load (site : Surroundings) (tree : FileTree) (path : Path) :
    Except Failure Project := do
  if let some failure := site.fault? path then throw failure
  let file ← filePath site tree path
  tree.look file file
  if tree.isThere file then
    ofFile site file.parent file.name (← tree.readText file)
  else return atRoot file.parent

end Project

end Phrasebook
