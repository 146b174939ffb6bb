import Phrasebook.Component
import Phrasebook.Markup.Stage
import Phrasebook.Script.Extract
import Phrasebook.Settings

/-!
# Documents

Extraction from one file. The texts of a file are staged in a catalogue of their
own and reach the shared catalogue only when the whole file succeeds.
-/

namespace Phrasebook

/-- What extraction made of a file. -/
structure Outcome where
  path : Path
  before : Text
  after : Text
  phrases : List KeyedPhrase
  /-- Whether lines of the accessor were put in. -/
  accessorAdded : Bool
  deriving Repr, DecidableEq

/-- Whether extraction changed a file. -/
def Outcome.changed (outcome : Outcome) : Bool :=
  outcome.after != outcome.before

namespace Document

/-- The suffix of a path in lower case. -/
def suffix (path : Path) : Text :=
  Text.lower path.suffix

/-- Whether a path is that of a component. -/
def isComponent (path : Path) : Bool :=
  suffix path == ".vue".toList

/-- Whether a path is that of a script. -/
def isScript (path : Path) : Bool :=
  suffix path == ".ts".toList || suffix path == ".js".toList

/-- Whether extraction knows what to do with a path. -/
def isSupported (path : Path) : Bool :=
  isComponent path || isScript path

/-- A pass that yields a value or stops with a failure. -/
def ofExcept {α : Type} (value : Except Failure α) : Pass α :=
  ExceptT.mk (pure value)

/-- The edit for the template of a component, if the template changes. -/
def templateEdit (scope : Scope) (region : Region) : Pass (List (Edit Char)) := do
  if !region.isHtml then
    Pass.note scope .info .document
      ("skipping <template lang=".toList ++ region.lang.getD [] ++ ['>'])
    return []
  let content ← Markup.extract scope Markup.Stage.all region.content
  Pass.note scope .debug .document "markup rewritten".toList
  return if content == region.content then [] else [⟨region.start, region.stop, content⟩]

/-- Reports the texts of scripts that are left alone. -/
def reportSkipped (scope : Scope) (chosen : Region) : List Region → Pass Unit
  | [] => pure ()
  | region :: later => do
    if Text.hasIdeograph region.content then
      Pass.note scope .info .document
        (region.label ++ " has CJK text but is left untouched; rewrites go to ".toList ++
          chosen.label)
    reportSkipped scope chosen later

/-- The edit of a component that makes the edits of its script, and whether lines of
the accessor are put in. Without edits the script is left alone. -/
def regionEdit (settings : Settings) (lang : Language) (region : Region)
    (edits : List (Edit Char)) : Except Failure (List (Edit Char) × Bool) :=
  if edits.isEmpty then .ok ([], false)
  else do
    let script ← Script.rewritten region.content edits
    let injected ← settings.accessor.inject settings.functions lang script
    return ([⟨region.start, region.stop, injected.getD script⟩], injected.isSome)

/-- The edit for the script of a component, if literals are extracted from it, and
whether lines of the accessor were put in. -/
def scriptEdit (settings : Settings) (scope : Scope) (region : Region) :
    Pass (List (Edit Char) × Bool) := do
  let lang := Language.ofLabel (region.lang.getD [])
  let tree ← ofExcept (Script.parse lang scope.path.toText region.content)
  let edits ← Script.edits scope region.content tree
  let result ← ofExcept (regionEdit settings lang region edits)
  Pass.note scope .debug .document
    (region.label ++ " rewritten (".toList ++ Text.ofNat edits.length ++ " edits)".toList)
  return result

/-- Reports that the markup of a component is not sound. -/
def reportFaulty (scope : Scope) : Component.Soundness → Pass Unit
  | .sound => pure ()
  | .faulty isShown =>
    Pass.note scope .warning .component
      ("component markup has syntax errors ".toList ++
        if isShown then "near <position>".toList else [])

/-- The edits for the template of a component, if it has one. -/
def templateEdits (scope : Scope) (component : Component) : Pass (List (Edit Char)) :=
  match component.template with
  | some region => templateEdit scope region
  | none => pure []

/-- The edits for the script of a component, if it has one, and whether lines of the
accessor were put in. -/
def scriptEdits (settings : Settings) (scope : Scope) (component : Component) :
    Pass (List (Edit Char) × Bool) :=
  match component.script with
  | some region => do
    reportSkipped scope region component.skipped
    scriptEdit settings scope region
  | none => pure ([], false)

/-- The text of a component after extraction, and whether lines of the accessor were put
in. -/
def extractComponent (settings : Settings) (scope : Scope) (content : Text)
    (component : Component) : Pass (Text × Bool) := do
  reportFaulty scope component.soundness
  let inTemplate ← templateEdits scope component
  let (inScript, added) ← scriptEdits settings scope component
  return (Edit.applyAll content (inTemplate ++ inScript), added)

/-- A script after extraction. -/
def extractScript (scope : Scope) (content : Text) : Pass (Text × Bool) := do
  let lang := Language.ofLabel scope.path.suffix
  let tree ← ofExcept (Script.parse lang scope.path.toText content)
  let result ← Script.extract scope content tree
  Pass.note scope .debug .document "script rewritten".toList
  return (result, false)

/-- The text of a file after extraction, and whether lines of the accessor were put
in. -/
def extract (settings : Settings) (scope : Scope) (content : Text) : Pass (Text × Bool) := do
  Pass.note scope .debug .document "loaded".toList
  if isComponent scope.path then
    extractComponent settings scope content (.ofText content)
  else extractScript scope content

/-- Runs extraction on a file as seen from a working directory. The catalogue takes
over the staged texts when the file succeeds and stays as it is otherwise. -/
def process (settings : Settings) (cwd path : Path) (content : Text)
    (catalogue : Catalogue) : Except Failure Outcome × Catalogue × Journal :=
  let scope := settings.scope cwd path
  match (extract settings scope content).run {} with
  | (.error failure, session) => (.error failure, catalogue, session.journal)
  | (.ok (after, accessorAdded), session) =>
    let outcome : Outcome := ⟨path, content, after, session.phrases, accessorAdded⟩
    let (merged, reports) := catalogue.absorb session.catalogue
    let last : Journal :=
      if outcome.changed then
        [.aboutFile .debug .document scope.shown
          ("committed ".toList ++ Text.ofNat outcome.phrases.length ++ " extracted texts".toList)]
      else []
    (.ok outcome, merged, session.journal ++ reports ++ last)

end Document

end Phrasebook
