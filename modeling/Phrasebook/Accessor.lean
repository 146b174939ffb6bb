import Phrasebook.Script.Parse
import Phrasebook.Session

/-!
# The accessor

A component script that calls the lookup function needs two lines: an import of
the accessor and a declaration that takes the function from it. The lines that are
missing go behind the last import, or to the top.
-/

namespace Phrasebook

/-- Where the lookup function comes from: a module and the accessor it exports. -/
structure Accessor where
  source : Text := "vue-i18n".toList
  name : Text := "useI18n".toList
  deriving Repr, DecidableEq

namespace Accessor

/-- A name between braces, with blanks or without. -/
def braced (blanks : Bool) (name : Text) : Text :=
  if blanks then ['{', ' '] ++ name ++ [' ', '}'] else '{' :: name ++ ['}']

/-- The start of the import, with blanks inside its braces or without. -/
def importHead (accessor : Accessor) (blanks : Bool) : Text :=
  "import ".toList ++ braced blanks accessor.name

/-- The declaration without its semicolon, with blanks inside its braces or
without. -/
def declarationHead (accessor : Accessor) (functions : Functions) (blanks : Bool) : Text :=
  "const ".toList ++ braced blanks functions.script ++ " = ".toList ++ accessor.name ++ ['(', ')']

/-- The line that imports the accessor. -/
def importLine (accessor : Accessor) : Text :=
  accessor.importHead true ++ " from \"".toList ++ accessor.source ++ ['"', ';']

/-- The line that declares the lookup function. -/
def declarationLine (accessor : Accessor) (functions : Functions) : Text :=
  accessor.declarationHead functions true ++ [';']

/-- The lines that a script lacks. A line is there when its head is, in one of its
two spellings. -/
def missing (accessor : Accessor) (functions : Functions) (script : Text) : List Text :=
  let has (head : Bool → Text) : Bool :=
    Text.occursIn (head true) script || Text.occursIn (head false) script
  (if has accessor.importHead then [] else [accessor.importLine]) ++
    (if has (accessor.declarationHead functions) then []
      else [accessor.declarationLine functions])

/-- Where the last import of a script ends. -/
def lastImport? (tree : Script.Node) : Option Nat :=
  ((tree.children.filter fun node => node.kind == .importation).getLast?).map Script.Node.stop

/-- A script with lines put in, given where its last import ends. -/
def insertLines (lines : List Text) (script : Text) : Option Nat → Text
  | some pos =>
    script.take pos ++ '\n' :: Text.join ['\n'] lines ++ script.drop pos
  | none =>
    let lead := script.takeWhile fun char => char == '\r' || char == '\n'
    lead ++ Text.join ['\n'] lines ++ '\n' :: script.drop lead.length

/-- How failures name a script that is part of a component. -/
def scriptName : Text := "<script>".toList

/-- A script with the lines that it lacks; `none` when it lacks none. -/
def inject (accessor : Accessor) (functions : Functions) (lang : Language) (script : Text) :
    Except Failure (Option Text) := do
  let tree ← Script.parse lang scriptName script
  let lines := accessor.missing functions script
  return if lines.isEmpty then none else some (insertLines lines script (lastImport? tree))

end Accessor

end Phrasebook
