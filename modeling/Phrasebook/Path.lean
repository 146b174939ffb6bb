import Phrasebook.Text.Basic

/-!
# Paths

A path is a root and the names below it. Reading a path drops empty names and
`.`, and keeps `..`; nothing here looks at a file system.
-/

namespace Phrasebook

/-- A path: the text of its root, empty for a relative path, and its names. -/
structure Path where
  root : Text
  names : List Text
  deriving Repr, DecidableEq

namespace Path

/-- The root of a path's text: exactly two slashes are a root of their own. -/
def rootOf (text : Text) : Text :=
  let slashes := (text.takeWhile (· == '/')).length
  if slashes == 0 then [] else if slashes == 2 then ['/', '/'] else ['/']

/-- The path that a text writes. -/
def ofText (text : Text) : Path where
  root := rootOf text
  names := (text.splitOn '/').filter fun name => name != [] && name != ['.']

/-- Whether a path starts at a root. -/
def isAbsolute (path : Path) : Bool :=
  !path.root.isEmpty

/-- Whether a path starts with a tilde, which stands for a home. -/
def startsAtHome (path : Path) : Bool :=
  !path.isAbsolute && path.names.head?.any fun name => name.head? == some '~'

/-- Whether a name holds a null character, as no file has it. -/
def holdsNull (name : Text) : Bool :=
  name.contains (Char.ofNat 0)

/-- Whether a path holds a null character. -/
def hasNull (path : Path) : Bool :=
  path.names.any holdsNull

/-- The text of a path; the empty path is written `.`. -/
def toText (path : Path) : Text :=
  if path.root.isEmpty && path.names.isEmpty then ['.']
  else path.root ++ Text.join ['/'] path.names

/-- The last name, empty for a root and for the empty path. -/
def name (path : Path) : Text :=
  path.names.getLast?.getD []

/-- The path without its last name. -/
def parent (path : Path) : Path :=
  { path with names := path.names.dropLast }

/-- The path of `other` as seen from `path`. An absolute path stays itself. -/
def append (path other : Path) : Path :=
  if other.isAbsolute then other else { path with names := path.names ++ other.names }

/-- A name cut before its last dot, when characters stand on both sides of it. -/
def cutName (name : Text) : Text × Text :=
  let ending := name.reverse.takeWhile (· != '.')
  let kept := name.length - ending.length - 1
  if ending.isEmpty || ending.length == name.length || kept == 0 then (name, [])
  else (name.take kept, name.drop kept)

/-- The last name without its suffix. -/
def stem (path : Path) : Text :=
  (cutName path.name).1

/-- The suffix of the last name, with its dot. -/
def suffix (path : Path) : Text :=
  (cutName path.name).2

/-- The names of a path, with its root in front when it has one. -/
def parts (path : Path) : List Text :=
  if path.isAbsolute then path.root :: path.names else path.names

/-- The path from `base` down to `path`, when `path` lies at or below it. -/
def below? (base path : Path) : Option Path :=
  if path.root == base.root && base.names.isPrefixOf path.names then
    some ⟨[], path.names.drop base.names.length⟩
  else none

/-- Whether `left` comes no later than `right`: paths are ordered by their
parts, name by name. -/
def precedes (left right : Path) : Bool :=
  go left.parts right.parts
where
  go : List Text → List Text → Bool
    | [], _ => true
    | _ :: _, [] => false
    | first :: firsts, second :: seconds =>
      if first == second then go firsts seconds else Text.precedes first second

end Path

end Phrasebook
