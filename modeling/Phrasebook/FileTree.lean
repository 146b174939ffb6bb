import Phrasebook.Failure
import Phrasebook.Path

/-!
# File trees

A file system as a value: files with their bytes, and directories. A place is the
list of names from the root down to it. The root is always a directory. Everything may
be read and written, but the length of names and of paths is limited.
-/

namespace Phrasebook

/-- The files and directories at their places. -/
structure FileTree where
  files : List (List Text × Bytes) := []
  directories : List (List Text) := []
  deriving Repr, DecidableEq

namespace FileTree

/-- Whether a directory stands at a place. -/
def hasDirectory (tree : FileTree) (place : List Text) : Bool :=
  place.isEmpty || tree.directories.contains place

/-- The bytes of the file at a place. -/
def bytesAt? (tree : FileTree) (place : List Text) : Option Bytes :=
  tree.files.lookup place

/-- Whether a name is longer than any in a directory. -/
def isLongName (name : Text) : Bool :=
  255 < Utf8.size name

/-- Whether a path is too long as a whole, as it is written. -/
def isLongPath (path : Path) : Bool :=
  4095 < Utf8.size path.toText

/-- The place that names lead to from another place. Every name on the way must be
that of a directory; what stands at the end is not looked at. -/
def walk (tree : FileTree) : List Text → List Text → Except FileFault (List Text)
  | place, [] => .ok place
  | place, name :: names =>
    if !tree.hasDirectory place then
      .error (if (tree.bytesAt? place).isSome then .notDirectory else .notFound)
    else if isLongName name then .error .nameTooLong
    else if name == ['.', '.'] then walk tree place.dropLast names
    else walk tree (place ++ [name]) names

/-- The place of an absolute path. -/
def place (tree : FileTree) (path : Path) : Except FileFault (List Text) :=
  tree.walk [] path.names

/-- The place of a path that the file system is asked for. -/
def reach (tree : FileTree) (path : Path) : Except FileFault (List Text) :=
  if isLongPath path then .error .nameTooLong else tree.place path

/-- Whether a path is that of a directory. -/
def isDirectory (tree : FileTree) (path : Path) : Bool :=
  match tree.place path with
  | .ok place => tree.hasDirectory place
  | .error _ => false

/-- Whether a path is that of a file. -/
def isFile (tree : FileTree) (path : Path) : Bool :=
  match tree.place path with
  | .ok place => (tree.bytesAt? place).isSome
  | .error _ => false

/-- Whether something stands at a path. -/
def isThere (tree : FileTree) (path : Path) : Bool :=
  tree.isDirectory path || tree.isFile path

/-- A refusal that names the path. -/
def refuse {α : Type} (fault : FileFault) (path : Path) : Except Failure α :=
  .error (.file fault path.toText)

/-- Looks for what stands at a path, which may be written in a shorter way. That fails
only where a name on the way or what is written is too long. For a path with a null
character the file system is not asked. -/
def look (tree : FileTree) (written path : Path) : Except Failure Unit :=
  let tooLong := isLongPath written || tree.place path matches .error .nameTooLong
  if tooLong && !written.hasNull then refuse .nameTooLong written else .ok ()

/-- The bytes of a file. -/
def read (tree : FileTree) (path : Path) : Except Failure Bytes :=
  match tree.reach path with
  | .error fault => refuse fault path
  | .ok place =>
    match tree.bytesAt? place with
    | some bytes => .ok bytes
    | none => refuse (if tree.hasDirectory place then .isDirectory else .notFound) path

/-- The text of a file, exactly as it is. -/
def readExact (tree : FileTree) (path : Path) : Except Failure Text := do
  match Utf8.decode (← tree.read path) with
  | .ok text => return text
  | .error fault => throw (.unreadable fault)

/-- The text of a file with its line ends unified. -/
def readText (tree : FileTree) (path : Path) : Except Failure Text := do
  return Text.unifyLineEnds (← tree.readExact path)

/-- Files with other bytes at a place. -/
def put (place : List Text) (bytes : Bytes) : List (List Text × Bytes) → List (List Text × Bytes)
  | [] => [(place, bytes)]
  | (other, old) :: files =>
    if other == place then (place, bytes) :: files else (other, old) :: put place bytes files

/-- Writes a file. Its directory must be there. -/
def write (tree : FileTree) (path : Path) (bytes : Bytes) : Except Failure FileTree :=
  match tree.reach path with
  | .error fault => refuse fault path
  | .ok place =>
    if tree.hasDirectory place then refuse .isDirectory path
    else .ok { tree with files := put place bytes tree.files }

/-- Makes one directory, which must not be there. -/
def makeDirectory (tree : FileTree) (path : Path) : Except FileFault FileTree := do
  let place ← tree.reach path
  if tree.hasDirectory place || (tree.bytesAt? place).isSome then throw .alreadyExists
  else return { tree with directories := tree.directories ++ [place] }

/-- The tree after a directory was made, or could not be made. The directory may be there
already. -/
def settle (tree : FileTree) (path : Path) :
    Except FileFault FileTree → Except Failure Unit × FileTree
  | .ok next => (.ok (), next)
  | .error fault =>
    (if fault != .nameTooLong && tree.isDirectory path then .ok () else refuse fault path, tree)

/-- Makes a directory with those above it, where they are missing. `depth` bounds how many
are made. Those that were made stay also if another one is refused. -/
def makeDirectoriesFrom (tree : FileTree) : (depth : Nat) → Path → Except Failure Unit × FileTree
  | 0, path => tree.settle path (.error .notFound)
  | depth + 1, path =>
    match tree.makeDirectory path with
    | .error .notFound =>
      match makeDirectoriesFrom tree depth path.parent with
      | (.ok _, above) => above.settle path (above.makeDirectory path)
      | (.error failure, above) => (.error failure, above)
    | made => tree.settle path made

/-- Makes a directory with those above it, where they are missing. -/
def makeDirectories (tree : FileTree) (path : Path) : Except Failure Unit × FileTree :=
  tree.makeDirectoriesFrom path.names.length path

end FileTree

end Phrasebook
