import Phrasebook.CommandLine
import Phrasebook.Journal.Time

/-!
# The program

The outer layer. It takes the part of the file system that a command line can reach
as a file tree, runs the command line on it, and puts the changes back.
-/

namespace Phrasebook.Disk

/-- The path of a place. -/
def pathText (place : List Text) : String :=
  String.ofList ('/' :: Text.join ['/'] place)

/-- A tree with a directory at a place. -/
def addDirectory (tree : FileTree) (place : List Text) : FileTree :=
  if tree.hasDirectory place then tree
  else { tree with directories := tree.directories ++ [place] }

/-- A tree with the file at a place. Its bytes are read only where they are wanted. -/
def addFile (wanted : Bool) (tree : FileTree) (place : List Text) : IO FileTree := do
  let bytes ← if wanted then IO.FS.readBinFile (pathText place) else pure ByteArray.empty
  return { tree with files := FileTree.put place bytes.data.toList tree.files }

/-- Whether the bytes of a file can matter by its name alone. -/
def isTelling (place : List Text) : Bool :=
  Document.isSupported ⟨['/'], place⟩ || place.getLast? == some Project.fileName

/-- A tree with everything below a directory, at most `depth` levels of it. Links to
directories are not followed. -/
def addBelow : (depth : Nat) → (place : List Text) → FileTree → IO FileTree
  | 0, _, tree => return tree
  | depth + 1, place, tree => do
    let directory ← IO.FS.realPath (pathText place)
    let mut tree := tree
    for entry in ← directory.readDir do
      let inner := place ++ [entry.fileName.toList]
      match (← entry.path.symlinkMetadata).type with
      | .dir => tree ← addBelow depth inner (addDirectory tree inner)
      | .file => tree ← addFile (isTelling inner) tree inner
      | _ => if !(← entry.path.isDir) then tree ← addFile (isTelling inner) tree inner
    return tree

/-- A tree with the directories on the way to a place, as far as they are there. -/
def addAbove (place : List Text) (tree : FileTree) : IO FileTree := do
  let mut tree := tree
  for count in List.range place.length do
    let above := place.take count
    if ← (← IO.FS.realPath (pathText above)).isDir then tree := addDirectory tree above
  return tree

/-- A tree with what stands at a place. -/
def add (place : List Text) (tree : FileTree) : IO FileTree := do
  try
    let tree ← addAbove place tree
    let path ← IO.FS.realPath (pathText place)
    if ← path.isDir then addBelow 64 place (addDirectory tree place)
    else if ← path.pathExists then addFile true tree place
    else return tree
  catch _ => return tree

/-- Makes the changes between two trees. -/
def update (before after : FileTree) : IO Unit := do
  for place in after.directories do
    if !before.hasDirectory place then IO.FS.createDirAll (pathText place)
  for (place, bytes) in after.files do
    if before.bytesAt? place != some bytes then
      IO.FS.writeBinFile (pathText place) (ByteArray.mk bytes.toArray)

/-- The time now: that of a file just made. -/
def now : IO Text := do
  let (_, path) ← IO.FS.createTempFile
  let modified := (← path.metadata).modified
  IO.FS.removeFile path
  return Journal.stamp modified.sec.toNat (modified.nsec.toNat / 1000000)

end Phrasebook.Disk

namespace Phrasebook.CommandLine

/-- The places that arguments name. -/
def Arguments.places (args : Arguments) (site : Surroundings) : List (List Text) :=
  let source := (site.locate (Path.ofText args.source)).names
  let others := [args.output, args.config].filterMap fun path =>
    path.map fun path => (site.locate path).names
  let logFile := args.logFile.map fun path => (site.resolve path).names
  source.takeWhile (!Wildcard.isPattern ·) :: others ++ logFile.toList

/-- The part of the file system that arguments can reach. -/
def gather (site : Surroundings) (args : Arguments) : IO FileTree := do
  let mut tree ← Disk.add site.cwd.names {}
  for place in args.places site do
    tree ← Disk.add place tree
  let config := args.config.getD site.cwd
  match Project.load site tree config with
  | .ok project => Disk.add project.output.names tree
  | .error _ => return tree

/-- Prints what a run leaves behind, and gives its code. -/
def finish (result : Result) : IO UInt32 := do
  IO.print (String.ofList result.printed)
  IO.eprint (String.ofList result.reported)
  match result.ending with
  | .exit code => return code.toUInt32
  | .failure failure =>
    IO.eprintln (String.ofList failure.message)
    return 1

end Phrasebook.CommandLine

open Phrasebook in
/-- Runs a command line in the working directory. -/
def main (args : List String) : IO UInt32 := do
  let cwd := Path.ofText (← IO.currentDir).toString.toList
  let home := Path.ofText ((← IO.getEnv "HOME").getD "/").toList
  let site : Surroundings := ⟨cwd, home⟩
  let words := args.map String.toList
  match CommandLine.Arguments.ofWords words with
  | .error _ => CommandLine.finish (CommandLine.run ⟨site, []⟩ words {})
  | .ok asked =>
    let time ← if asked.logFile.isSome then Disk.now else pure []
    let before ← CommandLine.gather site asked
    let result := CommandLine.run ⟨site, time⟩ words before
    Disk.update before result.tree
    CommandLine.finish result
