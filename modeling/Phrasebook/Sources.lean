import Phrasebook.Glob
import Phrasebook.Journal

/-!
# Sources

A source names the files of a run: a file, a directory with everything below it,
or a pattern. Patterns of paths that are excluded apply to directories and
patterns, never to a file that is named.
-/

namespace Phrasebook

/-- Where a run takes place. -/
structure Surroundings where
  cwd : Path
  home : Path
  deriving Repr, DecidableEq

namespace Surroundings

/-- A path in which a leading tilde stands for the home directory. The homes of others
are not known. -/
def expandHome (site : Surroundings) (path : Path) : Path :=
  if path.isAbsolute then path
  else
    match path.names with
    | ['~'] :: names => { site.home with names := site.home.names ++ names }
    | _ => path

/-- Names without those that a step up takes back. -/
def straighten (names : List Text) : List Text :=
  names.foldl (fun kept name => if name == ['.', '.'] then kept.dropLast else kept ++ [name]) []

/-- The absolute path without steps up. Two slashes stay a root of their own. -/
def absolute (site : Surroundings) (path : Path) : Path :=
  let whole := site.cwd.append path
  { whole with names := straighten whole.names }

/-- The absolute path without steps up, below the one root that a file system has. -/
def resolve (site : Surroundings) (path : Path) : Path :=
  { site.absolute path with root := ['/'] }

/-- Why a path cannot be located: it starts at a home that is not known, or it holds a
null character. -/
def fault? (site : Surroundings) (path : Path) : Option Failure :=
  if (site.expandHome path).startsAtHome && !path.names.head?.any Path.holdsNull then
    some .homeUnknown
  else if path.hasNull then some .nullInPath
  else none

/-- The absolute path that a text means to a user. -/
def locate (site : Surroundings) (path : Path) : Path :=
  site.resolve (site.expandHome path)

end Surroundings

namespace Sources

/-- A text without the slashes at its end. -/
def withoutSlashes (text : Text) : Text :=
  (text.reverse.dropWhile (· == '/')).reverse

/-- Whether a pattern excludes a path. A pattern with a slash at its end names a
directory on the way; any other matches the whole path or the last name. -/
def excludes (path : Path) (pattern : Text) : Bool :=
  if pattern.isEmpty then false
  else if pattern.getLast? == some '/' then path.parts.contains (withoutSlashes pattern)
  else Wildcard.isMatch pattern path.toText || Wildcard.isMatch pattern path.name

/-- Whether one of the patterns excludes a path. -/
def isExcluded (patterns : List Text) (path : Path) : Bool :=
  patterns.any (excludes path)

/-- The path of a place. -/
def pathOf (place : List Text) : Path :=
  ⟨['/'], place⟩

/-- The files that a pattern matches, in order. -/
def matchingFiles (tree : FileTree) (excluded : List Text) (pattern : Path) : List Path :=
  let found := ((Glob.expand tree pattern.names).map pathOf).mergeSort Path.precedes
  found.filter fun path => tree.isFile path && !isExcluded excluded path

/-- The files below a directory, in order. What is excluded is decided by the path
from the directory on. -/
def filesBelow (tree : FileTree) (excluded : List Text) (directory : Path) : List Path :=
  let below := tree.files.filterMap fun (place, _) =>
    if directory.names.isPrefixOf place && directory.names.length < place.length &&
        !isExcluded excluded ⟨[], place.drop directory.names.length⟩ then
      some (pathOf place)
    else none
  below.mergeSort Path.precedes

/-- The files that a source names, in order. -/
def expand (site : Surroundings) (tree : FileTree) (excluded : List Text)
    (source : Text) : Except Failure (List Path × Journal) :=
  let path := site.locate (Path.ofText source)
  match site.fault? (Path.ofText source) with
  | some failure => .error failure
  | none =>
    if Wildcard.isPattern source then
      let files := matchingFiles tree excluded path
      let journal : Journal :=
        if files.isEmpty then
          [⟨.warning, .batch, "Pattern ".toList ++ source ++ " matched no files".toList⟩]
        else []
      .ok (files, journal)
    else do
      tree.look path path
      if tree.isDirectory path then return (filesBelow tree excluded path, [])
      else if tree.isFile path then return ([path], [])
      else throw (.sourceMissing source)

end Sources

end Phrasebook
