import Phrasebook.FileTree
import Phrasebook.Wildcard

/-!
# Globs

A pattern for places in a file tree, name by name. Two stars stand for any number
of directories. Names that start with a dot match only a name pattern that starts
with a dot too, and two stars never pass them.
-/

namespace Phrasebook.Glob

/-- Whether a name is hidden. -/
def isHidden (name : Text) : Bool :=
  name.head? == some '.'

/-- Whether a name pattern stands for any number of directories. -/
def isDeep (pattern : Text) : Bool :=
  pattern == ['*', '*']

/-- Whether a name pattern matches a name. -/
def matchesName (pattern name : Text) : Bool :=
  (isHidden pattern || !isHidden name) && Wildcard.isMatch pattern name

/-- The places of a tree; all, or the directories alone. -/
def places (tree : FileTree) (directoriesOnly : Bool) : List (List Text) :=
  if directoriesOnly then tree.directories else tree.directories ++ tree.files.map Prod.fst

/-- Whether a place lies below another one, without hidden names between them. -/
def isOpenBelow (base place : List Text) : Bool :=
  base.isPrefixOf place && base.length < place.length &&
    (place.drop base.length).all fun name => !isHidden name

/-- The places that a name pattern leads to from a place. A name without wildcards
leads on wherever something stands; two stars lead to the place itself too, if that is
a directory. -/
def next (tree : FileTree) (directoriesOnly : Bool) (pattern : Text) (base : List Text) :
    List (List Text) :=
  if isDeep pattern then
    [base].filter tree.hasDirectory ++ (places tree directoriesOnly).filter (isOpenBelow base)
  else if Wildcard.isPattern pattern then
    (places tree directoriesOnly).filter fun place =>
      !place.isEmpty && place.dropLast == base && place.getLast?.any (matchesName pattern)
  else
    let place := base ++ [pattern]
    if tree.hasDirectory place || (tree.bytesAt? place).isSome then [place] else []

/-- The places that name patterns lead to from places. All but the last name must
be that of a directory. -/
def expandFrom (tree : FileTree) : List Text → List (List Text) → List (List Text)
  | [], bases => bases
  | pattern :: later, bases =>
    expandFrom tree later (bases.flatMap (next tree (!later.isEmpty) pattern))

/-- The places that a pattern matches. A place can be found in more than one way
and is then listed as often. -/
def expand (tree : FileTree) (pattern : List Text) : List (List Text) :=
  let fixed := pattern.takeWhile fun name => !Wildcard.isPattern name
  match pattern.drop fixed.length with
  | [] => if tree.hasDirectory fixed || (tree.bytesAt? fixed).isSome then [fixed] else []
  | later => expandFrom tree later [fixed]

end Phrasebook.Glob
