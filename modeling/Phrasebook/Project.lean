import Phrasebook.Settings
import Phrasebook.Sources

/-!
# Projects

A directory with its settings and the place of its catalogue.
-/

namespace Phrasebook

/-- A project. -/
structure Project where
  root : Path
  output : Path
  settings : Settings := {}
  deriving Repr, DecidableEq

/-- The project of a directory without settings of its own. -/
def Project.atRoot (root : Path) : Project where
  root := root
  output := root.append (Path.ofText "translations.json".toList)

end Phrasebook
