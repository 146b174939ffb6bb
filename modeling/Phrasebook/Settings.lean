import Phrasebook.Accessor

/-!
# Settings

What a user can choose, and the scope of a file under such choices.
-/

namespace Phrasebook

/-- The choices that steer extraction. -/
structure Settings where
  functions : Functions := {}
  accessor : Accessor := {}
  /-- The number of digest digits in a key. -/
  keyLength : Int := Key.defaultLength
  /-- The calls whose arguments are never extracted, as `object.method`. -/
  loggingCalls : List Text := ["console.log".toList]
  /-- The patterns of paths that are never looked at. -/
  excluded : List Text := ["node_modules/".toList]
  deriving Repr, DecidableEq

/-- The scope of a file as seen from a working directory. -/
def Settings.scope (settings : Settings) (cwd path : Path) : Scope where
  path := path
  shown := Path.shown cwd path
  functions := settings.functions
  loggingCalls := settings.loggingCalls
  keyLength := settings.keyLength

end Phrasebook
