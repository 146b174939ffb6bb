import Phrasebook.Text.Lower

/-!
# Languages of scripts

A script is written in JavaScript or in TypeScript. The suffix of its file, or the
language that its block in a component names, tells which.
-/

namespace Phrasebook

/-- The languages a script can be written in. -/
inductive Language where
  | javascript
  | typescript
  deriving Repr, DecidableEq

namespace Language

/-- The name of a language in messages. -/
def name : Language → String
  | javascript => "javascript"
  | typescript => "typescript"

/-- The language that a suffix or a short name stands for, in any case of letters.
Whatever says nothing else is JavaScript. -/
def ofLabel (label : Text) : Language :=
  let lowered := Text.lower label
  if lowered == ['t', 's'] || lowered == ['.', 't', 's'] then typescript else javascript

end Language

end Phrasebook
