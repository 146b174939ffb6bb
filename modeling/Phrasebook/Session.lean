import Phrasebook.Catalogue
import Phrasebook.Failure
import Phrasebook.Key

/-!
# Extraction sessions

The state that the passes over one file share: the catalogue that they fill, the
phrases registered so far and the journal. A pass either yields a value or stops
with a failure; what it registered and reported before stays in the session.
-/

namespace Phrasebook

/-- The names of the lookup function in markup and in scripts. -/
structure Functions where
  markup : Text := ['$', 't']
  script : Text := ['t']
  deriving Repr, DecidableEq

/-- What a pass has to know about the file that it works on. -/
structure Scope where
  path : Path
  /-- The path as reports show it. -/
  shown : Text
  functions : Functions := {}
  /-- The calls whose arguments are never extracted, as `object.method`. -/
  loggingCalls : List Text := ["console.log".toList]
  /-- The number of digest digits in a key. -/
  keyLength : Int := Key.defaultLength
  deriving Repr, DecidableEq

/-- What the passes over a file have produced. -/
structure Session where
  catalogue : Catalogue := {}
  phrases : List KeyedPhrase := []
  journal : Journal := []
  deriving Repr, DecidableEq

/-- A pass over a file. -/
abbrev Pass := ExceptT Failure (StateM Session)

namespace Pass

/-- Adds reports to the journal. -/
def report (records : Journal) : Pass Unit :=
  modify fun session => { session with journal := session.journal ++ records }

/-- Reports a message about the file. -/
def note (scope : Scope) (level : Level) (reporter : Reporter) (message : Text) : Pass Unit :=
  report [.aboutFile level reporter scope.shown message]

/-- A literal's value as a text, or the reason why it is none. -/
def readable (value : Except Literal.EscapeFault CodePoints) : Except Failure Text :=
  match value with
  | .error fault => .error (.escape fault)
  | .ok points => (CodePoint.written points).mapError .unwritable

/-- The text of a literal in a range, or the reason why there is none. -/
def located (span : Span) (value : Except Literal.EscapeFault CodePoints) : Except Failure Text :=
  if value.isOk && !span.proper then .error (.emptySpan span) else readable value

/-- Registers a phrase: its text is stored under its key and the phrase joins the
session. The key is the result. -/
def register (scope : Scope) (span : Span) (setting : Setting)
    (value : Except Literal.EscapeFault CodePoints) : Pass Text := do
  let text ← ExceptT.mk (pure (located span value))
  let key := Key.ofText text scope.path scope.keyLength
  modify fun session =>
    let (catalogue, journal, _) :=
      session.catalogue.insert (CodePoint.ofText key) (CodePoint.ofText text)
    { catalogue,
      phrases := session.phrases ++ [⟨key, ⟨span, text, setting⟩⟩],
      journal := session.journal ++ journal }
  note scope .debug .extraction
    (setting.name.toList ++ ' ' :: Text.quoted text ++ " -> ".toList ++ key)
  return key

end Pass

end Phrasebook
