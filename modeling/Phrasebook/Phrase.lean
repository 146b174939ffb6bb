import Phrasebook.Text.Basic

/-!
# Phrases

A phrase is a piece of text to be localised together with the place where it was
found and what kind of place that is.
-/

namespace Phrasebook

/-- Where a phrase was found. -/
inductive Setting where
  | markupAttribute
  | markupBody
  | markupInterpolation
  | scriptLiteral
  | scriptTemplate
  deriving Repr, DecidableEq

namespace Setting

/-- The name of a setting in reports and answers. -/
def name : Setting → String
  | markupAttribute => "markup-attribute"
  | markupBody => "markup-body"
  | markupInterpolation => "markup-interpolation"
  | scriptLiteral => "script-literal"
  | scriptTemplate => "script-template"

end Setting

/-- A range of a buffer. -/
structure Span where
  start : Int
  stop : Int
  deriving Repr, DecidableEq

/-- A range is proper when it holds at least one element. -/
def Span.proper (span : Span) : Bool :=
  span.start < span.stop

/-- A located piece of text to be localised. -/
structure Phrase where
  span : Span
  text : Text
  setting : Setting
  deriving Repr, DecidableEq

/-- A phrase with the key under which it is stored. -/
structure KeyedPhrase where
  key : Text
  phrase : Phrase
  deriving Repr, DecidableEq

end Phrasebook
