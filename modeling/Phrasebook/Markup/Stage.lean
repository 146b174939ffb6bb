import Phrasebook.Markup.Attribute
import Phrasebook.Markup.Comment
import Phrasebook.Markup.Interpolation
import Phrasebook.Markup.Quotation
import Phrasebook.Markup.Run

/-!
# Stages

A template goes through a cascade of stages, each over the result of the one
before it. A stage finds places in its buffer and says which pieces belong there;
applying it registers the phrases among the pieces and edits the buffer.
-/

namespace Phrasebook.Markup

/-- One pass over the markup of a template. -/
inductive Stage where
  /-- Attributes with a fixed value become bound to a call. -/
  | plainAttribute
  /-- Bound attributes whose value is one template literal. -/
  | templateAttribute
  /-- Quoted literals in the values of bound attributes and event handlers. -/
  | directiveLiteral
  /-- Quoted literals in interpolations. -/
  | interpolationLiteral
  /-- Runs of text with interpolations in them. -/
  | mixedContent
  /-- Runs of text without interpolations. -/
  | plainText
  deriving Repr, DecidableEq

namespace Stage

/-- The name of a stage in reports. -/
def name : Stage → String
  | plainAttribute => "plain-attribute"
  | templateAttribute => "template-attribute"
  | directiveLiteral => "directive-literal"
  | interpolationLiteral => "interpolation-literal"
  | mixedContent => "mixed-content"
  | plainText => "text"

/-- The stages in the order in which they run. -/
def all : List Stage :=
  [plainAttribute, templateAttribute, directiveLiteral, interpolationLiteral, mixedContent, plainText]

/-- Where the phrases of a stage stand. -/
def setting : Stage → Setting
  | plainAttribute | templateAttribute | directiveLiteral => .markupAttribute
  | interpolationLiteral => .markupInterpolation
  | mixedContent | plainText => .markupBody

/-- The other one of the two quotes of attribute values. -/
def otherQuote (quote : Char) : Char :=
  if quote == '"' then '\'' else '"'

/-- A plain attribute whose value holds ideographs becomes a bound one. -/
def findPlainAttribute (found : Found Attribute) : Option (List Piece) :=
  let item := found.value
  let text := Text.trim item.value
  if Text.hasIdeograph text then
    some
      [.fixed (item.lead :: ':' :: item.name ++ ['=', '"']),
        .call
          { start := found.start + 1, stop := found.stop, value := literally text, quote := '\'' },
        .fixed ['"']]
  else none

/-- Reads a bound attribute whose value is one template literal, with blanks around
it. Its value is the body of the literal. -/
def recogniseTemplate (text : Text) : Option (Nat × Attribute) := do
  let ⟨lead, name, quote, start, inside⟩ ←
    Attribute.opening (Attribute.directiveName Attribute.bindings) text
  let gap := Text.blanks inside
  match inside.drop gap with
  | tick :: content =>
    if tick != Char.ofNat 0x60 then none
    let body := content.takeWhile (· != tick)
    let behind := content.drop (body.length + 1)
    let lastGap := Text.blanks behind
    if body.length < content.length && (behind.drop lastGap).head? == some quote then
      let bodyStart := start + gap + 1
      some (bodyStart + body.length + lastGap + 2, ⟨lead, name, quote, body, bodyStart⟩)
    else none
  | [] => none

/-- A bound template literal with ideographs in its fixed parts becomes a call
with the substitutions as arguments. -/
def findTemplateAttribute (found : Found Attribute) : Option (List Piece) :=
  let item := found.value
  let (first, cuts) := Text.cutAll Interpolation.recogniseSubstitution item.value
  let parts := first :: cuts.map Prod.snd
  if Text.hasIdeograph parts.flatten then
    let bodyStart := found.start + item.valueStart
    some
      [.fixed (item.lead :: item.name ++ ['=', item.quote]),
        .call
          { start := bodyStart,
            stop := bodyStart + item.value.length,
            value := (Literal.cook (Call.weave Call.placeholder 0 parts)).map CodePoint.trim,
            quote := otherQuote item.quote,
            exprs := cuts.map fun (expr, _) => Text.trim expr },
        .fixed [item.quote]]
  else none

/-- Quoted literals in a directive become calls. Literals with braces are left
alone. -/
def findDirectiveLiteral (functions : Functions) (found : Found Attribute) :
    Option (List Piece) :=
  let item := found.value
  if Text.hasIdeograph item.value then
    let candidates := Quotation.candidates functions
      [otherQuote item.quote, Char.ofNat 0x60] (fun _ => otherQuote item.quote)
      (fun body => !body.contains '{' && !body.contains '}')
      (found.start + item.valueStart) item.value
    if candidates.isEmpty then none
    else
      some (.fixed (item.lead :: item.name ++ ['=', item.quote]) ::
        Piece.interleave 0 item.value candidates ++ [.fixed [item.quote]])
  else none

/-- Quoted literals in an interpolation become calls. -/
def findInterpolationLiteral (functions : Functions) (found : Found Text) :
    Option (List Piece) :=
  if Text.hasIdeograph found.value then
    let candidates := Quotation.candidates functions ['\'', '"'] id (fun _ => true)
      (found.start + Interpolation.opening.length) found.value
    if candidates.isEmpty then none
    else
      some (.fixed Interpolation.opening :: Piece.interleave 0 found.value candidates ++
        [.fixed Interpolation.closing])
  else none

/-- The pieces in the place of a run: its blanks stay, and a call inside an
interpolation takes the place of the rest. -/
def runPieces (found : Found Text) (lead trail text : Text) (exprs : List Text) :
    List Piece :=
  [.fixed (lead ++ ['{', '{', ' ']),
    .call
      { start := found.start, stop := found.stop, value := literally text, quote := '"',
        exprs },
    .fixed ([' ', '}', '}'] ++ trail)]

/-- A run with interpolations and ideographs between them becomes one call with
the expressions as arguments. -/
def findMixedContent (found : Found Text) : Option (List Piece) :=
  let (lead, body, trail) := Text.cutBlanks found.value
  let (first, cuts) := Text.cutAll Interpolation.recognise body
  let parts := first :: cuts.map Prod.snd
  let fixedText := parts.flatten
  if cuts.isEmpty || !Text.hasIdeograph fixedText ||
      Text.occursIn Interpolation.closing fixedText ||
      Text.occursIn Interpolation.opening fixedText then none
  else
    some (runPieces found lead trail (Text.trim (Call.weave Call.placeholder 0 parts))
      (cuts.map fun (expr, _) => Text.trim expr))

/-- A run with ideographs becomes a call, unless it holds an interpolation or a
call already. -/
def findText (functions : Functions) (found : Found Text) : Option (List Piece) :=
  if Text.occursIn Interpolation.opening found.value ||
      Text.occursIn Interpolation.closing found.value ||
      Text.occursIn (functions.markup ++ ['(']) found.value then none
  else
    let (lead, text, trail) := Text.cutBlanks found.value
    some (runPieces found lead trail text [])

/-- Keeps the places for which pieces are given. -/
def placed {α : Type} (pieces : Found α → Option (List Piece)) (places : List (Found α)) :
    List (Found (List Piece)) :=
  places.filterMap fun found =>
    (pieces found).map fun value => ⟨found.start, found.stop, value⟩

/-- What a stage finds in a buffer, from left to right. -/
def find (functions : Functions) (buffer : Text) : Stage → List (Found (List Piece))
  | plainAttribute =>
    placed findPlainAttribute (Attribute.all Attribute.plainName buffer)
  | templateAttribute =>
    placed findTemplateAttribute ((Text.scan (fun _ => recogniseTemplate) buffer).filter
      fun found => Attribute.inOpenTag (buffer.take found.start))
  | directiveLiteral =>
    placed (findDirectiveLiteral functions)
      (Attribute.all (Attribute.directiveName Attribute.bindingsAndEvents) buffer)
  | interpolationLiteral =>
    placed (findInterpolationLiteral functions)
      (Text.scan (fun _ => Interpolation.recognise) buffer)
  | mixedContent =>
    placed findMixedContent (Run.all (Text.occursIn Interpolation.opening) buffer)
  | plainText => placed (findText functions) (Run.all Text.hasIdeograph buffer)

/-- The edits for the places that a stage found. A place whose pieces spell what
already stands there is not edited. -/
def edits (scope : Scope) (stage : Stage) (buffer : Text) :
    List (Found (List Piece)) → Pass (List (Edit Char))
  | [] => pure []
  | found :: later => do
    let content ← Piece.render scope stage.setting found.value
    let rest ← edits scope stage buffer later
    return if content == buffer.slice found.start found.stop then rest
      else ⟨found.start, found.stop, content⟩ :: rest

/-- A buffer after a stage. -/
def apply (scope : Scope) (stage : Stage) (buffer : Text) : Pass Text := do
  let edits ← edits scope stage buffer (find scope.functions buffer stage)
  unless edits.isEmpty do
    Pass.note scope .debug .extraction
      (stage.name.toList ++ " rewrote ".toList ++ Text.ofNat edits.length ++ " spans".toList)
  return Edit.applyAll buffer edits

/-- A buffer after several stages, one on the result of the other. -/
def applyAll (scope : Scope) : List Stage → Text → Pass Text
  | [], buffer => pure buffer
  | stage :: stages, buffer => do
    let next ← apply scope stage buffer
    applyAll scope stages next

end Stage

/-- A template after the stages. Comments are set aside for as long as the stages
run. -/
def extract (scope : Scope) (stages : List Stage) (template : Text) : Pass Text := do
  let buffer ← Stage.applyAll scope stages (Comment.mask template)
  ExceptT.mk (pure (Comment.restore (Comment.all template) buffer))

end Phrasebook.Markup
