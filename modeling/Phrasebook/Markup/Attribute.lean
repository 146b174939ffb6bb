import Phrasebook.Markup.Wrapped
import Phrasebook.Text.Scan

/-!
# Attributes

Attributes of a start tag as the stages see them: a blank, a name, an equals sign
with optional blanks around it, and a quoted value.
-/

namespace Phrasebook.Markup

/-- An attribute found in a buffer. Offsets count from the blank before its name. -/
structure Attribute where
  lead : Char
  name : Text
  quote : Char
  value : Text
  /-- The offset of the first character behind the opening quote. -/
  valueStart : Nat
  deriving Repr, DecidableEq

namespace Attribute

/-- The number of characters that an attribute takes. -/
def length (item : Attribute) : Nat :=
  item.valueStart + item.value.length + 1

/-- An attribute up to its opening quote. -/
structure Opening where
  lead : Char
  name : Text
  quote : Char
  /-- The offset of the first character behind the opening quote. -/
  insideStart : Nat
  /-- What follows the opening quote. -/
  inside : Text
  deriving Repr, DecidableEq

/-- Reads an attribute whose name `nameLength` recognises, up to its opening quote. -/
def opening (nameLength : Text → Option Nat) : Text → Option Opening
  | [] => none
  | lead :: rest => do
    if !Text.isBlank lead then none
    let nameSize ← nameLength rest
    let afterName := rest.drop nameSize
    let gap := Text.blanks afterName
    match afterName.drop gap with
    | '=' :: afterSign =>
      let secondGap := Text.blanks afterSign
      match afterSign.drop secondGap with
      | quote :: inside =>
        if quote != '"' && quote != '\'' then none
        return ⟨lead, rest.take nameSize, quote, nameSize + gap + secondGap + 3, inside⟩
      | [] => none
    | _ => none

/-- Reads an attribute whose name `nameLength` recognises. -/
def recognise (nameLength : Text → Option Nat) (text : Text) : Option (Nat × Attribute) := do
  let ⟨lead, name, quote, start, inside⟩ ← opening nameLength text
  let value := inside.takeWhile (· != quote)
  if value.length == inside.length then none
  let item : Attribute := ⟨lead, name, quote, value, start⟩
  return (item.length, item)

/-- The name of a plain attribute: it starts with an ASCII letter or an underscore
and is no directive. -/
def plainName (text : Text) : Option Nat :=
  match text with
  | [] => none
  | first :: rest =>
    if !(first.isAlpha || first == '_') || ['v', '-'].isPrefixOf text then none
    else
      some (1 + (rest.takeWhile fun char =>
        Text.isWord char || char == '.' || char == '-').length)

/-- A character that ends the name of a directive. -/
def endsDirective (char : Char) : Bool :=
  Text.isBlank char || char == '=' || char == '/' || char == '>'

/-- The name of a directive: one of the given beginnings and something behind it. -/
def directiveName (beginnings : List Text) (text : Text) : Option Nat :=
  beginnings.findSome? fun beginning => do
    let rest ← Text.strip? beginning text
    let argument := rest.takeWhile (!endsDirective ·)
    if argument.isEmpty then none else some (beginning.length + argument.length)

/-- How a bound attribute starts. -/
def bindings : List Text :=
  [[':'], "v-bind:".toList]

/-- How a bound attribute or an event handler starts. -/
def bindingsAndEvents : List Text :=
  [[':'], ['@'], "v-bind:".toList, "v-on:".toList]

/-- Whether the end of a text is inside a start tag and outside the values of its
attributes. -/
def outsideValues : (quote : Option Char) → Text → Bool
  | quote, [] => quote.isNone
  | some quote, head :: tail =>
    outsideValues (if head == quote then none else some quote) tail
  | none, head :: tail =>
    if head == '"' || head == '\'' then outsideValues (some head) tail
    else if head == '>' then false
    else outsideValues none tail

/-- Whether what follows `before` belongs to a start tag and to none of its
values. -/
def inOpenTag (before : Text) : Bool :=
  let behind := before.reverse.takeWhile (· != '<')
  behind.length < before.length && outsideValues none behind.reverse

/-- The attributes of a buffer that stand inside a start tag. -/
def all (nameLength : Text → Option Nat) (buffer : Text) : List (Found Attribute) :=
  (Text.scan (fun _ => recognise nameLength) buffer).filter fun found =>
    inOpenTag (buffer.take found.start)

end Attribute

end Phrasebook.Markup
