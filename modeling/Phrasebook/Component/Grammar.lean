import Phrasebook.Grammar.Rule

/-!
# The grammar of components

A component is a text of elements. What stands in templates is read as elements too;
what stands in scripts and styles is taken as it is. The names of tags, and texts
between tags, are found by the scanner.
-/

namespace Phrasebook.Component

open Grammar (CharSet Pattern Token)

/-- A construct of components. -/
inductive Construct where
  | document
  | doctype
  | doctypeWord
  | node
  | element
  | templateElement
  | scriptElement
  | styleElement
  | startTag
  | templateStartTag
  | scriptStartTag
  | styleStartTag
  | selfClosingTag
  | endTag
  | strayEndTag
  | plainAttribute
  | attributeName
  | attributeValue
  | quotedValue
  | text
  | interpolation
  | directive
  | directiveName
  | directiveValue
  | dynamicValue
  | dynamicInnerValue
  | directiveModifiers
  | directiveModifier
  | startName
  | scriptStartName
  | styleStartName
  | endName
  | strayEndName
  /-- The end of an element without an end tag. -/
  | implicitEnd
  | rawText
  | comment
  | templateStartName
  | textFragment
  | interpolationText
  | tagName
  deriving Repr, DecidableEq, Hashable

/-- Constructs that the tree shows by their parts only. -/
def Construct.isHidden : Construct → Bool
  | doctypeWord | node | startName | scriptStartName | styleStartName | endName | implicitEnd
  | templateStartName | textFragment | interpolationText => true
  | _ => false

/-- The parts of constructs are in no fields. -/
abbrev Field := Empty

/-- No field has a hash. -/
instance : Hashable Field := ⟨fun field => nomatch field⟩

/-- What a construct of components is made of. -/
abbrev Rule := Grammar.Rule Construct Field

/-- A construct as a part of others. -/
instance : Coe Construct Rule := ⟨.construct⟩

/-- A text as a part of constructs. -/
instance : Coe String Rule := ⟨.literal⟩

/-! ### Tokens -/

/-- One or more characters that are no blanks and none of some others. -/
def charactersExcept (others : String) : Pattern :=
  .some (.set (CharSet.blanks.or (.of others)).others)

/-- A token right behind the last one. -/
def immediately (pattern : Pattern) (strength : Int) : Token :=
  ⟨pattern, true, strength⟩

/-- The word of a document type, in any case. -/
def doctypeToken : Token :=
  ⟨.row ((["dD", "oO", "cC", "tT", "yY", "pP", "eE"].map fun letters => .set (.of letters))),
    false, 0⟩

/-- What stands in a document type. -/
def doctypeRest : Token :=
  ⟨.some (.set (CharSet.of ">").others), false, 0⟩

/-- The characters of a value up to a quote. -/
def valueUpTo (quote : String) : Token :=
  ⟨.some (.set (CharSet.of quote).others), false, 0⟩

/-- A mark in front of a directive. -/
def directiveMark (mark : String) : Token :=
  ⟨.literal mark, false, 1⟩

/-- The name of an attribute. -/
def attributeNameToken : Token :=
  ⟨charactersExcept "<>\"'/=", false, 0⟩

/-- The value of an attribute without quotes. -/
def attributeValueToken : Token :=
  ⟨charactersExcept "<>\"'=", false, 0⟩

/-- The name of a directive. -/
def directiveNameToken : Token :=
  ⟨.seq (.literal "v-") (charactersExcept "<>'\"=/:."), false, 1⟩

/-- What a directive is about. -/
def directiveValueToken : Token :=
  immediately (charactersExcept "<>\"'/=.:") 0

/-- What a directive is about, by an expression. -/
def dynamicInnerToken : Token :=
  immediately (charactersExcept "<>\"'/=]") 0

/-- What changes a directive. -/
def directiveModifierToken : Token :=
  immediately (charactersExcept "<>\"'/=.") 0

/-- The colon between a directive and what it is about. -/
def directiveColon : Token :=
  immediately (.literal ":") 1

/-- The dot in front of what changes a directive. -/
def modifierDot : Token :=
  immediately (.literal ".") 1

/-- The bracket in front of an expression. -/
def dynamicStart : Token :=
  immediately (.literal "[") 1

/-- The bracket behind an expression. -/
def dynamicEnd : Token :=
  immediately (.literal "]") 0

/-! ### Rules -/

open Construct
open Grammar.Rule (row oneOf optional many shown shownText)

/-- Attributes and directives. -/
def attributes : Rule :=
  many (oneOf [plainAttribute, directive])

/-- A start tag with a kind of name. -/
def startTagRule (name : Construct) : Rule :=
  row ["<", shown tagName name, attributes, ">"]

/-- An element whose content is taken as it is. -/
def rawElementRule (tag : Construct) : Rule :=
  row [shown startTag tag, optional rawText, endTag]

/-- A value behind an equals sign. -/
def assignedValue : Rule :=
  optional (row ["=", oneOf [attributeValue, quotedValue]])

/-- A value in quotes. -/
def quotedRule (quote : String) : Rule :=
  row [quote, optional (shown attributeValue (.token (valueUpTo quote))), quote]

/-- A directive: what it does, what it is about, what changes it, and its value. -/
def directiveRule : Rule :=
  let subject : Rule := oneOf [directiveValue, dynamicValue]
  row
    [oneOf
        [row [directiveName, optional (row [.token directiveColon, subject])],
          row [oneOf ([":", ".", "@", "#"].map fun mark => .token (directiveMark mark)), subject]],
      optional directiveModifiers,
      assignedValue]

/-- What a construct is made of. -/
def rule : Construct → Rule
  | document => many node
  | doctype => row ["<!", shownText "doctype" doctypeWord, .token doctypeRest, ">"]
  | doctypeWord => .token doctypeToken
  | node => oneOf
      [doctype, text, interpolation, element, templateElement, scriptElement, styleElement,
        strayEndTag]
  | element => oneOf
      [row [startTag, many node, oneOf [endTag, implicitEnd]], selfClosingTag]
  | templateElement => row [shown startTag templateStartTag, many node, endTag]
  | scriptElement => rawElementRule scriptStartTag
  | styleElement => rawElementRule styleStartTag
  | startTag => startTagRule startName
  | templateStartTag => startTagRule templateStartName
  | scriptStartTag => startTagRule scriptStartName
  | styleStartTag => startTagRule styleStartName
  | selfClosingTag => row
      ["<", shown tagName (oneOf [startName, templateStartName]), attributes, "/>"]
  | endTag => row ["</", shown tagName endName, ">"]
  | strayEndTag => row ["</", strayEndName, ">"]
  | plainAttribute => row [attributeName, assignedValue]
  | attributeName => .token attributeNameToken
  | attributeValue => .token attributeValueToken
  | quotedValue => oneOf [quotedRule "'", quotedRule "\""]
  | text => textFragment
  | interpolation => row
      ["\x7b\x7b", optional (shown rawText interpolationText), "\x7d\x7d"]
  | directive => directiveRule
  | directiveName => .token directiveNameToken
  | directiveValue => .token directiveValueToken
  | dynamicValue => row
      [.token dynamicStart, optional dynamicInnerValue, .token dynamicEnd]
  | dynamicInnerValue => .token dynamicInnerToken
  | directiveModifiers => .some (row [.token modifierDot, directiveModifier])
  | directiveModifier => .token directiveModifierToken
  | _ => .blank

/-- The grammar of components. -/
def grammar : Grammar Construct Field where
  constructs :=
    [document, doctype, doctypeWord, node, element, templateElement, scriptElement, styleElement,
      startTag, templateStartTag, scriptStartTag, styleStartTag, selfClosingTag, endTag,
      strayEndTag, plainAttribute, attributeName, attributeValue, quotedValue, text, interpolation,
      directive, directiveName, directiveValue, dynamicValue, dynamicInnerValue,
      directiveModifiers, directiveModifier]
  rule := rule
  isVisible := fun construct => !construct.isHidden
  scanned :=
    [startName, scriptStartName, styleStartName, endName, strayEndName, implicitEnd, rawText,
      comment, templateStartName, textFragment, interpolationText]
  extras := [comment]
  blanks := CharSet.blanks

/-! ### What is looked for -/

/-- The tokens that are looked for together. Where only the first ones of a group fit,
all of it is looked for, and what does not fit is a fault. The first group has the
tokens between tags; all of its tokens are also looked for at a fault. -/
def tokenGroups : List (List Token) :=
  let marks := [":", ".", "@", "#"].map directiveMark
  let tagTokens : List Token :=
    [.literal ">", .literal "/>", .literal "=", attributeNameToken] ++ marks ++ [directiveNameToken]
  [[.literal "<!", .literal ">", doctypeToken, .literal "<", .literal "/>", .literal "</",
      .literal "=", .literal "'", .literal "\"", .literal "\x7b\x7b", .literal "\x7d\x7d",
      directiveColon] ++ marks ++ [directiveNameToken, dynamicStart, dynamicEnd, modifierDot],
    tagTokens,
    tagTokens ++ [modifierDot],
    tagTokens ++ [directiveColon, modifierDot],
    [attributeValueToken, .literal "'", .literal "\""],
    [directiveValueToken, dynamicStart],
    [dynamicEnd, dynamicInnerToken],
    [.literal "'", valueUpTo "'"],
    [.literal "\"", valueUpTo "\""],
    [doctypeRest],
    [directiveModifierToken]]

end Phrasebook.Component
