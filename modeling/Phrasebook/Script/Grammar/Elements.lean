import Phrasebook.Script.Construct

/-!
# Elements

Markup inside untyped scripts.
-/

namespace Phrasebook.Script

open Construct
open Grammar.Rule (row oneOf optional many field shown weigh)
open Rule (binds)

/-- An attribute's text between two quotes. -/
def quotedAttribute (quote : String) (fragment : Construct) : Rule :=
  row [quote, many (oneOf [shown stringFragment fragment, characterReference]), quote]

/-- The rules of elements. -/
def elementRule? : Construct → Option Rule
  | anyElement => some (oneOf [element, selfClosingElement])
  | element => some (row
      [field .openingTag openingTag, many elementChild, field .closingTag closingTag])
  | embeddedExpression => some (row
      ["\x7b", optional (oneOf [expression, sequenceExpression, spreadElement]), "\x7d"])
  | elementChild => some (oneOf
      [elementText, characterReference, anyElement, embeddedExpression])
  | openingTag => some (weigh (-1) (row
      ["<",
        optional (row [field .name elementName, many (field .attributes anyAttribute)]),
        ">"]))
  | elementWord => some (oneOf [shown identifier dashedName, identifier])
  | nestedName => some (binds "member" (row
      [field .object (oneOf [identifier, shown memberExpression nestedName]), ".",
        field .property (shown propertyName identifier)]))
  | namespacedName => some (row [elementWord, ":", elementWord])
  | elementName => some (oneOf
      [elementWord, shown memberExpression nestedName, namespacedName])
  | closingTag => some (row ["</", optional (field .name elementName), ">"])
  | selfClosingElement => some (row
      ["<", field .name elementName, many (field .attributes anyAttribute), "/>"])
  | anyAttribute => some (oneOf [namedAttribute, embeddedExpression])
  | attributeName => some (oneOf [shown propertyName elementWord, namespacedName])
  | namedAttribute => some (row [attributeName, optional (row ["=", attributeValue])])
  | attributeString => some (oneOf
      [quotedAttribute "\"" doubleAttributeFragment, quotedAttribute "'" singleAttributeFragment])
  | attributeValue => some (oneOf
      [shown string attributeString, embeddedExpression, anyElement])
  | _ => none

end Phrasebook.Script
