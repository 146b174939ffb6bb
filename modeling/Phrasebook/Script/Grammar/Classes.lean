import Phrasebook.Script.Construct

/-!
# Functions and classes

What has parameters and a body, and what has members.
-/

namespace Phrasebook.Script

open Construct
open Grammar.Rule (row oneOf optional many field shown shownText left right)
open Rule (rows oneOfAll listed binds bindsLeft bindsRight)

/-! ### Functions -/

/-- The head and the body of a function. -/
def functionParts (marks : List Rule) (name : Rule) (ending : List Rule) : Rule :=
  rows
    [[optional "async", "function"], marks,
      [field .name name, callSignature, field .body statementBlock], ending]

/-- Parameters with what stands around them. -/
def signatureRule : Language → Rule
  | .javascript => field .parameters formalParameters
  | .typescript =>
    row
      [field .typeParameters (optional typeParameters),
        field .parameters formalParameters,
        field .returnType (optional (oneOf
          [typeClause, assertsClause, predicateClause]))]

/-- The rules of functions. -/
def functionRule? (lang : Language) : Construct → Option Rule
  | functionExpression => some (binds "literal" (functionParts [] (optional identifier) []))
  | functionDeclaration => some (bindsRight "declare"
      (functionParts [] identifier [optional automaticSemicolon]))
  | generatorExpression => some (binds "literal" (functionParts ["*"] (optional identifier) []))
  | generatorDeclaration => some (bindsRight "declare"
      (functionParts ["*"] identifier [optional automaticSemicolon]))
  | arrowFunction => some (row
      [optional "async",
        oneOf
          [field .parameter (oneOf [shown identifier reservedWord, identifier]), callSignature],
        "=>",
        field .body (oneOf [expression, statementBlock])])
  | callSignature => some (signatureRule lang)
  | formalParameter => some (oneOfAll
      [lang.untyped [pattern, assignmentPattern],
        lang.typed [requiredParameter, optionalParameter]])
  | formalParameters => some (row
      ["(", optional (row [listed formalParameter, optional ","]), ")"])
  | functionSignature => some (row
      [optional "async", "function", field .name identifier, callSignature,
        oneOf [semicolon, signatureSemicolon]])
  | requiredParameter => some (row
      [parameterName, field .type (optional typeClause), optional initializer])
  | optionalParameter => some (row
      [parameterName, "?", field .type (optional typeClause), optional initializer])
  | parameterName => some (row
      [many (field .decorator decorator), optional accessibilityModifier,
        optional overrideModifier, optional "readonly",
        field .pattern (oneOf [pattern, thisWord])])
  | _ => none

/-! ### Classes -/

/-- The words in front of a class, its name and its parts. -/
def classParts (lang : Language) (words : List Rule) (name : Rule) (ending : List Rule) :
    Rule :=
  rows
    [[many (field .decorator decorator)], words, [field .name name],
      lang.typed [field .typeParameters (optional typeParameters)],
      [optional classHeritage, field .body classBody], ending]

/-- The name of a class. -/
def className : Language → Construct
  | .javascript => identifier
  | .typescript => typeIdentifier

/-- What a class comes from. -/
def heritageRule : Language → Rule
  | .javascript => row ["extends", expression]
  | .typescript =>
    oneOf [row [extendsClause, optional implementsClause], implementsClause]

/-- A decorator. -/
def decoratorRule (lang : Language) : Rule :=
  row
    ["@",
      oneOfAll
        [[identifier, shown memberExpression decoratorMember, shown callExpression decoratorCall],
          lang.typed [shown parenthesized decoratorParenthesized]]]

/-- The members of a class. -/
def classBodyRule : Language → Rule
  | .javascript =>
    row
      ["\x7b",
        many (oneOf
          [row [field .member methodDefinition, optional ";"],
            row [field .member fieldDefinition, semicolon],
            field .member staticBlock,
            ";"]),
        "\x7d"]
  | .typescript =>
    row
      ["\x7b",
        many (oneOf
          [row [many (field .decorator decorator), methodDefinition, optional semicolon],
            row [methodSignature, oneOf [signatureSemicolon, ","]],
            staticBlock,
            row
              [oneOf [abstractMethodSignature, indexSignature, methodSignature, publicField],
                oneOf [semicolon, ","]],
            ";"]),
        "\x7d"]

/-- The word in front of a method that is read across a line end. -/
def staticGetter : Grammar.Token where
  pattern := .row
    [.literal "static", .some (.set .blanks), .literal "get", .many (.set .blanks), .literal "\n"]

/-- The words that tell what a method does. -/
def methodKind : Rule :=
  optional (oneOf ["get", "set", "*"])

/-- A method with its body. -/
def methodRule : Language → Rule
  | .javascript =>
    row
      [many (field .decorator decorator),
        optional (oneOf ["static", shownText "static get" (.token staticGetter)]),
        optional "async", methodKind, field .name propertyKey,
        field .parameters formalParameters, field .body statementBlock]
  | .typescript =>
    left (row
      [optional accessibilityModifier, optional "static", optional overrideModifier,
        optional "readonly", optional "async", methodKind, field .name propertyKey, optional "?",
        callSignature, field .body statementBlock])

/-- A field of a typed class. -/
def publicFieldRule : Rule :=
  row
    [many (field .decorator decorator),
      optional (oneOf
        [row ["declare", optional accessibilityModifier],
          row [accessibilityModifier, optional "declare"]]),
      oneOf
        [row [optional "static", optional overrideModifier, optional "readonly"],
          row [optional "abstract", optional "readonly"],
          row [optional "readonly", optional "abstract"],
          optional "accessor"],
      field .name propertyKey, optional (oneOf ["?", "!"]),
      field .type (optional typeClause), optional initializer]

/-- The rules of classes. -/
def classRule? (lang : Language) : Construct → Option Rule
  | classExpression => some (binds "literal"
      (classParts lang ["class"] (optional (className lang)) []))
  | classDeclaration =>
    let parts := classParts lang ["class"] (className lang) [optional automaticSemicolon]
    match lang with
    | .javascript => some (binds "declare" parts)
    | .typescript => some (bindsLeft "declare" parts)
  | abstractClassDeclaration => some (binds "declare"
      (classParts lang ["abstract", "class"] typeIdentifier []))
  | classHeritage => some (heritageRule lang)
  | extendsClause => some (row ["extends", listed extendedValue])
  | extendedValue => some (binds "extends" (row
      [field .value expression, field .typeArguments (optional typeArguments)]))
  | implementsClause => some (row ["implements", listed type])
  | decorator => some (decoratorRule lang)
  | decoratorMember => some (binds "member" (row
      [field .object (oneOf [identifier, shown memberExpression decoratorMember]), ".",
        field .property (shown propertyName identifier)]))
  | decoratorCall => some (binds "call" (rows
      [[field .callee (oneOf [identifier, shown memberExpression decoratorMember])],
        lang.typed [optional (field .typeArguments typeArguments)],
        [field .arguments arguments]]))
  | decoratorParenthesized => some (row
      ["(",
        oneOf
          [identifier, shown memberExpression decoratorMember, shown callExpression decoratorCall],
        ")"])
  | classBody => some (classBodyRule lang)
  | fieldDefinition => some (row
      [many (field .decorator decorator), optional "static", field .property propertyKey,
        optional initializer])
  | staticBlock => some (row
      ["static", optional automaticSemicolon, field .body statementBlock])
  | methodDefinition => some (methodRule lang)
  | publicField => some publicFieldRule
  | methodSignature => some (row
      [optional accessibilityModifier, optional "static", optional overrideModifier,
        optional "readonly", optional "async", methodKind, field .name propertyKey, optional "?",
        callSignature])
  | abstractMethodSignature => some (row
      [optional accessibilityModifier, "abstract", optional overrideModifier, methodKind,
        field .name propertyKey, optional "?", callSignature])
  | accessibilityModifier => some (oneOf ["public", "private", "protected"])
  | overrideModifier => some "override"
  | _ => none

end Phrasebook.Script
