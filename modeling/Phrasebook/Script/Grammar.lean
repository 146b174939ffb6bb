import Phrasebook.Script.Grammar.Classes
import Phrasebook.Script.Grammar.Elements
import Phrasebook.Script.Grammar.Expressions
import Phrasebook.Script.Grammar.Modules
import Phrasebook.Script.Grammar.Statements
import Phrasebook.Script.Grammar.Types
import Phrasebook.Script.Grammar.Words

/-!
# The grammar of scripts

All rules of a language together, with what decides where they leave a choice.
-/

namespace Phrasebook.Script

open Construct
open Grammar (Rank)

/-- The constructs with rules. -/
def constructs : List Construct :=
  [program, programLine, exportStatement, namespaceExport, exportClause, exportSpecifier,
     exportedName, declaration, importWord, importStatement, importClause, fromClause,
     namespaceImport, namedImports, importSpecifier, importAttribute, statement,
     expressionStatement, variableDeclaration, lexicalDeclaration, usingDeclaration, declarator,
     statementBlock, elseClause, ifStatement, switchStatement, forStatement, forInStatement,
     forHeader, whileStatement, doStatement, tryStatement, withStatement, breakStatement,
     continueStatement, debuggerStatement, returnStatement, throwStatement, emptyStatement,
     labelledStatement, switchBody, switchCase, switchDefault, catchClause, finallyClause,
     parenthesized, expressions, expression, primaryExpression, yieldExpression, object,
     objectPattern, assignmentPattern, objectAssignmentPattern, array, arrayPattern, anyElement,
     element, characterReference, embeddedExpression, elementChild, openingTag, dashedName,
     elementWord, nestedName, namespacedName, elementName, closingTag, selfClosingElement,
     anyAttribute, attributeName, namedAttribute, attributeString, doubleAttributeFragment,
     singleAttributeFragment, attributeValue, classExpression, classDeclaration, classHeritage,
     functionExpression, functionDeclaration, generatorExpression, generatorDeclaration,
     arrowFunction, callSignature, formalParameter, optionalMark, callExpression, newExpression,
     awaitExpression, memberExpression, subscriptExpression, assignable, assignmentExpression,
     updatable, augmentedAssignment, initializer, destructuringPattern, spreadElement,
     ternaryExpression, binaryExpression, unaryExpression, updateExpression, sequenceExpression,
     string, doubleFragment, singleFragment, escapeSequence, comment, templateString,
     templateSubstitution, regex, regexPattern, regexFlags, number, anyIdentifier, identifier,
     privateName, metaProperty, thisWord, superWord, trueWord, falseWord, nullWord, undefinedWord,
     arguments, decorator, decoratorMember, decoratorCall, classBody, fieldDefinition,
     formalParameters, staticBlock, pattern, restPattern, methodDefinition, pair, pairPattern,
     propertyKey, computedName, reservedWord, semicolon, publicField, importedName,
     nonNullExpression, methodSignature, abstractMethodSignature, functionSignature,
     decoratorParenthesized, typeAssertion, asExpression, satisfiesExpression,
     instantiationExpression, importRequireClause, extendsClause, extendedValue, implementsClause,
     ambientDeclaration, abstractClassDeclaration, module, internalModule, moduleRest,
     importAlias, nestedTypeName, interfaceDeclaration, extendsTypeClause, enumDeclaration,
     enumBody, enumAssignment, typeAliasDeclaration, accessibilityModifier, overrideModifier,
     requiredParameter, optionalParameter, parameterName, omittingClause, addingClause,
     optingClause, typeClause, annotatedMember, annotatedCall, asserts, assertsClause,
     type, tupleParameter, optionalTupleParameter, optionalType, restType, tupleMember,
     constructorType, primaryType, templateType, templateLiteralType, inferType, conditionalType,
     genericType, typePredicate, predicateClause, queriedMember, queriedSubscript,
     queriedCall, queriedInstantiation, typeQuery, indexTypeQuery, lookupType, mappedTypeClause,
     literalType, signedNumber, existentialType, maybeType, parenthesizedType, predefinedType,
     typeArguments, objectType, callSignatureMember, propertySignature, typeParameters,
     typeParameter, defaultType, constraint, constructSignature, indexSignature, arrayType,
     tupleType, readonlyType, unionType, intersectionType, functionType, typeIdentifier]

/-- What a construct is made of. -/
def rule (lang : Language) (construct : Construct) : Rule :=
  let found :=
    [wordRule?, moduleRule? lang, statementRule? lang, expressionRule? lang,
      patternRule? lang, operatorRule? lang, functionRule? lang, classRule? lang,
      elementRule?, typeDeclarationRule?, typeClauseRule?, queryRule?, compoundTypeRule?, typeRule?]
  (found.findSome? fun rule? => rule? construct).getD .blank

/-- The constructs whose rules stand where they are named. -/
def inlined (lang : Language) : List Construct :=
  lang.untyped [callSignature, formalParameter] ++
    [expressions, semicolon, anyIdentifier, reservedWord, anyAttribute, elementName, elementChild,
      anyElement, attributeName, attributeValue, elementWord, assignable] ++
    lang.typed [typeIdentifier]

/-- A binding as a place in an order. -/
instance : Coe String (Rank Construct) := ⟨.named⟩

/-- A construct as a place in an order. -/
instance : Coe Construct (Rank Construct) := ⟨.construct⟩

/-- The orders of bindings in all scripts. -/
def commonOrders : List (List (Rank Construct)) :=
  [["member", "template_call", "call", updateExpression, "unary_void", "binary_exp",
      "binary_times", "binary_plus", "binary_shift", "binary_compare", "binary_relation",
      "binary_equality", "bitwise_and", "bitwise_xor", "bitwise_or", "logical_and", "logical_or",
      "ternary", sequenceExpression, arrowFunction],
    ["assign", primaryExpression],
    ["member", "template_call", "new", "call", expression],
    ["declare", "literal"],
    [primaryExpression, statementBlock, "object"],
    [metaProperty, importWord],
    [importStatement, importWord],
    [exportStatement, primaryExpression],
    [lexicalDeclaration, primaryExpression]]

/-- The orders of bindings in typed scripts. -/
def typedOrders : List (List (Rank Construct)) :=
  [["call", "instantiation", "unary", "binary", awaitExpression, arrowFunction],
    ["extends", "instantiation"],
    [intersectionType, unionType, conditionalType, functionType, "binary", typePredicate,
      readonlyType],
    [mappedTypeClause, primaryExpression],
    [accessibilityModifier, primaryExpression],
    ["unary_void", expression],
    [extendsClause, primaryExpression],
    ["unary", "assign"],
    ["declare", expression],
    [predefinedType, unaryExpression],
    [type, maybeType],
    [tupleType, arrayType, pattern, type],
    [readonlyType, pattern],
    [readonlyType, primaryExpression]]

/-- The orders of bindings of types against what looks like them. -/
def typeOrders : List (List (Rank Construct)) :=
  [[typeQuery, subscriptExpression, expression],
    [typeQuery, queriedSubscript],
    [nestedTypeName, genericType, primaryType, lookupType, indexTypeQuery, type],
    [asExpression, satisfiesExpression, primaryType],
    [queriedMember, memberExpression],
    [memberExpression, annotatedMember],
    [queriedMember, primaryExpression],
    [queriedSubscript, subscriptExpression],
    [queriedSubscript, primaryExpression],
    [queriedCall, primaryExpression],
    [queriedInstantiation, primaryExpression],
    [typeQuery, primaryExpression],
    [overrideModifier, primaryExpression],
    [decoratorCall, decorator],
    [literalType, pattern],
    [predefinedType, pattern],
    [callExpression, queriedCall],
    [callExpression, annotatedCall],
    [newExpression, primaryExpression],
    [metaProperty, primaryExpression],
    [constructSignature, propertyKey]]

/-- The grammar of a language. -/
def grammar (lang : Language) : Grammar Construct Field where
  constructs := constructs
  rule := rule lang
  isVisible := fun construct => !construct.isHidden
  inlined := inlined lang
  scanned :=
    [automaticSemicolon, templateCharacters, ternaryMark, htmlComment, elementText] ++
      lang.typed [signatureSemicolon]
  extras := [comment, htmlComment]
  blanks := blanks
  orders := commonOrders ++ lang.typed (typedOrders ++ typeOrders)
  word := some identifier

end Phrasebook.Script
