import Phrasebook.Grammar.Rule
import Phrasebook.Language

/-!
# The constructs of scripts

What scripts of both languages are made of, and the fields in which the parts of a
construct stand. Some constructs have no rule of their own: a tree shows others under
their names.
-/

namespace Phrasebook

namespace Language

/-- What only typed scripts have. -/
def typed {α : Type} (parts : List α) : Language → List α
  | javascript => []
  | typescript => parts

/-- What only untyped scripts have. -/
def untyped {α : Type} (parts : List α) : Language → List α
  | javascript => parts
  | typescript => []

end Language

namespace Script

/-- A construct of scripts. -/
inductive Construct where
  | program
  | programLine
  | exportStatement
  | namespaceExport
  | exportClause
  | exportSpecifier
  | exportedName
  | declaration
  | importWord
  | importStatement
  | importClause
  | fromClause
  | namespaceImport
  | namedImports
  | importSpecifier
  | importAttribute
  | statement
  | expressionStatement
  | variableDeclaration
  | lexicalDeclaration
  | usingDeclaration
  | declarator
  | statementBlock
  | elseClause
  | ifStatement
  | switchStatement
  | forStatement
  | forInStatement
  | forHeader
  | whileStatement
  | doStatement
  | tryStatement
  | withStatement
  | breakStatement
  | continueStatement
  | debuggerStatement
  | returnStatement
  | throwStatement
  | emptyStatement
  | labelledStatement
  | switchBody
  | switchCase
  | switchDefault
  | catchClause
  | finallyClause
  | parenthesized
  | expressions
  | expression
  | primaryExpression
  | yieldExpression
  | object
  | objectPattern
  | assignmentPattern
  | objectAssignmentPattern
  | array
  | arrayPattern
  | anyElement
  | element
  | characterReference
  | embeddedExpression
  | elementChild
  | openingTag
  | dashedName
  | elementWord
  | nestedName
  | namespacedName
  | elementName
  | closingTag
  | selfClosingElement
  | anyAttribute
  | attributeName
  | namedAttribute
  | attributeString
  | doubleAttributeFragment
  | singleAttributeFragment
  | attributeValue
  | classExpression
  | classDeclaration
  | classHeritage
  | functionExpression
  | functionDeclaration
  | generatorExpression
  | generatorDeclaration
  | arrowFunction
  | callSignature
  | formalParameter
  | optionalMark
  | callExpression
  | newExpression
  | awaitExpression
  | memberExpression
  | subscriptExpression
  | assignable
  | assignmentExpression
  | updatable
  | augmentedAssignment
  | initializer
  | destructuringPattern
  | spreadElement
  | ternaryExpression
  | binaryExpression
  | unaryExpression
  | updateExpression
  | sequenceExpression
  | string
  | doubleFragment
  | singleFragment
  | escapeSequence
  | comment
  | templateString
  | templateSubstitution
  | regex
  | regexPattern
  | regexFlags
  | number
  | anyIdentifier
  | identifier
  | privateName
  | metaProperty
  | thisWord
  | superWord
  | trueWord
  | falseWord
  | nullWord
  | undefinedWord
  | arguments
  | decorator
  | decoratorMember
  | decoratorCall
  | classBody
  | fieldDefinition
  | formalParameters
  | staticBlock
  | pattern
  | restPattern
  | methodDefinition
  | pair
  | pairPattern
  | propertyKey
  | computedName
  | reservedWord
  | semicolon
  | publicField
  | importedName
  | nonNullExpression
  | methodSignature
  | abstractMethodSignature
  | functionSignature
  | decoratorParenthesized
  | typeAssertion
  | asExpression
  | satisfiesExpression
  | instantiationExpression
  | importRequireClause
  | extendsClause
  | extendedValue
  | implementsClause
  | ambientDeclaration
  | abstractClassDeclaration
  | module
  | internalModule
  | moduleRest
  | importAlias
  | nestedTypeName
  | interfaceDeclaration
  | extendsTypeClause
  | enumDeclaration
  | enumBody
  | enumAssignment
  | typeAliasDeclaration
  | accessibilityModifier
  | overrideModifier
  | requiredParameter
  | optionalParameter
  | parameterName
  | omittingClause
  | addingClause
  | optingClause
  | typeClause
  | annotatedMember
  | annotatedCall
  | asserts
  | assertsClause
  | type
  | tupleParameter
  | optionalTupleParameter
  | optionalType
  | restType
  | tupleMember
  | constructorType
  | primaryType
  | templateType
  | templateLiteralType
  | inferType
  | conditionalType
  | genericType
  | typePredicate
  | predicateClause
  | queriedMember
  | queriedSubscript
  | queriedCall
  | queriedInstantiation
  | typeQuery
  | indexTypeQuery
  | lookupType
  | mappedTypeClause
  | literalType
  | signedNumber
  | existentialType
  | maybeType
  | parenthesizedType
  | predefinedType
  | typeArguments
  | objectType
  | callSignatureMember
  | propertySignature
  | typeParameters
  | typeParameter
  | defaultType
  | constraint
  | constructSignature
  | indexSignature
  | arrayType
  | tupleType
  | readonlyType
  | unionType
  | intersectionType
  | functionType
  | typeIdentifier
  /-- The end of a statement without a semicolon. -/
  | automaticSemicolon
  | templateCharacters
  | ternaryMark
  | htmlComment
  | elementText
  /-- The end of a signature without a semicolon. -/
  | signatureSemicolon
  | labelName
  | propertyName
  | shorthandName
  | shorthandPattern
  | stringFragment
  | typeName
  | interfaceBody
  | thisType
  deriving Repr, DecidableEq, Hashable

/-- What a part is to its construct. -/
inductive Field where
  | newName
  | alternative
  | argument
  | arguments
  | attributes
  | body
  | callee
  | closingTag
  | condition
  | consequence
  | constraint
  | constructed
  | declaration
  | decorator
  | finalizer
  | flags
  | handler
  | increment
  | index
  | indexType
  | initializer
  | key
  | kind
  | label
  | left
  | member
  | module
  | name
  | object
  | openingTag
  | operator
  | optionalMark
  | parameter
  | parameters
  | pattern
  | property
  | returnType
  | right
  | sign
  | source
  | type
  | typeArguments
  | typeParameters
  | value
  deriving Repr, DecidableEq, Hashable

/-- What a construct of scripts is made of. -/
abbrev Rule := Grammar.Rule Construct Field

/-- A construct as a part of others. -/
instance : Coe Construct Rule := ⟨.construct⟩

/-- A text as a part of constructs. -/
instance : Coe String Rule := ⟨.literal⟩

namespace Rule

/-- Groups of parts in a row. -/
def rows (groups : List (List Rule)) : Rule :=
  .row groups.flatten

/-- One of the parts of some groups. -/
def oneOfAll (groups : List (List Rule)) : Rule :=
  .oneOf groups.flatten

/-- Parts with commas between them. -/
def listed (body : Rule) : Rule :=
  .joined (.literal ",") body

/-- A part that binds as a name says. -/
def binds (name : String) (body : Rule) : Rule :=
  .bind (.named name) body

/-- A part that groups to the left and binds as a name says. -/
def bindsLeft (name : String) (body : Rule) : Rule :=
  .left body (.named name)

/-- A part that groups to the right and binds as a name says. -/
def bindsRight (name : String) (body : Rule) : Rule :=
  .right body (.named name)

end Rule

/-- Constructs that the tree shows by their parts only. -/
def Construct.isHidden : Construct → Bool
  | exportedName | declaration | fromClause | statement | forHeader | expressions | expression
  | primaryExpression | anyElement | elementChild | elementWord | elementName | anyAttribute
  | attributeName | attributeString | attributeValue | callSignature | formalParameter | assignable
  | updatable | initializer | destructuringPattern | anyIdentifier | pattern | propertyKey
  | reservedWord | semicolon | importedName | extendedValue | moduleRest | parameterName
  | annotatedMember | annotatedCall | type | tupleMember | primaryType | queriedMember
  | queriedSubscript | queriedCall | queriedInstantiation | signedNumber
  | typeIdentifier | automaticSemicolon | templateCharacters | ternaryMark
  | signatureSemicolon => true
  | _ => false

end Script

end Phrasebook
