import Phrasebook.Script.Construct

/-!
# Types

What only typed scripts have: types, their declarations, and the places at which they
are written down.
-/

namespace Phrasebook.Script

open Construct
open Grammar.Rule (row oneOf optional many joined field shown shownText left right bind)
open Rule (rows oneOfAll listed binds)

/-- The parts of a value whose type is asked for. -/
def queriedParts : List Rule :=
  [identifier, thisWord, shown subscriptExpression queriedSubscript,
    shown memberExpression queriedMember, shown callExpression queriedCall]

/-- What can be called, or given types, where a type is asked for. -/
def queriedCallee : Rule :=
  oneOf
    [importWord, identifier, shown memberExpression queriedMember,
      shown subscriptExpression queriedSubscript]

/-- The name behind the dot of a member. -/
def memberName : Rule :=
  oneOf [privateName, shown propertyName identifier]

/-- The members of an object type. -/
def objectTypeRule : Rule :=
  row
    [oneOf ["\x7b", "\x7b|"],
      optional (row
        [optional (oneOf [",", ";"]),
          joined (oneOf [",", semicolon]) (oneOf
            [exportStatement, propertySignature, callSignatureMember, constructSignature,
              indexSignature, methodSignature]),
          optional (oneOf [",", semicolon])]),
      oneOf ["\x7d", "|\x7d"]]

/-- A signature for all members of one kind. -/
def indexSignatureRule : Rule :=
  row
    [optional (row [field .sign (optional (oneOf ["-", "+"])), "readonly"]),
      "[",
      oneOf
        [row
            [field .name (oneOf [identifier, shown identifier reservedWord]), ":",
              field .indexType type],
          mappedTypeClause],
      "]",
      field .type (oneOf [typeClause, omittingClause, addingClause, optingClause])]

/-- The types that need no parentheses anywhere. -/
def primaryTypeRule : Rule :=
  oneOf
    [parenthesizedType, predefinedType, typeIdentifier, nestedTypeName, genericType, objectType,
      arrayType, tupleType, maybeType, typeQuery, indexTypeQuery, shown thisType thisWord,
      existentialType, literalType, lookupType, conditionalType, templateLiteralType,
      intersectionType, unionType, "const"]

/-- The rules of declarations of types. -/
def typeDeclarationRule? : Construct → Option Rule
  | interfaceDeclaration => some (row
      ["interface", field .name typeIdentifier, field .typeParameters (optional typeParameters),
        optional extendsTypeClause, field .body (shown interfaceBody objectType)])
  | extendsTypeClause => some (row
      ["extends", listed (field .type (oneOf [typeIdentifier, nestedTypeName, genericType]))])
  | enumDeclaration => some (row
      [optional "const", "enum", field .name identifier, field .body enumBody])
  | enumBody => some (row
      ["\x7b",
        optional (row
          [joined "," (oneOf [field .name propertyKey, enumAssignment]), optional ","]),
        "\x7d"])
  | enumAssignment => some (row [field .name propertyKey, initializer])
  | typeAliasDeclaration => some (row
      ["type", field .name typeIdentifier, field .typeParameters (optional typeParameters), "=",
        field .value type, semicolon])
  | typeArguments => some (row ["<", listed type, optional ",", ">"])
  | typeParameters => some (row ["<", listed typeParameter, optional ",", ">"])
  | typeParameter => some (row
      [optional "const", field .name typeIdentifier, field .constraint (optional constraint),
        field .value (optional defaultType)])
  | defaultType => some (row ["=", type])
  | constraint => some (row [oneOf ["extends", ":"], type])
  | _ => none

/-- The rules of annotations. -/
def typeClauseRule? : Construct → Option Rule
  | omittingClause => some (row ["-?:", type])
  | addingClause => some (row ["+?:", type])
  | optingClause => some (row ["?:", type])
  | typeClause => some (row
      [":",
        oneOf
          [type, shown memberExpression annotatedMember, shown callExpression annotatedCall]])
  | annotatedMember => some (row
      [field .object (oneOf
          [importWord, shown memberExpression annotatedMember, shown callExpression annotatedCall]),
        ".",
        field .property memberName])
  | annotatedCall => some (row
      [field .callee (oneOf [importWord, shown memberExpression annotatedMember]),
        field .arguments arguments])
  | asserts => some (row ["asserts", oneOf [typePredicate, identifier, thisWord]])
  | assertsClause => some (row [":", asserts])
  | typePredicate => some (row
      [field .name (oneOf [identifier, thisWord, shown identifier predefinedType]), "is",
        field .type type])
  | predicateClause => some (row [":", typePredicate])
  | _ => none

/-- The rules of the types of values that are named. -/
def queryRule? : Construct → Option Rule
  | queriedMember => some (row
      [field .object (oneOf queriedParts), oneOf [".", "?."], field .property memberName])
  | queriedSubscript => some (row
      [field .object (oneOf queriedParts), optional "?.", "[",
        field .index (oneOf [predefinedType, string, number]), "]"])
  | queriedCall => some (row [field .callee queriedCallee, field .arguments arguments])
  | queriedInstantiation => some (row
      [field .callee queriedCallee, field .typeArguments typeArguments])
  | typeQuery => some (right (row
      ["typeof",
        oneOf
          [shown subscriptExpression queriedSubscript, shown memberExpression queriedMember,
            shown callExpression queriedCall, shown instantiationExpression queriedInstantiation,
            identifier, thisWord]]))
  | indexTypeQuery => some (row ["keyof", primaryType])
  | _ => none

/-- The rules of object types and tuples. -/
def compoundTypeRule? : Construct → Option Rule
  | tupleParameter => some (row
      [field .name (oneOf [identifier, restPattern]), field .type typeClause])
  | optionalTupleParameter => some (row
      [field .name identifier, "?", field .type typeClause])
  | optionalType => some (row [type, "?"])
  | restType => some (row ["...", type])
  | tupleMember => some (oneOf
      [shown requiredParameter tupleParameter, shown optionalParameter optionalTupleParameter,
        optionalType, restType, type])
  | objectType => some objectTypeRule
  | callSignatureMember => some callSignature
  | propertySignature => some (row
      [optional accessibilityModifier, optional "static", optional overrideModifier,
        optional "readonly", field .name propertyKey, optional "?",
        field .type (optional typeClause)])
  | constructSignature => some (row
      [optional "abstract", "new", field .typeParameters (optional typeParameters),
        field .parameters formalParameters, field .type (optional typeClause)])
  | indexSignature => some indexSignatureRule
  | mappedTypeClause => some (row
      [field .name typeIdentifier, "in", field .type type,
        field .newName (optional (row ["as", type]))])
  | arrayType => some (row [primaryType, "[", "]"])
  | tupleType => some (row ["[", optional (listed tupleMember), optional ",", "]"])
  | _ => none

/-- The rules of all other types. -/
def typeRule? : Construct → Option Rule
  | type => some (oneOf
      [primaryType, functionType, readonlyType, constructorType, inferType,
        bind (.level (-1)) (shown memberExpression annotatedMember),
        bind (.level (-1)) (shown callExpression annotatedCall)])
  | constructorType => some (left (row
      [optional "abstract", "new", field .typeParameters (optional typeParameters),
        field .parameters formalParameters, "=>", field .type type]))
  | primaryType => some primaryTypeRule
  | templateType => some (row ["$\x7b", oneOf [primaryType, inferType], "\x7d"])
  | templateLiteralType => some (row
      ["`", many (oneOf [shown stringFragment templateCharacters, templateType]), "`"])
  | inferType => some (right (row
      ["infer", typeIdentifier, optional (row ["extends", type])]))
  | conditionalType => some (right (row
      [field .left type, "extends", field .right type, "?", field .consequence type, ":",
        field .alternative type]))
  | genericType => some (binds "call" (row
      [field .name (oneOf [typeIdentifier, nestedTypeName]), field .typeArguments typeArguments]))
  | nestedTypeName => some (binds "member" (row
      [field .module (oneOf [identifier, nestedName]), ".", field .name typeIdentifier]))
  | lookupType => some (row [primaryType, "[", type, "]"])
  | literalType => some (oneOf
      [shown unaryExpression signedNumber, number, string, trueWord, falseWord, nullWord,
        undefinedWord])
  | signedNumber => some (left
      (row [field .operator (oneOf ["-", "+"]), field .argument number]) (.level 1))
  | existentialType => some "*"
  | maybeType => some (right (row ["?", primaryType]))
  | parenthesizedType => some (row ["(", type, ")"])
  | predefinedType => some (oneOf
      ["any", "number", "boolean", "string", "symbol",
        shownText "unique symbol" (row ["unique", "symbol"]), "void", "unknown", "never", "object"])
  | readonlyType => some (row ["readonly", type])
  | unionType => some (left (row [optional type, "|", type]))
  | intersectionType => some (left (row [optional type, "&", type]))
  | functionType => some (left (row
      [field .typeParameters (optional typeParameters), field .parameters formalParameters, "=>",
        field .returnType (oneOf [type, asserts, typePredicate])]))
  | typeIdentifier => some (shown typeName identifier)
  | _ => none

end Phrasebook.Script
