import Phrasebook.Script.Construct

/-!
# Expressions

What has a value, and what a value can be assigned to.
-/

namespace Phrasebook.Script

open Construct
open Grammar.Rule (row oneOf optional many field shown shownText left right weigh)
open Rule (rows oneOfAll listed binds bindsLeft bindsRight)

/-- All expressions. -/
def expressionRule (lang : Language) : Rule :=
  oneOfAll
    [lang.typed
        [asExpression, satisfiesExpression, instantiationExpression, internalModule, typeAssertion],
      [primaryExpression],
      lang.untyped [anyElement],
      [assignmentExpression, augmentedAssignment, awaitExpression, unaryExpression,
        binaryExpression, ternaryExpression, updateExpression, newExpression, yieldExpression,
        arrowFunction]]

/-- The expressions that need no parentheses anywhere. -/
def primaryRule (lang : Language) : Rule :=
  oneOfAll
    [[subscriptExpression, memberExpression, parenthesized, anyIdentifier,
        shown identifier reservedWord, thisWord, superWord, number, string, templateString, regex,
        trueWord, falseWord, nullWord, object, array, functionExpression, generatorExpression,
        classExpression, metaProperty, callExpression],
      lang.typed [nonNullExpression]]

/-- An expression in parentheses; a typed one can have an annotation. -/
def parenthesizedRule : Language → Rule
  | .javascript => row ["(", expressions, ")"]
  | .typescript =>
    row
      ["(",
        oneOf
          [row [expression, field .type (optional typeClause)], sequenceExpression],
        ")"]

/-- A call. -/
def callRule (lang : Language) : Rule :=
  let typeArgumentsField : List Rule :=
    lang.typed [field .typeArguments (optional typeArguments)]
  oneOf
    [binds "call" (rows
        [[field .callee (oneOf [expression, importWord])],
          typeArgumentsField,
          [field .arguments arguments]]),
      binds "template_call" (row
        [field .callee (oneOf [primaryExpression, newExpression]),
          field .arguments templateString]),
      binds "member" (rows
        [[field .callee primaryExpression],
          lang.untyped [field .optionalMark optionalMark],
          lang.typed ["?."],
          typeArgumentsField,
          [field .arguments arguments]])]

/-- The making of an object by its class. -/
def newRule : Language → Rule
  | .javascript =>
    bindsRight "new" (row
      ["new",
        field .constructed (oneOf [primaryExpression, newExpression]),
        field .arguments (optional (weigh 1 arguments))])
  | .typescript =>
    bindsRight "new" (row
      ["new",
        field .constructed primaryExpression,
        field .typeArguments (optional typeArguments),
        field .arguments (optional arguments)])

/-- The operators of two sides with their bindings. -/
def binaryOperators : List (String × String) :=
  [("&&", "logical_and"), ("||", "logical_or"), (">>", "binary_shift"), (">>>", "binary_shift"),
    ("<<", "binary_shift"), ("&", "bitwise_and"), ("^", "bitwise_xor"), ("|", "bitwise_or"),
    ("+", "binary_plus"), ("-", "binary_plus"), ("*", "binary_times"), ("/", "binary_times"),
    ("%", "binary_times"), ("**", "binary_exp"), ("<", "binary_relation"),
    ("<=", "binary_relation"), ("==", "binary_equality"), ("===", "binary_equality"),
    ("!=", "binary_equality"), ("!==", "binary_equality"), (">=", "binary_relation"),
    (">", "binary_relation"), ("??", "ternary"), ("instanceof", "binary_relation"),
    ("in", "binary_relation")]

/-- An operator between its sides. Powers group to the right, all others to the left,
and a private name can be looked for in an object. -/
def binaryRule (operator binding : String) : Rule :=
  let sides := row
    [field .left (if operator == "in" then oneOf [expression, privateName] else expression),
      field .operator operator,
      field .right expression]
  if operator == "**" then bindsRight binding sides else bindsLeft binding sides

/-- The operators that change what they assign to. -/
def augmentedOperators : List Rule :=
  ["+=", "-=", "*=", "/=", "%=", "^=", "&=", "|=", ">>=", ">>>=", "<<=", "**=", "&&=", "||=",
    "??="]

/-- The words that are names where nothing else is meant. -/
def reservedWords : Language → List Rule
  | .javascript => ["get", "set", "async", "await", "static", "export"]
  | .typescript =>
    ["declare", "namespace", "type", "public", "private", "protected", "override", "readonly",
      "module", "any", "number", "boolean", "string", "symbol", "export", "object", "new", "get",
      "set", "async", "static", "let"]

/-- What can stand in an object. -/
def objectRule : Rule :=
  binds "object" (row
    ["\x7b",
      optional (listed (optional (oneOf
        [pair, spreadElement, methodDefinition,
          shown shorthandName (oneOf [identifier, reservedWord])]))),
      "\x7d"])

/-- What an object can be taken apart into. -/
def objectPatternRule : Rule :=
  binds "object" (row
    ["\x7b",
      optional (listed (optional (oneOf
        [pairPattern, restPattern, objectAssignmentPattern,
          shown shorthandPattern (oneOf [identifier, reservedWord])]))),
      "\x7d"])

/-- The rules of what a value can be assigned to. -/
def patternRule? (lang : Language) : Construct → Option Rule
  | objectPattern => some objectPatternRule
  | assignmentPattern => some (row [field .left pattern, "=", field .right expression])
  | objectAssignmentPattern => some (row
      [field .left (oneOf
          [shown shorthandPattern (oneOf [reservedWord, identifier]), destructuringPattern]),
        "=",
        field .right expression])
  | arrayPattern => some (row
      ["[", optional (listed (optional (oneOf [pattern, assignmentPattern]))), "]"])
  | assignable => some (oneOfAll
      [[memberExpression, subscriptExpression, anyIdentifier, shown identifier reservedWord,
          destructuringPattern],
        lang.typed [nonNullExpression]])
  | updatable => some (oneOfAll
      [[memberExpression, subscriptExpression, shown identifier reservedWord, identifier,
          parenthesized],
        lang.typed [nonNullExpression]])
  | initializer => some (row ["=", field .value expression])
  | destructuringPattern => some (oneOf [objectPattern, arrayPattern])
  | pattern => some (weigh (-1) (oneOf [assignable, restPattern]))
  | restPattern => some (right (row ["...", assignable]))
  | pairPattern => some (row
      [field .key propertyKey, ":", field .value (oneOf [pattern, assignmentPattern])])
  | _ => none

/-- The rules of operators. -/
def operatorRule? (lang : Language) : Construct → Option Rule
  | yieldExpression => some (right (row
      ["yield", oneOf [row ["*", expression], optional expression]]))
  | awaitExpression => some (binds "unary_void" (row ["await", expression]))
  | assignmentExpression => some (bindsRight "assign" (rows
      [lang.typed [optional "using"],
        [field .left (oneOf [parenthesized, assignable]), "=", field .right expression]]))
  | augmentedAssignment => some (bindsRight "assign" (row
      [field .left updatable, field .operator (oneOf augmentedOperators),
        field .right expression]))
  | ternaryExpression => some (bindsRight "ternary" (row
      [field .condition expression, shownText "?" ternaryMark, field .consequence expression, ":",
        field .alternative expression]))
  | binaryExpression => some (oneOf
      (binaryOperators.map fun (operator, binding) => binaryRule operator binding))
  | unaryExpression => some (bindsLeft "unary_void" (row
      [field .operator (oneOf ["!", "~", "-", "+", "typeof", "void", "delete"]),
        field .argument expression]))
  | updateExpression => some (left (oneOf
      [row [field .argument expression, field .operator (oneOf ["++", "--"])],
        row [field .operator (oneOf ["++", "--"]), field .argument expression]]))
  | sequenceExpression => some (right (listed expression))
  | nonNullExpression => some (bindsLeft "unary" (row [expression, "!"]))
  | typeAssertion => some (bindsLeft "unary" (row [typeArguments, expression]))
  | asExpression => some (bindsLeft "binary" (row [expression, "as", oneOf ["const", type]]))
  | satisfiesExpression => some (bindsLeft "binary" (row [expression, "satisfies", type]))
  | instantiationExpression => some (binds "instantiation" (row
      [expression, field .typeArguments typeArguments]))
  | _ => none

/-- The rules of all other expressions. -/
def expressionRule? (lang : Language) : Construct → Option Rule
  | parenthesized => some (parenthesizedRule lang)
  | expressions => some (oneOf [expression, sequenceExpression])
  | expression => some (expressionRule lang)
  | primaryExpression => some (primaryRule lang)
  | object => some objectRule
  | array => some (row
      ["[", optional (listed (optional (oneOf [expression, spreadElement]))), "]"])
  | callExpression => some (callRule lang)
  | newExpression => some (newRule lang)
  | memberExpression => some (binds "member" (row
      [field .object (oneOf [expression, primaryExpression, importWord]),
        oneOf [".", field .optionalMark optionalMark],
        field .property (oneOf [privateName, shown propertyName identifier])]))
  | subscriptExpression => some (bindsRight "member" (row
      [field .object (oneOf [expression, primaryExpression]),
        optional (field .optionalMark optionalMark),
        "[", field .index expressions, "]"]))
  | spreadElement => some (row ["...", expression])
  | anyIdentifier => some (oneOf [undefinedWord, identifier])
  | metaProperty => some (oneOf [row ["new", ".", "target"], row ["import", ".", "meta"]])
  | arguments => some (row
      ["(", optional (listed (optional (oneOf [expression, spreadElement]))), ")"])
  | pair => some (row [field .key propertyKey, ":", field .value expression])
  | propertyKey => some (oneOf
      [shown propertyName (oneOf [identifier, reservedWord]), privateName, string, number,
        computedName])
  | computedName => some (row ["[", expression, "]"])
  | reservedWord => some (oneOf (reservedWords lang))
  | _ => none

end Phrasebook.Script
