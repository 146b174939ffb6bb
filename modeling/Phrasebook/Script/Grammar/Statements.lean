import Phrasebook.Script.Construct

/-!
# Statements

What a script is a row of.
-/

namespace Phrasebook.Script

open Construct
open Grammar.Rule (row oneOf optional many field shown right weigh)
open Rule (rows oneOfAll listed binds)

/-- What declares names. -/
def declarationRule (lang : Language) : Rule :=
  oneOfAll
    [[functionDeclaration, generatorDeclaration, classDeclaration, lexicalDeclaration,
        variableDeclaration],
      lang.untyped [usingDeclaration],
      lang.typed
        [functionSignature, abstractClassDeclaration, module, binds "declare" internalModule,
          typeAliasDeclaration, enumDeclaration, interfaceDeclaration, importAlias,
          ambientDeclaration]]

/-- All statements. -/
def statementRule : Rule :=
  oneOf
    [exportStatement, importStatement, debuggerStatement, expressionStatement, declaration,
      statementBlock, ifStatement, switchStatement, forStatement, forInStatement, whileStatement,
      doStatement, tryStatement, withStatement, breakStatement, continueStatement, returnStatement,
      throwStatement, emptyStatement, labelledStatement]

/-- A name that a value is given to. -/
def declaratorRule : Language → Rule
  | .javascript =>
    row [field .name (oneOf [identifier, destructuringPattern]), optional initializer]
  | .typescript =>
    oneOf
      [row
          [field .name (oneOf [identifier, destructuringPattern]),
            field .type (optional typeClause),
            optional initializer],
        binds "declare" (row [field .name identifier, "!", field .type typeClause])]

/-- The words that declare a value to be disposed of. -/
def usingWords : List Rule :=
  ["using", row ["await", "using"]]

/-- The head of a loop over the values or the names of an object. -/
def forHeaderRule (lang : Language) : Rule :=
  row
    ["(",
      oneOf
        [field .left (oneOf [assignable, parenthesized]),
          row
            [field .kind "var",
              field .left (oneOf [identifier, destructuringPattern]),
              optional initializer],
          row
            [field .kind (oneOfAll [["let", "const"], lang.untyped usingWords]),
              field .left (oneOf [identifier, destructuringPattern]),
              optional automaticSemicolon]],
      field .operator (oneOf ["in", "of"]),
      field .right expressions,
      ")"]

/-- The head of a loop with a counter. -/
def forRule : Rule :=
  row
    ["for", "(",
      oneOf
        [field .initializer (oneOf [lexicalDeclaration, variableDeclaration]),
          row [field .initializer expressions, ";"],
          field .initializer emptyStatement],
      field .condition (oneOf [row [expressions, ";"], emptyStatement]),
      field .increment (optional expressions),
      ")",
      field .body statement]

/-- The part of a statement that handles what was thrown. -/
def catchRule (lang : Language) : Rule :=
  row
    ["catch",
      optional (rows
        [["(", field .parameter (oneOf [identifier, destructuringPattern])],
          lang.typed [optional (field .type typeClause)],
          [")"]]),
      field .body statementBlock]

/-- The rules of statements. -/
def statementRule? (lang : Language) : Construct → Option Rule
  | program => some (row [optional programLine, many statement])
  | declaration => some (declarationRule lang)
  | statement => some statementRule
  | expressionStatement => some (row [expressions, semicolon])
  | variableDeclaration => some (row ["var", listed declarator, semicolon])
  | lexicalDeclaration => some (row
      [field .kind (oneOf ["let", "const"]), listed declarator, semicolon])
  | usingDeclaration => some (row
      [field .kind (oneOf usingWords), listed declarator, semicolon])
  | declarator => some (declaratorRule lang)
  | statementBlock => some (right (row
      ["\x7b", many statement, "\x7d", optional automaticSemicolon]))
  | elseClause => some (row ["else", statement])
  | ifStatement => some (right (row
      ["if", field .condition parenthesized, field .consequence statement,
        optional (field .alternative elseClause)]))
  | switchStatement => some (row
      ["switch", field .value parenthesized, field .body switchBody])
  | forStatement => some forRule
  | forInStatement => some (row
      ["for", optional "await", forHeader, field .body statement])
  | forHeader => some (forHeaderRule lang)
  | whileStatement => some (row
      ["while", field .condition parenthesized, field .body statement])
  | doStatement => some (right (row
      ["do", field .body statement, "while", field .condition parenthesized, optional semicolon]))
  | tryStatement => some (row
      ["try", field .body statementBlock, optional (field .handler catchClause),
        optional (field .finalizer finallyClause)])
  | withStatement => some (row
      ["with", field .object parenthesized, field .body statement])
  | breakStatement => some (row
      ["break", field .label (optional (shown labelName identifier)), semicolon])
  | continueStatement => some (row
      ["continue", field .label (optional (shown labelName identifier)), semicolon])
  | debuggerStatement => some (row ["debugger", semicolon])
  | returnStatement => some (row ["return", optional expressions, semicolon])
  | throwStatement => some (row ["throw", expressions, semicolon])
  | emptyStatement => some ";"
  | labelledStatement => some (weigh (-1) (row
      [field .label (shown labelName (oneOf [identifier, reservedWord])), ":",
        field .body statement]))
  | switchBody => some (row ["\x7b", many (oneOf [switchCase, switchDefault]), "\x7d"])
  | switchCase => some (row
      ["case", field .value expressions, ":", field .body (many statement)])
  | switchDefault => some (row ["default", ":", field .body (many statement)])
  | catchClause => some (catchRule lang)
  | finallyClause => some (row ["finally", field .body statementBlock])
  | semicolon => some (oneOf [automaticSemicolon, ";"])
  | _ => none

end Phrasebook.Script
