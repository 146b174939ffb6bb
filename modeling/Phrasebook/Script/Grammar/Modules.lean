import Phrasebook.Script.Construct

/-!
# Imports and exports

How scripts share names. A typed script can also share types, and can give a name to
a whole module.
-/

namespace Phrasebook.Script

open Construct
open Grammar.Rule (row oneOf optional many field shown right)
open Rule (rows oneOfAll listed)

/-- What a statement can export. -/
def exportRule (lang : Language) : Rule :=
  oneOfAll
    [[row
          ["export",
            oneOf
              [row ["*", fromClause], row [namespaceExport, fromClause],
                row [exportClause, fromClause], exportClause],
            semicolon],
        row
          [many (field .decorator decorator),
            "export",
            oneOf
              [field .declaration declaration,
                row
                  ["default",
                    oneOf
                      [field .declaration declaration,
                        row [field .value expression, semicolon]]]]]],
      lang.typed
        [row ["export", "type", exportClause, optional fromClause, semicolon],
          row ["export", "import", importAlias],
          row ["export", "=", expression, semicolon],
          row ["export", "as", "namespace", identifier, semicolon]]]

/-- What a statement can import. -/
def importRule (lang : Language) : Rule :=
  rows
    [["import"],
      lang.typed [optional (oneOf ["type", "typeof"])],
      [oneOfAll
          [[row [importClause, fromClause]],
            lang.typed [importRequireClause],
            [field .source string]],
        optional importAttribute,
        semicolon]]

/-- A name that is imported, perhaps under another name. -/
def importSpecifierRule : Language → Rule
  | .javascript =>
    oneOf
      [field .name identifier,
        row [field .name exportedName, "as", field .newName identifier]]
  | .typescript =>
    row
      [optional (oneOf ["type", "typeof"]),
        oneOf
          [field .name importedName,
            row
              [field .name (oneOf [exportedName, shown identifier "type"]),
                "as",
                field .newName importedName]]]

/-- The name of a default import. -/
def defaultImport : Language → Construct
  | .javascript => identifier
  | .typescript => importedName

/-- The rules of imports, exports and modules. -/
def moduleRule? (lang : Language) : Construct → Option Rule
  | exportStatement => some (exportRule lang)
  | namespaceExport => some (row ["*", "as", exportedName])
  | exportClause => some (row
      ["\x7b", optional (listed exportSpecifier), optional ",", "\x7d"])
  | exportSpecifier => some (rows
      [lang.typed [optional (oneOf ["type", "typeof"])],
        [field .name exportedName, optional (row ["as", field .newName exportedName])]])
  | exportedName => some (oneOf [identifier, string, "default"])
  | importStatement => some (importRule lang)
  | importClause => some (oneOf
      [namespaceImport, namedImports,
        row
          [defaultImport lang,
            optional (row [",", oneOf [namespaceImport, namedImports]])]])
  | fromClause => some (row ["from", field .source string])
  | namespaceImport => some (row ["*", "as", identifier])
  | namedImports => some (row
      ["\x7b", optional (listed importSpecifier), optional ",", "\x7d"])
  | importSpecifier => some (importSpecifierRule lang)
  | importAttribute => some (row ["with", object])
  | importedName => some (oneOf [identifier, shown identifier "type"])
  | importRequireClause => some (row
      [identifier, "=", "require", "(", field .source string, ")"])
  | module => some (row ["module", moduleRest])
  | internalModule => some (row ["namespace", moduleRest])
  | moduleRest => some (right (row
      [field .name (oneOf [string, identifier, nestedName]),
        field .body (optional statementBlock)]))
  | importAlias => some (row
      ["import", identifier, "=", oneOf [identifier, nestedName], semicolon])
  | ambientDeclaration => some (row
      ["declare",
        oneOf
          [declaration,
            row ["global", statementBlock],
            row ["module", ".", shown propertyName identifier, ":", type, semicolon]]])
  | _ => none

end Phrasebook.Script
