import Phrasebook.Script.Construct

/-!
# Words of scripts

The smallest constructs: names, numbers, the parts of quoted texts, and comments.
-/

namespace Phrasebook.Script

open Construct
open Grammar (CharSet Pattern Token)
open Grammar.Rule (row oneOf optional many field shown)

/-! ### Characters -/

/-- The characters that separate words: blanks, line ends and marks without width. -/
def blanks : CharSet :=
  CharSet.blanks.or
    ⟨[(0xA0, 0xA0), (0x1680, 0x1680), (0x2000, 0x200B), (0x2028, 0x2029), (0x202F, 0x202F),
      (0x205F, 0x2060), (0x3000, 0x3000), (0xFEFF, 0xFEFF)], false⟩

/-- The characters that no word holds. -/
def separators : CharSet :=
  (blanks.or ⟨[(1, 0x1F)], false⟩).or
    (.of ":;`\"'@#.,|^&<=>+-*/\\%?!~()[]\x7b\x7d")

/-- All characters of a line. -/
def lineCharacters : Pattern :=
  .set (CharSet.of "\n").others

/-! ### Names -/

/-- A character by its code. -/
def codeEscape : Pattern :=
  .choice (.row [.literal "\\u", .times (.set .hexDigits) 4 4])
    (.row [.literal "\\u\x7b", .some (.set .hexDigits), .literal "\x7d"])

/-- The pattern of a name. -/
def namePattern : Pattern :=
  .seq (.choice (.set (separators.or .digits).others) codeEscape)
    (.many (.choice (.set separators.others) codeEscape))

/-! ### Numbers -/

/-- Digits with single underscores between them. -/
def digitsOf (digits : CharSet) : Pattern :=
  .seq (.set digits) (.many (.seq (.optional (.literal "_")) (.set digits)))

/-- The digits behind a mark of their base. -/
def basedDigits (small large : String) (digits : CharSet) : Pattern :=
  .seq (.choice (.literal small) (.literal large)) (digitsOf digits)

/-- The pattern of a number. -/
def numberPattern : Pattern :=
  let decimal := digitsOf .digits
  let hexadecimal := basedDigits "0x" "0X" .hexDigits
  let binary := basedDigits "0b" "0B" (.range '0' '1')
  let octal := basedDigits "0o" "0O" (.range '0' '7')
  let exponent := Pattern.row
    [.set (.of "eE"), .optional (.set (.of "+-")), decimal]
  let whole := Pattern.choice (.literal "0")
    (.row [.optional (.literal "0"), .set (.range '1' '9'),
      .optional (.seq (.optional (.literal "_")) decimal)])
  .oneOf
    [hexadecimal,
      .row [whole, .literal ".", .optional decimal, .optional exponent],
      .row [.literal ".", decimal, .optional exponent],
      .seq whole exponent,
      decimal, binary, octal,
      .seq (.oneOf [hexadecimal, binary, octal, decimal]) (.literal "n")]

/-! ### Quoted texts -/

/-- A row of characters inside quotes. -/
def fragment (characters : CharSet) : Token :=
  ⟨.some (.set characters), true, 1⟩

/-- A row of characters inside the quotes of an attribute, up to a reference. -/
def attributeFragment (quote : String) : Token :=
  ⟨.some (.choice (.set (CharSet.of (quote ++ "&")).others)
    (.seq (.literal "&") (.set ((CharSet.of "#").or .letters).others))), true, 1⟩

/-- A backslash with what it escapes. -/
def escapePattern : Pattern :=
  .seq (.literal "\\") (.oneOf
    [.set ((CharSet.of "xu").or (.range '0' '7')).others,
      .times (.set (.range '0' '7')) 1 3,
      .seq (.literal "x") (.times (.set .hexDigits) 2 2),
      .seq (.literal "u") (.times (.set .hexDigits) 4 4),
      .row [.literal "u\x7b", .some (.set .hexDigits), .literal "\x7d"],
      .seq (.set (.of "\r?")) (.set (.of "\n\u2028\u2029"))])

/-- A text between two quotes. -/
def quotedText (quote : String) (fragment : Construct) : Rule :=
  row [quote, many (oneOf [shown stringFragment fragment, escapeSequence]), quote]

/-! ### Regular expressions, comments and markup -/

/-- The pattern between the slashes of a regular expression. -/
def regexBody : Pattern :=
  let escaped := Pattern.seq (.literal "\\") lineCharacters
  .some (.oneOf
    [.row [.literal "[", .many (.choice escaped (.set (CharSet.of "]\n\\").others)), .literal "]"],
      escaped,
      .set (CharSet.of "/\\[\n").others])

/-- The pattern of a comment. -/
def commentPattern : Pattern :=
  let stars := Pattern.some (.literal "*")
  let others := Pattern.many (.set (CharSet.of "*").others)
  .choice (.seq (.literal "//") (.many (.set (CharSet.of "\r\n\u2028\u2029").others)))
    (.row [.literal "/*", others, stars,
      .many (.row [.set (CharSet.of "/*").others, others, stars]), .literal "/"])

/-- The pattern of a reference to a character. -/
def referencePattern : Pattern :=
  .row [.literal "&",
    .choice
      (.seq (.literal "#")
        (.choice (.seq (.set (.of "xX")) (.times (.set .hexDigits) 1 6))
          (.times (.set .digits) 1 5)))
      (.times (.set .letters) 1 30),
    .literal ";"]

/-- The pattern of a name with a dash in it. -/
def dashedPattern : Pattern :=
  let first := CharSet.letters.or (.of "_$")
  let later := first.or .digits
  .row [.set first, .many (.set later), .literal "-", .many (.set (later.or (.of "-")))]

/-! ### Rules -/

/-- The rules of the smallest constructs. -/
def wordRule? : Construct → Option Rule
  | programLine => some (.token ⟨.seq (.literal "#!") (.many lineCharacters), false, 0⟩)
  | importWord => some "import"
  | characterReference => some (.token ⟨referencePattern, false, 0⟩)
  | dashedName => some (.token ⟨dashedPattern, false, 0⟩)
  | doubleAttributeFragment => some (.token (attributeFragment "\""))
  | singleAttributeFragment => some (.token (attributeFragment "'"))
  | optionalMark => some "?."
  | string => some (.choice (quotedText "\"" doubleFragment) (quotedText "'" singleFragment))
  | doubleFragment => some (.token (fragment (CharSet.of "\"\\\r\n").others))
  | singleFragment => some (.token (fragment (CharSet.of "'\\\r\n").others))
  | escapeSequence => some (.token ⟨escapePattern, true, 0⟩)
  | comment => some (.token ⟨commentPattern, false, 0⟩)
  | templateString => some (row
      ["`",
        many (oneOf [shown stringFragment templateCharacters, escapeSequence, templateSubstitution]),
        "`"])
  | templateSubstitution => some (row ["$\x7b", expressions, "\x7d"])
  | regex => some (row
      ["/", field .pattern regexPattern, .token ⟨.literal "/", true, 1⟩,
        optional (field .flags regexFlags)])
  | regexPattern => some (.token ⟨regexBody, true, -1⟩)
  | regexFlags => some (.token ⟨.some (.set (.range 'a' 'z')), true, 0⟩)
  | number => some (.token ⟨numberPattern, false, 0⟩)
  | identifier => some (.token ⟨namePattern, false, 0⟩)
  | privateName => some (.token ⟨.seq (.literal "#") namePattern, false, 0⟩)
  | thisWord => some "this"
  | superWord => some "super"
  | trueWord => some "true"
  | falseWord => some "false"
  | nullWord => some "null"
  | undefinedWord => some "undefined"
  | _ => none

end Phrasebook.Script
