import Phrasebook.Language
import Phrasebook.Number.Integer
import Phrasebook.Phrase
import Phrasebook.Text.Utf8
import Phrasebook.Yaml.Basic

/-!
# Failures

Everything that can stop an operation, by cause. The wording is in `message`
alone.
-/

namespace Phrasebook

/-- Why the file system refuses an operation. -/
inductive FileFault where
  | notFound
  | alreadyExists
  | notDirectory
  | isDirectory
  | nameTooLong
  deriving Repr, DecidableEq

/-- A refusal of the file system in words. -/
def FileFault.message : FileFault → String
  | notFound => "[Errno 2] No such file or directory"
  | alreadyExists => "[Errno 17] File exists"
  | notDirectory => "[Errno 20] Not a directory"
  | isDirectory => "[Errno 21] Is a directory"
  | nameTooLong => "[Errno 36] File name too long"

/-- Why a stored catalogue cannot be used. -/
inductive CatalogueFault where
  | malformed (reason : Text)
  | notObject
  | notText (keys : List CodePoints)
  /-- A number has more digits than are read. -/
  | longNumber (digits : Nat)
  deriving Repr, DecidableEq

/-- Why settings cannot be used. -/
inductive SettingsFault where
  | malformed (name : Text)
  | notMapping
  | hashLength
  | loggingCalls (calls : List Text)
  deriving Repr, DecidableEq

/-- A cause that stops an operation. -/
inductive Failure where
  /-- A script is not in its language. -/
  | syntaxFault (path : Text) (lang : Language)
  /-- An escape in a literal has no value. -/
  | escape (fault : Literal.EscapeFault)
  /-- A text with surrogates cannot be written. -/
  | unwritable (run : SurrogateRun)
  /-- Bytes are not a text. -/
  | unreadable (fault : Utf8.Fault)
  /-- A span is not proper. -/
  | emptySpan (span : Span)
  /-- A mark stands for a comment that does not exist. -/
  | missingComment
  /-- A stored catalogue cannot be used. -/
  | catalogue (path : Text) (fault : CatalogueFault)
  /-- Settings cannot be used. -/
  | settings (fault : SettingsFault)
  /-- A scalar in the settings file has no value. -/
  | scalar (fault : Yaml.ScalarFault)
  /-- A number is too long to be shown. -/
  | numberTooLong
  /-- A path holds a null character. -/
  | nullInPath
  /-- A path starts at the home of somebody unknown. -/
  | homeUnknown
  /-- A source names nothing. -/
  | sourceMissing (source : Text)
  /-- The file system refuses. -/
  | file (fault : FileFault) (path : Text)
  deriving Repr, DecidableEq

namespace Failure

/-- A failure in words. The place of a fault in a script or in settings is left
open. -/
def message : Failure → Text
  | syntaxFault path lang =>
    path ++ ": invalid ".toList ++ lang.name.toList ++ " syntax near <position>".toList
  | escape fault => fault.message.toList
  | unwritable run => run.message.toList
  | unreadable fault => fault.message.toList
  | emptySpan span =>
    "Invalid span [".toList ++ Text.ofInt span.start ++ ", ".toList ++ Text.ofInt span.stop ++ [')']
  | missingComment => "list index out of range".toList
  | catalogue path (.malformed reason) => path ++ " is not valid JSON: ".toList ++ reason
  | catalogue path .notObject => path ++ " must contain a JSON object at the root".toList
  | catalogue path (.notText keys) =>
    path ++ " has non-string values for keys: ".toList ++
      Text.join [',', ' '] (keys.map fun key => key.flatMap CodePoint.shown)
  | catalogue _ (.longNumber digits) => Number.IntegerFault.message 10 [] (.tooLong digits)
  | settings (.malformed name) => "Failed to parse ".toList ++ name ++ ": <yaml>".toList
  | settings .notMapping => ".i18nify.yml must contain a mapping at the root".toList
  | settings .hashLength => "keys.hash_length must be an integer between 1 and 32".toList
  | settings (.loggingCalls calls) =>
    "logging_calls entries must look like 'namespace.method': ".toList ++ Text.join [',', ' '] calls
  | scalar fault => fault.message
  | numberTooLong => Number.limitName ++ Number.limitAdvice
  | nullInPath => "embedded null byte".toList
  | homeUnknown => "Could not determine home directory.".toList
  | sourceMissing source => "Source path does not exist: ".toList ++ source
  | file fault path => fault.message.toList ++ ':' :: ' ' :: Text.quoted path

end Failure

end Phrasebook
