import Phrasebook.Path

/-!
# Journal

What a run reports while it works. A journal is a value: every operation that
reports returns the records it added, oldest first.
-/

namespace Phrasebook

/-- How much attention a record asks for. -/
inductive Level where
  | debug
  | info
  | warning
  deriving Repr, DecidableEq

namespace Level

/-- The name of a level in a log line. -/
def name : Level → String
  | debug => "DEBUG"
  | info => "INFO"
  | warning => "WARNING"

/-- The rank of a level; a sink keeps the records at or above its own. -/
def rank : Level → Nat
  | debug => 10
  | info => 20
  | warning => 30

end Level

/-- The part of the library that reports. -/
inductive Reporter where
  | catalogue
  | extraction
  | component
  | document
  | batch
  deriving Repr, DecidableEq

/-- The name of a reporter in a log line. -/
def Reporter.name : Reporter → String
  | catalogue => "i18nify.dictionary"
  | extraction => "i18nify.matchers"
  | component => "i18nify.parsing"
  | document => "i18nify.pipeline"
  | batch => "i18nify.orchestrator"

/-- One report. -/
structure Record where
  level : Level
  reporter : Reporter
  message : Text
  deriving Repr, DecidableEq

/-- The reports of a run, oldest first. -/
abbrev Journal := List Record

namespace Record

/-- The line of a report on the console. -/
def consoleLine (record : Record) : Text :=
  "[i18nify] ".toList ++ record.level.name.toList ++ ' ' :: record.message ++ ['\n']

/-- The line of a report in a log file. -/
def fileLine (time : Text) (record : Record) : Text :=
  time ++ ' ' :: record.level.name.toList ++ ' ' :: record.reporter.name.toList ++
    ':' :: ' ' :: record.message ++ ['\n']

/-- A report about one file starts with the file's path. -/
def aboutFile (level : Level) (reporter : Reporter) (shown : Text) (message : Text) : Record :=
  ⟨level, reporter, shown ++ ':' :: ' ' :: message⟩

end Record

/-- How reports show a path: relative to the working directory when it lies at or
below it. -/
def Path.shown (cwd path : Path) : Text :=
  if path.isAbsolute then
    match Path.below? cwd path with
    | some relative => relative.toText
    | none => path.toText
  else path.toText

end Phrasebook
