import Phrasebook.Batch
import Phrasebook.CommandLine.Arguments
import Phrasebook.Project.Storage

/-!
# The command line

A run from the words of a command line to what it prints and leaves in the file
tree. Failures that a user can mend end a run with a message; any other failure
leaves the run as it is.
-/

namespace Phrasebook.CommandLine

/-- How to use the command line. -/
def usage : List String :=
  ["usage: i18nify [-h] [-o OUTPUT] [-c CONFIG] [--dry-run] [-v]",
    "               [--log-file LOG_FILE]",
    "               source"]

/-- What the command line does, with every argument. -/
def help : List String :=
  usage ++
    ["",
      "Extract CJK text from Vue components and JS/TS files, rewrite it into",
      "translation calls and collect a key -> text dictionary.",
      "",
      "positional arguments:",
      "  source                File, directory or glob pattern to process (quote",
      "                        globs to keep the shell out).",
      "",
      "options:",
      "  -h, --help            show this help message and exit",
      "  -o OUTPUT, --output OUTPUT",
      "                        Translation JSON file to merge into (defaults to",
      "                        translations.json).",
      "  -c CONFIG, --config CONFIG",
      "                        Path to a .i18nify.yml file (defaults to the one in",
      "                        the current directory).",
      "  --dry-run             Report what would change without writing sources or",
      "                        the dictionary.",
      "  -v, --verbose         Increase log verbosity for troubleshooting.",
      "  --log-file LOG_FILE   Also write log output to this file."]

/-- Lines as one text. -/
def linesText (lines : List String) : Text :=
  lines.flatMap fun line => line.toList ++ ['\n']

/-- How a run ends. -/
inductive Ending where
  /-- With a code for whoever started it. -/
  | exit (code : Nat)
  /-- With a failure that the command line does not handle. -/
  | failure (failure : Failure)
  deriving Repr, DecidableEq

/-- What a run leaves behind. -/
structure Result where
  ending : Ending
  /-- What is printed as the answer. -/
  printed : Text := []
  /-- What is printed about the run itself. -/
  reported : Text := []
  tree : FileTree
  deriving Repr, DecidableEq

/-- Where and when a run takes place. -/
structure Setting where
  site : Surroundings
  /-- The time that lines of a log file start with. -/
  time : Text
  deriving Repr, DecidableEq

/-- Whether the command line turns a failure into a message. -/
def handles : Failure → Bool
  | .catalogue _ (.longNumber _) => false
  | .syntaxFault .. | .catalogue .. | .settings _ | .sourceMissing _ | .file .. => true
  | _ => false

/-- The records that a run shows. -/
def shownRecords (verbose : Bool) (journal : Journal) : Journal :=
  let least : Level := if verbose then .debug else .info
  journal.filter fun record => least.rank ≤ record.level.rank

/-- Opens a log file: it is there from then on. -/
def openLog (setting : Setting) (tree : FileTree) : Option Path → Except Failure FileTree
  | none => .ok tree
  | some path =>
    if path.hasNull then .error .nullInPath
    else
      let file := setting.site.absolute path
      let old := match tree.read file with
        | .ok bytes => bytes
        | .error _ => []
      tree.write file old

/-- Adds records to a log file. -/
def appendLog (setting : Setting) (records : Journal) (tree : FileTree) : Option Path → FileTree
  | none => tree
  | some path =>
    let file := setting.site.absolute path
    match tree.read file with
    | .error _ => tree
    | .ok old =>
      match tree.write file (old ++ Utf8.encode (records.flatMap (Record.fileLine setting.time))) with
      | .ok next => next
      | .error _ => tree

/-- What a finished batch prints. -/
def summary (site : Surroundings) (report : Batch.Report) : Text :=
  let counts := Text.ofNat report.changed.length ++ " of ".toList ++
    Text.ofNat report.outcomes.length
  let keys := Text.ofNat report.size ++ " keys".toList
  let first :=
    if report.dryRun then counts ++ " files would change (dry-run); ".toList ++ keys
    else counts ++ " files rewritten; ".toList ++ keys ++ " saved to ".toList ++
      Path.shown site.cwd report.output
  let second :=
    if report.collisions.isEmpty then []
    else Text.ofNat report.collisions.length ++
      " key collisions kept their first text; see the log for details\n".toList
  first ++ '\n' :: second

/-- Loads the project and runs the batch that arguments ask for. -/
def runBatch (site : Surroundings) (args : Arguments) (tree : FileTree) :
    Except Failure Batch.Report × FileTree × Journal :=
  match Project.load site tree (args.config.getD site.cwd) with
  | .error failure => (.error failure, tree, [])
  | .ok project =>
    Batch.run site project ⟨args.source, args.output, args.dryRun⟩ tree

/-- A failure as a user sees it. -/
def failureText (failure : Failure) : Text :=
  "i18nify failed: ".toList ++ failure.message ++
    "\nRun with --verbose for more details.\n".toList

/-- The settings file that arguments name and that does not exist. -/
def missingConfig? (site : Surroundings) (args : Arguments) (tree : FileTree) :
    Except Failure (Option Path) :=
  match args.config with
  | none => .ok none
  | some path => do
    let whole := site.cwd.append path
    tree.look path whole
    return if tree.isThere whole then none else some path

/-- Runs with a log file that is open. -/
def runOpen (setting : Setting) (args : Arguments) (tree : FileTree) : Result :=
  match missingConfig? setting.site args tree with
  | .error failure => { ending := .failure failure, tree }
  | .ok (some path) =>
    { ending := .exit 1,
      reported := "Config file not found: ".toList ++ path.toText ++ ['\n'],
      tree }
  | .ok none =>
    let (answer, after, journal) := runBatch setting.site args tree
    let records := shownRecords args.verbose journal
    let reported := records.flatMap Record.consoleLine
    let tree := appendLog setting records after args.logFile
    match answer with
    | .ok report =>
      { ending := .exit 0, printed := summary setting.site report, reported, tree }
    | .error failure =>
      if handles failure then
        { ending := .exit 1, reported := reported ++ failureText failure, tree }
      else { ending := .failure failure, reported, tree }

/-- Runs with arguments. -/
def runArguments (setting : Setting) (args : Arguments) (tree : FileTree) : Result :=
  match openLog setting tree args.logFile with
  | .error failure => { ending := .failure failure, tree }
  | .ok ready => runOpen setting args ready

/-- Runs the words of a command line. -/
def run (setting : Setting) (words : List Text) (tree : FileTree) : Result :=
  match Arguments.ofWords words with
  | .ok args => runArguments setting args tree
  | .error .help => { ending := .exit 0, printed := linesText help, tree }
  | .error (.misuse misuse) =>
    { ending := .exit 2,
      reported := linesText usage ++ "i18nify: error: ".toList ++ misuse.message ++ ['\n'],
      tree }

end Phrasebook.CommandLine
