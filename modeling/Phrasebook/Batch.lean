import Phrasebook.Catalogue.Storage
import Phrasebook.Document
import Phrasebook.Project

/-!
# Batches

Extraction from all files of a source into one stored catalogue. Every file is
written as soon as it is done, and its texts join the catalogue after that. The
catalogue is stored once at the end, also when a file fails; the file that fails
adds nothing to it.
-/

namespace Phrasebook

namespace Batch

/-- What a batch is asked to do. -/
structure Request where
  source : Text
  /-- Where the catalogue is stored, if not where the project says. -/
  output : Option Path := none
  /-- Whether files are left as they are. -/
  dryRun : Bool := false
  deriving Repr, DecidableEq

/-- What a batch did. -/
structure Report where
  outcomes : List Outcome
  /-- The files that extraction knows nothing about. -/
  skipped : List Path
  size : Nat
  collisions : List Collision
  output : Path
  dryRun : Bool
  deriving Repr, DecidableEq

/-- The files that a batch changed or would change. -/
def Report.changed (report : Report) : List Path :=
  (report.outcomes.filter Outcome.changed).map Outcome.path

/-- How far a batch has come. -/
structure Progress where
  tree : FileTree
  catalogue : Catalogue
  outcomes : List Outcome := []
  skipped : List Path := []
  journal : Journal := []
  deriving Repr, DecidableEq

/-- What a batch knows about itself. -/
structure Context where
  site : Surroundings
  settings : Settings
  dryRun : Bool
  deriving Repr, DecidableEq

/-- A report of the batch itself. -/
def note (level : Level) (message : Text) : Record :=
  ⟨level, .batch, message⟩

/-- A report about a file, with a number of texts. -/
def countNote (ctx : Context) (path : Path) (verb : String) (count : Nat) : Record :=
  .aboutFile .info .batch (Path.shown ctx.site.cwd path)
    (verb.toList ++ ' ' :: Text.ofNat count ++ " texts".toList)

/-- Puts the result of a file into the tree, and reports it. -/
def commit (ctx : Context) (tree : FileTree) (outcome : Outcome) :
    Except Failure (FileTree × Record) :=
  let path := outcome.path
  if !outcome.changed then
    .ok (tree, .aboutFile .debug .batch
      (Path.shown ctx.site.cwd path) "no translatable text".toList)
  else if ctx.dryRun then
    .ok (tree, countNote ctx path "would extract" outcome.phrases.length)
  else do
    let next ← tree.write path (Utf8.encode outcome.after)
    return (next, countNote ctx path "extracted" outcome.phrases.length)

/-- Takes one supported file. A failure leaves tree and catalogue as they are. -/
def takeFile (ctx : Context) (progress : Progress) (path : Path) :
    Progress × Option Failure :=
  match progress.tree.readExact path with
  | .error failure => (progress, some failure)
  | .ok content =>
    let (result, staged, journal) :=
      Document.process ctx.settings ctx.site.cwd path content {}
    let reported := { progress with journal := progress.journal ++ journal }
    match result with
    | .error failure => (reported, some failure)
    | .ok outcome =>
      match commit ctx progress.tree outcome with
      | .error failure => (reported, some failure)
      | .ok (tree, record) =>
        let (catalogue, collisions) := progress.catalogue.absorb staged
        ({ reported with
            tree, catalogue,
            outcomes := progress.outcomes ++ [outcome],
            journal := reported.journal ++ record :: collisions },
          none)

/-- Takes files in order up to the first that fails. -/
def takeFiles (ctx : Context) : Progress → List Path → Progress × Option Failure
  | progress, [] => (progress, none)
  | progress, path :: paths =>
    if !Document.isSupported path then
      takeFiles ctx { progress with skipped := progress.skipped ++ [path] } paths
    else
      match takeFile ctx progress path with
      | (next, some failure) => (next, some failure)
      | (next, none) => takeFiles ctx next paths

/-- Stores the catalogue at the end of a batch. -/
def store (dryRun : Bool) (output : Path) (progress : Progress) : Progress × Option Failure :=
  if dryRun then (progress, none)
  else
    match progress.catalogue.save progress.tree output with
    | (.error failure, tree) => ({ progress with tree }, some failure)
    | (.ok _, tree) =>
      ({ progress with
          tree,
          journal := progress.journal ++
            [note .info ("Saved ".toList ++ Text.ofNat progress.catalogue.size ++
              " keys to ".toList ++ output.toText)] },
        none)

/-- The report of a batch that has come to its end. -/
def reportOf (dryRun : Bool) (output : Path) (progress : Progress) : Report where
  outcomes := progress.outcomes
  skipped := progress.skipped
  size := progress.catalogue.size
  collisions := progress.catalogue.collisions
  output
  dryRun

/-- Takes files and stores the catalogue. A refusal to store it hides the failure of a
file. -/
def finish (ctx : Context) (output : Path) (start : Progress) (paths : List Path) :
    Except Failure Report × Progress :=
  let (progress, failure) := takeFiles ctx start paths
  let (stored, refusal) := store ctx.dryRun output progress
  match refusal.or failure with
  | some cause => (.error cause, stored)
  | none => (.ok (reportOf ctx.dryRun output stored), stored)

/-- The report of how many files a source names. -/
def foundNote (request : Request) (paths : List Path) : Record :=
  note .info ("Found ".toList ++ Text.ofNat paths.length ++
    " candidate files for ".toList ++ request.source)

/-- Where a batch stands before its first file. -/
def start (request : Request) (tree : FileTree) (paths : List Path) (warnings : Journal)
    (catalogue : Catalogue) (loaded : Journal) : Progress :=
  { tree, catalogue, journal := warnings ++ foundNote request paths :: loaded }

/-- The files of a batch, in order. There are none if its output cannot be located. -/
def filesOf (site : Surroundings) (project : Project) (request : Request)
    (tree : FileTree) : Except Failure (List Path × Journal) :=
  match site.fault? (request.output.getD project.output) with
  | some failure => .error failure
  | none => Sources.expand site tree project.settings.excluded request.source

/-- Runs a batch in a file tree. The result is the report or the failure that ended
the batch, with the tree after it and everything that was reported. -/
def run (site : Surroundings) (project : Project) (request : Request) (tree : FileTree) :
    Except Failure Report × FileTree × Journal :=
  let output := site.locate (request.output.getD project.output)
  match filesOf site project request tree with
  | .error failure => (.error failure, tree, [])
  | .ok (paths, warnings) =>
    match Catalogue.load tree output with
    | .error failure => (.error failure, tree, warnings ++ [foundNote request paths])
    | .ok (catalogue, loaded) =>
      let ctx : Context := ⟨site, project.settings, request.dryRun⟩
      let (result, ended) :=
        finish ctx output (start request tree paths warnings catalogue loaded) paths
      (result, ended.tree, ended.journal)

end Batch

end Phrasebook
