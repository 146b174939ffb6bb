import Phrasebook.CommandLine.Switch
import Phrasebook.Path
import Phrasebook.Text.Quoted

/-!
# Arguments

What a command line asks for. Words are taken from left to right; the first value
that no switch takes is the source.
-/

namespace Phrasebook.CommandLine

/-- What a command line asks for. -/
structure Arguments where
  source : Text
  output : Option Path := none
  config : Option Path := none
  dryRun : Bool := false
  verbose : Bool := false
  logFile : Option Path := none
  deriving Repr, DecidableEq

/-- Why a command line does not lead to a run. -/
inductive Halt where
  /-- The help text is asked for. -/
  | help
  | misuse (misuse : Misuse)
  deriving Repr, DecidableEq

/-- A fault in words. -/
def Misuse.message : Misuse → Text
  | ambiguous word spellings =>
    "ambiguous option: ".toList ++ word ++ " could match ".toList ++ Text.join [',', ' '] spellings
  | missingValue switch => "argument ".toList ++ switch.name ++ ": expected one argument".toList
  | unusedValue switch value =>
    "argument ".toList ++ switch.name ++ ": ignored explicit argument ".toList ++ Text.quoted value
  | missingSource => "the following arguments are required: source".toList
  | unknownWords words => "unrecognized arguments: ".toList ++ Text.join [' '] words

/-- How far a command line is read. -/
structure Reading where
  source : Option Text := none
  output : Option Path := none
  config : Option Path := none
  dryRun : Bool := false
  verbose : Bool := false
  logFile : Option Path := none
  /-- The words that nothing takes. -/
  unknown : List Text := []
  deriving Repr, DecidableEq

namespace Reading

/-- Takes a switch without a value. -/
def flag (reading : Reading) : Switch → Except Halt Reading
  | .help => .error .help
  | .dryRun => .ok { reading with dryRun := true }
  | .verbose => .ok { reading with verbose := true }
  | .output | .config | .logFile => .ok reading

/-- Takes a switch with its value. -/
def assign (reading : Reading) (value : Text) : Switch → Reading
  | .output => { reading with output := some (Path.ofText value) }
  | .config => { reading with config := some (Path.ofText value) }
  | .logFile => { reading with logFile := some (Path.ofText value) }
  | .help | .dryRun | .verbose => reading

/-- Leaves a word that nothing takes. -/
def leave (reading : Reading) (word : Text) : Reading :=
  { reading with unknown := reading.unknown ++ [word] }

/-- Switches that are written in one word: some without values, then perhaps one
that takes a value, or letters that are no switch. -/
structure Bundle where
  flags : List Switch := []
  /-- The last switch, and the value in the same word. -/
  last : Option (Switch × Option Text) := none
  unknown : Option Text := none
  deriving Repr, DecidableEq

/-- The switches in one word behind a short one without a value. -/
def bundleFrom (switch : Switch) : Text → Except Misuse Bundle
  | [] => .error (.unusedValue switch [])
  | letter :: rest =>
    if letter == '-' then .error (.unusedValue switch (letter :: rest))
    else
      match Switch.ofSpelling? ['-', letter] with
      | none => .ok { flags := [switch], unknown := some ('-' :: letter :: rest) }
      | some next =>
        match rest with
        | [] => .ok { flags := [switch], last := some (next, none) }
        | '=' :: value =>
          if next.takesValue then .ok { flags := [switch], last := some (next, some value) }
          else .error (.unusedValue next value)
        | _ =>
          if next.takesValue then .ok { flags := [switch], last := some (next, some rest) }
          else do
            let bundle ← bundleFrom next rest
            return { bundle with flags := switch :: bundle.flags }

/-- The switches in one word. -/
def bundleOf (spelled : Spelled) : Except Misuse Bundle :=
  match spelled.attached with
  | none => .ok { last := some (spelled.switch, none) }
  | some attached =>
    if spelled.switch.takesValue then .ok { last := some (spelled.switch, some attached.text) }
    else if spelled.long || attached.signed then
      .error (.unusedValue spelled.switch attached.text)
    else bundleFrom spelled.switch attached.text

/-- Takes the switches of a word without the last one. -/
def flags (reading : Reading) : List Switch → Except Halt Reading
  | [] => .ok reading
  | switch :: switches => do
    let next ← reading.flag switch
    next.flags switches

/-- The switch of a word that takes its value from the next word. -/
def Bundle.open? (bundle : Bundle) : Option Switch :=
  match bundle.last with
  | some (switch, none) => if switch.takesValue then some switch else none
  | _ => none

/-- Takes what a bundle holds by itself. -/
def takeBundle (reading : Reading) (bundle : Bundle) : Except Halt Reading := do
  let after ← (bundle.unknown.elim reading reading.leave).flags bundle.flags
  match bundle.last with
  | some (switch, some value) => return after.assign value switch
  | some (switch, none) => after.flag switch
  | none => return after

/-- Takes words from left to right. -/
def takeWords : Reading → List Word → Except Halt Reading
  | reading, [] => .ok reading
  | reading, .value text :: words =>
    match reading.source, words with
    | none, .separator :: later => takeWords { reading with source := some text } later
    | none, later => takeWords { reading with source := some text } later
    | some _, later => takeWords (reading.leave text) later
  | reading, .separator :: words =>
    match reading.source, words with
    | none, .value text :: later => takeWords { reading with source := some text } later
    | _, later => takeWords (reading.leave ['-', '-']) later
  | reading, .stray text :: words => takeWords (reading.leave text) words
  | reading, .switch spelled :: words =>
    match bundleOf spelled with
    | .error misuse => .error (.misuse misuse)
    | .ok bundle =>
      match bundle.open?, words with
      | some switch, .value text :: later => do
        let after ← reading.takeBundle bundle
        takeWords (after.assign text switch) later
      | some switch, _ => .error (.misuse (.missingValue switch))
      | none, later => do
        let after ← reading.takeBundle bundle
        takeWords after later

end Reading

/-- What the words of a command line ask for. -/
def Arguments.ofWords (words : List Text) : Except Halt Arguments :=
  match Word.ofTexts words with
  | .error misuse => .error (.misuse misuse)
  | .ok words => do
    let reading ← Reading.takeWords {} words
    match reading.source with
    | none => throw (.misuse .missingSource)
    | some source =>
      if reading.unknown.isEmpty then
        return {
          source
          output := reading.output
          config := reading.config
          dryRun := reading.dryRun
          verbose := reading.verbose
          logFile := reading.logFile }
      else throw (.misuse (.unknownWords reading.unknown))

end Phrasebook.CommandLine
