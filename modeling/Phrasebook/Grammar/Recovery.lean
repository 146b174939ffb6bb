import Phrasebook.Grammar.Parsing

/-!
# Recovery from faults

What happens at a token that fits nowhere. Three ways out are tried: a token may be
missing, the reading may go back to an earlier state in which the token fits, and the
token may be skipped. What comes out is compared with the other readings like
everything else, by its cost.
-/

namespace Phrasebook.Grammar.Machine

variable {σ ν φ τ : Type} [DecidableEq σ] [BEq τ]

/-- How many steps a reading can go back. -/
def deepestRetreat : Nat := 16

/-! ### Ending rows before any token -/

/-- What a state can do before one of some terminals. -/
structure Options (ν φ : Type) where
  /-- Whether one of the terminals can come next. -/
  shifts : Bool := false
  /-- The rows that can end, each construct with one length once. -/
  reductions : List (Reduction ν φ) := []

/-- Adds an action to what a state can do. -/
def Options.add (options : Options ν φ) : Action σ ν φ → Options ν φ
  | .shift _ repeats => { options with shifts := options.shifts || !repeats }
  | .reduce reduction =>
    let known := reduction.count == 0 || options.reductions.any fun other =>
      other.head == reduction.head && other.count == reduction.count
    if known then options
    else { options with reductions := options.reductions ++ [reduction] }
  | .extra => options
  | .accept => options

/-- What a state can do before one of some terminals. -/
def options (machine : Machine σ ν φ τ) (state : σ) (terminals : List Nat) : Options ν φ :=
  (terminals.flatMap (machine.actions state)).foldl Options.add {}

/-- Ends several rows of a reading. The result has the first of the new readings of
the last row, if there are any. -/
def reduceAll (machine : Machine σ ν φ τ) (source : Source) (version : Nat)
    (reductions : List (Reduction ν φ)) (stack : Stack σ ν φ τ) : Stack σ ν φ τ × Option Branch :=
  reductions.foldl
    (fun (stack, _) reduction => machine.reduce source reduction ⟨version, stack.number version⟩ stack)
    (stack, none)

/-- Ends rows before a terminal, or before any, in a reading and in all that come
from it; these start at `first`. The result says whether the terminal can come next
in one of them. `round` counts the steps, and `fuel` bounds them. -/
def reduceFrom (machine : Machine σ ν φ τ) (source : Source) (ahead : Option Nat)
    (start first : Nat) :
    (fuel round version : Nat) → (fits : Bool) → Stack σ ν φ τ → Stack σ ν φ τ × Bool
  | 0, _, _, fits, stack => (stack, fits)
  | fuel + 1, round, version, fits, stack =>
    let before := stack.heads.size
    let others := (List.range before).filter fun other => first ≤ other && other < version
    match stack.entry? version with
    | none => (stack, fits)
    | some entry =>
      match stack.mergeFirst? machine.plan source machine.fault others version with
      | some merged =>
        reduceFrom machine source ahead start first fuel (round + 1) version fits merged
      | none =>
        let options := machine.options entry.state
          (match ahead with
            | some terminal => [terminal]
            | none => machine.trials)
        let (reduced, new?) := machine.reduceAll source version options.reductions stack
        let following := if version == start then before else version + 1
        let goOn := reduceFrom machine source ahead start first fuel (round + 1)
        if options.shifts then goOn following true reduced
        else match if round < mostVersions then new? else none with
          | some new => goOn version fits (reduced.replace new.version version)
          | none =>
            goOn following fits (if ahead.isSome then reduced.drop version else reduced)

/-- Ends rows before a terminal, or before any, as far as possible. -/
def reduceBefore (machine : Machine σ ν φ τ) (source : Source) (version : Nat)
    (ahead : Option Nat) (stack : Stack σ ν φ τ) : Stack σ ν φ τ × Bool :=
  machine.reduceFrom source ahead version stack.heads.size (1000 + stack.entries.size) 0 version
    false stack

/-! ### Comparing ways out -/

/-- Whether another reading, or a finished one, is better than one that costs this
much. The readings that are compared are settled. -/
def isBeaten (machine : Machine σ ν φ τ) (version cost : Nat) (parsing : Parsing σ ν φ τ) :
    Parsing σ ν φ τ × Bool :=
  if parsing.finished.any fun tree => tree.cost ≤ cost then (parsing, true)
  else match parsing.stack.entry? version with
    | none => (parsing, false)
    | some entry =>
      let settled := parsing.stack.settle version
      let own : Standing := ⟨cost, settled.sinceFault version, entry.weight, false⟩
      let rivals := (List.range settled.heads.size).filter fun other =>
        other != version && settled.hasStatus other .active &&
          entry.pos ≤ settled.pos other
      let (stack, beaten) := rivals.foldl
        (fun (stack, beaten) other =>
          if beaten then (stack, beaten)
          else
            let stack := stack.settle other
            match own.prefer (stack.standing machine.fault other) with
            | .onlySecond => (stack, true)
            | .second => let joins := stack.canMerge other version; (stack, joins)
            | _ => (stack, false))
        (settled, false)
      ({ parsing with stack }, beaten)

/-! ### Going back -/

/-- Puts the trees above an earlier state into a fault behind that state. A fault
that is there already grows. -/
def retreatOn (machine : Machine σ ν φ τ) (source : Source) (version : Nat) (state : σ)
    (trees : List (Tree ν φ τ)) (stack : Stack σ ν φ τ) : Stack σ ν φ τ :=
  let isFaulty := (stack.entry? version).any fun entry =>
    entry.links.any fun link => link.tree.any (·.isFault)
  let (opened, skipped) :=
    match if isFaulty then stack.popFault version else [] with
    | [] => (stack, trees)
    | ways@(way :: _) =>
      let added := stack.addPopped version ways
      let parts := ((way.rows.head?.bind List.head?).map (·.parts)).getD []
      (added.replace stack.heads.size version, parts ++ trees)
  let (inner, extras) := Tree.cutExtras skipped
  let closed :=
    if inner.isEmpty then opened
    else
      let fault := (Tree.ofParts machine.plan source .fault [] inner).change fun summary =>
        { summary with extra := true }
      machine.push version fault state opened
  extras.foldl (fun stack extra => machine.push version extra state stack) closed

/-- Goes back a number of steps to a state. The result says whether that worked. -/
def retreat (machine : Machine σ ν φ τ) (source : Source) (version depth : Nat) (state : σ)
    (stack : Stack σ ν φ τ) : Stack σ ν φ τ × Bool :=
  let ways := stack.pop (stack.number version) depth
  let before := stack.heads.size
  ways.zipIdx.foldl
    (fun (stack, worked) (way, index) =>
      let target := before + index
      if (stack.entry? target).any fun entry => entry.state = state then
        (machine.retreatOn source target state (way.rows.head?.getD []) stack, true)
      else (stack.halt target, worked))
    (stack.addPopped version ways, false)

/-- Looks for a state to go back to in which a token fits, and in which none of the
first `others` readings is; `since` says whether anything was found since the
fault. -/
def goBack (machine : Machine σ ν φ τ) (source : Source) (version others pos cost : Nat)
    (since : Bool) (token : Tree ν φ τ) :
    List (Retreat σ) → Parsing σ ν φ τ → Parsing σ ν φ τ × Bool
  | [], parsing => (parsing, false)
  | place :: places, parsing =>
    let taken := (List.range others).any fun other =>
      (parsing.stack.entry? other).any fun entry =>
        entry.state = place.state && entry.pos == pos
    if machine.isFault place.state || place.pos == pos || taken then
      goBack machine source version others pos cost since token places parsing
    else
      let price := cost + place.depth * treeCost +
        byteCost * source.bytesIn place.pos pos +
        lineCost * source.linesIn place.pos pos
      let (parsing, beaten) := machine.isBeaten version price parsing
      if beaten then (parsing, false)
      else if (machine.actionsOn place.state token).isEmpty then
        goBack machine source version others pos cost since token places parsing
      else
        let depth := if since then place.depth + 1 else place.depth
        let (stack, worked) := machine.retreat source version depth place.state parsing.stack
        if worked then ({ parsing with stack }, true)
        else goBack machine source version others pos cost since token places { parsing with stack }

/-! ### Skipping -/

/-- Skips a token at a fault. -/
def skip (machine : Machine σ ν φ τ) (source : Source) (version : Nat) (fault : σ) (since : Bool)
    (token : Tree ν φ τ) (stack : Stack σ ν φ τ) : Stack σ ν φ τ :=
  let isExtra := match token.terminal? with
    | some terminal =>
      match (machine.actions machine.initial terminal).getLast? with
      | some .extra => true
      | _ => false
    | none => false
  let token := if isExtra then token.change fun summary => { summary with extra := true } else token
  let part (trees : List (Tree ν φ τ)) : Tree ν φ τ :=
    .ofParts machine.plan source .faultPart [] trees
  let (opened, skipped) :=
    match if since then stack.pop (stack.number version) 1 else [] with
    | [] => (stack, part [token])
    | way :: _ =>
      let before := stack.heads.size
      let added := stack.addPopped version [way]
      (added.replace before version, part (way.rows.head?.getD [] ++ [part [token]]))
  let pushed := machine.push version skipped fault opened
  match token.summary.memory with
  | none => pushed
  | some memory => pushed.changeHead version fun head => { head with memory := some memory }

/-- Goes on with a token at a fault: goes back to an earlier state, skips the token,
or both. -/
def recover (machine : Machine σ ν φ τ) (source : Source) (fault : σ) (version : Nat)
    (token : Tree ν φ τ) (parsing : Parsing σ ν φ τ) : Parsing σ ν φ τ :=
  let before := parsing.stack.heads.size
  let settled := { parsing with stack := parsing.stack.settle version }
  let pos := settled.stack.pos version
  let since := 0 < settled.stack.sinceFault version
  let cost := settled.stack.cost machine.fault version
  let places :=
    if token.isFault then [] else ((settled.stack.heads[version]?).map (·.retreats)).getD []
  let (parsing, worked) :=
    machine.goBack source version before pos cost since token places settled
  let heads := parsing.stack.heads
  let kept := heads.extract 0 before ++
    (heads.extract before heads.size).filter fun head => head.status == .active
  let parsing := { parsing with stack := { parsing.stack with heads := kept } }
  let halted := { parsing with stack := parsing.stack.halt version }
  if worked && (mostVersions < kept.size || token.summary.changed) then halted
  else if token.terminal? == some machine.plan.ending then
    let empty : Tree ν φ τ := (Tree.ofParts machine.plan source .fault [] []).change
      fun summary => { summary with before := pos, start := pos, stop := pos }
    machine.accept source ⟨version, parsing.stack.entries.size⟩ token
      { parsing with stack := machine.push version empty machine.initial parsing.stack }
  else
    let price := cost + treeCost +
      byteCost * source.bytesIn token.summary.before token.summary.stop +
      lineCost * source.linesIn token.summary.before token.summary.stop
    let (parsing, beaten) := machine.isBeaten version price parsing
    if beaten then { parsing with stack := parsing.stack.halt version }
    else { parsing with stack := machine.skip source version fault since token parsing.stack }

/-! ### Adding a token -/

/-- Tries to add one of some tokens, so that rows can end before the token that is
there. -/
def addMissing (machine : Machine σ ν φ τ) (source : Source) (version pos : Nat)
    (token : Tree ν φ τ) :
    (trials : List Nat) → Stack σ ν φ τ → Stack σ ν φ τ × Bool
  | [], stack => (stack, false)
  | terminal :: trials, stack =>
    let next? := (stack.top? version).bind fun (head, entry) =>
      (machine.behind? entry.state terminal).bind fun target =>
        let ends := match machine.actionsOn target token with
          | .reduce _ :: _ => true
          | _ => false
        if machine.isFault target || target = entry.state || !ends then none
        else some (head, target)
    match next? with
    | none => addMissing machine source version pos token trials stack
    | some (head, target) =>
      let new := stack.heads.size
      let missing : Tree ν φ τ :=
        (Tree.leaf (.symbol (.terminal terminal)) pos pos pos).change
          fun summary => { summary with missing := true }
      let added := stack.add { head with waiting := none, retreats := [] }
      let ahead := token.terminal?.filter (· != machine.plan.ending)
      let (tried, fits) :=
        machine.reduceBefore source new ahead (machine.push new missing target added)
      if fits then (tried, true)
      else addMissing machine source version pos token trials tried

/-- Begins a fault in some readings, after trying to add a token in one of them. -/
def beginFaults (machine : Machine σ ν φ τ) (source : Source) (fault : σ) (pos : Nat)
    (token : Tree ν φ τ) : (versions : List Nat) → (added : Bool) → Stack σ ν φ τ → Stack σ ν φ τ
  | [], _, stack => stack
  | version :: versions, added, stack =>
    let (tried, found) :=
      if added then (stack, true)
      else machine.addMissing source version pos token machine.trials stack
    beginFaults machine source fault pos token versions found
      (tried.pushFault machine.plan version fault)

/-- Handles a token that fits nowhere. -/
def handleFault (machine : Machine σ ν φ τ) (source : Source) (fault : σ) (version : Nat)
    (token : Tree ν φ τ) (parsing : Parsing σ ν φ τ) : Parsing σ ν φ τ :=
  let before := parsing.stack.heads.size
  let (reduced, _) := machine.reduceBefore source version none parsing.stack
  let after := reduced.heads.size
  let pos := reduced.pos version
  let versions := version :: (List.range after).filter (before ≤ ·)
  let faulty := machine.beginFaults source fault pos token versions false reduced
  let joined := (List.range (after - before)).foldl
    (fun stack _ => (machine.merge? source stack version before).getD stack) faulty
  let retreats := joined.retreats version deepestRetreat
  machine.recover source fault version token
    { parsing with stack := joined.changeHead version fun head => { head with retreats } }

end Phrasebook.Grammar.Machine
