import Phrasebook.Component.Scanner
import Phrasebook.Grammar.Parser
import Phrasebook.Grammar.Table
import Phrasebook.Grammar.View

/-!
# Outlines

The blocks of a component: its script and template elements at the top level. Markup
with faults still has blocks; what does not fit is left out.
-/

namespace Phrasebook.Component

open Grammar (Automaton Blueprint Machine Mode Row Source Table TerminalSet Title Token Tree View)

/-! ### The machine -/

/-- What is looked for in a state: the first group of tokens with all that fit. Only the
first group goes together with the end of the text. -/
def modeOf (plan : Blueprint Construct Field) (groups : List (List Nat))
    (row : Row Construct Field) : Mode :=
  let terminals := row.terminals
  let tokens := terminals.filter (· < plan.tokens.size)
  let chosen := (groups.zipIdx.find? fun (group, index) =>
    tokens.all group.contains && (index == 0 || !terminals.contains plan.ending)).getD ([], 0)
  { tokens := chosen.1
    endFits := chosen.2 == 0
    scanned := .ofList (terminals.filter fun terminal =>
      terminal == selfClosing plan ||
        (plan.tokens.size ≤ terminal && terminal != plan.ending)) }

/-- What is looked for at a fault. -/
def faultMode (plan : Blueprint Construct Field) (groups : List (List Nat)) : Mode where
  tokens := groups.headD []
  endFits := true
  scanned := .ofList (selfClosing plan ::
    (List.range plan.ending).filter (plan.tokens.size ≤ ·))

/-- The machine of an automaton. -/
def machineOf (automaton : Automaton Construct Field) :
    Machine Nat Construct Field OpenElements :=
  let plan := automaton.plan
  let table := Table.ofAutomaton automaton [selfClosing plan] 4096
  let groups := tokenGroups.map fun group =>
    (group.map plan.tokenNumber).mergeSort (· ≤ ·)
  let modes := table.mapIdx fun state row =>
    if state == 0 then faultMode plan groups else modeOf plan groups row
  { plan
    initial := 1
    fault := some 0
    actions := fun state terminal => ((table[state]?).map (·.on terminal)).getD []
    next := fun state nonterminal => ((table[state]?).bind (·.behind? nonterminal)).getD 0
    mode := fun state => modes[state]?.getD ⟨[], false, .empty⟩
    scan := scanner plan }

/-- The machine of components, which is made when it is first needed. -/
def machine : Thunk (Machine Nat Construct Field OpenElements) :=
  Thunk.mk fun _ => machineOf (.ofGrammar grammar)

/-! ### Blocks -/

/-- An attribute, which may lack a value. -/
abbrev Attribute := Text × Option Text

/-- A script or template element with the range of its content, which is counted in
bytes. -/
structure Block where
  isTemplate : Bool
  attributes : List Attribute
  start : Nat
  stop : Nat
  deriving Repr, DecidableEq

/-- Whether something is out of place in the markup, and whether the tree shows
where. -/
inductive Soundness where
  | sound
  | faulty (isShown : Bool)
  deriving Repr, DecidableEq

/-- The blocks of a component. -/
structure Outline where
  blocks : List Block
  soundness : Soundness
  deriving Repr, DecidableEq

/-- Whether a part is a construct. -/
def is (construct : Construct) (part : View Construct Field) : Bool :=
  part.title == .construct construct

/-- The characters of a part. -/
def textOf (content : Text) (part : View Construct Field) : Text :=
  content.slice part.start part.stop

/-- The value that a part of an attribute is. -/
def valueOf? (content : Text) (part : View Construct Field) : Option Text :=
  if is .attributeValue part then some (textOf content part)
  else if is .quotedValue part then
    some (((part.parts.find? (is .attributeValue)).map (textOf content)).getD [])
  else none

/-- The attribute that a part of a start tag is. -/
def attribute? (content : Text) (part : View Construct Field) : Option Attribute :=
  if !is .plainAttribute part then none
  else
    let names := part.parts.filter (is .attributeName)
    let value := (part.parts.filterMap (valueOf? content)).getLast?
    match names.getLast?.map (textOf content) with
    | none | some [] => none
    | some name => some (name, value)

/-- A place that is counted in characters, counted in bytes. -/
def byteOffset (content : Text) (offset : Nat) : Nat :=
  Utf8.size (content.take offset)

/-- The block of an element: what stands between its tags. -/
def Block.ofElement (content : Text) (isTemplate : Bool) (element : View Construct Field) :
    Block :=
  let tag? := element.parts.find? (is .startTag)
  let end? := (element.parts.filter (is .endTag)).getLast?
  { isTemplate
    attributes := ((tag?.map (·.parts)).getD []).filterMap (attribute? content)
    start := byteOffset content ((tag?.map (·.stop)).getD element.start)
    stop := byteOffset content ((end?.map (·.start)).getD element.stop) }

/-- The block that a part of the top level is. -/
def block? (content : Text) (part : View Construct Field) : Option Block :=
  if is .templateElement part then some (.ofElement content true part)
  else if is .scriptElement part then some (.ofElement content false part)
  else none

mutual

/-- Whether a view shows a fault. -/
def showsFault : View Construct Field → Bool
  | .node title _ _ _ missing _ parts => title == .fault || missing || anyShowsFault parts

/-- Whether one of some views, which costs something, shows a fault. -/
def anyShowsFault : List (View Construct Field) → Bool
  | [] => false
  | part :: parts => ((0 < part.cost || part.missing) && showsFault part) || anyShowsFault parts

end

/-- The outline that the tree of a component shows. -/
def Outline.ofTree? {τ : Type} (content : Text) (plan : Blueprint Construct Field) :
    Option (Tree Construct Field τ) → Outline
  | none => ⟨[], .faulty true⟩
  | some tree =>
    let view := tree.view plan
    { blocks := view.parts.filterMap (block? content)
      soundness := if tree.cost == 0 then .sound else .faulty (showsFault view) }

/-- The outline of a component. -/
def Outline.ofText (content : Text) : Outline :=
  let machine := machine.get
  .ofTree? content machine.plan (machine.parse (.ofText content))

end Phrasebook.Component
