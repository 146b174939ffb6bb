import Phrasebook.Yaml.Stream
import Phrasebook.Yaml.Tag

/-!
# Nodes of YAML

The nodes of a document, by number. An alias stands for the number of the node that
it names, so a node may hold itself.
-/

namespace Phrasebook.Yaml

/-- A node. What it holds is given by number. -/
inductive Node where
  | scalar (tag : Tag) (content : Text)
  | sequence (tag : Tag) (items : List Nat)
  | mapping (tag : Tag) (entries : List (Nat × Nat))
  deriving Repr, DecidableEq

namespace Node

/-- The node of what is left out. -/
def empty : Node :=
  .scalar .null []

/-- The kind of a node. -/
def tag : Node → Tag
  | scalar tag _ => tag
  | sequence tag _ => tag
  | mapping tag _ => tag

/-- A node of another kind. -/
def withTag (tag : Tag) : Node → Node
  | scalar _ content => .scalar tag content
  | sequence _ items => .sequence tag items
  | mapping _ entries => .mapping tag entries

end Node

/-- How far the nodes of a text are known. -/
structure Growing where
  lexing : Lexing
  /-- The handles of tags, with what they stand for. -/
  handles : List (Text × Text) := [(['!'], ['!']), (['!', '!'], Tag.standard)]
  nodes : Array Node := #[]
  /-- The numbers of the named nodes. -/
  anchors : List (Text × Nat) := []

/-- Builds nodes or stops at a fault. -/
abbrev Builder := StateT Growing (Except Fault)

namespace Builder

/-- Stops. -/
def fault {α : Type} : Builder α :=
  throw .malformed

/-- Goes on only when a condition holds. -/
def require (condition : Bool) : Builder Unit :=
  if condition then pure () else fault

/-- The next token. -/
def peek : Builder (Option Token) := do
  let state ← get
  let (token, lexing) ← Lexer.next.run state.lexing
  set { state with lexing }
  return token

/-- Passes a token. -/
def pass : Builder Unit := do
  let state ← get
  let (_, lexing) ← Lexer.take.run state.lexing
  set { state with lexing }

/-- A bound on the number of tokens that follow. -/
def bound : Builder Nat := do
  let lexing := (← get).lexing
  return 4 * lexing.spot.rest.length + lexing.tokens.size + lexing.outer.length + 4

/-- Whether one of some tokens comes next. -/
def sees (tokens : List Token) : Builder Bool := do
  return (← peek).any tokens.contains

/-- Passes a token if it comes next. -/
def accept (token : Token) : Builder Bool := do
  if ← sees [token] then
    pass
    return true
  else return false

/-- Passes a token that must come next. -/
def expect (token : Token) : Builder Unit := do
  require (← accept token)

/-- Adds a node and gives its number. -/
def add (node : Node) : Builder Nat := do
  let state ← get
  set { state with nodes := state.nodes.push node }
  return state.nodes.size

/-- What stands before a node. -/
structure Properties where
  anchor : Option Text := none
  /-- The tag in full, with its handle resolved. -/
  tag : Option Text := none

/-- An anchor, if one comes next. -/
def anchor : Builder (Option Text) := do
  match ← peek with
  | some (.anchor name) =>
    pass
    return some name
  | _ => return none

/-- A tag, if one comes next. -/
def tag : Builder (Option (Option Text × Text)) := do
  match ← peek with
  | some (.tag handle suffix) =>
    pass
    return some (handle, suffix)
  | _ => return none

/-- A tag in full. -/
def resolve (handle : Option Text) (suffix : Text) : Builder Text := do
  match handle with
  | none => return suffix
  | some handle =>
    match (← get).handles.lookup handle with
    | some start => return start ++ suffix
    | none => fault

/-- What stands before a node, in either order. -/
def properties : Builder Properties := do
  let early ← anchor
  let written ← tag
  let late ← if early.isNone && written.isSome then anchor else pure none
  let full ← match written with
    | none => pure none
    | some (handle, suffix) => do pure (some (← resolve handle suffix))
  return { anchor := early.or late, tag := full }

namespace Properties

/-- The tag, unless it leaves the kind open. -/
def kind? (properties : Properties) : Option Tag :=
  match properties.tag with
  | none => none
  | some name => if name == ['!'] then none else some (Tag.ofName name)

/-- The kind of a scalar. -/
def scalarTag (properties : Properties) (content : Text) (plain : Bool) : Tag :=
  match properties.kind? with
  | some kind => kind
  | none => if plain || properties.tag.isSome then Tag.ofPlain content else .text

end Properties

/-- Keeps a place for a node, under its name if it has one. -/
def reserve (name : Option Text) : Builder Nat := do
  let place ← add .empty
  match name with
  | none => pure ()
  | some name =>
    let state ← get
    require ((state.anchors.lookup name).isNone)
    set { state with anchors := (name, place) :: state.anchors }
  return place

/-- Puts a node in its place. -/
def fill (place : Nat) (node : Node) : Builder Nat := do
  modify fun state => { state with nodes := state.nodes.set! place node }
  return place

/-- The node of an alias. -/
def aliased (name : Text) : Builder Nat := do
  match (← get).anchors.lookup name with
  | none => fault
  | some place => return place

/-- A node, or nothing where one of some tokens comes next. -/
def orEmpty (stops : List Token) (node : Builder Nat) : Builder Nat := do
  if ← sees stops then add .empty else node

/-! ### Collections

Each reader takes the reader of the nodes inside. Fuel bounds the entries. -/

/-- The rest of a block sequence. -/
def blockItems (item : Builder Nat) : (fuel : Nat) → Builder (List Nat)
  | 0 => fault
  | fuel + 1 => do
    if ← accept .blockEntry then
      let first ← orEmpty [.blockEntry, .blockEnd] item
      return first :: (← blockItems item fuel)
    else
      expect .blockEnd
      return []

/-- The rest of a block sequence that is not indented. -/
def looseItems (item : Builder Nat) : (fuel : Nat) → Builder (List Nat)
  | 0 => fault
  | fuel + 1 => do
    if ← accept .blockEntry then
      let first ← orEmpty [.blockEntry, .key, .value, .blockEnd] item
      return first :: (← looseItems item fuel)
    else return []

/-- The rest of a block mapping. -/
def blockEntries (item : Builder Nat) : (fuel : Nat) → Builder (List (Nat × Nat))
  | 0 => fault
  | fuel + 1 => do
    if ← accept .key then
      let stops := [.key, .value, .blockEnd]
      let key ← orEmpty stops item
      let value ← if ← accept .value then orEmpty stops item else add .empty
      return (key, value) :: (← blockEntries item fuel)
    else
      expect .blockEnd
      return []

/-- A key with its value inside brackets that a token closes. -/
def flowPair (item : Builder Nat) (close : Token) : Builder (Nat × Nat) := do
  let key ← orEmpty [.value, .flowEntry, close] item
  let value ← if ← accept .value then orEmpty [.flowEntry, close] item else add .empty
  return (key, value)

/-- The rest of a flow sequence; a comma comes before all but the first item. -/
def flowItems (item : Builder Nat) : (fuel : Nat) → (first : Bool) → Builder (List Nat)
  | 0, _ => fault
  | fuel + 1, first => do
    if ← accept .flowSequenceEnd then return []
    if !first then expect .flowEntry
    if ← accept .key then
      let pair ← flowPair item .flowSequenceEnd
      let entry ← add (.mapping .mapping [pair])
      return entry :: (← flowItems item fuel false)
    else if ← accept .flowSequenceEnd then return []
    else
      let node ← item
      return node :: (← flowItems item fuel false)

/-- The rest of a flow mapping; a comma comes before all but the first entry. -/
def flowEntries (item : Builder Nat) :
    (fuel : Nat) → (first : Bool) → Builder (List (Nat × Nat))
  | 0, _ => fault
  | fuel + 1, first => do
    if ← accept .flowMappingEnd then return []
    if !first then expect .flowEntry
    if ← accept .key then
      let pair ← flowPair item .flowMappingEnd
      return pair :: (← flowEntries item fuel false)
    else if ← accept .flowMappingEnd then return []
    else
      let key ← item
      let value ← add .empty
      return (key, value) :: (← flowEntries item fuel false)

/-- Where a node stands. -/
inductive Place where
  /-- As an entry of a block sequence, or as a document. -/
  | block
  /-- In a block mapping, where a sequence need not be indented. -/
  | entry
  /-- Inside brackets. -/
  | flow
  deriving Repr, DecidableEq

/-- A node of at most `depth` levels. -/
def node : (depth : Nat) → Place → Builder Nat
  | 0, _ => fault
  | depth + 1, place => do
    match ← peek with
    | some (.alias name) =>
      pass
      aliased name
    | _ =>
      let properties ← properties
      let next ← peek
      let fuel ← bound
      let blocks := place != .flow
      let sequence (items : Builder (List Nat)) : Builder Nat := do
        let number ← reserve properties.anchor
        fill number (.sequence (properties.kind?.getD .sequence) (← items))
      let mapping (entries : Builder (List (Nat × Nat))) : Builder Nat := do
        let number ← reserve properties.anchor
        fill number (.mapping (properties.kind?.getD .mapping) (← entries))
      match next with
      | some (.scalar content plain) =>
        pass
        fill (← reserve properties.anchor)
          (.scalar (properties.scalarTag content plain) content)
      | some .flowSequenceStart =>
        pass
        sequence (flowItems (node depth .flow) fuel true)
      | some .flowMappingStart =>
        pass
        mapping (flowEntries (node depth .flow) fuel true)
      | next =>
        if next == some .blockEntry && place == .entry then
          sequence (looseItems (node depth .block) fuel)
        else if next == some .blockSequenceStart && blocks then
          pass
          sequence (blockItems (node depth .block) fuel)
        else if next == some .blockMappingStart && blocks then
          pass
          mapping (blockEntries (node depth .entry) fuel)
        else
          require (properties.anchor.isSome || properties.tag.isSome)
          fill (← reserve properties.anchor) (.scalar (properties.scalarTag [] true) [])

/-! ### Documents -/

/-- The directives before a document; `versioned` once a version was said. -/
def directives : (fuel : Nat) → (versioned : Bool) → (own : List (Text × Text)) →
    Builder (List (Text × Text))
  | 0, _, own => pure own
  | fuel + 1, versioned, own => do
    match ← peek with
    | some (.directive (.version major)) =>
      pass
      require (!versioned && major == 1)
      directives fuel true own
    | some (.directive (.handle name start)) =>
      pass
      require ((own.lookup name).isNone)
      directives fuel versioned ((name, start) :: own)
    | some (.directive .other) =>
      pass
      directives fuel versioned own
    | _ => return own

/-- The node of a document. -/
def document : Builder Nat := do
  let fuel ← bound
  match ← peek with
  | some (.directive _) | some .documentStart =>
    let own ← directives fuel false []
    modify fun state => { state with handles := own ++ state.handles }
    expect .documentStart
    match ← peek with
    | some (.directive _) | some .documentStart | some .documentEnd | some .streamEnd =>
      add .empty
    | _ => node fuel .block
  | _ => node fuel .block

/-- Passes the ends of a document. -/
def documentEnds : (fuel : Nat) → Builder Unit
  | 0 => pure ()
  | fuel + 1 => do
    if ← accept .documentEnd then documentEnds fuel

/-- The node of the only document, if there is one. -/
def onlyDocument : Builder (Option Nat) := do
  if ← sees [.streamEnd] then return none
  let found ← document
  documentEnds (← bound)
  if !(← sees [.streamEnd]) then
    let _ ← directives (← bound) false []
    expect .documentStart
    fault
  return some found

end Builder

/-- The nodes of a text of at most one document, and the number of the first one. -/
def nodes (text : Text) : Except Fault (Array Node × Option Nat) := do
  let (root, state) ← Builder.onlyDocument.run { lexing := ← Lexing.ofText text }
  return (state.nodes, root)

end Phrasebook.Yaml
