import Phrasebook.Mapping
import Phrasebook.Yaml.Node
import Phrasebook.Yaml.Value

/-!
# Documents

What a document says. Its collections have places, so that one may hold itself.
They are filled in the order in which they are met, each only with the scalars and
the places that it holds; so the first fault is one of the outermost.

Of a mapping only the entries under texts are kept, since no other key is ever
asked for.
-/

namespace Phrasebook.Yaml

/-- What a collection holds. -/
inductive Collection where
  | sequence (items : List Value)
  | mapping (entries : List (Text × Value))
  /-- A set, of which only its emptiness is known. -/
  | set (isEmpty : Bool)
  /-- A list of pairs, of which only its emptiness is known. -/
  | pairs (isEmpty : Bool)
  deriving Repr, DecidableEq

/-- A value with the collections that it holds. -/
structure Document where
  root : Value := .null
  collections : Array Collection := #[]
  deriving Repr, DecidableEq

namespace Document

/-- The collection that a value is. -/
def collection? (document : Document) : Value → Option Collection
  | .collection place => document.collections[place]?
  | _ => none

/-- Whether a value says nothing: null, false, zero, or an empty text or
collection. -/
def isVoid (document : Document) : Value → Bool
  | .null => true
  | .bool truth => !truth
  | .int number => number == 0
  | .float number => number.isZero
  | .text content => content.isEmpty
  | .bytes content => content.isEmpty
  | .moment _ => false
  | .collection place =>
    match document.collections[place]? with
    | some (.sequence items) => items.isEmpty
    | some (.mapping _) => false
    | some (.set isEmpty) => isEmpty
    | some (.pairs isEmpty) => isEmpty
    | none => false

end Document

/-- How far the values of some nodes are known. -/
structure Filling where
  nodes : Array Node
  /-- The values of nodes by number. -/
  known : Array (Option Value)
  collections : Array Collection := #[]
  /-- The collections that are still empty: node and place. -/
  waiting : List (Nat × Nat) := []

/-- Finds values or stops at a fault. -/
abbrev Filler := StateT Filling (Except Fault)

namespace Filler

/-- Stops. -/
def fault {α : Type} : Filler α :=
  throw .malformed

/-- The node of a number. -/
def node (number : Nat) : Filler Node := do
  return (← get).nodes[number]?.getD .empty

/-- Puts another node in a place. -/
def setNode (number : Nat) (node : Node) : Filler Unit :=
  modify fun state => { state with nodes := state.nodes.set! number node }

/-- The text of a node: a scalar's own, or that of a mapping's default value. -/
def content : (depth : Nat) → Nat → Filler Text
  | 0, _ => fault
  | depth + 1, number => do
    match ← node number with
    | .scalar _ content => return content
    | .mapping _ entries =>
      match ← entries.findM? fun (key, _) => do return (← node key).tag == .default with
      | some (_, value) => content depth value
      | none => fault
    | .sequence .. => fault

/-- Whether a node is a scalar. -/
def isScalar (number : Nat) : Filler Bool := do
  match ← node number with
  | .scalar .. => return true
  | _ => return false

/-- The value of a node. A collection gets a place, and waits to be filled. -/
def value (number : Nat) : Filler Value := do
  let state ← get
  match state.known[number]?.join with
  | some value => return value
  | none =>
    let tag := (← node number).tag
    let found : Value ←
      match tag with
      | .sequence | .mapping | .set | .orderedMapping | .pairs =>
        let place := state.collections.size
        set { state with
          collections := state.collections.push (.sequence []),
          waiting := state.waiting ++ [(number, place)] }
        pure (.collection place)
      | .merge | .default | .unknown => fault
      | _ =>
        let text ← content (state.nodes.size + 1) number
        if tag == .timestamp && !(← isScalar number) then throw (.scalar .momentOfCollection)
        Scalar.value tag text
    modify fun state => { state with known := state.known.set! number (some found) }
    return found

/-- The entries that a mapping merges, and its own; `index` counts its own that are
done. -/
def mergeLoop (merge : Nat → Filler (List (Nat × Nat))) (number : Nat) :
    (fuel : Nat) → (index : Nat) → Filler (List (Nat × Nat))
  | 0, _ => return []
  | fuel + 1, index => do
    match ← node number with
    | .mapping tag entries =>
      match entries[index]? with
      | none => return []
      | some (key, value) =>
        match (← node key).tag with
        | .merge =>
          setNode number (.mapping tag (entries.eraseIdx index))
          let inner ← match ← node value with
            | .mapping .. => merge value
            | .sequence _ items => do
              let lists ← items.mapM fun item => do
                match ← node item with
                | .mapping .. => merge item
                | _ => fault
              pure lists.reverse.flatten
            | .scalar .. => fault
          return inner ++ (← mergeLoop merge number fuel index)
        | .default =>
          setNode key ((← node key).withTag .text)
          mergeLoop merge number fuel (index + 1)
        | _ => mergeLoop merge number fuel (index + 1)
    | _ => return []

/-- The entries of a mapping, with those of the mappings that it merges in front; so
its own win. The mapping keeps them. -/
def merged : (depth : Nat) → Nat → Filler (List (Nat × Nat))
  | 0, _ => fault
  | depth + 1, number => do
    match ← node number with
    | .mapping _ entries =>
      let fuel := 2 * ((← get).nodes.size + entries.length + 1)
      let inner ← mergeLoop (merged depth) number fuel 0
      match ← node number with
      | .mapping tag own =>
        setNode number (.mapping tag (inner ++ own))
        return inner ++ own
      | _ => fault
    | _ => fault

/-- The keys of a mapping with their values. -/
def entries (number : Nat) : Filler (List (Value × Value)) := do
  let found ← merged ((← get).nodes.size + 1) number
  found.mapM fun (key, item) => do
    let name ← value key
    if name.isKey then return (name, ← value item) else fault

/-- Passes a pair of a list of pairs. -/
def pair (number : Nat) : Filler Unit := do
  match ← node number with
  | .mapping _ [(key, item)] =>
    let _ ← value key
    let _ ← value item
  | _ => fault

/-- What a collection holds. -/
def contents (number : Nat) : Filler Collection := do
  match ← node number with
  | .sequence .sequence items => return .sequence (← items.mapM value)
  | .sequence tag items =>
    if tag == .orderedMapping || tag == .pairs then
      items.forM pair
      return .pairs items.isEmpty
    else fault
  | .mapping .mapping _ =>
    return .mapping (Mapping.ofPairs ((← entries number).filterMap fun
      | (.text name, item) => some (name, item)
      | _ => none))
  | .mapping .set _ => return .set (← entries number).isEmpty
  | _ => fault

/-- Fills the collections that wait, and those that they bring. -/
def fill : (fuel : Nat) → Filler Unit
  | 0 => pure ()
  | fuel + 1 => do
    let state ← get
    match state.waiting with
    | [] => pure ()
    | (number, place) :: waiting =>
      set { state with waiting }
      let found ← contents number
      modify fun state => { state with collections := state.collections.set! place found }
      fill fuel

end Filler

/-- What the nodes of a document say, from the first one on. -/
def Document.ofNodes (nodes : Array Node) (first : Nat) : Except Fault Document := do
  let build : Filler Value := do
    let root ← Filler.value first
    Filler.fill (nodes.size + 1)
    return root
  let (root, state) ← build.run { nodes, known := Array.replicate nodes.size none }
  return { root, collections := state.collections }

/-- What a text of at most one document says; no document is null. -/
def load (text : Text) : Except Fault Document := do
  match ← nodes text with
  | (_, none) => return {}
  | (found, some first) => Document.ofNodes found first

end Phrasebook.Yaml
