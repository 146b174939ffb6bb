import Phrasebook.Failure

/-!
# Trees of scripts

A script is read into a tree. The tree keeps every named part of the script with
its range, comments included; of the kinds of part it tells apart those that
extraction asks about. Punctuation is not in the tree.
-/

namespace Phrasebook.Script

/-- What a node of the tree is. -/
inductive Kind where
  /-- A quoted literal. -/
  | quoted
  /-- A template literal; its children are its substitutions. -/
  | template
  /-- An expression inside a template literal, with its marks. -/
  | substitution
  | comment
  | identifier
  | this
  /-- The name behind the dot of a member access. -/
  | propertyName
  /-- Access to a member by name. -/
  | member
  /-- The mark of an access that may be skipped. -/
  | optionalMark
  | call
  | arguments
  /-- A property of an object literal. -/
  | pair
  | importation
  /-- The right side of an import by assignment. -/
  | importRequire
  | exportation
  /-- A literal that stands for a type. -/
  | literalType
  /-- An attribute of embedded markup. -/
  | markupAttribute
  /-- Everything that extraction does not tell apart. -/
  | other
  deriving Repr, DecidableEq

/-- What a node is to its parent, where extraction asks. -/
inductive Role where
  | none
  | callee
  | object
  | property
  | key
  | source
  deriving Repr, DecidableEq

/-- A part of a script. Offsets count characters. -/
inductive Node where
  | mk (kind : Kind) (role : Role) (start stop : Nat) (children : List Node)
  deriving Repr

namespace Node

/-- What a node is. -/
def kind : Node → Kind
  | mk kind _ _ _ _ => kind

/-- What a node is to its parent. -/
def role : Node → Role
  | mk _ role _ _ _ => role

/-- Where a node starts. -/
def start : Node → Nat
  | mk _ _ start _ _ => start

/-- Where a node ends. -/
def stop : Node → Nat
  | mk _ _ _ stop _ => stop

/-- The parts of a node in order. -/
def children : Node → List Node
  | mk _ _ _ _ children => children

/-- The first child in a role. -/
def child? (role : Role) (node : Node) : Option Node :=
  node.children.find? fun child => child.role == role

/-- Whether two nodes are the same part of a script. -/
def sameAs (left right : Node) : Bool :=
  left.kind == right.kind && left.start == right.start && left.stop == right.stop

/-- The characters of a node in its script. -/
def textIn (script : Text) (node : Node) : Text :=
  script.slice node.start node.stop

end Node

end Phrasebook.Script
