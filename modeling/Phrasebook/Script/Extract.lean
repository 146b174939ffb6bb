import Phrasebook.Call
import Phrasebook.Script.Parse
import Phrasebook.Session

/-!
# Extraction from scripts

Literals that hold ideographs become calls of the lookup function. A literal that
the language needs, that names a property, that goes to a log or that is already
looked up stays.
-/

namespace Phrasebook.Script

/-- The nodes around a node, from the inside out. -/
abbrev Ancestors := List Node

/-- The fixed parts of a template literal as they are written. -/
def fixedParts (script : Text) (node : Node) : List Text :=
  let rec go (pos : Nat) : List Node → List Text
    | [] => [script.slice pos (node.stop - 1 : Nat)]
    | child :: children =>
      if child.kind == .substitution then
        script.slice pos child.start :: go child.stop children
      else go pos children
  go (node.start + 1) node.children

/-- Whether a template literal holds ideographs outside its substitutions. -/
def holdsText (script : Text) (node : Node) : Bool :=
  Text.hasIdeograph (fixedParts script node).flatten

mutual

/-- The literals of a node in order, each with the nodes around it. A template
literal that holds text keeps what is inside it. -/
def literals (script : Text) (around : Ancestors) : Node → List (Node × Ancestors)
  | .mk kind role start stop children =>
    let node := Node.mk kind role start stop children
    match kind with
    | .comment => []
    | .quoted => [(node, around)]
    | .template =>
      if holdsText script node then [(node, around)]
      else (node, around) :: literalsAll script (node :: around) children
    | _ => literalsAll script (node :: around) children

/-- The literals of nodes that stand in a row. -/
def literalsAll (script : Text) (around : Ancestors) : List Node → List (Node × Ancestors)
  | [] => []
  | node :: nodes => literals script around node ++ literalsAll script around nodes

end

/-- Whether a callee is a member whose arguments go to a log. -/
def isLogging (script : Text) (scope : Scope) (callee : Node) : Bool :=
  callee.kind == .member &&
    match callee.child? .object, callee.child? .property with
    | some object, some property =>
      object.kind == .identifier &&
        scope.loggingCalls.contains (object.textIn script ++ '.' :: property.textIn script)
    | _, _ => false

/-- Whether a callee is the lookup function. -/
def isLookup (script : Text) (scope : Scope) (callee : Node) : Bool :=
  let isName (node : Node) : Bool :=
    let name := node.textIn script
    name == scope.functions.script || name == scope.functions.markup
  match callee.kind with
  | .identifier => isName callee
  | .member => (callee.child? .property).any isName
  | _ => false

/-- Whether a literal stays because of where it stands. -/
def stays (script : Text) (scope : Scope) (node : Node) (around : Ancestors) : Bool :=
  match around with
  | [] => false
  | parent :: outer =>
    match parent.kind with
    | .importation | .importRequire | .literalType | .markupAttribute | .call => true
    | .exportation => node.role == .source
    | .pair => node.role == .key
    | .arguments =>
      match outer with
      | call :: _ =>
        call.kind == .call &&
          match call.child? .callee with
          | some callee =>
            isLogging script scope callee ||
              (isLookup script scope callee && parent.children.head?.any node.sameAs)
          | none => false
      | [] => false
    | _ => false

mutual

/-- The path of a member that is reached by names alone. -/
def memberPath? (script : Text) : Node → Option Text
  | .mk kind role start stop children =>
    match kind with
    | .identifier | .this | .propertyName =>
      some ((Node.mk kind role start stop children).textIn script)
    | .member =>
      if children.any fun child => child.kind == .optionalMark then none
      else match pathIn? script .object children, pathIn? script .property children with
        | some head, some tail => some (head ++ '.' :: tail)
        | _, _ => none
    | _ => none

/-- The path of the first of some nodes that is in a role. -/
def pathIn? (script : Text) (role : Role) : List Node → Option Text
  | [] => none
  | node :: nodes =>
    if node.role == role then memberPath? script node else pathIn? script role nodes

end

/-- The expression of a substitution as it becomes an argument. -/
def argumentText (script : Text) (substitution : Node) : Text :=
  match substitution.children with
  | [] => "undefined".toList
  | expr :: _ =>
    if expr.kind == .member then
      (memberPath? script expr).getD (expr.textIn script)
    else expr.textIn script

/-- The range of a node in bytes. -/
def byteSpan (script : Text) (node : Node) : Span :=
  ⟨Utf8.size (script.take node.start), Utf8.size (script.take node.stop)⟩

/-- The edit that puts a call in the place of a node. -/
def callEdit (scope : Scope) (node : Node) (key : Text) (exprs : List Text) : Edit Char :=
  ⟨node.start, node.stop, Call.render scope.functions.script key '"' exprs⟩

/-- The value of a body, or the failure of an escape in it. -/
def valueOf (body : Text) : Pass (List CodePoint) :=
  match Literal.cook body with
  | .ok value => pure value
  | .error fault => throw (.escape fault)

/-- The values of bodies in order. -/
def valuesOf : List Text → Pass (List (List CodePoint))
  | [] => pure []
  | body :: bodies => do
    let value ← valueOf body
    let later ← valuesOf bodies
    return value :: later

/-- The edit for a quoted literal, which is registered when its value holds
ideographs. -/
def extractQuoted (script : Text) (scope : Scope) (node : Node) : Pass (Option (Edit Char)) := do
  let value ← valueOf (script.slice (node.start + 1 : Nat) (node.stop - 1 : Nat))
  if !CodePoint.hasIdeograph value then return none
  let key ← Pass.register scope (byteSpan script node) .scriptLiteral (.ok value)
  return some (callEdit scope node key [])

/-- The edit for a template literal, which is registered when the values of its
fixed parts hold ideographs. Its substitutions become arguments. -/
def extractTemplate (script : Text) (scope : Scope) (node : Node) :
    Pass (Option (Edit Char)) := do
  let values ← valuesOf (fixedParts script node)
  if !values.any CodePoint.hasIdeograph then return none
  let woven := Call.weave (fun index => CodePoint.ofText (Call.placeholder index)) 0 values
  let key ← Pass.register scope (byteSpan script node) .scriptTemplate (.ok woven)
  let substitutions := node.children.filter fun child => child.kind == .substitution
  return some (callEdit scope node key (substitutions.map (argumentText script)))

/-- The edit for a literal, unless it stays because of where it stands. -/
def extractLiteral (script : Text) (scope : Scope) (node : Node) (around : Ancestors) :
    Pass (Option (Edit Char)) :=
  if stays script scope node around then pure none
  else if node.kind == .quoted then extractQuoted script scope node
  else extractTemplate script scope node

/-- The edits for literals in order. -/
def extractAll (script : Text) (scope : Scope) :
    List (Node × Ancestors) → Pass (List (Edit Char))
  | [] => pure []
  | (node, around) :: later => do
    let edit ← extractLiteral script scope node around
    let edits ← extractAll script scope later
    return edit.toList ++ edits

/-- The edits that localise a script whose tree is known. -/
def edits (scope : Scope) (script : Text) (tree : Node) : Pass (List (Edit Char)) :=
  extractAll script scope (literals script [] tree)

/-- An edit of a script as an edit of its bytes. -/
def byteEdit (script : Text) (edit : Edit Char) : Edit UInt8 where
  start := Utf8.size (script.take edit.start.toNat)
  stop := Utf8.size (script.take edit.stop.toNat)
  content := Utf8.encode edit.content

/-- A script after edits. They are made in its bytes, so edits that reach into each other
may leave bytes that are no text. -/
def rewritten (script : Text) (edits : List (Edit Char)) : Except Failure Text :=
  if edits.isEmpty then .ok script
  else
    match Utf8.decode (Edit.applyAll (Utf8.encode script) (edits.map (byteEdit script))) with
    | .ok text => .ok text
    | .error fault => .error (.unreadable fault)

/-- A script after its texts were extracted. -/
def extract (scope : Scope) (script : Text) (tree : Node) : Pass Text := do
  ExceptT.mk (pure (rewritten script (← edits scope script tree)))

end Phrasebook.Script
