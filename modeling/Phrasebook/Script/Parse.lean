import Phrasebook.Grammar.Parser
import Phrasebook.Grammar.View
import Phrasebook.Script.Grammar
import Phrasebook.Script.Scanner
import Phrasebook.Script.Tree

/-!
# Reading scripts

The tree of a script comes from the grammar of its language. A script with a fault
has none.
-/

namespace Phrasebook.Script

open Grammar (Automaton Machine Mode Source State Title View)

/-! ### Machines -/

/-- What can be found in a state. -/
def modeOf (automaton : Automaton Construct Field) (state : State) : Mode :=
  let expected := automaton.expected state
  let tokens := expected.below automaton.plan.tokens.size
  { tokens := (tokens.map automaton.plan.lexical).eraseDups
    endFits := expected.has automaton.plan.ending
    scanned := expected }

/-- The machine of a language. Its states are made as they are reached. -/
def machineOf (lang : Language) : Machine State Construct Field Unit :=
  let automaton := Automaton.ofGrammar (grammar lang)
  { plan := automaton.plan
    initial := automaton.initial
    actions := automaton.actions
    next := fun state head => automaton.next state (.nonterminal head)
    mode := modeOf automaton
    scan := scanner lang automaton.plan }

/-- The machine of untyped scripts, which is made when it is first needed. -/
def untypedMachine : Thunk (Machine State Construct Field Unit) :=
  Thunk.mk fun _ => machineOf .javascript

/-- The machine of typed scripts, which is made when it is first needed. -/
def typedMachine : Thunk (Machine State Construct Field Unit) :=
  Thunk.mk fun _ => machineOf .typescript

/-- The machine of a language. -/
def machine : Language → Machine State Construct Field Unit
  | .javascript => untypedMachine.get
  | .typescript => typedMachine.get

/-! ### Trees -/

/-- What a construct is to extraction. -/
def kindOf : Construct → Kind
  | .string => .quoted
  | .templateString => .template
  | .templateSubstitution => .substitution
  | .comment => .comment
  | .identifier => .identifier
  | .thisWord => .this
  | .propertyName => .propertyName
  | .memberExpression => .member
  | .optionalMark => .optionalMark
  | .callExpression => .call
  | .arguments => .arguments
  | .pair => .pair
  | .importStatement => .importation
  | .importRequireClause => .importRequire
  | .exportStatement => .exportation
  | .literalType => .literalType
  | .namedAttribute => .markupAttribute
  | _ => .other

/-- What a part in a field is to extraction. -/
def roleOf : Option Field → Role
  | some .callee => .callee
  | some .object => .object
  | some .property => .property
  | some .key => .key
  | some .source => .source
  | _ => .none

mutual

/-- The named node that a view is. -/
def nodeOf? : View Construct Field → Option Node
  | .node (.construct name) field start stop _ _ parts =>
    some (.mk (kindOf name) (roleOf field) start stop (nodesOf parts))
  | _ => none

/-- The named nodes among some views. -/
def nodesOf : List (View Construct Field) → List Node
  | [] => []
  | view :: views => (nodeOf? view).toList ++ nodesOf views

end

/-- The tree of a script in a language, if the script is in the language. -/
def parse? (lang : Language) (script : Text) : Option Node :=
  let machine := machine lang
  (machine.parse (.ofText script)).bind fun tree => nodeOf? (tree.view machine.plan)

/-- The tree of a script, or the failure that names its file. -/
def parse (lang : Language) (path script : Text) : Except Failure Node :=
  match parse? lang script with
  | some tree => .ok tree
  | none => .error (.syntaxFault path lang)

end Phrasebook.Script
