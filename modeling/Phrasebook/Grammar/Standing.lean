import Phrasebook.Grammar.Stack

/-!
# Comparing readings

Readings of a faulty text are compared by what their faults cost. A reading that has
found much since its last fault beats one that costs more sooner.
-/

namespace Phrasebook.Grammar

/-- What counts in the comparison of two readings. -/
structure Standing where
  cost : Nat
  /-- The number of trees since the last fault. -/
  count : Nat
  weight : Int
  /-- Whether the reading is at a fault. -/
  faulty : Bool
  deriving Repr, DecidableEq

/-- Which of two readings counts. -/
inductive Preference where
  /-- The first one; the second one is dropped. -/
  | onlyFirst
  | first
  | neither
  | second
  /-- The second one; the first one is dropped. -/
  | onlySecond
  deriving Repr, DecidableEq

namespace Standing

/-- The difference of costs from which a reading is dropped, by trees found. -/
def greatestDifference : Nat := 18 * treeCost

/-- Whether a reading costs so much more than another one that it is dropped. -/
def isHopeless (other one : Standing) : Bool :=
  greatestDifference < (other.cost - one.cost) * (1 + one.count)

/-- Which of two readings counts: one that is at no fault, the cheaper one, the
heavier one. -/
def prefer (one other : Standing) : Preference :=
  if !one.faulty && other.faulty then
    if one.cost < other.cost then .onlyFirst else .first
  else if one.faulty && !other.faulty then
    if other.cost < one.cost then .onlySecond else .second
  else if one.cost < other.cost then
    if other.isHopeless one then .onlyFirst else .first
  else if other.cost < one.cost then
    if one.isHopeless other then .onlySecond else .second
  else if other.weight < one.weight then .first
  else if one.weight < other.weight then .second
  else .neither

end Standing

namespace Stack

variable {σ ν φ τ : Type} [DecidableEq σ]

/-- A reading that has lost trees again counts from what it still has. -/
def settle (stack : Stack σ ν φ τ) (version : Nat) : Stack σ ν φ τ :=
  match stack.entry? version with
  | none => stack
  | some entry =>
    stack.changeHead version fun head =>
      { head with countAtFault := min head.countAtFault entry.count }

/-- The number of trees since the last fault. -/
def sinceFault (stack : Stack σ ν φ τ) (version : Nat) : Nat :=
  match stack.top? version with
  | none => 0
  | some (head, entry) => entry.count - head.countAtFault

/-- The cost of a reading; one at the beginning of a fault has to recover. -/
def cost (fault : Option σ) (stack : Stack σ ν φ τ) (version : Nat) : Nat :=
  match stack.top? version with
  | none => 0
  | some (head, entry) =>
    let begins := some entry.state == fault &&
      match entry.links with
      | link :: _ => link.tree.isNone
      | [] => false
    entry.cost + if head.status == .paused || begins then recoveryCost else 0

/-- How a reading compares. -/
def standing (fault : Option σ) (stack : Stack σ ν φ τ) (version : Nat) : Standing :=
  match stack.top? version with
  | none => ⟨0, 0, 0, false⟩
  | some (head, entry) =>
    let paused := head.status == .paused
    { cost := stack.cost fault version + if paused then treeCost else 0
      count := stack.sinceFault version
      weight := entry.weight
      faulty := paused || some entry.state == fault }

end Stack

end Phrasebook.Grammar
