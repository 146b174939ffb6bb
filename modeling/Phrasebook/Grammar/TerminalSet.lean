import Phrasebook.Text.Basic

/-!
# Sets of terminals

The terminals of a language have numbers, so that a set of them is a number too: the
sum of the powers of two of its members.
-/

namespace Phrasebook.Grammar

/-- A set of terminals. -/
structure TerminalSet where
  bits : Nat
  deriving Repr, DecidableEq, Hashable

namespace TerminalSet

/-- The set of no terminal. -/
def empty : TerminalSet :=
  ⟨0⟩

/-- The set of one terminal. -/
def single (terminal : Nat) : TerminalSet :=
  ⟨1 <<< terminal⟩

/-- Whether a terminal is in a set. -/
def has (set : TerminalSet) (terminal : Nat) : Bool :=
  set.bits.testBit terminal

/-- The terminals of either set. -/
def union (one other : TerminalSet) : TerminalSet :=
  ⟨one.bits ||| other.bits⟩

/-- The set of some terminals. -/
def ofList (terminals : List Nat) : TerminalSet :=
  terminals.foldl (fun set terminal => set.union (single terminal)) empty

/-- The terminals of a set that are below a bound, in order. -/
def below (set : TerminalSet) (bound : Nat) : List Nat :=
  (List.range bound).filter set.has

end TerminalSet

end Phrasebook.Grammar
