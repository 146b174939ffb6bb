/-!
# Mappings

A mapping is a list of pairs with one pair for each key, in the order in which the
keys came first.
-/

namespace Phrasebook.Mapping

variable {κ α : Type} [BEq κ]

/-- Puts a value under a key: a key that is there keeps its place. -/
def put (key : κ) (value : α) : List (κ × α) → List (κ × α)
  | [] => [(key, value)]
  | (other, old) :: pairs =>
    if other == key then (other, value) :: pairs else (other, old) :: put key value pairs

/-- The mapping of a list of pairs: the last value under a key counts. -/
def ofPairs (pairs : List (κ × α)) : List (κ × α) :=
  pairs.foldl (fun mapping (key, value) => put key value mapping) []

end Phrasebook.Mapping
