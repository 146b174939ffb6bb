import Phrasebook.Journal
import Phrasebook.Text.Quoted

/-!
# Catalogues

A catalogue maps keys to texts. The first text under a key stays; a different
text that comes later under the same key is dropped and remembered as a
collision. Entries keep the order in which their keys came.
-/

namespace Phrasebook

/-- A text that was dropped because its key was taken. -/
structure Collision where
  key : CodePoints
  kept : CodePoints
  dropped : CodePoints
  deriving Repr, DecidableEq

/-- The report of a collision. -/
def Collision.record (collision : Collision) : Record :=
  ⟨.warning, .catalogue,
    "Key ".toList ++ collision.key.flatMap CodePoint.shown ++ " already maps to ".toList ++
      CodePoint.quoted collision.kept ++ "; keeping it and dropping ".toList ++
      CodePoint.quoted collision.dropped⟩

/-- A mapping from keys to texts in order of arrival, with the collisions seen. A
stored catalogue may hold surrogates, so keys and texts are lists of code points. -/
structure Catalogue where
  entries : List (CodePoints × CodePoints) := []
  collisions : List Collision := []
  deriving Repr, DecidableEq

namespace Catalogue

/-- The catalogue without entries and collisions. -/
def empty : Catalogue := {}

/-- The text under a key. -/
def get? (catalogue : Catalogue) (key : CodePoints) : Option CodePoints :=
  catalogue.entries.lookup key

/-- Whether a key is taken. -/
def contains (catalogue : Catalogue) (key : CodePoints) : Bool :=
  (catalogue.get? key).isSome

/-- The number of entries. -/
def size (catalogue : Catalogue) : Nat :=
  catalogue.entries.length

/-- The keys in order of arrival. -/
def keys (catalogue : Catalogue) : List CodePoints :=
  catalogue.entries.map Prod.fst

/-- Stores a text under a key, unless the key is taken. A different text under a
taken key is a collision, which is reported. The last result says whether the key is
new. -/
def insert (catalogue : Catalogue) (key text : CodePoints) : Catalogue × Journal × Bool :=
  match catalogue.get? key with
  | none => ({ catalogue with entries := catalogue.entries ++ [(key, text)] }, [], true)
  | some kept =>
    if kept == text then (catalogue, [], false)
    else
      let collision : Collision := ⟨key, kept, text⟩
      ({ catalogue with collisions := catalogue.collisions ++ [collision] }, [collision.record],
        false)

/-- Stores texts one after another. -/
def insertAll (catalogue : Catalogue) (entries : List (CodePoints × CodePoints)) :
    Catalogue × Journal :=
  entries.foldl
    (fun (current, journal) (key, text) =>
      let (next, added, _) := current.insert key text
      (next, journal ++ added))
    (catalogue, [])

/-- The catalogue of a list of entries. -/
def ofEntries (entries : List (CodePoints × CodePoints)) : Catalogue × Journal :=
  empty.insertAll entries

/-- Takes over the entries of a staged catalogue, and the collisions that it saw. -/
def absorb (catalogue staged : Catalogue) : Catalogue × Journal :=
  { catalogue with collisions := catalogue.collisions ++ staged.collisions }.insertAll
    staged.entries

end Catalogue

end Phrasebook
