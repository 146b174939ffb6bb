import Phrasebook.Component.Outline
import Phrasebook.Mapping

/-!
# Components

A component is one file with a template and scripts. Extraction works on the first
template and on one script, which is the one that runs at set-up if there is such
a script.
-/

namespace Phrasebook

/-- A block of a component with its place in the file. -/
structure Region where
  content : Text
  start : Nat
  stop : Nat
  attributes : List Component.Attribute
  deriving Repr, DecidableEq

namespace Region

/-- Attributes by their names in lower case: a repeated name keeps its first place
and takes the last value. -/
def mergeAttributes (attributes : List Component.Attribute) : List Component.Attribute :=
  Mapping.ofPairs (attributes.map fun (name, value) => (Text.lower name, value))

/-- The region of a block in the bytes of a file. Its place counts the characters before
it. -/
def ofBlock (data : Bytes) (block : Component.Block) : Region where
  content := Utf8.text ((data.take block.stop).drop block.start)
  start := Utf8.characterOffset data block.start
  stop := Utf8.characterOffset data block.stop
  attributes := mergeAttributes block.attributes

/-- The language that a region names. -/
def lang (region : Region) : Option Text :=
  (region.attributes.lookup "lang".toList).join

/-- Whether a script runs at set-up. -/
def isSetup (region : Region) : Bool :=
  (region.attributes.lookup "setup".toList).isSome

/-- How reports name a script. -/
def label (region : Region) : Text :=
  if region.isSetup then "<script setup>".toList else "<script>".toList

/-- Whether a template is written in HTML. -/
def isHtml (region : Region) : Bool :=
  match region.lang with
  | none | some [] => true
  | some lang => lang == "html".toList

end Region

/-- A component by its regions. -/
structure Component where
  template : Option Region
  script : Option Region
  /-- The scripts that are left alone. -/
  skipped : List Region
  /-- Whether something in the markup is out of place. -/
  soundness : Component.Soundness
  deriving Repr, DecidableEq

namespace Component

/-- Scripts cut into those before the chosen one, the chosen one and those after
it: the first that runs at set-up, or else the first. -/
def choose (scripts : List Region) : Option Region × List Region :=
  match scripts.findIdx? Region.isSetup with
  | some index => (scripts[index]?, scripts.eraseIdx index)
  | none => (scripts.head?, scripts.tail)

/-- The regions of the blocks of one kind, in the order of the file. -/
def regionsOf (data : Bytes) (isTemplate : Bool) (blocks : List Block) : List Region :=
  (blocks.filter (·.isTemplate == isTemplate)).map (Region.ofBlock data)

/-- The component with an outline. -/
def ofOutline (content : Text) (outline : Outline) : Component :=
  let data := Utf8.encode content
  let (script, skipped) := choose (regionsOf data false outline.blocks)
  { template := (regionsOf data true outline.blocks).head?
    script, skipped, soundness := outline.soundness }

/-- The component that a text writes. -/
def ofText (content : Text) : Component :=
  ofOutline content (.ofText content)

end Component

end Phrasebook
