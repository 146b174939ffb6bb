import Phrasebook.Component
import Phrasebook.Proofs.Grammar.View
import Phrasebook.Proofs.Text.Utf8

/-!
# The regions of a component

Blocks have places in the bytes of a file, and regions in its characters. Where blocks
stand in order and their ends between characters, regions are pieces of the file that do
not reach into each other. The blocks that are read from a file are such blocks.
-/

namespace Phrasebook

open List

namespace Component

open Grammar (View)

/-! ## Blocks -/

/-- The block of an element stands inside of the element. -/
theorem Block.ofElement_inside (content : Text) (isTemplate : Bool) {element : View Construct Field}
    (nested : element.Nested) :
    byteOffset content element.start ≤ (ofElement content isTemplate element).start ∧
      (ofElement content isTemplate element).stop ≤ byteOffset content element.stop := by
  have parts := View.nested_iff.mp nested
  constructor
  · refine Utf8.size_take_le content ?_
    cases found : element.parts.find? (is .startTag) with
    | none => exact Nat.le_refl _
    | some tag =>
      obtain ⟨inner, least, -⟩ := parts.of_mem (mem_of_find?_eq_some found)
      exact Nat.le_trans least inner.le
  · refine Utf8.size_take_le content ?_
    cases found : (element.parts.filter (is .endTag)).getLast? with
    | none => exact Nat.le_refl _
    | some tag =>
      have member := (mem_filter.mp (mem_of_getLast? found)).1
      obtain ⟨inner, -, most⟩ := parts.of_mem member
      exact Nat.le_trans inner.le most

private theorem eq_ofElement_of_block? {content : Text} {part : View Construct Field}
    {block : Block} (found : block? content part = some block) :
    ∃ isTemplate, block = .ofElement content isTemplate part := by
  rw [block?] at found
  split at found
  · exact ⟨true, (Option.some.inj found).symm⟩
  · split at found
    · exact ⟨false, (Option.some.inj found).symm⟩
    · cases found

private theorem block?_inside {content : Text} {part : View Construct Field} (nested : part.Nested)
    {block : Block} (found : block? content part = some block) :
    byteOffset content part.start ≤ block.start ∧ block.stop ≤ byteOffset content part.stop := by
  obtain ⟨isTemplate, rfl⟩ := eq_ofElement_of_block? found
  exact Block.ofElement_inside content isTemplate nested

/-- Whether blocks stand in the order of the file: each ends before the next one
starts. -/
def InOrder (blocks : List Block) : Prop :=
  blocks.Pairwise fun left right => left.stop ≤ right.start

/-- Whether the blocks of an outline stand in the order of a file, with their ends between
its characters. -/
structure Outline.Fits (content : Text) (outline : Outline) : Prop where
  ordered : InOrder outline.blocks
  start : ∀ block ∈ outline.blocks, Utf8.IsBoundary content block.start
  stop : ∀ block ∈ outline.blocks, Utf8.IsBoundary content block.stop

/-- The blocks that a tree shows stand in order and between characters, whatever the tree
is. -/
theorem Outline.fits_ofTree? {τ : Type} (content : Text) (plan : Grammar.Blueprint Construct Field)
    (tree? : Option (Grammar.Tree Construct Field τ)) :
    (ofTree? content plan tree?).Fits content := by
  cases tree? with
  | none => exact ⟨.nil, by simp [ofTree?], by simp [ofTree?]⟩
  | some tree =>
    have nested := View.nested_iff.mp (tree.nested_view plan)
    have isElement {block : Block} (member : block ∈ (ofTree? content plan (some tree)).blocks) :
        ∃ isTemplate element, block = .ofElement content isTemplate element := by
      obtain ⟨element, -, found⟩ := mem_filterMap.mp member
      obtain ⟨isTemplate, same⟩ := eq_ofElement_of_block? found
      exact ⟨isTemplate, element, same⟩
    constructor
    · rw [ofTree?, InOrder, pairwise_filterMap]
      refine nested.pairwise.imp_of_mem fun leftMember rightMember before left isLeft
        right isRight => ?_
      have first := block?_inside (nested.of_mem leftMember).1 isLeft
      have second := block?_inside (nested.of_mem rightMember).1 isRight
      exact Nat.le_trans first.2 (Nat.le_trans (Utf8.size_take_le content before) second.1)
    · intro block member
      obtain ⟨isTemplate, element, rfl⟩ := isElement member
      exact Utf8.isBoundary_size_take _ _
    · intro block member
      obtain ⟨isTemplate, element, rfl⟩ := isElement member
      exact Utf8.isBoundary_size_take _ _

/-- The outline of a content fits it. -/
theorem Outline.fits_ofText (content : Text) : (ofText content).Fits content := by
  rw [ofText]
  exact fits_ofTree? content _ _

/-- Of two different blocks in order, one ends before the other one starts. -/
theorem InOrder.of_ne {blocks : List Block} (ordered : InOrder blocks) {left right : Block}
    (leftMember : left ∈ blocks) (rightMember : right ∈ blocks) (differ : left ≠ right) :
    left.stop ≤ right.start ∨ right.stop ≤ left.start := by
  induction blocks with
  | nil => cases leftMember
  | cons block blocks ih =>
    obtain ⟨first, later⟩ := pairwise_cons.mp ordered
    rcases mem_cons.mp leftMember with rfl | leftLater
    · rcases mem_cons.mp rightMember with rfl | rightLater
      · exact absurd rfl differ
      · exact .inl (first right rightLater)
    · rcases mem_cons.mp rightMember with rfl | rightLater
      · exact .inr (first left leftLater)
      · exact ih later leftLater rightLater

end Component

/-! ## Regions -/

namespace Region

variable {content : Text} {region : Region}

/-- Whether neither of two regions reaches into the other. -/
def Apart (left right : Region) : Prop :=
  left.stop ≤ right.start ∨ right.stop ≤ left.start

private theorem Apart.symm {left right : Region} (apart : left.Apart right) : right.Apart left :=
  Or.symm apart

/-- Whether a region is what stands between two places of a file. -/
structure IsCutFrom (content : Text) (region : Region) : Prop where
  start_le : region.start ≤ content.length
  stop_le : region.stop ≤ content.length
  slice_eq : content.slice region.start region.stop = region.content

/-- A region that is not empty ends behind its start. -/
theorem IsCutFrom.lt_of_ne_nil (cut : region.IsCutFrom content) (full : region.content ≠ []) :
    region.start < region.stop := by
  refine Nat.lt_of_not_le fun behind => full ?_
  rw [← cut.slice_eq, Text.slice, drop_eq_nil_iff, length_take]
  omega

/-- A region that does not end behind its start is empty. -/
theorem IsCutFrom.eq_nil_of_le (cut : region.IsCutFrom content)
    (behind : region.stop ≤ region.start) : region.content = [] :=
  Classical.not_not.1 fun full => Nat.not_lt.2 behind (cut.lt_of_ne_nil full)

/-- A block between characters of a file has a region that is cut from the file. -/
theorem isCutFrom_ofBlock {block : Component.Block} (hasStart : Utf8.IsBoundary content block.start)
    (hasStop : Utf8.IsBoundary content block.stop) :
    (ofBlock (Utf8.encode content) block).IsCutFrom content := by
  obtain ⟨start, startInside, startSize⟩ := hasStart
  obtain ⟨stop, stopInside, stopSize⟩ := hasStop
  rw [ofBlock, ← startSize, ← stopSize, Utf8.characterOffset_size_take startInside,
    Utf8.characterOffset_size_take stopInside, Utf8.drop_take_encode, Utf8.text_encode]
  exact ⟨startInside, stopInside, rfl⟩

/-- Blocks in order have regions in order. -/
theorem stop_ofBlock_le {left right : Component.Block} (hasStop : Utf8.IsBoundary content left.stop)
    (hasStart : Utf8.IsBoundary content right.start) (before : left.stop ≤ right.start) :
    (ofBlock (Utf8.encode content) left).stop ≤ (ofBlock (Utf8.encode content) right).start := by
  obtain ⟨stop, stopInside, stopSize⟩ := hasStop
  obtain ⟨start, startInside, startSize⟩ := hasStart
  rw [← stopSize, ← startSize, Utf8.size_take_le_iff content stopInside] at before
  rw [ofBlock, ofBlock, ← stopSize, ← startSize, Utf8.characterOffset_size_take stopInside,
    Utf8.characterOffset_size_take startInside]
  exact before

end Region

namespace Component

/-- All regions of a component: its template, its script and the scripts that are left
alone. -/
def regions (component : Component) : List Region :=
  component.template.toList ++ (component.script.toList ++ component.skipped)

/-- The chosen script and those left alone are all scripts. -/
theorem choose_perm (scripts : List Region) :
    ((choose scripts).1.toList ++ (choose scripts).2).Perm scripts := by
  rw [choose]
  split
  · rename_i index found
    obtain ⟨inside, -⟩ := findIdx?_eq_some_iff_getElem.mp found
    have split : scripts = scripts.take index ++ scripts[index] :: scripts.drop (index + 1) := by
      rw [getElem_cons_drop, take_append_drop]
    dsimp only
    rw [getElem?_eq_getElem inside, eraseIdx_eq_take_drop_succ, Option.toList_some,
      singleton_append]
    conv => rhs; rw [split]
    exact perm_middle.symm
  · cases scripts with
    | nil => exact .refl _
    | cons script scripts => exact .refl _

section Outline

variable {content : Text} {outline : Outline}

private theorem Outline.Fits.isCutFrom_of_mem_regionsOf (fits : outline.Fits content)
    {isTemplate : Bool} {region : Region}
    (member : region ∈ regionsOf (Utf8.encode content) isTemplate outline.blocks) :
    region.IsCutFrom content := by
  obtain ⟨block, kept, rfl⟩ := mem_map.mp member
  have member := (mem_filter.mp kept).1
  exact Region.isCutFrom_ofBlock (fits.start block member) (fits.stop block member)

/-- The regions of a component are those of its blocks, but for all templates after the
first one. -/
theorem regions_perm (content : Text) (outline : Outline) :
    ((ofOutline content outline).regions ++
        (regionsOf (Utf8.encode content) true outline.blocks).tail).Perm
      (regionsOf (Utf8.encode content) true outline.blocks ++
        regionsOf (Utf8.encode content) false outline.blocks) := by
  have scripts := choose_perm (regionsOf (Utf8.encode content) false outline.blocks)
  have templates : regionsOf (Utf8.encode content) true outline.blocks =
      (ofOutline content outline).template.toList ++
        (regionsOf (Utf8.encode content) true outline.blocks).tail := by
    rw [ofOutline]
    cases regionsOf (Utf8.encode content) true outline.blocks <;> rfl
  conv => rhs; rw [templates, append_assoc]
  rw [regions, append_assoc (ofOutline content outline).template.toList]
  exact (perm_append_comm.trans (scripts.append_left _)).append_left _

/-- Regions of blocks in order never reach into each other. -/
theorem Outline.Fits.pairwise (fits : outline.Fits content) :
    (regionsOf (Utf8.encode content) true outline.blocks ++
      regionsOf (Utf8.encode content) false outline.blocks).Pairwise Region.Apart := by
  have within : ∀ isTemplate,
      (regionsOf (Utf8.encode content) isTemplate outline.blocks).Pairwise Region.Apart := by
    intro isTemplate
    rw [regionsOf, pairwise_map]
    refine (fits.ordered.filter _).imp_of_mem fun left right before => .inl ?_
    exact Region.stop_ofBlock_le (fits.stop _ (mem_filter.mp left).1)
      (fits.start _ (mem_filter.mp right).1) before
  refine pairwise_append.mpr ⟨within true, within false, ?_⟩
  intro template isTemplate script isScript
  obtain ⟨left, leftMember, rfl⟩ := mem_map.mp isTemplate
  obtain ⟨right, rightMember, rfl⟩ := mem_map.mp isScript
  obtain ⟨leftMember, leftKind⟩ := mem_filter.mp leftMember
  obtain ⟨rightMember, rightKind⟩ := mem_filter.mp rightMember
  have differ : left ≠ right := by
    rintro rfl
    rw [eq_of_beq leftKind] at rightKind
    cases rightKind
  exact (fits.ordered.of_ne leftMember rightMember differ).imp
    (Region.stop_ofBlock_le (fits.stop _ leftMember) (fits.start _ rightMember))
    (Region.stop_ofBlock_le (fits.stop _ rightMember) (fits.start _ leftMember))

end Outline

/-- Whether the regions of a component are pieces of a file that do not reach into each
other. -/
structure IsCutFrom (content : Text) (component : Component) : Prop where
  each : ∀ region ∈ component.regions, region.IsCutFrom content
  apart : component.regions.Pairwise Region.Apart

/-- Blocks that fit a file make a component of pieces of the file that do not reach into
each other. -/
theorem Outline.Fits.isCutFrom {content : Text} {outline : Outline} (fits : outline.Fits content) :
    (ofOutline content outline).IsCutFrom content := by
  have same := regions_perm content outline
  constructor
  · intro region member
    have among := same.mem_iff.mp (mem_append_left _ member)
    rcases mem_append.mp among with isTemplate | isScript
    · exact fits.isCutFrom_of_mem_regionsOf isTemplate
    · exact fits.isCutFrom_of_mem_regionsOf isScript
  · have all := (same.pairwise_iff Region.Apart.symm).mpr fits.pairwise
    exact (pairwise_append.mp all).1

end Component

end Phrasebook
