import Mathlib.Data.List.Chain
import Mathlib.Data.List.Pairwise
import Mathlib.Data.List.Permutation
import Phrasebook.Proofs.Edit

/-!
# Edits that do not overlap

Edits may come in any order, and some of them may be insertions, which take nothing away.
As long as none reaches into another, applying them from the last to the first gives what
one walk from left to right gives. The order in which they come matters only among
insertions at the same place.
-/

namespace Phrasebook.Edit

open List

variable {α : Type} {length : Nat} {left right : Edit α} {row : List (Edit α)}

/-- Whether the range of an edit lies in a sequence of the given length. -/
def Within (length : Nat) (edit : Edit α) : Prop :=
  0 ≤ edit.start ∧ edit.start ≤ edit.stop ∧ edit.stop ≤ length

/-- Whether `left` stands no later than `right`: edits stand by start, and then by stop. -/
def standsFirst (left right : Edit α) : Bool :=
  left.start < right.start || (left.start == right.start && left.stop ≤ right.stop)

/-- Edits in the order in which they stand. -/
def inOrder (edits : List (Edit α)) : List (Edit α) :=
  edits.mergeSort standsFirst

/-- Whether edits do not overlap: in order, each of them stops before the next one starts. -/
def Separate (edits : List (Edit α)) : Prop :=
  (inOrder edits).IsChain fun left right => left.stop ≤ right.start

/-- Whether no place has two insertions. -/
def InsertsOnce (edits : List (Edit α)) : Prop :=
  edits.Pairwise fun left right =>
    ¬ (left.start = left.stop ∧ right.start = right.stop ∧ left.start = right.start)

instance (length : Nat) (edit : Edit α) : Decidable (edit.Within length) :=
  inferInstanceAs (Decidable (_ ∧ _))

instance (edits : List (Edit α)) : Decidable (InsertsOnce edits) :=
  inferInstanceAs (Decidable (List.Pairwise _ _))

/-- The place of an edit, with what is put there. -/
def found (edit : Edit α) : Found (List α) :=
  ⟨edit.start.toNat, edit.stop.toNat, edit.content⟩

private theorem ofFound_found {edit : Edit α} (within : edit.Within length) :
    ofFound edit.found = edit := by
  obtain ⟨start, stop, content⟩ := edit
  obtain ⟨above, proper, -⟩ := within
  simp only [ofFound, found, mk.injEq, and_true]
  simp only at above proper
  omega

/-! ## The order of ranges -/

private theorem standsFirst_eq (left right : Edit α) :
    standsFirst left right = appliedFirst right left := by
  rw [Bool.eq_iff_iff, appliedFirst_iff]
  simp [standsFirst]

private theorem pairwise_inOrder (edits : List (Edit α)) :
    (inOrder edits).Pairwise fun left right => appliedFirst right left = true := by
  have transitive : ∀ left middle right : Edit α, standsFirst left middle = true →
      standsFirst middle right = true → standsFirst left right = true := by
    intro left middle right first second
    rw [standsFirst_eq] at *
    exact appliedFirst_trans _ _ _ second first
  have total : ∀ left right : Edit α,
      (standsFirst left right || standsFirst right left) = true := by
    intro left right
    rw [standsFirst_eq, standsFirst_eq]
    exact appliedFirst_total _ _
  exact (pairwise_mergeSort transitive total edits).imp fun first => standsFirst_eq _ _ ▸ first

private theorem inOrder_perm (edits : List (Edit α)) : (inOrder edits).Perm edits :=
  mergeSort_perm edits standsFirst

/-- Edits from left to right, as they are applied from the last to the first. Insertions at
one place stand in the reverse of the order in which they come. -/
def leftToRight (edits : List (Edit α)) : List (Edit α) :=
  (edits.mergeSort appliedFirst).reverse

theorem leftToRight_perm (edits : List (Edit α)) : (leftToRight edits).Perm edits :=
  (reverse_perm _).trans (mergeSort_perm edits appliedFirst)

theorem pairwise_leftToRight (edits : List (Edit α)) :
    (leftToRight edits).Pairwise fun left right => appliedFirst right left = true :=
  pairwise_reverse.2 (pairwise_mergeSort appliedFirst_trans appliedFirst_total edits)

/-! ## Edits apart from each other -/

/-- Whether neither of two edits reaches into the other. -/
def Clear (left right : Edit α) : Prop :=
  left.stop ≤ right.start ∨ right.stop ≤ left.start

instance (left right : Edit α) : Decidable (Clear left right) :=
  inferInstanceAs (Decidable (_ ∨ _))

private theorem Clear.symm (clear : Clear left right) : Clear right left :=
  Or.symm clear

/-- Of two edits that are clear of each other, the one that stands first ends first. -/
theorem Clear.le_of_appliedFirst (clear : Clear left right) (leftWithin : left.Within length)
    (rightWithin : right.Within length) (first : appliedFirst right left = true) :
    left.stop ≤ right.start := by
  rw [appliedFirst_iff] at first
  obtain ⟨-, leftProper, -⟩ := leftWithin
  obtain ⟨-, rightProper, -⟩ := rightWithin
  rcases clear with before | behind <;> omega

section Rows

variable {edits : List (Edit α)}

/-- Each edit of a chain stops before all later ones start, and not only before the next. -/
theorem pairwise_of_isChain (within : ∀ edit ∈ edits, edit.Within length)
    (chain : edits.IsChain fun left right => left.stop ≤ right.start) :
    edits.Pairwise fun left right => left.stop ≤ right.start := by
  induction edits with
  | nil => exact .nil
  | cons edit edits ih =>
    obtain ⟨-, within⟩ := forall_mem_cons.1 within
    have later := ih within chain.tail
    refine .cons (fun other member => ?_) later
    cases edits with
    | nil => cases member
    | cons next edits =>
      have beforeNext := (isChain_cons_cons.1 chain).1
      obtain ⟨-, proper, -⟩ := within next mem_cons_self
      rcases mem_cons.1 member with rfl | member
      · exact beforeNext
      · have behindNext := (pairwise_cons.1 later).1 other member
        omega

/-- Sorted edits that are clear of each other stop before later ones start. -/
theorem pairwise_of_clear (within : ∀ edit ∈ edits, edit.Within length)
    (clear : edits.Pairwise Clear) (same : row.Perm edits)
    (sorted : row.Pairwise fun left right => appliedFirst right left = true) :
    row.Pairwise fun left right => left.stop ≤ right.start := by
  have stillClear := (same.pairwise_iff Clear.symm).2 clear
  refine (stillClear.and sorted).imp_of_mem ?_
  intro left right leftMember rightMember both
  exact both.1.le_of_appliedFirst (within left (same.mem_iff.1 leftMember))
    (within right (same.mem_iff.1 rightMember)) both.2

/-- Edits do not overlap exactly when they are clear of each other. -/
theorem separate_iff (within : ∀ edit ∈ edits, edit.Within length) :
    Separate edits ↔ edits.Pairwise Clear := by
  have same := inOrder_perm edits
  constructor
  · intro separate
    have before := pairwise_of_isChain
      (fun edit member => within edit (same.mem_iff.1 member)) separate
    exact (same.pairwise_iff Clear.symm).1 (before.imp .inl)
  · intro clear
    exact (pairwise_of_clear within clear same (pairwise_inOrder edits)).isChain

/-- Edits that stand in order and are clear of each other stand in a row. -/
theorem inRow_found {offset : Nat} (offsetInside : offset ≤ length)
    (within : ∀ edit ∈ edits, edit.Within length)
    (above : ∀ edit ∈ edits, (offset : Int) ≤ edit.start)
    (before : edits.Pairwise fun left right => left.stop ≤ right.start) :
    Found.InRow offset length (edits.map found) := by
  induction edits generalizing offset with
  | nil => exact offsetInside
  | cons edit edits ih =>
    obtain ⟨here, within⟩ := forall_mem_cons.1 within
    obtain ⟨start, -⟩ := forall_mem_cons.1 above
    obtain ⟨first, before⟩ := pairwise_cons.1 before
    obtain ⟨positive, proper, inside⟩ := here
    refine ⟨?_, ?_, ih ?_ within (fun other member => ?_) before⟩
    · simp only [found]
      omega
    · simp only [found]
      omega
    · simp only [found]
      omega
    · have behind := first other member
      simp only [found]
      omega

end Rows

/-! ## From left to right -/

section Walk

variable {buffer : List α} {edits : List (Edit α)}

/-- Edits that are clear of each other are made from left to right. -/
theorem applyAll_eq_copy_leftToRight (within : ∀ edit ∈ edits, edit.Within buffer.length)
    (clear : edits.Pairwise Clear) :
    applyAll buffer edits = copy 0 buffer ((leftToRight edits).map found) := by
  have same := leftToRight_perm edits
  have rowWithin : ∀ edit ∈ leftToRight edits, edit.Within buffer.length :=
    fun edit member => within edit (same.mem_iff.1 member)
  have inRow : Found.InRow 0 buffer.length ((leftToRight edits).map found) :=
    inRow_found (Nat.zero_le _) rowWithin (fun edit member => (rowWithin edit member).1)
      (pairwise_of_clear within clear same (pairwise_leftToRight edits))
  have restored : ((leftToRight edits).map found).map ofFound = leftToRight edits := by
    rw [map_map]
    exact (map_congr_left fun edit member => ofFound_found (rowWithin edit member)).trans
      (map_id' _)
  have walked := @foldr_splice_eq_copy _ 0 [] buffer _ rfl (by simpa using inRow)
  rwa [restored, leftToRight, foldr_reverse] at walked

/-- Whether `left` stands before `right`. -/
def StandsBefore (left right : Edit α) : Prop :=
  left.start < right.start ∨ left.start = right.start ∧ left.stop < right.stop

/-- Where no place has two insertions, no two edits have the same range. -/
theorem pairwise_standsBefore (within : ∀ edit ∈ edits, edit.Within buffer.length)
    (clear : edits.Pairwise Clear) (once : InsertsOnce edits) (same : row.Perm edits)
    (sorted : row.Pairwise fun left right => appliedFirst right left = true) :
    row.Pairwise StandsBefore := by
  have distinct : edits.Pairwise fun left right =>
      ¬ (left.start = right.start ∧ left.stop = right.stop) := by
    refine (clear.and once).imp_of_mem ?_
    rintro left right leftMember rightMember ⟨apart, different⟩ ⟨start, stop⟩
    obtain ⟨-, proper, -⟩ := within left leftMember
    refine different ⟨?_, ?_, start⟩ <;> rcases apart with before | behind <;> omega
  have stillDistinct := (same.pairwise_iff fun {left right} differ alike =>
    differ ⟨alike.1.symm, alike.2.symm⟩).2 distinct
  refine (stillDistinct.and sorted).imp fun {left right} both => ?_
  obtain ⟨differ, first⟩ := both
  rw [appliedFirst_iff] at first
  rw [StandsBefore]
  omega

/-- Where no place has two insertions, the edits alone determine in which order they stand. -/
theorem eq_inOrder (within : ∀ edit ∈ edits, edit.Within buffer.length)
    (clear : edits.Pairwise Clear) (once : InsertsOnce edits) (same : row.Perm edits)
    (sorted : row.Pairwise fun left right => appliedFirst right left = true) :
    row = inOrder edits := by
  refine List.Perm.eq_of_pairwise (fun left right _ _ one other => ?_)
    (pairwise_standsBefore within clear once same sorted)
    (pairwise_standsBefore within clear once (inOrder_perm edits) (pairwise_inOrder edits))
    (same.trans (inOrder_perm edits).symm)
  rw [StandsBefore] at one other
  omega

/-- Edits that do not overlap, with at most one insertion at each place, are made from left
to right: what lies between them is copied and each content stands in its place. The order in
which they come makes no difference. -/
theorem applyAll_left_to_right (within : ∀ edit ∈ edits, edit.Within buffer.length)
    (separate : Separate edits) (once : InsertsOnce edits) :
    applyAll buffer edits = copy 0 buffer ((inOrder edits).map found) ∧
      ∀ other : List (Edit α), other.Perm edits → applyAll buffer other = applyAll buffer edits := by
  have clear := (separate_iff within).1 separate
  -- Whatever the order they come in, the edits are applied in the one order of their ranges.
  have walked : ∀ other : List (Edit α), other.Perm edits →
      applyAll buffer other = copy 0 buffer ((inOrder edits).map found) := by
    intro other same
    have otherWithin : ∀ edit ∈ other, edit.Within buffer.length :=
      fun edit member => within edit (same.mem_iff.1 member)
    have row : leftToRight other = inOrder edits :=
      eq_inOrder within clear once ((leftToRight_perm other).trans same)
        (pairwise_leftToRight other)
    rw [applyAll_eq_copy_leftToRight otherWithin ((same.pairwise_iff Clear.symm).2 clear), row]
  have here := walked edits (.refl _)
  exact ⟨here, fun other same => (walked other same).trans here.symm⟩

end Walk

/-- Edits that touch: insertions at both borders of a replacement, the second of them also at
the border of a deletion, and an insertion at the end. -/
def touchingEdits : List (Edit Char) :=
  [⟨4, 5, []⟩, ⟨2, 4, ['X']⟩, ⟨6, 6, ['!']⟩, ⟨2, 2, ['(']⟩, ⟨4, 4, [')']⟩]

/-- Edits that touch are made in any order with the same result. -/
theorem applyAll_left_to_right_touchingEdits :
    (∀ edit ∈ touchingEdits, edit.Within "abcdef".toList.length) ∧ Separate touchingEdits ∧
      InsertsOnce touchingEdits ∧ ∀ other : List (Edit Char), other.Perm touchingEdits →
        applyAll "abcdef".toList other = "ab(X)f!".toList := by
  have within : ∀ edit ∈ touchingEdits, edit.Within "abcdef".toList.length := by decide
  have separate : Separate touchingEdits := (separate_iff within).2 (by decide)
  have once : InsertsOnce touchingEdits := by decide
  have walked := applyAll_left_to_right within separate once
  refine ⟨within, separate, once, fun other same => ?_⟩
  rw [walked.2 other same, walked.1]
  cbv

end Phrasebook.Edit
