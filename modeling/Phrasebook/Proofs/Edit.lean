import Phrasebook.Edit
import Phrasebook.Proofs.Text.Scan

/-!
# Edits from left to right

Edits are applied from the last to the first. Where they stand in order, the result is
the one of a single walk from left to right that copies what lies between the edits and
puts each content in its place.
-/

namespace Phrasebook.Edit

open List

variable {α : Type} {edits : List (Edit α)} {offset length : Nat} {places : List (Found (List α))}
  {buffer : List α}

@[simp] theorem applyAll_nil (buffer : List α) : applyAll buffer [] = buffer := by
  simp [applyAll]

/-- The edit that puts a content in a place. -/
def ofFound (place : Found (List α)) : Edit α :=
  ⟨place.start, place.stop, place.value⟩

/-- What a sequence from `offset` on becomes when contents are put in their places. -/
def copy (offset : Nat) (rest : List α) : List (Found (List α)) → List α
  | [] => rest
  | place :: later =>
    rest.take (place.start - offset) ++ place.value ++
      copy place.stop (rest.drop (place.stop - offset)) later

/-! ## The order of application -/

theorem appliedFirst_iff {left right : Edit α} : appliedFirst left right = true ↔
    right.start < left.start ∨ right.start = left.start ∧ right.stop ≤ left.stop := by
  simp [appliedFirst]

theorem appliedFirst_trans (left middle right : Edit α) (first : appliedFirst left middle = true)
    (second : appliedFirst middle right = true) : appliedFirst left right = true := by
  rw [appliedFirst_iff] at *
  omega

theorem appliedFirst_total (left right : Edit α) :
    (appliedFirst left right || appliedFirst right left) = true := by
  rw [Bool.or_eq_true, appliedFirst_iff, appliedFirst_iff]
  omega

private theorem eq_of_start_eq
    (increasing : edits.Pairwise fun left right => left.start < right.start) {left right : Edit α}
    (leftMember : left ∈ edits) (rightMember : right ∈ edits) (same : left.start = right.start) :
    left = right := by
  induction edits with
  | nil => cases leftMember
  | cons edit edits ih =>
    obtain ⟨below, increasing⟩ := pairwise_cons.1 increasing
    rcases mem_cons.1 leftMember with rfl | leftLater <;>
      rcases mem_cons.1 rightMember with rfl | rightLater
    · rfl
    · have start := below right rightLater
      omega
    · have start := below left leftLater
      omega
    · exact ih increasing leftLater rightLater

/-- Sorting puts the edit with the last start first, whatever the order of the edits was. -/
theorem mergeSort_of_increasing {sorted : List (Edit α)} (same : edits.Perm sorted)
    (increasing : sorted.Pairwise fun left right => left.start < right.start) :
    edits.mergeSort appliedFirst = sorted.reverse := by
  have ordered := pairwise_mergeSort appliedFirst_trans appliedFirst_total edits
  have reversed : sorted.reverse.Pairwise fun left right => appliedFirst left right = true :=
    pairwise_reverse.2 (increasing.imp fun below => appliedFirst_iff.2 (.inl below))
  have all := ((mergeSort_perm edits appliedFirst).trans same).trans
    (reverse_perm sorted).symm
  refine List.Perm.eq_of_pairwise (fun left right leftMember rightMember one other => ?_)
    ordered reversed all
  rw [appliedFirst_iff] at one other
  exact eq_of_start_eq increasing (same.mem_iff.1 (mem_mergeSort.1 leftMember))
    (mem_reverse.1 rightMember) (by omega)

private theorem increasing_of_ordered (ordered : Found.Ordered offset length places) :
    (∀ edit ∈ places.map ofFound, (offset : Int) ≤ edit.start) ∧
      (places.map ofFound).Pairwise fun left right => left.start < right.start := by
  induction places generalizing offset with
  | nil => exact ⟨by simp, .nil⟩
  | cons place later ih =>
    obtain ⟨above, positive, ordered⟩ := ordered
    obtain ⟨starts, increasing⟩ := ih ordered
    have start : (ofFound place).start = (place.start : Int) := rfl
    constructor
    · rw [map_cons, forall_mem_cons]
      refine ⟨by omega, fun edit member => ?_⟩
      have bound := starts edit member
      omega
    · rw [map_cons, pairwise_cons]
      refine ⟨fun edit member => ?_, increasing⟩
      have bound := starts edit member
      omega

/-! ## The walk from left to right -/

theorem place_ofNat (inside : offset ≤ length) : place length (offset : Int) = offset := by
  rw [place, if_neg (by omega), Int.toNat_natCast, Nat.min_eq_left inside]

/-- Edits that stand in a row are made from left to right. -/
theorem foldr_splice_eq_copy {offset : Nat} {front rest : List α} {places : List (Found (List α))}
    (size : front.length = offset) (inRow : Found.InRow offset (offset + rest.length) places) :
    (places.map ofFound).foldr (fun edit buffer => splice buffer edit) (front ++ rest) =
      front ++ copy offset rest places := by
  induction places generalizing offset front rest with
  | nil => rfl
  | cons found later ih =>
    obtain ⟨above, proper, inRow⟩ := inRow
    have inside := inRow.le
    -- The later edits see everything up to the end of this one as untouched.
    have split : front ++ rest = (front ++ rest.take (found.stop - offset)) ++
        rest.drop (found.stop - offset) := by
      rw [append_assoc, take_append_drop]
    have sizes : (front ++ rest.take (found.stop - offset)).length = found.stop := by
      rw [length_append, length_take]
      omega
    have total : offset + rest.length = found.stop + (rest.drop (found.stop - offset)).length := by
      rw [length_drop]
      omega
    rw [map_cons, foldr_cons, split, ih sizes (total ▸ inRow), copy, splice]
    generalize copy found.stop (rest.drop (found.stop - offset)) later = copied
    have bound : found.stop ≤ ((front ++ rest.take (found.stop - offset)) ++ copied).length := by
      rw [length_append, sizes]
      omega
    have starts : place ((front ++ rest.take (found.stop - offset)) ++ copied).length
        (ofFound found).start = found.start := place_ofNat (by omega)
    have stops : place ((front ++ rest.take (found.stop - offset)) ++ copied).length
        (ofFound found).stop = found.stop := place_ofNat bound
    have kept : (front ++ rest.take (found.stop - offset)).take found.start =
        front ++ rest.take (found.start - offset) := by
      rw [take_append, size, take_of_length_le (by omega), take_take,
        Nat.min_eq_left (by omega)]
    rw [starts, stops, take_append_of_le_length (by omega), kept, drop_left' sizes]
    simp [ofFound]

/-- Edits at places in order are made from left to right, in whatever order they come. -/
theorem applyAll_of_perm (same : edits.Perm (places.map ofFound))
    (ordered : Found.Ordered 0 buffer.length places) :
    applyAll buffer edits = copy 0 buffer places := by
  rw [applyAll, mergeSort_of_increasing same (increasing_of_ordered ordered).2, foldl_reverse]
  exact @foldr_splice_eq_copy _ 0 [] buffer places rfl (by simpa using ordered.inRow)

/-- Applying edits in order is copying with changes. -/
theorem applyAll_eq_copy (ordered : Found.Ordered 0 buffer.length places) :
    applyAll buffer (places.map ofFound) = copy 0 buffer places :=
  applyAll_of_perm (.refl _) ordered

/-- What lies before the first place is copied. -/
theorem copy_advance {next : Nat} {rest : List α} (below : offset ≤ next)
    (ordered : Found.Ordered next length places) :
    copy offset rest places =
      rest.take (next - offset) ++ copy next (rest.drop (next - offset)) places := by
  cases places with
  | nil => exact (take_append_drop _ _).symm
  | cons found later =>
    obtain ⟨above, positive, -⟩ := ordered
    have start : found.start - offset = (next - offset) + (found.start - next) := by omega
    have stop : found.stop - offset = (next - offset) + (found.stop - next) := by omega
    rw [copy, copy, start, stop, take_add, ← drop_drop]
    simp only [append_assoc]

/-- What a copy makes of the text before a place stands before the content of the place. -/
theorem copy_append {rest : List α} {earlier later : List (Found (List α))} {place : Found (List α)}
    (ordered : Found.Ordered offset place.start earlier) (proper : place.start ≤ place.stop) :
    copy offset rest (earlier ++ place :: later) =
      copy offset (rest.take (place.start - offset)) earlier ++ place.value ++
        copy place.stop (rest.drop (place.stop - offset)) later := by
  induction earlier generalizing offset rest with
  | nil => rfl
  | cons other earlier ih =>
    obtain ⟨above, positive, ordered⟩ := ordered
    have below := ordered.le
    have front : (rest.take (place.start - offset)).take (other.start - offset) =
        rest.take (other.start - offset) := by
      rw [take_take, Nat.min_eq_left (by omega)]
    have back : (rest.take (place.start - offset)).drop (other.stop - offset) =
        (rest.drop (other.stop - offset)).take (place.start - other.stop) := by
      rw [drop_take, show place.start - offset - (other.stop - offset) =
        place.start - other.stop by omega]
    rw [cons_append, copy, ih ordered, copy, front, back, drop_drop,
      show other.stop - offset + (place.stop - other.stop) = place.stop - offset by omega]
    simp only [append_assoc]

theorem drop_drop_sub {next : Nat} (below : offset ≤ next) :
    (buffer.drop offset).drop (next - offset) = buffer.drop next := by
  rw [drop_drop, show offset + (next - offset) = next by omega]

private theorem take_eq_slice (buffer : Text) {start stop : Nat} (above : offset ≤ start)
    (inside : start ≤ stop) : (buffer.drop offset).take (stop - offset) =
      (buffer.drop offset).take (start - offset) ++ buffer.slice start stop := by
  rw [Text.slice, drop_take, ← drop_drop_sub above, ← take_add,
    show start - offset + (stop - start) = stop - offset by omega]

/-- A buffer from some offset on, taken apart at a place. -/
theorem drop_eq_slice (buffer : Text) {start stop : Nat} (above : offset ≤ start)
    (inside : start ≤ stop) :
    buffer.drop offset =
      (buffer.drop offset).take (start - offset) ++ buffer.slice start stop ++ buffer.drop stop := by
  rw [← take_eq_slice buffer above inside, ← drop_drop_sub (Nat.le_trans above inside),
    take_append_drop]

/-- A content that spells what stands in its place need not be put there. -/
theorem copy_filter_of_spelled {buffer : Text} {places : List (Found Text)}
    {keep : Found Text → Bool} (spelled : ∀ found ∈ places, keep found = false →
      found.value = buffer.slice found.start found.stop)
    (ordered : Found.Ordered offset buffer.length places) :
    copy offset (buffer.drop offset) (places.filter keep) =
      copy offset (buffer.drop offset) places := by
  induction places generalizing offset with
  | nil => rfl
  | cons found later ih =>
    obtain ⟨above, positive, ordered⟩ := ordered
    have below : offset ≤ found.stop := by omega
    have rest := ih
      (fun other member => spelled other (mem_cons_of_mem _ member)) ordered
    cases kept : keep found with
    | false =>
      have same := spelled found mem_cons_self kept
      rw [filter_cons_of_neg (by simp [kept]), copy, copy_advance below ordered.filter,
        drop_drop_sub below, rest, same, take_eq_slice buffer above (Nat.le_of_lt positive)]
    | true =>
      rw [filter_cons_of_pos kept, copy, copy, drop_drop_sub below, rest]

/-- Changes that change nothing may be left out. -/
theorem copy_filter {buffer : Text} {places : List (Found Text)}
    (ordered : Found.Ordered offset buffer.length places) :
    copy offset (buffer.drop offset) (places.filter fun found =>
        found.value != buffer.slice found.start found.stop) =
      copy offset (buffer.drop offset) places :=
  copy_filter_of_spelled (fun _ _ same => by simpa using same) ordered

/-! ## Places in any order -/

/-- Whether neither of two places reaches into the other. -/
def Apart (left right : Found (List α)) : Prop :=
  left.stop ≤ right.start ∨ right.stop ≤ left.start

/-- Places that end before the next one starts stand in order. -/
theorem ordered_of_pairwise (within : offset ≤ length)
    (sorted : places.Pairwise fun left right => left.stop ≤ right.start) (bounds : ∀ place ∈ places,
      offset ≤ place.start ∧ place.start < place.stop ∧ place.stop ≤ length) :
    Found.Ordered offset length places := by
  induction places generalizing offset with
  | nil => exact within
  | cons place later ih =>
    obtain ⟨before, sorted⟩ := pairwise_cons.1 sorted
    obtain ⟨above, positive, most⟩ := bounds place mem_cons_self
    refine ⟨above, positive, ih most sorted fun other member => ?_⟩
    exact ⟨before other member, (bounds other (mem_cons_of_mem _ member)).2⟩

/-- Places of which none reaches into another can be put in order. -/
theorem exists_ordered (apart : places.Pairwise Apart)
    (inside : ∀ place ∈ places, place.start < place.stop ∧ place.stop ≤ length) :
    ∃ ordered, ordered.Perm places ∧ Found.Ordered 0 length ordered := by
  let precedes (left right : Found (List α)) : Bool := left.start ≤ right.start
  have transitive : ∀ left middle right, precedes left middle = true →
      precedes middle right = true → precedes left right = true := by
    intro left middle right one other
    simp only [precedes, decide_eq_true_eq] at *
    omega
  have total : ∀ left right, (precedes left right || precedes right left) = true := by
    intro left right
    simp only [precedes, Bool.or_eq_true, decide_eq_true_eq]
    omega
  have same := mergeSort_perm places precedes
  have starts := pairwise_mergeSort transitive total places
  have stillApart := (same.pairwise_iff Or.symm).2 apart
  refine ⟨_, same, ordered_of_pairwise (Nat.zero_le _) ?_ fun place member =>
    ⟨Nat.zero_le _, inside place (same.mem_iff.1 member)⟩⟩
  refine (starts.and stillApart).imp_of_mem fun leftMember rightMember both => ?_
  have left := inside _ (same.mem_iff.1 leftMember)
  have right := inside _ (same.mem_iff.1 rightMember)
  have start := of_decide_eq_true both.1
  rcases both.2 with before | behind
  · exact before
  · omega

/-- Edits at some of the places of which none reaches into another leave everything else
as it is, if the contents of the other places spell what stands there. -/
theorem applyAll_of_apart {buffer : Text} {places : List (Found Text)}
    (apart : places.Pairwise Apart)
    (inside : ∀ place ∈ places, place.start < place.stop ∧ place.stop ≤ buffer.length)
    {edits : List (Edit Char)} (distinct : edits.Nodup)
    (among : ∀ edit ∈ edits, ∃ place ∈ places, edit = ofFound place)
    (kept : ∀ place ∈ places, ofFound place ∈ edits ∨
      place.value = buffer.slice place.start place.stop) :
    ∃ ordered, ordered.Perm places ∧ Found.Ordered 0 buffer.length ordered ∧
      applyAll buffer edits = copy 0 buffer ordered := by
  obtain ⟨ordered, same, inOrder⟩ := exists_ordered apart inside
  refine ⟨ordered, same, inOrder, ?_⟩
  let keep (place : Found Text) : Bool := decide (ofFound place ∈ edits)
  have made : edits.Perm ((ordered.filter keep).map ofFound) := by
    have increasing := (increasing_of_ordered (inOrder.filter :
      Found.Ordered _ _ (ordered.filter keep))).2
    have unlike : ((ordered.filter keep).map ofFound).Nodup := increasing.imp fun below equal => by
      rw [equal] at below
      omega
    refine (perm_ext_iff_of_nodup distinct unlike).2 fun edit => ⟨fun member => ?_, fun member => ?_⟩
    · obtain ⟨place, there, rfl⟩ := among edit member
      refine mem_map_of_mem (mem_filter.2 ⟨same.mem_iff.2 there, ?_⟩)
      exact decide_eq_true member
    · obtain ⟨place, there, rfl⟩ := mem_map.1 member
      exact of_decide_eq_true (mem_filter.1 there).2
  rw [applyAll_of_perm made inOrder.filter]
  refine copy_filter_of_spelled (fun place member dropped => ?_) inOrder
  exact (kept place (same.mem_iff.mp member)).resolve_left (of_decide_eq_false dropped)

end Phrasebook.Edit
