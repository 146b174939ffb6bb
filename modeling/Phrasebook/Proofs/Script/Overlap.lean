import Phrasebook.Proofs.Edit.Bytes
import Phrasebook.Proofs.Script.Calls
import Phrasebook.Proofs.Script.Ranges

/-!
# Edits that reach into each other

Whether extraction looks inside of a template literal is decided by the literal as it is
written, and whether the literal is replaced by its value. The edits of a script are apart
exactly when these decisions never part over a template literal with a replaced literal
inside of it. The script after edits that are apart is a copy from left to right in which
the literals, and nothing else, are replaced.
-/

namespace Phrasebook

open List

namespace Script

open Pass

variable {script : Text} {scope : Scope}

/-- Edits in order are made from left to right, and what they leave is a text again. -/
theorem rewritten_eq_copy {places : List (Found Text)}
    (sorted : places.Pairwise fun left right => left.stop ≤ right.start)
    (solid : ∀ place ∈ places, ∃ offset < script.length, place.start ≤ offset ∧ offset < place.stop) :
    rewritten script (places.map Edit.ofFound) = .ok (Edit.copy 0 script places) := by
  have inBytes : (places.map Edit.ofFound).map (byteEdit script) =
      (places.map (Edit.inBytes script)).map Edit.ofFound := by
    rw [map_map, map_map]
    rfl
  have ordered : Found.Ordered 0 (Utf8.encode script).length (places.map (Edit.inBytes script)) := by
    refine Edit.ordered_of_pairwise (Nat.zero_le _) (pairwise_map.2 ?_)
      (forall_mem_map.2 fun place member => ?_)
    · refine sorted.imp fun {left right} before => ?_
      have sizes := Utf8.size_take script before
      simp only [Edit.inBytes]
      omega
    · obtain ⟨offset, inside, above, below⟩ := solid place member
      refine ⟨Nat.zero_le _, Edit.start_lt_stop_inBytes inside above below, ?_⟩
      have front := congrArg List.length (Utf8.take_encode script place.stop)
      rw [length_take, Utf8.length_encode, Utf8.length_encode] at front
      rw [Utf8.length_encode]
      simp only [Edit.inBytes]
      omega
  have copied : Edit.copy 0 (Utf8.encode script) (places.map (Edit.inBytes script)) =
      Utf8.encode (Edit.copy 0 script places) := by
    refine Edit.encode_copy (fun _ _ => Nat.zero_le _) (fun place member => ?_) sorted
    obtain ⟨offset, -, above, below⟩ := solid place member
    omega
  rw [rewritten]
  split
  · rename_i none
    rw [List.isEmpty_iff, List.map_eq_nil_iff] at none
    rw [none, Edit.copy]
  · rw [inBytes, Edit.applyAll_eq_copy ordered, copied, Utf8.decode_encode]

/-! ## Literals that are replaced -/

/-- Whether a template literal is replaced although extraction looks inside of it, where
another literal is replaced. -/
def Torn (scope : Scope) (script : Text) (tree : Node) : Prop :=
  ∃ outer ∈ literals script [] tree, IsOpen script outer ∧ Replaced scope script outer ∧
    ∃ inner ∈ inside script outer, Replaced scope script inner

instance (scope : Scope) (script : Text) (literal : Node × Ancestors) :
    Decidable (Replaced scope script literal) :=
  decidable_of_iff (stays script scope literal.1 literal.2 = false ∧
      (literalValue script literal.1).toOption.any CodePoint.hasIdeograph = true) <| by
    rw [Replaced]
    cases literalValue script literal.1 <;> simp [Except.toOption]

instance (scope : Scope) (script : Text) (tree : Node) : Decidable (Torn scope script tree) :=
  inferInstanceAs (Decidable (∃ outer ∈ literals script [] tree, IsOpen script outer ∧
    Replaced scope script outer ∧ ∃ inner ∈ inside script outer, Replaced scope script inner))

/-- A text that is cut out of a script and is not empty starts inside of the script. -/
theorem lt_of_slice_ne_nil {start stop : Nat} (nonempty : script.slice start stop ≠ []) :
    start < script.length ∧ start < stop := by
  have positive := length_pos_iff.2 nonempty
  rw [Text.slice, length_drop, length_take] at positive
  omega

private theorem exists_offset_of_go {node : Node} {part : Text} (nonempty : part ≠ [])
    {children : List Node} {lower pos : Nat} (inOrder : Node.InOrder lower node.stop children)
    (least : node.start ≤ lower) (above : node.start ≤ pos)
    (member : part ∈ fixedParts.go script node pos children) :
    ∃ offset < script.length, node.start ≤ offset ∧ offset < node.stop := by
  induction children generalizing lower pos with
  | nil =>
    obtain rfl := mem_singleton.1 member
    obtain ⟨inside, before⟩ := lt_of_slice_ne_nil nonempty
    exact ⟨pos, inside, above, by omega⟩
  | cons child children ih =>
    obtain ⟨start, proper, later⟩ := inOrder
    have most := later.le
    rw [fixedParts.go] at member
    split at member
    · rcases mem_cons.1 member with rfl | member
      · obtain ⟨inside, before⟩ := lt_of_slice_ne_nil nonempty
        exact ⟨pos, inside, above, by omega⟩
      · exact ih later (by omega) (by omega) member
    · exact ih later (by omega) above member

/-- Where a fixed part of a template literal is not empty, there is a character. -/
theorem exists_offset_of_fixedParts {node : Node} (nested : node.Nested) {part : Text}
    (member : part ∈ fixedParts script node) (nonempty : part ≠ []) :
    ∃ offset < script.length, node.start ≤ offset ∧ offset < node.stop :=
  exists_offset_of_go nonempty nested.inOrder (Nat.le_refl _) (Nat.le_succ _) member

private theorem exists_part_of_mapM {bodies : List Text} {values : List CodePoints}
    (cooked : bodies.mapM Literal.cook = .ok values)
    (ideograph : values.any CodePoint.hasIdeograph = true) : ∃ body ∈ bodies, body ≠ [] := by
  induction bodies generalizing values with
  | nil =>
    obtain rfl := Except.ok.inj cooked
    cases ideograph
  | cons body bodies ih =>
    obtain ⟨value, later, here, rest, rfl⟩ := mapM_cook_cons_eq_ok cooked
    rw [any_cons, Bool.or_eq_true] at ideograph
    rcases ideograph with holds | holds
    · refine ⟨body, mem_cons_self, ?_⟩
      rintro rfl
      rw [Literal.cook_nil] at here
      obtain rfl := Except.ok.inj here
      cases holds
    · obtain ⟨other, member, nonempty⟩ := ih rest holds
      exact ⟨other, mem_cons_of_mem _ member, nonempty⟩

/-- A literal that is replaced holds a character. -/
theorem Replaced.exists_offset {literal : Node × Ancestors}
    (replaced : Replaced scope script literal) (nested : literal.1.Nested) :
    ∃ offset < script.length, literal.1.start ≤ offset ∧ offset < literal.1.stop := by
  obtain ⟨-, points, value, holds⟩ := replaced
  rw [literalValue] at value
  split at value
  · have nonempty : script.slice (literal.1.start + 1) (literal.1.stop - 1) ≠ [] := by
      intro none
      rw [none, Literal.cook_nil] at value
      obtain rfl := Except.ok.inj value
      cases holds
    obtain ⟨inside, before⟩ := lt_of_slice_ne_nil nonempty
    exact ⟨_, inside, by omega, by omega⟩
  · rw [templateValue] at value
    cases cooked : (fixedParts script literal.1).mapM Literal.cook with
    | error fault =>
      rw [cooked] at value
      cases value
    | ok values =>
      rw [cooked] at value
      obtain rfl := Except.ok.inj value
      rw [hasIdeograph_weave] at holds
      obtain ⟨part, member, nonempty⟩ := exists_part_of_mapM cooked holds
      exact exists_offset_of_fixedParts nested member nonempty

/-- A literal that is replaced has a proper span. -/
theorem Replaced.proper {literal : Node × Ancestors} (replaced : Replaced scope script literal)
    (nested : literal.1.Nested) : (byteSpan script literal.1).proper = true := by
  obtain ⟨offset, inside, above, below⟩ := replaced.exists_offset nested
  have wider := Utf8.size_take_lt script (Nat.lt_of_le_of_lt above below)
    (Nat.lt_of_le_of_lt above inside)
  simpa [Span.proper, byteSpan] using wider

/-- No script fails for a span that is not proper. -/
theorem not_isEmptySpan_of_calls {tree : Node} (nested : tree.Nested) {failure : Failure}
    (fails : calls scope script tree = .error failure) : ¬ IsEmptySpan failure := by
  rw [calls] at fails
  cases all : (literals script [] tree).mapM (literalCall? scope script) with
  | ok edits =>
    rw [all] at fails
    cases fails
  | error reason =>
    rw [all] at fails
    obtain rfl := Except.error.inj fails
    obtain ⟨literal, isLiteral, here⟩ := exists_of_mapM_eq_error all
    rcases literalCall?_cases scope script literal with
      ⟨points, replaced, made⟩ | ⟨-, none | ⟨_, escapes⟩⟩
    · rw [made, map_eq_error_iff] at here
      have within := (listed_literals script [] nested).within literal isLiteral
      exact not_isEmptySpan_of_located (replaced.proper within.2.2) here
    · cases here.symm.trans none
    · obtain rfl := Except.error.inj (here.symm.trans escapes)
      rintro ⟨_, ⟨⟩⟩

/-! ## Edits that are apart -/

/-- The place and the content of the call for a literal. -/
def placeOf? (scope : Scope) (script : Text) (literal : Node × Ancestors) : Option (Found Text) :=
  match literalCall? scope script literal with
  | .ok (some edit) => some ⟨literal.1.start, literal.1.stop, edit.content⟩
  | _ => none

section Literal

variable {literal : Node × Ancestors}

private theorem exists_placeOf? {call : Option (Edit Char)}
    (read : literalCall? scope script literal = .ok call) (replaced : Replaced scope script literal) :
    ∃ content, placeOf? scope script literal = some ⟨literal.1.start, literal.1.stop, content⟩ := by
  rcases literalCall?_eq_ok read with ⟨-, key, rfl⟩ | ⟨kept, -⟩
  · exact ⟨_, by rw [placeOf?, read]⟩
  · exact absurd replaced kept

/-- A place is that of a replaced literal. -/
theorem replaced_of_placeOf? {place : Found Text}
    (found : placeOf? scope script literal = some place) :
    Replaced scope script literal ∧ place.start = literal.1.start ∧ place.stop = literal.1.stop := by
  rw [placeOf?] at found
  split at found
  · rename_i edit read
    obtain rfl := Option.some.inj found
    rcases literalCall?_eq_ok read with ⟨replaced, -⟩ | ⟨-, none⟩
    · exact ⟨replaced, rfl, rfl⟩
    · cases none
  · cases found

end Literal

/-- The calls for literals stand in the places of those that are replaced. -/
theorem filterMap_eq_map_places {literals : List (Node × Ancestors)}
    {made : List (Option (Edit Char))} (read : literals.mapM (literalCall? scope script) = .ok made) :
    made.filterMap id = (literals.filterMap (placeOf? scope script)).map Edit.ofFound ∧
      ∀ literal ∈ literals, ∃ call, literalCall? scope script literal = .ok call := by
  induction literals generalizing made with
  | nil =>
    obtain rfl := Except.ok.inj read
    exact ⟨rfl, by simp⟩
  | cons literal literals ih =>
    rw [mapM_cons] at read
    cases here : literalCall? scope script literal with
    | error failure =>
      rw [here] at read
      cases read
    | ok call =>
      rw [here] at read
      cases later : literals.mapM (literalCall? scope script) with
      | error failure =>
        rw [later] at read
        cases read
      | ok calls =>
        rw [later] at read
        obtain rfl := Except.ok.inj read
        obtain ⟨rest, all⟩ := ih later
        refine ⟨?_, forall_mem_cons.2 ⟨⟨call, here⟩, all⟩⟩
        rcases literalCall?_eq_ok here with ⟨-, key, rfl⟩ | ⟨-, rfl⟩
        · have place : placeOf? scope script literal = some ⟨literal.1.start, literal.1.stop,
              (callEdit scope literal.1 key (literalArguments script literal.1)).content⟩ := by
            rw [placeOf?, here]
          rw [filterMap_cons_some place, map_cons, ← rest]
          rfl
        · have place : placeOf? scope script literal = none := by
            rw [placeOf?, here]
          rw [filterMap_cons_none place, ← rest]
          rfl

/-- The places of the calls for the literals of a script. -/
def places (scope : Scope) (script : Text) (tree : Node) : List (Found Text) :=
  (literals script [] tree).filterMap (placeOf? scope script)

section Tree

variable {tree : Node} (nested : tree.Nested)
include nested

/-- Where no template literal is torn, calls stand in order. -/
theorem sorted_places (untorn : ¬ Torn scope script tree) :
    (places scope script tree).Pairwise fun left right => left.stop ≤ right.start := by
  refine pairwise_filterMap.2 ((listed_literals script [] nested).follow.imp_of_mem ?_)
  intro outer inner isOuter isInner either left isLeft right isRight
  obtain ⟨outerReplaced, -, stop⟩ := replaced_of_placeOf? isLeft
  obtain ⟨innerReplaced, start, -⟩ := replaced_of_placeOf? isRight
  rcases either with behind | ⟨isOpen, inside⟩
  · omega
  · exact absurd ⟨outer, isOuter, isOpen, outerReplaced, inner, inside, innerReplaced⟩ untorn

/-- Where calls are apart, no template literal is torn. -/
theorem untorn_of_apart
    (all : ∀ literal ∈ literals script [] tree, ∃ call, literalCall? scope script literal = .ok call)
    (apart : (places scope script tree).Pairwise Edit.Apart) : ¬ Torn scope script tree := by
  rintro ⟨outer, isOuter, isOpen, outerReplaced, inner, isInside, innerReplaced⟩
  have listed := listed_literals script [] nested
  obtain ⟨-, -, outerNested⟩ := listed.within outer isOuter
  have below : Listed script outer.1.start outer.1.stop (inside script outer) :=
    listed_literalsAll script _ outerNested.inOrder outerNested.inner
  obtain ⟨start, stop, innerNested⟩ := below.within inner isInside
  obtain ⟨offset, -, above, before⟩ := innerReplaced.exists_offset innerNested
  -- The two literals are listed one after the other, so their places are too.
  have both : [outer, inner].Sublist (literals script [] tree) :=
    ((singleton_sublist.2 isInside).cons_cons outer).trans
      (listed.whole outer isOuter isOpen).sublist
  obtain ⟨_, outerRead⟩ := all outer isOuter
  obtain ⟨_, innerRead⟩ := all inner (both.subset (by simp))
  obtain ⟨_, outerPlace⟩ := exists_placeOf? outerRead outerReplaced
  obtain ⟨_, innerPlace⟩ := exists_placeOf? innerRead innerReplaced
  have row := both.filterMap (placeOf? scope script)
  rw [filterMap_cons_some outerPlace, filterMap_cons_some innerPlace] at row
  have reach := rel_of_pairwise_cons (apart.sublist row) mem_cons_self
  simp only [Edit.Apart] at reach
  omega

end Tree

/-- The places are those of replaced literals. -/
theorem exists_place_iff {literals : List (Node × Ancestors)}
    (reads : ∀ literal ∈ literals, ∃ call, literalCall? scope script literal = .ok call)
    (start stop : Nat) :
    (∃ place ∈ literals.filterMap (placeOf? scope script), place.start = start ∧ place.stop = stop) ↔
      ∃ literal ∈ literals, Replaced scope script literal ∧
        literal.1.start = start ∧ literal.1.stop = stop := by
  constructor
  · rintro ⟨place, member, rfl, rfl⟩
    obtain ⟨literal, isLiteral, itsPlace⟩ := mem_filterMap.1 member
    obtain ⟨replaced, start, stop⟩ := replaced_of_placeOf? itsPlace
    exact ⟨literal, isLiteral, replaced, start.symm, stop.symm⟩
  · rintro ⟨literal, isLiteral, replaced, rfl, rfl⟩
    obtain ⟨_, itsCall⟩ := reads literal isLiteral
    obtain ⟨_, itsPlace⟩ := exists_placeOf? itsCall replaced
    exact ⟨_, mem_filterMap.2 ⟨literal, isLiteral, itsPlace⟩, rfl, rfl⟩

/-- Edits that can be made stand in the places of calls, and extraction makes them. -/
theorem edits_eq_places {tree : Node} {session : Session} {found : List (Edit Char)}
    (read : ((edits scope script tree).run session).1 = .ok found) :
    found = (places scope script tree).map Edit.ofFound ∧
      (∀ literal ∈ literals script [] tree, ∃ call, literalCall? scope script literal = .ok call) ∧
      ((extract scope script tree).run session).1 = rewritten script found := by
  obtain ⟨_, edited⟩ := (registers_edits scope script tree).emits
  obtain ⟨_, extracted⟩ := (registers_extract scope script tree).emits
  have made : calls scope script tree = .ok found := by
    rw [← yield_edits, ← edited.result session, read]
  have yields : ((extract scope script tree).run session).1 = rewritten script found := by
    rw [extracted.result, extract, yield_bind (registers_edits _ _ _) fun _ => .known _, yield_edits,
      made]
    rfl
  rw [calls] at made
  cases all : (literals script [] tree).mapM (literalCall? scope script) with
  | error failure =>
    rw [all] at made
    cases made
  | ok options =>
    rw [all] at made
    obtain ⟨standing, reads⟩ := filterMap_eq_map_places all
    exact ⟨(Except.ok.inj made).symm.trans standing, reads, yields⟩

/-- A call stands in the place of at least one character. -/
theorem exists_offset_of_mem_places {tree : Node} (nested : tree.Nested) {place : Found Text}
    (member : place ∈ places scope script tree) :
    ∃ offset < script.length, place.start ≤ offset ∧ offset < place.stop := by
  obtain ⟨literal, isLiteral, itsPlace⟩ := mem_filterMap.1 member
  obtain ⟨replaced, start, stop⟩ := replaced_of_placeOf? itsPlace
  rw [start, stop]
  exact replaced.exists_offset ((listed_literals script [] nested).within literal isLiteral).2.2

/-- Trees of scripts are nested. The edits of a nested tree stand in the places of the
literals that are replaced. They are apart exactly when no template literal is torn, and the
script is then copied from left to right with the calls in these places. -/
theorem edits_apart_iff (scope : Scope) (script : Text) (tree : Node) (session : Session) :
    (∀ lang, parse? lang script = some tree → tree.Nested) ∧
    (tree.Nested → ∀ found, ((edits scope script tree).run session).1 = .ok found →
      ∃ places : List (Found Text), found = places.map Edit.ofFound ∧
        (∀ start stop, (∃ place ∈ places, place.start = start ∧ place.stop = stop) ↔
          ∃ literal ∈ literals script [] tree, Replaced scope script literal ∧
            literal.1.start = start ∧ literal.1.stop = stop) ∧
        (places.Pairwise Edit.Apart ↔ ¬ Torn scope script tree) ∧
        (places.Pairwise Edit.Apart →
          places.Pairwise (fun left right => left.stop ≤ right.start) ∧
          ((extract scope script tree).run session).1 = .ok (Edit.copy 0 script places))) := by
  refine ⟨fun _ => nested_of_parse?, fun nested found read => ?_⟩
  obtain ⟨found_eq, reads, yields⟩ := edits_eq_places read
  have apart_iff : (places scope script tree).Pairwise Edit.Apart ↔ ¬ Torn scope script tree :=
    ⟨untorn_of_apart nested reads, fun untorn => (sorted_places nested untorn).imp .inl⟩
  refine ⟨_, found_eq, exists_place_iff reads, apart_iff, fun apart => ?_⟩
  have sorted := sorted_places nested (apart_iff.1 apart)
  refine ⟨sorted, ?_⟩
  rw [yields, found_eq, rewritten_eq_copy sorted fun _ => exists_offset_of_mem_places nested]

/-- A quoted literal in a substitution behind six characters of a template literal. -/
def substitutedTree : Node :=
  .mk .other .none 0 14 [.mk .other .none 0 14 [.mk .template .none 0 14 [.mk .other .none 1 7 [],
    .mk .substitution .none 7 13 [.mk .quoted .none 9 12 [.mk .other .none 10 11 []]]]]]

/-- An escape that stands for an ideograph tears the literal around a quoted one. Where the
characters stand for themselves, the quoted literal alone is replaced. -/
theorem edits_apart_iff_substitutedTree :
    let scope : Scope := { path := .ofText "src/a.ts".toList, shown := "src/a.ts".toList }
    let scriptOf (front : Text) : Text :=
      Char.ofNat 0x60 :: front ++ "$\x7b\"好\"\x7d".toList ++ [Char.ofNat 0x60]
    substitutedTree.Nested ∧
    (∃ places : List (Found Text), ¬ places.Pairwise Edit.Apart ∧
      ((edits scope (scriptOf "\\u4f60".toList) substitutedTree).run {}).1 =
        .ok (places.map Edit.ofFound)) ∧
    ∃ places : List (Found Text), places ≠ [] ∧
      ((extract scope (scriptOf "/u4f60".toList) substitutedTree).run {}).1 =
        .ok (Edit.copy 0 (scriptOf "/u4f60".toList) places) := by
  intro scope scriptOf
  have nested : substitutedTree.Nested := Node.nested_of_nests (by decide)
  have succeeds (front : Text)
      (good : ((edits scope (scriptOf front) substitutedTree).run {}).1.toOption.isSome = true) :
      ∃ found, ((edits scope (scriptOf front) substitutedTree).run {}).1 = .ok found := by
    obtain ⟨found, read⟩ := Option.isSome_iff_exists.1 good
    exact ⟨found, eq_ok_of_toOption read⟩
  obtain ⟨_, tornRead⟩ := succeeds "\\u4f60".toList (by decide +kernel)
  obtain ⟨_, wholeRead⟩ := succeeds "/u4f60".toList (by decide +kernel)
  obtain ⟨torn, rfl, -, tornApart, -⟩ := (edits_apart_iff _ _ _ _).2 nested _ tornRead
  obtain ⟨whole, rfl, ranges, wholeApart, copied⟩ :=
    (edits_apart_iff _ _ _ _).2 nested _ wholeRead
  refine ⟨nested, ⟨torn, fun apart => tornApart.1 apart (by decide +kernel), tornRead⟩,
    whole, ?_, (copied (wholeApart.2 (by decide +kernel))).2⟩
  obtain ⟨place, member, -⟩ := (ranges 9 12).2 (by decide +kernel)
  exact ne_nil_of_mem member

end Script

end Phrasebook
