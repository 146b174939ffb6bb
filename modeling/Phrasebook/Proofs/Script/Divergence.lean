import Phrasebook.Proofs.Markup.Divergence
import Phrasebook.Proofs.Script.Overlap

/-!
# Scripts that change

Extraction that registers a phrase changes a script. The edits of a script may reach into each
other, but the one with the first start is made last, and everything before it is still in place.
There the name of the function stands in the place of the character that opens a literal.
-/

namespace Phrasebook

open List

/-! ## The edit with the first start -/

namespace Edit

variable {α : Type} {front rest : List α}

/-- An edit leaves what stands before it. -/
theorem exists_splice_eq {edit : Edit α} (above : (front.length : Int) ≤ edit.start) :
    ∃ after, splice (front ++ rest) edit = front ++ after := by
  have start : front.length ≤ place (front ++ rest).length edit.start := by
    rw [place, if_neg (by omega), length_append]
    omega
  refine ⟨rest.take (place (front ++ rest).length edit.start - front.length) ++ edit.content ++
    (front ++ rest).drop (place (front ++ rest).length edit.stop), ?_⟩
  rw [splice, take_append, take_of_length_le start]
  simp only [append_assoc]

private theorem exists_foldl_splice_eq {edits : List (Edit α)}
    (above : ∀ edit ∈ edits, (front.length : Int) ≤ edit.start) :
    ∃ after, edits.foldl splice (front ++ rest) = front ++ after := by
  induction edits generalizing rest with
  | nil => exact ⟨rest, rfl⟩
  | cons edit edits ih =>
    obtain ⟨here, later⟩ := forall_mem_cons.1 above
    obtain ⟨after, spliced⟩ := @exists_splice_eq α front rest edit here
    rw [foldl_cons, spliced]
    exact ih later

/-- The edit with the first start is made last, with everything before it in place. -/
theorem exists_applyAll_eq {buffer : List α} {edits : List (Edit α)} (nonempty : edits ≠ [])
    (within : ∀ edit ∈ edits, 0 ≤ edit.start ∧ edit.start ≤ buffer.length) :
    ∃ edit ∈ edits, ∃ after,
      applyAll buffer edits = buffer.take edit.start.toNat ++ edit.content ++ after := by
  have sorted := pairwise_mergeSort appliedFirst_trans appliedFirst_total edits
  have same := mergeSort_perm edits appliedFirst
  rw [applyAll]
  generalize edits.mergeSort appliedFirst = row at sorted same
  rcases eq_nil_or_concat row with rfl | ⟨earlier, last, rfl⟩
  · exact absurd same.symm.eq_nil nonempty
  rw [concat_eq_append] at sorted same ⊢
  have member : last ∈ edits := same.mem_iff.1 (by simp)
  obtain ⟨above, inside⟩ := within last member
  obtain ⟨front, rest, rfl, size⟩ : ∃ front rest, buffer = front ++ rest ∧
      (front.length : Int) = last.start :=
    ⟨_, _, (take_append_drop last.start.toNat buffer).symm, by rw [length_take]; omega⟩
  have first : ∀ edit ∈ earlier, (front.length : Int) ≤ edit.start := by
    intro edit isEarlier
    have order := appliedFirst_iff.1
      ((pairwise_append.1 sorted).2.2 edit isEarlier last (by simp))
    omega
  obtain ⟨after, made⟩ := @exists_foldl_splice_eq α front rest earlier first
  refine ⟨last, member, (front ++ after).drop (place (front ++ after).length last.stop), ?_⟩
  have start : place (front ++ after).length last.start = front.length := by
    rw [← size]
    exact place_ofNat (by simp)
  rw [foldl_append, made, foldl_cons, foldl_nil, splice, start, ← size,
    Int.toNat_natCast, take_left, take_left]

end Edit

/-- The bytes of a text tell its first character. -/
theorem Utf8.head_eq_of_encode_append {first second : Char} {left right : Text} {after : Bytes}
    (same : encode (first :: left) ++ after = encode (second :: right)) : first = second := by
  have read := decode_encode (second :: right)
  rw [← same, encode, flatMap_cons, append_assoc, decode] at read
  obtain ⟨next, reads⟩ := decodeFrom_character 0 first (flatMap encodeCharacter left ++ after)
  rw [reads] at read
  cases later : decodeFrom next 0 (flatMap encodeCharacter left ++ after) with
  | error fault =>
    rw [later] at read
    cases read
  | ok tail =>
    rw [later] at read
    exact (List.cons.inj (Except.ok.inj read)).1

namespace Script

open Pass

variable {scope : Scope} {script : Text} {tree : Node} {added : List KeyedPhrase}

/-! ## Literals behind other characters -/

/-- Whether every literal of a script opens with a character that belongs to no name. -/
def OpensApart (script : Text) (tree : Node) : Prop :=
  ∀ literal ∈ literals script [] tree, ∃ char,
    script[literal.1.start]? = some char ∧ Markup.isNamePart char = false

private theorem exists_render_of_literalCall? {literal : Node × Ancestors} {edit : Edit Char}
    (read : literalCall? scope script literal = .ok (some edit)) :
    ∃ key exprs, edit.content = Call.render scope.functions.script key '"' exprs := by
  obtain ⟨-, _, ⟨⟩⟩ | ⟨-, ⟨⟩⟩ := literalCall?_eq_ok read
  exact ⟨_, _, rfl⟩

/-- A call in the place of a literal starts with a character of a name. -/
theorem exists_of_mem_places (named : IsIdentifier scope.functions.script) {place : Found Text}
    (member : place ∈ places scope script tree) :
    (∃ literal ∈ literals script [] tree, place.start = literal.1.start) ∧
      ∃ first rest, place.value = first :: rest ∧ Markup.isNamePart first = true := by
  obtain ⟨literal, isLiteral, found⟩ := mem_filterMap.1 member
  refine ⟨⟨literal, isLiteral, (replaced_of_placeOf? found).2.1⟩, ?_⟩
  rw [placeOf?] at found
  split at found
  · rename_i edit read
    obtain rfl := Option.some.inj found
    obtain ⟨key, exprs, content⟩ := exists_render_of_literalCall? read
    obtain ⟨inside, shape⟩ := Call.exists_render_eq scope.functions.script key '"' exprs
    obtain ⟨nonempty, parts⟩ := named
    obtain ⟨first, rest, name⟩ := exists_cons_of_ne_nil nonempty
    rw [content, shape, name]
    exact ⟨first, _, rfl, parts first (by simp [name])⟩
  · cases found

/-- Calls in the places of literals that open with other characters change a script. -/
theorem rewritten_ne (named : IsIdentifier scope.functions.script) (opens : OpensApart script tree)
    (present : places scope script tree ≠ []) :
    rewritten script ((places scope script tree).map Edit.ofFound) ≠ .ok script := by
  intro same
  rw [rewritten, if_neg (by simpa using present)] at same
  split at same
  · rename_i text decoded
    obtain rfl := Except.ok.inj same
    have bytes := Utf8.encode_of_decode decoded
    have within : ∀ edit ∈ ((places scope text tree).map Edit.ofFound).map (byteEdit text),
        0 ≤ edit.start ∧ edit.start ≤ (Utf8.encode text).length := by
      refine forall_mem_map.2 fun edit _ => ⟨Int.natCast_nonneg _, ?_⟩
      have sizes := Utf8.size_append (text.take edit.start.toNat) (text.drop edit.start.toNat)
      rw [take_append_drop] at sizes
      rw [Utf8.length_encode]
      simp only [byteEdit]
      omega
    obtain ⟨edit, member, after, made⟩ := Edit.exists_applyAll_eq (by simpa using present) within
    obtain ⟨_, isEdit, rfl⟩ := mem_map.1 member
    obtain ⟨place, isPlace, rfl⟩ := mem_map.1 isEdit
    obtain ⟨⟨literal, isLiteral, start⟩, first, rest, value, isPart⟩ :=
      exists_of_mem_places named isPlace
    obtain ⟨char, there, other⟩ := opens literal isLiteral
    rw [← start] at there
    -- What stands before the call is still in place, so the call starts where the literal did.
    have front : (Utf8.encode text).take (byteEdit text (Edit.ofFound place)).start.toNat =
        Utf8.encode (text.take place.start) := Utf8.take_encode text place.start
    have behind : text.drop place.start = char :: text.drop (place.start + 1) := by
      obtain ⟨inside, here⟩ := List.getElem?_eq_some_iff.1 there
      rw [List.drop_eq_getElem_cons inside, here]
    rw [made, front] at bytes
    conv at bytes => lhs; rw [← take_append_drop place.start text, Utf8.encode_append, behind]
    rw [append_assoc] at bytes
    have heads : Utf8.encode (first :: rest) ++ after =
        Utf8.encode (char :: text.drop (place.start + 1)) := by
      rw [← value]
      exact (append_cancel_left bytes).symm
    rw [← Utf8.head_eq_of_encode_append heads, isPart] at other
    cases other
  · cases same

/-! ## Literals without an edit -/

private theorem silent_valueOf (body : Text) : ∃ known, Emits (valueOf body) known [] := by
  rw [valueOf]
  cases Literal.cook body with
  | ok value => exact ⟨_, .pure value⟩
  | error fault => exact ⟨_, .known (.error (.escape fault))⟩

private theorem silent_valuesOf (bodies : List Text) : ∃ known, Emits (valuesOf bodies) known
    [] := by
  rw [valuesOf_eq]
  cases bodies.mapM Literal.cook with
  | ok values => exact ⟨_, .pure values⟩
  | error fault => exact ⟨_, .known (.error (.escape fault))⟩

/-- A literal that is registered when its value holds ideographs is not registered without an
edit. -/
theorem eq_nil_of_emits_guarded {α : Type} {reads : Pass α} {holds : α → Bool} {span : Span}
    {setting : Setting} {points : α → Except Literal.EscapeFault CodePoints}
    {edit : α → Text → Edit Char} (silent : ∃ known, Emits reads known []) (emits : Emits (do
      let value ← reads
      if !holds value then return none
      let key ← Pass.register scope span setting (points value)
      return some (edit value key)) (.ok none) added) : added = [] := by
  obtain ⟨_, does⟩ := silent
  obtain ⟨value, first, second, one, other, rfl⟩ := emits.of_bind ⟨_, _, does⟩ fun value => by
    cases holds value with
    | false => exact .pure _
    | true => exact .bind (.register _ _ _ _) fun _ => .pure _
  obtain ⟨-, rfl⟩ := one.unique does
  cases held : holds value with
  | false =>
    rw [held] at other
    exact (Emits.pure_iff.1 other).2
  | true =>
    rw [held] at other
    obtain ⟨key, _, _, -, yields, -⟩ := Emits.of_bind (.register _ _ _ _) (fun _ => .pure _) other
    cases (Emits.pure_iff.1 yields).1

private theorem eq_nil_of_emits_extractLiteral {node : Node} {around : Ancestors}
    (emits : Emits (extractLiteral script scope node around) (.ok none) added) : added = [] := by
  rw [extractLiteral] at emits
  split at emits
  · exact (Emits.pure_iff.1 emits).2
  · split at emits
    · exact eq_nil_of_emits_guarded (silent_valueOf _) emits
    · exact eq_nil_of_emits_guarded (silent_valuesOf _) emits

private theorem eq_nil_of_emits_extractAll {literals : List (Node × Ancestors)}
    (emits : Emits (extractAll script scope literals) (.ok []) added) : added = [] := by
  induction literals generalizing added with
  | nil => exact (Emits.pure_iff.1 emits).2
  | cons literal literals ih =>
    obtain ⟨edit, first, second, here, rest, rfl⟩ := emits.of_bind
      (registers_extractLiteral _ _ _ _) fun _ => .bind (registers_extractAll _ _ _) fun _ => .pure _
    obtain ⟨edits, second, third, later, yields, rfl⟩ :=
      rest.of_bind (registers_extractAll _ _ _) fun _ => .pure _
    obtain ⟨nothing, rfl⟩ := Emits.pure_iff.1 yields
    obtain ⟨none, rfl⟩ := append_eq_nil_iff.1 nothing.symm
    rw [Option.toList_eq_nil_iff] at none
    rw [none] at here
    rw [eq_nil_of_emits_extractLiteral here, ih later]
    rfl

/-- Extraction changes a script exactly when it registers a phrase. -/
theorem extract_eq_self_iff (named : IsIdentifier scope.functions.script) {after : Text}
    (opens : OpensApart script tree) (emits : Emits (extract scope script tree) (.ok after) added) :
    after = script ↔ added = [] := by
  constructor
  · rintro rfl
    obtain ⟨found, first, second, finds, yields, rfl⟩ :=
      Emits.of_bind (registers_edits scope after tree) (fun _ => .known _) emits
    obtain ⟨made, -, -⟩ := edits_eq_places (finds.result {})
    have same : rewritten after found = .ok after := (yields.unique (.known _)).1.symm
    have nothing : places scope after tree = [] := by
      by_contra present
      exact rewritten_ne named opens present (made ▸ same)
    rw [made, nothing] at finds
    rw [eq_nil_of_emits_extractAll finds, (yields.unique (.known _)).2]
    rfl
  · rintro rfl
    exact (emits_extract_iff.1 emits).1

end Script

end Phrasebook
