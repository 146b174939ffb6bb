import Phrasebook.Proofs.Script.Overlap

/-!
# Calls behind names

A quote ends the word before it, but the name of a function does not. Where a literal that is
replaced stands right behind a word, the name of the lookup function becomes the end of that
word, and the call in the place of the literal is a call of another function.
-/

namespace Phrasebook

open List

open Markup (isNamePart)

namespace Script

variable {script : Text} {scope : Scope}

/-! ## Words at the end of a text -/

/-- The name characters that a text ends with. -/
def lastName (text : Text) : Text :=
  (text.reverse.takeWhile isNamePart).reverse

private theorem lastName_append_name {name : Text} (named : ∀ char ∈ name, isNamePart char = true)
    (text : Text) : lastName (text ++ name) = lastName text ++ name := by
  have taken : ∀ char ∈ name.reverse, isNamePart char = true := by simpa using named
  rw [lastName, reverse_append, takeWhile_append_of_pos taken]
  simp [lastName]

/-- A word does not reach over a character that belongs to no name. -/
theorem lastName_append_cons {border : Char} (foreign : isNamePart border = false)
    (front text : Text) : lastName (front ++ border :: text) = lastName text := by
  have stops : (border :: front.reverse).takeWhile isNamePart = [] := by
    rw [takeWhile_cons_of_neg (by simp [foreign])]
  rw [lastName, reverse_append, reverse_cons, append_assoc, singleton_append,
    takeWhile_append, stops, append_nil]
  split
  · rename_i whole
    rw [lastName, (List.takeWhile_prefix _).eq_of_length whole]
  · rfl

private theorem lastName_eq_nil_iff (text : Text) :
    lastName text = [] ↔ ∀ char ∈ text.getLast?, isNamePart char = false := by
  rw [lastName, reverse_eq_nil_iff, ← head?_reverse]
  cases text.reverse <;> simp [takeWhile_cons]

/-! ## What stands before a place -/

/-- Where the last of some places ends, which come from `offset` on. -/
def endOf (offset : Nat) : List (Found Text) → Nat
  | [] => offset
  | place :: later => endOf place.stop later

section Before

variable {offset stop : Nat} {earlier : List (Found Text)}
  (ordered : Found.Ordered offset stop earlier)
include ordered

private theorem endOf_bounds : offset ≤ endOf offset earlier ∧ endOf offset earlier ≤ stop ∧
    ∀ place ∈ earlier, place.stop ≤ endOf offset earlier := by
  induction earlier generalizing offset with
  | nil => exact ⟨Nat.le_refl _, ordered, by simp⟩
  | cons place later ih =>
    obtain ⟨above, positive, ordered⟩ := ordered
    obtain ⟨least, most, stops⟩ := ih ordered
    rw [endOf]
    exact ⟨by omega, most, forall_mem_cons.2 ⟨least, stops⟩⟩

/-- A word before a place does not reach into the contents of the places before it. -/
theorem lastName_copy (closed : ∀ place ∈ earlier, ∃ front, place.value = front ++ [')'])
    (rest : Text) : lastName (Edit.copy offset rest earlier) =
      lastName (rest.drop (endOf offset earlier - offset)) := by
  induction earlier generalizing offset rest with
  | nil => rw [Edit.copy, endOf, Nat.sub_self, drop_zero]
  | cons place later ih =>
    obtain ⟨above, positive, ordered⟩ := ordered
    obtain ⟨⟨front, content⟩, closed⟩ := forall_mem_cons.1 closed
    have least := (endOf_bounds ordered).1
    rw [Edit.copy, content, ← append_assoc, append_assoc _ [')'], singleton_append,
      lastName_append_cons (by decide), ih ordered closed, drop_drop, endOf,
      show place.stop - offset + (endOf place.stop later - place.stop) =
        endOf place.stop later - offset by omega]

end Before

private theorem exists_stop_eq_endOf {place : Found Text} (later : List (Found Text))
    (offset : Nat) :
    ∃ last ∈ place :: later, last.stop = endOf offset (place :: later) := by
  induction later generalizing place offset with
  | nil => exact ⟨place, mem_cons_self, rfl⟩
  | cons next later ih =>
    obtain ⟨last, member, stop⟩ := @ih next place.stop
    exact ⟨last, mem_cons_of_mem _ member, stop⟩

/-- No word stands between a place and what is replaced before it exactly when the character
before the place belongs to no name or to what is replaced. -/
theorem lastName_slice_eq_nil_iff {start : Nat} {earlier : List (Found Text)}
    (ordered : Found.Ordered 0 start earlier) (inside : start ≤ script.length) :
    lastName (script.slice (endOf 0 earlier) start) = [] ↔
      (∀ char ∈ (script.take start).getLast?, isNamePart char = false) ∨
        ∃ other ∈ earlier, other.stop = start := by
  obtain ⟨-, most, stops⟩ := endOf_bounds ordered
  rw [lastName_eq_nil_iff, Text.slice, getLast?_drop, length_take, Nat.min_eq_left inside]
  split
  · rename_i adjacent
    refine iff_of_true (by simp) ?_
    cases earlier with
    | nil =>
      obtain rfl : start = 0 := by simpa [endOf] using adjacent
      exact .inl (by simp)
    | cons place later =>
      obtain ⟨last, member, stop⟩ := @exists_stop_eq_endOf place later 0
      exact .inr ⟨last, member, by omega⟩
  · rename_i apart
    refine (or_iff_left ?_).symm
    rintro ⟨other, member, stop⟩
    have bound := stops other member
    omega

/-! ## Calls -/

private theorem exists_content_eq {literal : Node × Ancestors} {edit : Edit Char}
    (read : literalCall? scope script literal = .ok (some edit)) :
    ∃ inside, edit.content = scope.functions.script ++ '(' :: inside ++ [')'] := by
  obtain ⟨-, _, ⟨⟩⟩ | ⟨-, ⟨⟩⟩ := literalCall?_eq_ok read
  exact Call.exists_render_eq _ _ _ _

private theorem exists_value_eq {tree : Node} {place : Found Text}
    (member : place ∈ places scope script tree) :
    ∃ inside, place.value = scope.functions.script ++ '(' :: inside ++ [')'] := by
  obtain ⟨literal, -, itsPlace⟩ := mem_filterMap.1 member
  rw [placeOf?] at itsPlace
  split at itsPlace
  · rename_i edit read
    obtain rfl := Option.some.inj itsPlace
    exact exists_content_eq read
  · cases itsPlace

/-- Trees of scripts are nested. In a nested tree without a torn template literal, the
function that is called in the place of a literal has the name characters before the literal
at the front of its name. It is the lookup function exactly when the character before the
literal belongs to no name or to another literal that is replaced. -/
theorem call_name_joins_word (scope : Scope) (script : Text) (tree : Node) (session : Session)
    (named : ∀ char ∈ scope.functions.script, isNamePart char = true) :
    (∀ lang, parse? lang script = some tree → tree.Nested) ∧
    (tree.Nested → ¬ Torn scope script tree →
      ∀ found, ((edits scope script tree).run session).1 = .ok found →
      ∃ places : List (Found Text), found = places.map Edit.ofFound ∧
        (∀ start stop, (∃ place ∈ places, place.start = start ∧ place.stop = stop) ↔
          ∃ literal ∈ literals script [] tree, Replaced scope script literal ∧
            literal.1.start = start ∧ literal.1.stop = stop) ∧
        ((extract scope script tree).run session).1 = .ok (Edit.copy 0 script places) ∧
        ∀ earlier place later, places = earlier ++ place :: later →
          let front := Edit.copy 0 (script.take place.start) earlier
          let behind := Edit.copy place.stop (script.drop place.stop) later
          (∃ inside, Edit.copy 0 script places =
            front ++ scope.functions.script ++ '(' :: inside ++ ')' :: behind) ∧
          lastName (front ++ scope.functions.script) =
            lastName (script.slice (endOf 0 earlier) place.start) ++ scope.functions.script ∧
          (lastName (front ++ scope.functions.script) = scope.functions.script ↔
            (∀ char ∈ (script.take place.start).getLast?, isNamePart char = false) ∨
              ∃ other ∈ earlier, other.stop = place.start)) := by
  refine ⟨fun _ => nested_of_parse?, fun nested untorn found read => ?_⟩
  obtain ⟨found_eq, reads, yields⟩ := edits_eq_places read
  have sorted := sorted_places nested untorn
  have solid (place : Found Text) (member : place ∈ places scope script tree) :=
    exists_offset_of_mem_places nested member
  refine ⟨_, found_eq, exists_place_iff reads,
    by rw [yields, found_eq, rewritten_eq_copy sorted solid], ?_⟩
  intro earlier place later split front behind
  rw [split] at sorted solid
  have isPlace : place ∈ earlier ++ place :: later := by simp
  obtain ⟨offset, inside, above, below⟩ := solid place isPlace
  obtain ⟨sortedEarlier, -, before⟩ := pairwise_append.1 sorted
  have ordered : Found.Ordered 0 place.start earlier := by
    refine Edit.ordered_of_pairwise (Nat.zero_le _) sortedEarlier fun other member => ?_
    obtain ⟨_, -, itsAbove, itsBelow⟩ := solid other (mem_append_left _ member)
    exact ⟨Nat.zero_le _, by omega, before other member place mem_cons_self⟩
  have name : lastName (front ++ scope.functions.script) =
      lastName (script.slice (endOf 0 earlier) place.start) ++ scope.functions.script := by
    rw [lastName_append_name named, lastName_copy ordered, Nat.sub_zero, Text.slice]
    intro other member
    obtain ⟨arguments, content⟩ :=
      exists_value_eq (split ▸ mem_append_left _ member)
    exact ⟨_, content⟩
  refine ⟨?_, name, ?_⟩
  · obtain ⟨arguments, content⟩ := exists_value_eq (split ▸ isPlace)
    refine ⟨arguments, ?_⟩
    rw [split, Edit.copy_append ordered (by omega), content, Nat.sub_zero, Nat.sub_zero]
    simp [front, behind]
  · rw [name, append_left_eq_self]
    exact lastName_slice_eq_nil_iff ordered (by omega)

/-- A quoted literal right behind six characters. -/
def behindWord : Node :=
  .mk .other .none 0 10 [.mk .other .none 0 10 [.mk .quoted .none 6 10 [.mk .other .none 7 9 []]]]

/-- A literal right behind the word that hands it back is replaced by a call of a function
with a longer name. -/
theorem call_name_joins_word_behindWord :
    let scope : Scope := { path := .ofText "src/a.ts".toList, shown := "src/a.ts".toList }
    let script : Text := "return\"你好\"".toList
    behindWord.Nested ∧ ¬ Torn scope script behindWord ∧
      lastName "returnt".toList = "return".toList ++ scope.functions.script ∧
      ∃ inside, ((extract scope script behindWord).run {}).1 =
        .ok ("returnt".toList ++ '(' :: inside ++ [')']) := by
  intro scope script
  have named : ∀ char ∈ scope.functions.script, isNamePart char = true :=
    all_eq_true.1 (by decide +kernel)
  have nested : behindWord.Nested := Node.nested_of_nests (by decide)
  have untorn : ¬ Torn scope script behindWord := by decide +kernel
  have read : ((edits scope script behindWord).run {}).1 =
      .ok ([⟨6, 10, "t(\"a_7eca68\")".toList⟩].map Edit.ofFound) :=
    Pass.eq_ok_of_toOption (by decide +kernel)
  obtain ⟨places, same, ranges, made, each⟩ :=
    (call_name_joins_word scope script behindWord {} named).2 nested untorn _ read
  obtain ⟨place, rfl⟩ : ∃ place, places = [place] :=
    length_eq_one_iff.1 (by simpa using (congrArg List.length same).symm)
  obtain ⟨_, member, start, stop⟩ := (ranges 6 10).2 (by decide +kernel)
  obtain rfl := mem_singleton.1 member
  obtain ⟨⟨inside, shape⟩, word, -⟩ := each [] _ [] rfl
  rw [start] at word
  refine ⟨nested, untorn, word.trans (by decide +kernel), inside, made.trans ?_⟩
  rw [shape, start, stop]
  rfl

end Script

end Phrasebook
