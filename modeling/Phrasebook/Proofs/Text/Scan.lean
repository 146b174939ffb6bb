import Phrasebook.Text.Scan
import Phrasebook.Text.Digit

/-!
# Searching and cutting

What the searching operations of texts find, said without the search: a needle
occurs where it is an infix, and a text is cut at the first occurrence. A cut at the
successes of a recogniser is described by what happens at the first character.
-/

namespace Phrasebook

open List

/-- Places from `offset` up to `length` in order: none is empty, and none reaches into
the next. -/
def Found.Ordered {α : Type} (offset length : Nat) : List (Found α) → Prop
  | [] => offset ≤ length
  | place :: later =>
    offset ≤ place.start ∧ place.start < place.stop ∧ Found.Ordered place.stop length later

namespace Found.Ordered

variable {α β : Type} {offset length : Nat} {places : List (Found α)}

theorem le (ordered : Ordered offset length places) : offset ≤ length := by
  induction places generalizing offset with
  | nil => exact ordered
  | cons place later ih =>
    obtain ⟨above, positive, ordered⟩ := ordered
    have bound := ih ordered
    omega

theorem mono {lower : Nat} (below : lower ≤ offset) (ordered : Ordered offset length places) :
    Ordered lower length places := by
  cases places with
  | nil => exact Nat.le_trans below ordered
  | cons place later => exact ⟨Nat.le_trans below ordered.1, ordered.2⟩

/-- Places may be left out, and what is known of them may change. -/
theorem filterMap {keep : Found α → Option (Found β)}
    (same : ∀ place kept, keep place = some kept → kept.start = place.start ∧ kept.stop = place.stop)
    (ordered : Ordered offset length places) : Ordered offset length (places.filterMap keep) := by
  induction places generalizing offset with
  | nil => exact ordered
  | cons place later ih =>
    obtain ⟨above, positive, ordered⟩ := ordered
    cases kept : keep place with
    | none =>
      rw [filterMap_cons_none kept]
      exact (ih ordered).mono (by omega)
    | some found =>
      obtain ⟨start, stop⟩ := same place found kept
      rw [filterMap_cons_some kept]
      exact ⟨by omega, by omega, stop ▸ ih ordered⟩

theorem filter {keep : Found α → Bool} (ordered : Ordered offset length places) :
    Ordered offset length (places.filter keep) := by
  rw [← filterMap_eq_filter]
  refine ordered.filterMap fun place kept kept_eq => ?_
  obtain ⟨rfl, -⟩ := Option.guard_eq_some_iff.1 kept_eq
  exact ⟨rfl, rfl⟩

/-- What is known of places may change. -/
theorem map (ordered : Ordered offset length places) (value : Found α → β) :
    Ordered offset length (places.map fun place => ⟨place.start, place.stop, value place⟩) := by
  rw [← filterMap_eq_map]
  refine ordered.filterMap fun place kept kept_eq => ?_
  cases kept_eq
  exact ⟨rfl, rfl⟩

/-- Places may be left out at the end. -/
theorem of_prefix {kept : List (Found α)} (ordered : Ordered offset length places)
    (isPrefix : kept <+: places) : Ordered offset length kept := by
  obtain ⟨rest, rfl⟩ := isPrefix
  induction kept generalizing offset with
  | nil => exact ordered.le
  | cons place later ih =>
    exact ⟨ordered.1, ordered.2.1, ih ordered.2.2⟩

/-- No place is empty. -/
theorem start_lt (ordered : Ordered offset length places) {place : Found α}
    (member : place ∈ places) : place.start < place.stop := by
  induction places generalizing offset with
  | nil => cases member
  | cons first later ih =>
    rcases mem_cons.1 member with rfl | member
    · exact ordered.2.1
    · exact ih ordered.2.2 member

theorem widen {longer : Nat} (ordered : Ordered offset length places) (within : length ≤ longer) :
    Ordered offset longer places := by
  induction places generalizing offset with
  | nil => exact Nat.le_trans ordered within
  | cons place later ih =>
    exact ⟨ordered.1, ordered.2.1, ih ordered.2.2⟩

/-- Places keep their order when all of them move by the same distance. -/
theorem shift (ordered : Ordered offset length places) (distance : Nat) :
    Ordered (offset + distance) (length + distance) (places.map fun place =>
      ⟨place.start + distance, place.stop + distance, place.value⟩) := by
  induction places generalizing offset with
  | nil => exact Nat.add_le_add_right ordered _
  | cons place later ih =>
    obtain ⟨above, positive, ordered⟩ := ordered
    exact ⟨Nat.add_le_add_right above _, Nat.add_lt_add_right positive _, ih ordered⟩

private theorem append {middle : Nat} {others : List (Found α)}
    (first : Ordered offset middle places) (second : Ordered middle length others) :
    Ordered offset length (places ++ others) := by
  induction places generalizing offset with
  | nil => exact second.mono first
  | cons place later ih =>
    exact ⟨first.1, first.2.1, ih first.2.2⟩

/-- Parts of places, in order within each place, are in order. -/
theorem flatMap {parts : Found α → List (Found β)} (ordered : Ordered offset length places)
    (inner : ∀ place ∈ places, Ordered place.start place.stop (parts place)) :
    Ordered offset length (places.flatMap parts) := by
  induction places generalizing offset with
  | nil => exact ordered
  | cons place later ih =>
    obtain ⟨above, -, ordered⟩ := ordered
    obtain ⟨here, others⟩ := forall_mem_cons.1 inner
    rw [flatMap_cons]
    exact (here.mono above).append (ih ordered others)

end Found.Ordered

/-- Places from `offset` up to `length` one behind the other. They may be empty, unlike
ordered ones. -/
def Found.InRow {α : Type} (offset length : Nat) : List (Found α) → Prop
  | [] => offset ≤ length
  | place :: later =>
    offset ≤ place.start ∧ place.start ≤ place.stop ∧ Found.InRow place.stop length later

theorem Found.InRow.le {α : Type} {offset length : Nat} {places : List (Found α)}
    (inRow : InRow offset length places) : offset ≤ length := by
  induction places generalizing offset with
  | nil => exact inRow
  | cons place later ih =>
    obtain ⟨above, proper, inRow⟩ := inRow
    have bound := ih inRow
    omega

theorem Found.Ordered.inRow {α : Type} {offset length : Nat} {places : List (Found α)}
    (ordered : Ordered offset length places) : InRow offset length places := by
  induction places generalizing offset with
  | nil => exact ordered
  | cons place later ih =>
    obtain ⟨above, positive, ordered⟩ := ordered
    exact ⟨above, Nat.le_of_lt positive, ih ordered⟩

namespace Text

variable {needle text : Text} {char : Char}

/-! ## Occurrences -/

/-- A needle occurs in a text exactly when it is an infix of the text. -/
theorem occursIn_iff : occursIn needle text = true ↔ needle <:+: text := by
  induction text with
  | nil => simp [occursIn, List.isEmpty_iff]
  | cons head tail ih =>
    rw [occursIn, Bool.or_eq_true, ih, List.isPrefixOf_iff_prefix, infix_cons_iff]

/-- No occurrence of a needle reaches over a character that the needle does not hold. -/
theorem infix_append_cons_iff {needle left right : Text} {char : Char} (foreign : char ∉ needle) :
    needle <:+: left ++ char :: right ↔ needle <:+: left ∨ needle <:+: right := by
  constructor
  · rintro ⟨before, behind, whole⟩
    rcases append_eq_append_iff.1 whole with ⟨inside, rfl, -⟩ | ⟨inside, reaches, rest⟩
    · exact .inl ⟨before, inside, rfl⟩
    · rcases cons_eq_append_iff.1 rest with ⟨rfl, -⟩ | ⟨inside, rfl, rfl⟩
      · exact .inl ⟨before, [], by simpa using reaches⟩
      · rcases append_eq_append_iff.1 reaches with ⟨front, -, held⟩ | ⟨front, -, held⟩
        · exact absurd (by simp [held]) foreign
        · rcases cons_eq_append_iff.1 held with ⟨-, rfl⟩ | ⟨front, -, rfl⟩
          · exact absurd (by simp) foreign
          · exact .inr ⟨front, behind, rfl⟩
  · rintro (occurs | occurs)
    · exact occurs.trans (prefix_append _ _).isInfix
    · exact occurs.trans ((suffix_cons _ _).trans (suffix_append _ _)).isInfix

/-- Characters that a needle does not hold make no difference around a text. -/
theorem infix_between_iff {lead trail : Text} (nonempty : needle ≠ [])
    (leadForeign : ∀ char ∈ lead, char ∉ needle) (trailForeign : ∀ char ∈ trail, char ∉ needle) :
    needle <:+: lead ++ text ++ trail ↔ needle <:+: text := by
  have nowhere {rest : Text} (foreign : ∀ char ∈ rest, char ∉ needle) :
      ¬ needle <:+: rest := by
    obtain ⟨head, tail, rfl⟩ := exists_cons_of_ne_nil nonempty
    exact fun occurs => foreign head (occurs.subset (by simp)) (by simp)
  induction lead with
  | nil =>
    cases trail with
    | nil => simp
    | cons head trail =>
      obtain ⟨here, later⟩ := forall_mem_cons.1 trailForeign
      rw [nil_append, infix_append_cons_iff here]
      simp [nowhere later]
  | cons head lead ih =>
    obtain ⟨here, later⟩ := forall_mem_cons.1 leadForeign
    have passed := @infix_append_cons_iff needle [] (lead ++ text ++ trail) head here
    rw [infix_nil, or_iff_right nonempty] at passed
    exact passed.trans (ih later)

/-- An end that starts with a character starts behind any text without it. -/
theorem suffix_of_suffix_append {front rest : Text} (foreign : char ∉ front)
    (ends : char :: rest <:+ front ++ text) : char :: rest <:+ text := by
  induction front with
  | nil => exact ends
  | cons head front ih =>
    rw [mem_cons, not_or] at foreign
    rcases suffix_cons_iff.1 ends with same | later
    · exact absurd (List.cons.inj same).1 foreign.1
    · exact ih foreign.2 later

/-- A character stands a last time in a text that holds it. -/
theorem exists_last (member : char ∈ text) :
    ∃ before behind, text = before ++ char :: behind ∧ char ∉ behind := by
  obtain ⟨front, back, whole, first⟩ := eq_append_cons_of_mem (mem_reverse.2 member)
  refine ⟨back.reverse, front.reverse, ?_, by simpa using first⟩
  rw [← reverse_reverse text, whole]
  simp

/-- Stripping succeeds exactly on texts with the given beginning. -/
theorem strip?_eq_some_iff {lead rest : Text} :
    strip? lead text = some rest ↔ text = lead ++ rest := by
  rw [strip?]
  constructor
  · intro stripped
    split at stripped
    · rename_i isLead
      obtain ⟨behind, rfl⟩ := List.isPrefixOf_iff_prefix.1 isLead
      simpa using stripped
    · cases stripped
  · rintro rfl
    simp [List.isPrefixOf_iff_prefix]

@[simp] theorem strip?_append (lead rest : Text) : strip? lead (lead ++ rest) = some rest :=
  strip?_eq_some_iff.2 rfl

private theorem dropLast_prefix_whole (before needle after : Text) :
    before ++ needle.dropLast <+: before ++ needle ++ after :=
  ((prefix_append_right_inj before).2 (List.dropLast_prefix needle)).trans
    (prefix_append _ after)

/-- A text is cut at the first occurrence of a needle: the needle does not occur
earlier, not even with its own beginning. -/
theorem cutAt?_eq_some_iff {before after : Text} (nonempty : needle ≠ []) :
    cutAt? needle text = some (before, after) ↔
      text = before ++ needle ++ after ∧ ¬ needle <:+: before ++ needle.dropLast := by
  have short : ¬ needle <:+: needle.dropLast := by
    intro occurs
    have bound := occurs.length_le
    have positive := length_pos_iff.2 nonempty
    rw [length_dropLast] at bound
    omega
  induction text generalizing before with
  | nil => simp [cutAt?, nonempty]
  | cons head tail ih =>
    rw [cutAt?]
    by_cases here : needle <+: head :: tail
    · rw [if_pos (List.isPrefixOf_iff_prefix.2 here)]
      obtain ⟨rest, whole⟩ := here
      rw [← whole, drop_left]
      cases before with
      | nil => simp [short, eq_comm]
      | cons first before =>
        simp only [Option.some.injEq, Prod.mk.injEq, nil_eq, reduceCtorEq, false_and,
          false_iff, not_and, Classical.not_not]
        intro same
        -- The needle starts the text, so it starts what stands before its later end.
        have ahead := dropLast_prefix_whole (first :: before) needle after
        rw [← same] at ahead
        refine (prefix_of_prefix_length_le (prefix_append needle rest) ahead ?_).isInfix
        simp only [cons_append, length_cons, length_append, length_dropLast]
        omega
    · rw [if_neg (by rwa [List.isPrefixOf_iff_prefix])]
      cases before with
      | nil =>
        simp only [Option.map_eq_some_iff, Prod.mk.injEq, reduceCtorEq, false_and, and_false,
          exists_false, nil_append, false_iff, not_and]
        intro same
        exact absurd ⟨after, same.symm⟩ here
      | cons first before =>
        have notHere : (first :: before) ++ needle ++ after = head :: tail →
            ¬ needle <+: first :: (before ++ needle.dropLast) := by
          intro same starts
          have ahead := dropLast_prefix_whole (first :: before) needle after
          exact here (starts.trans (same ▸ ahead))
        simp only [Option.map_eq_some_iff, Prod.mk.injEq, Prod.exists, List.cons.injEq]
        constructor
        · rintro ⟨found, rest, cut, ⟨rfl, rfl⟩, rfl⟩
          obtain ⟨rfl, absent⟩ := ih.1 cut
          refine ⟨by simp, ?_⟩
          rw [cons_append, infix_cons_iff]
          rintro (starts | occurs)
          · exact notHere (by simp) starts
          · exact absent occurs
        · rintro ⟨same, absent⟩
          obtain ⟨rfl, rfl⟩ : head = first ∧ tail = before ++ needle ++ after := by simpa using same
          refine ⟨before, after, ih.2 ⟨rfl, ?_⟩, ⟨rfl, rfl⟩, rfl⟩
          exact fun occurs => absent (infix_cons_iff.2 (.inr occurs))

/-- A text is not cut where the needle does not occur. -/
theorem cutAt?_eq_none_iff : cutAt? needle text = none ↔ ¬ needle <:+: text := by
  induction text with
  | nil => simp [cutAt?]
  | cons head tail ih =>
    rw [cutAt?, infix_cons_iff, ← List.isPrefixOf_iff_prefix]
    split <;> simp_all

/-! ## Cuts -/

section Cuts

variable {α : Type} {recognise : Text → Option (Nat × α)}

private theorem cutFrom_eq_drop (skip : Nat) (text : Text) :
    cutFrom recognise skip text = cutAll recognise (text.drop skip) := by
  induction text generalizing skip with
  | nil => cases skip <;> rfl
  | cons head tail ih =>
    cases skip with
    | zero => rfl
    | succ skip => exact ih skip

@[simp] theorem cutAll_nil : cutAll recognise [] = ([], []) :=
  rfl

/-- A character at which nothing is recognised joins the gap. -/
theorem cutAll_of_none {head : Char} {tail : Text} (nothing : recognise (head :: tail) = none) :
    cutAll recognise (head :: tail) =
      (head :: (cutAll recognise tail).1, (cutAll recognise tail).2) := by
  rw [cutAll, cutFrom, nothing]
  rfl

/-- What is recognised ends the gap, and cutting goes on behind it. -/
theorem cutAll_of_some {taken rest : Text} {value : α} (nonempty : taken ≠ [])
    (recognised : recognise (taken ++ rest) = some (taken.length, value)) :
    cutAll recognise (taken ++ rest) =
      ([], (value, (cutAll recognise rest).1) :: (cutAll recognise rest).2) := by
  obtain ⟨head, tail, rfl⟩ := exists_cons_of_ne_nil nonempty
  rw [cons_append] at recognised ⊢
  rw [cutAll, cutFrom, recognised]
  simp [cutFrom_eq_drop]

/-- Of the beginnings of a text there is one of each length. -/
theorem eq_of_isPrefix_append {start taken rest : Text} (starts : start <+: taken ++ rest)
    (size : taken.length = start.length) : start = taken :=
  (prefix_of_prefix_length_le starts (prefix_append taken rest)
    (Nat.le_of_eq size.symm)).eq_of_length size.symm

/-- A text is nothing, or a character at which nothing is recognised, or what is
recognised, before another text. -/
theorem cut_induction {motive : Text → Prop}
    (bounded : ∀ text length value, recognise text = some (length, value) →
      0 < length ∧ length ≤ text.length) (nil : motive [])
    (plain : ∀ head tail, recognise (head :: tail) = none → motive tail → motive (head :: tail))
    (taken : ∀ taken rest value, recognise (taken ++ rest) = some (taken.length, value) →
      motive rest → motive (taken ++ rest)) (text : Text) : motive text := by
  induction size : text.length using Nat.strongRecOn generalizing text with
  | ind size ih =>
    subst size
    cases text with
    | nil => exact nil
    | cons head tail =>
      cases recognised : recognise (head :: tail) with
      | none => exact plain head tail recognised (ih _ (by simp) tail rfl)
      | some found =>
        obtain ⟨length, value⟩ := found
        obtain ⟨positive, inside⟩ := bounded _ _ _ recognised
        have whole := take_append_drop length (head :: tail)
        have shorter : ((head :: tail).drop length).length < (head :: tail).length := by
          rw [length_drop]
          omega
        rw [← whole] at recognised ⊢
        refine taken _ _ value ?_ (ih _ shorter _ rfl)
        rw [recognised, length_take, Nat.min_eq_left inside]

/-- What a text is cut at was recognised in it. -/
theorem exists_of_mem_cutAll {text gap : Text} {value : α}
    (member : (value, gap) ∈ (cutAll recognise text).2) :
    ∃ rest length, rest <:+ text ∧ recognise rest = some (length, value) := by
  rw [cutAll] at member
  generalize 0 = skip at member
  induction text generalizing skip with
  | nil => cases skip <;> simp [cutFrom] at member
  | cons head tail ih =>
    have later {skip} (member : (value, gap) ∈ (cutFrom recognise skip tail).2) :
        ∃ rest length, rest <:+ head :: tail ∧ recognise rest = some (length, value) := by
      obtain ⟨rest, length, ends, recognised⟩ := ih _ member
      exact ⟨rest, length, ends.trans (suffix_cons _ _), recognised⟩
    cases skip with
    | succ skip => exact later member
    | zero =>
      cases recognised : recognise (head :: tail) with
      | none =>
        simp only [cutFrom, recognised] at member
        exact later member
      | some success =>
        obtain ⟨length, found⟩ := success
        simp only [cutFrom, recognised] at member
        rcases mem_cons.1 member with same | member
        · cases same
          exact ⟨_, length, suffix_rfl, recognised⟩
        · exact later member

end Cuts

/-! ## Scans -/

section Scans

variable {α : Type} {recognise : Option Char → Text → Option (Nat × α)} {offset : Nat}
  {prev : Option Char}

theorem getLast?_cons_or (head : Char) (tail : Text) (prev : Option Char) :
    (head :: tail).getLast?.or prev = tail.getLast?.or (some head) := by
  rw [getLast?_cons]
  cases tail.getLast? <;> rfl

/-- Where nothing is recognised, a scan goes on behind the character. -/
theorem scanFrom_of_none {head : Char} {tail : Text}
    (nothing : recognise prev (head :: tail) = none) :
    scanFrom recognise offset 0 prev (head :: tail) =
      scanFrom recognise (offset + 1) 0 (some head) tail := by
  rw [scanFrom, nothing]

/-- A scan goes over a text in which nothing is recognised. -/
theorem scanFrom_append {front rest : Text}
    (nothing : ∀ head tail, head :: tail <:+ front → ∀ prev,
      recognise prev (head :: (tail ++ rest)) = none) (offset : Nat) (prev : Option Char) :
    scanFrom recognise offset 0 prev (front ++ rest) =
      scanFrom recognise (offset + front.length) 0 (front.getLast?.or prev) rest := by
  induction front generalizing offset prev with
  | nil => rfl
  | cons head front ih =>
    have later := ih fun next tail ends =>
      nothing next tail (ends.trans (suffix_cons _ _))
    rw [cons_append, scanFrom_of_none (nothing head front suffix_rfl prev), later,
      getLast?_cons_or, length_cons,
      show offset + 1 + front.length = offset + (front.length + 1) by omega]

private theorem scanFrom_skip (taken rest : Text) :
    scanFrom recognise offset taken.length prev (taken ++ rest) =
      scanFrom recognise (offset + taken.length) 0 (taken.getLast?.or prev) rest := by
  induction taken generalizing offset prev with
  | nil => rfl
  | cons head taken ih =>
    rw [length_cons, cons_append, scanFrom, ih, getLast?_cons_or,
      show offset + (taken.length + 1) = offset + 1 + taken.length by omega]

/-- What is recognised is found, and the scan goes on behind it. -/
theorem scanFrom_of_some {taken rest : Text} {value : α} (nonempty : taken ≠ [])
    (recognised : recognise prev (taken ++ rest) = some (taken.length, value)) :
    scanFrom recognise offset 0 prev (taken ++ rest) =
      ⟨offset, offset + taken.length, value⟩ ::
        scanFrom recognise (offset + taken.length) 0 taken.getLast? rest := by
  obtain ⟨head, tail, rfl⟩ := exists_cons_of_ne_nil nonempty
  rw [cons_append] at recognised ⊢
  rw [scanFrom, recognised]
  dsimp only
  rw [show (head :: tail).length - 1 = tail.length from rfl, scanFrom_skip, length_cons,
    ← getLast?_cons_or head tail none, Option.or_none,
    show offset + (tail.length + 1) = offset + 1 + tail.length by omega]

/-- What a scan finds was recognised where it stands. -/
theorem exists_of_mem_scanFrom {skip : Nat} {text : Text} {found : Found α}
    (member : found ∈ scanFrom recognise offset skip prev text) :
    ∃ before rest prev length, text = before ++ rest ∧
      recognise prev rest = some (length, found.value) ∧
      found.start = offset + before.length ∧ found.stop = found.start + length := by
  induction text generalizing offset skip prev with
  | nil => simp [scanFrom] at member
  | cons head tail ih =>
    have later {skip prev} (member : found ∈ scanFrom recognise (offset + 1) skip prev tail) :
        ∃ before rest prev length, head :: tail = before ++ rest ∧
          recognise prev rest = some (length, found.value) ∧
          found.start = offset + before.length ∧ found.stop = found.start + length := by
      obtain ⟨before, rest, prev, length, rfl, recognised, start, stop⟩ :=
        ih member
      exact ⟨head :: before, rest, prev, length, rfl, recognised,
        by rw [start, length_cons]; omega, stop⟩
    cases skip with
    | succ skip => exact later member
    | zero =>
      rw [scanFrom] at member
      cases recognised : recognise prev (head :: tail) with
      | none =>
        rw [recognised] at member
        exact later member
      | some success =>
        obtain ⟨length, value⟩ := success
        rw [recognised] at member
        rcases mem_cons.1 member with rfl | member
        · exact ⟨[], head :: tail, prev, length, rfl, recognised, rfl, rfl⟩
        · exact later member

/-- What a scan finds is recognised where it stands. -/
theorem exists_of_mem_scan {text : Text} {found : Found α} (member : found ∈ scan recognise text) :
    ∃ before rest prev length, text = before ++ rest ∧
      recognise prev rest = some (length, found.value) ∧
      found.start = before.length ∧ found.stop = found.start + length := by
  simpa using exists_of_mem_scanFrom member

/-- Whether a recogniser takes something, and nothing beyond the end. -/
def Bounded (recognise : Option Char → Text → Option (Nat × α)) : Prop :=
  ∀ prev text length value, recognise prev text = some (length, value) →
    0 < length ∧ length ≤ text.length

/-- A scan finds places in order. -/
theorem ordered_scanFrom (bounded : Bounded recognise) {offset skip : Nat}
    {prev : Option Char} {text : Text} (inside : skip ≤ text.length) :
    Found.Ordered (offset + skip) (offset + text.length)
      (scanFrom recognise offset skip prev text) := by
  induction text generalizing offset skip prev with
  | nil =>
    obtain rfl : skip = 0 := by simpa using inside
    exact Nat.le_refl _
  | cons head tail ih =>
    have shift : offset + (head :: tail).length = offset + 1 + tail.length := by
      rw [length_cons]
      omega
    rw [shift]
    cases skip with
    | succ skip =>
      rw [scanFrom, show offset + (skip + 1) = offset + 1 + skip by omega]
      exact ih (by simpa using inside)
    | zero =>
      rw [scanFrom]
      cases recognised : recognise prev (head :: tail) with
      | none => exact (ih (Nat.zero_le _)).mono (by omega)
      | some success =>
        obtain ⟨length, value⟩ := success
        obtain ⟨positive, bound⟩ := bounded _ _ _ _ recognised
        rw [length_cons] at bound
        refine ⟨Nat.le_refl _, by dsimp only; omega, ?_⟩
        have rest := @ih (offset + 1) (length - 1) (some head) (by omega)
        rwa [show offset + 1 + (length - 1) = offset + length by omega] at rest

/-- What a scan finds stands in order. -/
theorem ordered_scan (bounded : Bounded recognise) (text : Text) :
    Found.Ordered 0 text.length (scan recognise text) := by
  simpa [scan] using @ordered_scanFrom _ _ bounded 0 0 none text (Nat.zero_le _)

end Scans

/-! ## Numbers -/

/-- The digits that write a number have their usual values. -/
theorem digitValue?_of_isDigit (isDigit : char.isDigit = true) :
    digitValue? char = some (char.toNat - '0'.toNat) := by
  have range : 48 ≤ char.toNat ∧ char.toNat ≤ 57 := by
    simpa [Char.isDigit, UInt32.le_iff_toNat_le] using isDigit
  have first : zeros.find? (fun first => first ≤ char.toNat && char.toNat < first + 10) =
      some 0x30 := by
    rw [zeros, find?_cons_of_pos]
    simp only [Bool.and_eq_true, decide_eq_true_eq]
    omega
  simp only [digitValue?, first, Option.map_some]
  rfl

/-- Every character of a written number is a digit. -/
theorem isDigit_of_mem_ofNat {number : Nat} (member : char ∈ ofNat number) :
    isDigit char = true := by
  have isDigit := Nat.isDigit_of_mem_toDigits (by decide) (by decide) member
  rw [Text.isDigit, digitValue?_of_isDigit isDigit]
  rfl

/-- A written number is read back. -/
theorem numberOf_ofNat (number : Nat) : numberOf (ofNat number) = number := by
  have values : ∀ digits : Text, (∀ digit ∈ digits, digit.isDigit = true) → ∀ start,
      digits.foldl (fun number digit => number * 10 + (digitValue? digit).getD 0) start =
        Nat.ofDigitChars 10 digits start := by
    intro digits
    induction digits with
    | nil => intros; rfl
    | cons digit digits ih =>
      intro all start
      rw [foldl_cons, digitValue?_of_isDigit (all digit (by simp)), Nat.ofDigitChars_cons,
        Nat.mul_comm start 10]
      exact ih (fun digit member => all digit (by simp [member])) _
  have read := values (ofNat number)
    (fun digit => Nat.isDigit_of_mem_toDigits (by decide) (by decide)) 0
  exact read.trans Nat.ofDigitChars_ten_toDigits

end Text

end Phrasebook
