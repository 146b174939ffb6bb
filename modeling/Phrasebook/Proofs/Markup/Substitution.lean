import Phrasebook.Proofs.Markup.Places

/-!
# Substitutions up to the nearest brace

The markup takes a substitution of a template literal to end at the nearest closing brace,
and every dollar sign before an opening brace to start one. A literal is a row of fixed
parts and holes however it is read; this module says for which rows the markup reads the
parts and holes of the row, and that reading the same holes is enough for that.
-/

namespace Phrasebook.Markup

open List Text

open Interpolation (recogniseSubstitution recogniseSubstitution_eq_some_iff)

variable {text : Text} {cuts : List (Text × Text)}

/-- What a template literal holds behind its first fixed part. -/
def substituted : List (Text × Text) → Text
  | [] => []
  | cut :: cuts => ['$', '{'] ++ cut.1 ++ ['}'] ++ cut.2 ++ substituted cuts

/-- A template literal is its fixed parts with the substitutions between them. -/
theorem eq_append_substituted (text : Text) :
    text = (cutAll recogniseSubstitution text).1 ++
      substituted (cutAll recogniseSubstitution text).2 := by
  induction text using @Text.cut_induction _ recogniseSubstitution with
  | bounded text length value recognised =>
    obtain ⟨rfl, -, starts⟩ := recogniseSubstitution_eq_some_iff.1 recognised
    exact ⟨by simp, starts.length_le⟩
  | nil => rfl
  | plain head tail plain ih =>
    rw [cutAll_of_none plain]
    exact congrArg (head :: ·) ih
  | taken taken rest value recognised ih =>
    obtain ⟨size, -, starts⟩ := recogniseSubstitution_eq_some_iff.1 recognised
    obtain rfl := eq_of_isPrefix_append starts size
    rw [cutAll_of_some (by simp) recognised, substituted]
    simp [← ih]

/-! ## One brace -/

private theorem recogniseSubstitution_hole {hole : Text} (free : '}' ∉ hole) (rest : Text) :
    recogniseSubstitution (['$', '{'] ++ hole ++ ['}'] ++ rest) =
      some ((['$', '{'] ++ hole ++ ['}']).length, hole) := by
  refine recogniseSubstitution_eq_some_iff.2 ⟨rfl, fun occurs => ?_, prefix_append _ _⟩
  exact free (occurs.subset (by simp))

private theorem not_mem_of_recogniseSubstitution {hole : Text} {length : Nat}
    (recognised : recogniseSubstitution text = some (length, hole)) : '}' ∉ hole := by
  intro member
  obtain ⟨before, behind, rfl⟩ := append_of_mem member
  exact (recogniseSubstitution_eq_some_iff.1 recognised).2.1 ⟨before, behind, by simp⟩

/-- Where nothing opens a substitution nothing is cut. -/
theorem cutAll_append {front rest : Text} (closed : ¬ ['$', '{'] <:+: front)
    (apart : rest.head? ≠ some '{') :
    cutAll recogniseSubstitution (front ++ rest) =
      (front ++ (cutAll recogniseSubstitution rest).1,
        (cutAll recogniseSubstitution rest).2) := by
  induction front with
  | nil => rfl
  | cons head front ih =>
    have nothing : recogniseSubstitution (head :: front ++ rest) = none := by
      refine Option.eq_none_iff_forall_ne_some.2 fun found recognised => ?_
      obtain ⟨-, -, behind, whole⟩ := recogniseSubstitution_eq_some_iff.1 recognised
      cases front with
      | nil =>
        obtain ⟨rfl, starts⟩ := List.cons.inj whole
        obtain rfl : _ = rest := starts
        exact apart rfl
      | cons second front =>
        obtain ⟨rfl, later⟩ := List.cons.inj whole
        obtain ⟨rfl, -⟩ := List.cons.inj later
        exact closed ⟨[], front, rfl⟩
    rw [cons_append] at nothing ⊢
    rw [cutAll_of_none nothing, ih fun occurs =>
      closed (occurs.trans (suffix_cons _ _).isInfix)]
    rfl

/-- The first hole ends at the nearest brace behind its opening. -/
theorem cutAll_hole {front hole : Text} (closed : ¬ ['$', '{'] <:+: front) (free : '}' ∉ hole)
    (rest : Text) :
    cutAll recogniseSubstitution (front ++ (['$', '{'] ++ hole ++ ['}'] ++ rest)) =
      (front, (hole, (cutAll recogniseSubstitution rest).1) ::
        (cutAll recogniseSubstitution rest).2) := by
  rw [cutAll_append closed (by simp),
    cutAll_of_some (by simp) (recogniseSubstitution_hole free rest), append_nil]

/-- A text is cut at an opening or, without one, nowhere before its first closing brace. -/
theorem cutAll_brace {inside : Text} (free : '}' ∉ inside) (rest : Text) :
    let later := cutAll recogniseSubstitution rest
    (¬ ['$', '{'] <:+: inside ∧
      cutAll recogniseSubstitution (inside ++ '}' :: rest) =
        (inside ++ '}' :: later.1, later.2)) ∨
    ∃ front hole, inside = front ++ ['$', '{'] ++ hole ∧
      cutAll recogniseSubstitution (inside ++ '}' :: rest) =
        (front, (hole, later.1) :: later.2) := by
  intro later
  cases opened : cutAt? ['$', '{'] inside with
  | none =>
    have closed := cutAt?_eq_none_iff.1 opened
    refine .inl ⟨closed, ?_⟩
    have brace : recogniseSubstitution ('}' :: rest) = none := rfl
    rw [cutAll_append closed (by simp), cutAll_of_none brace]
  | some cut =>
    obtain ⟨front, hole⟩ := cut
    obtain ⟨rfl, closed⟩ := (cutAt?_eq_some_iff (by decide)).1 opened
    refine .inr ⟨front, hole, rfl, ?_⟩
    have cut := @cutAll_hole front hole
      (fun occurs => closed (occurs.trans (prefix_append _ _).isInfix))
      (fun member => free (by simp [member])) rest
    simpa using cut

/-- An opening with a brace behind it lets a text be cut, there or before it. -/
theorem exists_cutAll_of_opening {front rest : Text} (brace : '}' ∈ rest) :
    ∃ before cut cuts, cutAll recogniseSubstitution (front ++ ['$', '{'] ++ rest) =
      (before, cut :: cuts) ∧ before.length ≤ front.length := by
  cases opened : cutAt? ['$', '{'] (front ++ ['$', '{']) with
  | none => exact absurd ⟨front, [], by simp⟩ (cutAt?_eq_none_iff.1 opened)
  | some cut =>
    obtain ⟨before, between⟩ := cut
    obtain ⟨whole, closed⟩ := (cutAt?_eq_some_iff (by decide)).1 opened
    obtain ⟨hole, behind, split, free⟩ :=
      eq_append_cons_of_mem (show '}' ∈ between ++ rest by simp [brace])
    have cut := @cutAll_hole before hole
      (fun occurs => closed (occurs.trans (prefix_append _ _).isInfix)) free behind
    have same : front ++ ['$', '{'] ++ rest = before ++ (['$', '{'] ++ hole ++ ['}'] ++ behind) := by
      rw [whole, append_assoc, split]
      simp
    refine ⟨before, _, _, by rw [same]; exact cut, ?_⟩
    have lengths := congrArg List.length whole
    simp only [length_append, length_cons, length_nil] at lengths
    omega

/-! ## Rows of parts and holes -/

theorem substituted_cons (hole part : Text) (cuts : List (Text × Text)) :
    substituted ((hole, part) :: cuts) = ['$', '{'] ++ hole ++ ['}'] ++
    (part ++ substituted cuts) := by
  simp [substituted]

/-- Whether the markup reads a row as it stands: every dollar sign before an opening brace
starts a hole of the row, except behind the last brace, and no hole holds a closing
brace. -/
def PlainRow : (part : Text) → List (Text × Text) → Prop
  | part, [] => ∀ hole, ¬ ['$', '{'] ++ hole ++ ['}'] <:+: part
  | part, (hole, next) :: cuts => ¬ ['$', '{'] <:+: part ∧ '}' ∉ hole ∧ PlainRow next cuts

/-- The markup cuts nothing exactly where no opening has a brace behind it. -/
theorem cutAll_eq_self_iff :
    cutAll recogniseSubstitution text = (text, []) ↔
      ∀ hole, ¬ ['$', '{'] ++ hole ++ ['}'] <:+: text := by
  constructor
  · rintro uncut hole ⟨front, rest, rfl⟩
    obtain ⟨before, cut, cuts, whole, -⟩ :=
      @exists_cutAll_of_opening front (hole ++ '}' :: rest) (by simp)
    simp only [append_assoc, cons_append, nil_append] at uncut whole
    rw [uncut] at whole
    cases whole
  · intro nowhere
    induction text with
    | nil => rfl
    | cons head tail ih =>
      have nothing : recogniseSubstitution (head :: tail) = none := by
        refine Option.eq_none_iff_forall_ne_some.2 fun found recognised => ?_
        exact nowhere _ (recogniseSubstitution_eq_some_iff.1 recognised).2.2.isInfix
      rw [cutAll_of_none nothing, ih fun hole occurs =>
        nowhere hole (occurs.trans (suffix_cons _ _).isInfix)]

/-- The markup reads a row as it stands exactly when the row is plain. -/
theorem cutAll_substituted_iff {first : Text} :
    cutAll recogniseSubstitution (first ++ substituted cuts) = (first, cuts) ↔
      PlainRow first cuts := by
  induction cuts generalizing first with
  | nil => simpa [substituted, PlainRow] using cutAll_eq_self_iff
  | cons cut cuts ih =>
    obtain ⟨hole, part⟩ := cut
    rw [substituted_cons, PlainRow, ← ih]
    constructor
    · intro read
      have free : '}' ∉ hole := by
        obtain ⟨_, _, -, recognised⟩ := exists_of_mem_cutAll
          (show (hole, part) ∈ (cutAll recogniseSubstitution _).2 by rw [read]; simp)
        exact not_mem_of_recogniseSubstitution recognised
      have closed : ¬ ['$', '{'] <:+: first := by
        rintro ⟨front, behind, rfl⟩
        obtain ⟨before, cut, later, cutEq, shorter⟩ := @exists_cutAll_of_opening front
          (behind ++ (['$', '{'] ++ hole ++ ['}'] ++ (part ++ substituted cuts))) (by simp)
        simp only [append_assoc, cons_append, nil_append] at read cutEq
        rw [read, Prod.mk.injEq] at cutEq
        rw [← cutEq.1] at shorter
        simp only [length_append, length_cons] at shorter
        omega
      rw [cutAll_hole closed free] at read
      simp only [Prod.mk.injEq, List.cons.injEq, true_and] at read
      exact ⟨closed, free, Prod.ext read.1 read.2⟩
    · rintro ⟨closed, free, read⟩
      rw [cutAll_hole closed free, read]

/-- A row has no more holes than the markup reads in it, if none of them holds a brace. -/
theorem length_le_cutAll {cuts : List (Text × Text)} (free : ∀ cut ∈ cuts, '}' ∉ cut.1)
    (front : Text) :
    cuts.length ≤ (cutAll recogniseSubstitution (front ++ substituted cuts)).2.length := by
  induction cuts generalizing front with
  | nil => exact Nat.zero_le _
  | cons cut cuts ih =>
    obtain ⟨hole, part⟩ := cut
    obtain ⟨holeFree, laterFree⟩ := forall_mem_cons.1 free
    generalize size : front.length = length
    induction length using Nat.strongRecOn generalizing front with
    | ind length shorter =>
      by_cases brace : '}' ∈ front
      · obtain ⟨inside, behind, rfl, insideFree⟩ := eq_append_cons_of_mem brace
        have later := shorter behind.length (by simp at size; omega) behind rfl
        rw [append_assoc, cons_append]
        rcases cutAll_brace insideFree (behind ++ substituted ((hole, part) :: cuts)) with
          ⟨-, cut⟩ | ⟨_, _, -, cut⟩
        · rwa [cut]
        · rw [cut]
          exact Nat.le_succ_of_le later
      · have later := ih laterFree part
        have whole : front ++ substituted ((hole, part) :: cuts) =
            (front ++ ['$', '{'] ++ hole) ++ '}' :: (part ++ substituted cuts) := by
          simp [substituted_cons]
        rw [whole]
        rcases cutAll_brace (show '}' ∉ front ++ ['$', '{'] ++ hole by simp [brace, holeFree])
          (part ++ substituted cuts) with ⟨closed, -⟩ | ⟨_, _, -, cut⟩
        · exact absurd ⟨front, hole, rfl⟩ closed
        · rw [cut]
          exact Nat.succ_le_succ later

/-- A text without its blanks. -/
def unblanked (text : Text) : Text :=
  text.filter fun char => !isBlank char

private theorem mem_unblanked_iff {char : Char} (other : isBlank char = false) :
    char ∈ unblanked text ↔ char ∈ text := by
  simp [unblanked, other]

/-- An opening more makes a difference up to blanks. -/
private theorem eq_nil_of_unblanked {extra hole other : Text}
    (whole : ['$', '{'] ++ hole = extra ++ (['$', '{'] ++ other))
    (same : unblanked hole = unblanked other) : extra = [] := by
  have lengths := congrArg (fun text => (unblanked text).length) whole
  simp only [unblanked, filter_append, length_append] at lengths same
  rw [same] at lengths
  cases extra with
  | nil => rfl
  | cons head extra =>
    obtain ⟨rfl, -⟩ := List.cons.inj whole
    have counted : ('$' :: extra).filter (fun char => !isBlank char) =
        '$' :: extra.filter fun char => !isBlank char := rfl
    rw [counted, length_cons] at lengths
    omega

/-- Two openings with the same behind them, up to blanks, are one opening. -/
private theorem eq_of_same_hole {first hole front other : Text}
    (split : first ++ (['$', '{'] ++ hole) = front ++ (['$', '{'] ++ other))
    (same : unblanked other = unblanked hole) : front = first ∧ other = hole := by
  rcases append_eq_append_iff.1 split with ⟨extra, rfl, rest⟩ | ⟨extra, rfl, rest⟩
  · obtain rfl := eq_nil_of_unblanked rest same.symm
    simpa using rest.symm
  · obtain rfl := eq_nil_of_unblanked rest same
    simpa using rest

/-- Holes that the markup reads hold no closing brace. -/
private theorem not_mem_of_same_holes
    (same : (cutAll recogniseSubstitution text).2.map (fun cut => unblanked cut.1) =
      cuts.map fun cut => unblanked cut.1) : ∀ cut ∈ cuts, '}' ∉ cut.1 := by
  intro cut member
  have held : unblanked cut.1 ∈ cuts.map fun cut => unblanked cut.1 := mem_map_of_mem member
  rw [← same] at held
  obtain ⟨⟨hole, part⟩, read, equal⟩ := mem_map.1 held
  obtain ⟨_, _, -, recognised⟩ := exists_of_mem_cutAll read
  rw [← mem_unblanked_iff (by decide), ← equal, mem_unblanked_iff (by decide)]
  exact not_mem_of_recogniseSubstitution recognised

/-- Reading the same holes, up to blanks, is reading the row as it stands. -/
theorem cutAll_of_same_holes {first : Text}
    (same : (cutAll recogniseSubstitution (first ++ substituted cuts)).2.map
      (fun cut => unblanked cut.1) = cuts.map fun cut => unblanked cut.1) :
    cutAll recogniseSubstitution (first ++ substituted cuts) = (first, cuts) := by
  induction cuts generalizing first with
  | nil =>
    have whole := eq_append_substituted (first ++ substituted [])
    generalize cutAll recogniseSubstitution (first ++ substituted []) = cut at same whole
    obtain ⟨before, later⟩ := cut
    obtain rfl : later = [] := by simpa using same
    simpa [substituted, eq_comm] using whole
  | cons cut cuts ih =>
    obtain ⟨hole, part⟩ := cut
    have free := not_mem_of_same_holes same
    generalize size : first.length = length
    induction length using Nat.strongRecOn generalizing first with
    | ind length shorter =>
      by_cases brace : '}' ∈ first
      · obtain ⟨inside, behind, rfl, insideFree⟩ := eq_append_cons_of_mem brace
        rw [append_assoc, cons_append] at same ⊢
        rcases cutAll_brace insideFree (behind ++ substituted ((hole, part) :: cuts)) with
          ⟨-, cut⟩ | ⟨_, _, -, cut⟩
        · rw [cut] at same ⊢
          rw [shorter behind.length (by simp at size; omega) same rfl]
        · -- A hole that ends in a fixed part is one too many.
          have more := length_le_cutAll free behind
          have lengths := congrArg List.length same
          rw [cut] at lengths
          simp only [length_map, length_cons] at lengths more
          omega
      · have holeFree : '}' ∉ hole := free (hole, part) mem_cons_self
        have whole : first ++ substituted ((hole, part) :: cuts) =
            (first ++ ['$', '{'] ++ hole) ++ '}' :: (part ++ substituted cuts) := by
          simp [substituted_cons]
        rw [whole] at same ⊢
        rcases cutAll_brace (show '}' ∉ first ++ ['$', '{'] ++ hole by simp [brace, holeFree])
          (part ++ substituted cuts) with ⟨closed, -⟩ | ⟨front, other, split, cut⟩
        · exact absurd ⟨first, hole, rfl⟩ closed
        · rw [cut] at same ⊢
          obtain ⟨sameHole, sameLater⟩ := List.cons.inj same
          rw [append_assoc, append_assoc] at split
          obtain ⟨rfl, rfl⟩ := eq_of_same_hole split sameHole
          rw [ih sameLater]

end Phrasebook.Markup
