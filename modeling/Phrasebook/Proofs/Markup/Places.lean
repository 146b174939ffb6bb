import Phrasebook.Markup.Stage
import Phrasebook.Proofs.Text.Blank
import Phrasebook.Proofs.Text.Scan

/-!
# The places that stages look at

What the recognisers of the stages take, spelled out: an attribute from the blank
before its name to its closing quote, an interpolation with its braces, a run between
its brackets. Every place takes something, so the places of a stage stand in order.
-/

namespace Phrasebook.Markup

open List Text Option

/-! ## Attributes -/

namespace Attribute

variable {text : Text} {nameLength : Text → Option Nat} {length : Nat} {item : Attribute}

/-- A text is its blanks and the rest. -/
theorem blanks_split (text : Text) :
    ∃ gap, Text.AllBlank gap ∧ gap.length = blanks text ∧ gap ++ text.drop (blanks text) = text :=
  ⟨text.takeWhile isBlank, all_eq_true.1 all_takeWhile, rfl,
    prefix_iff_eq_append.1 (List.takeWhile_prefix _)⟩

/-- A value that is closed ends at its quote. -/
theorem exists_of_length_takeWhile {quote : Char}
    (closed : (text.takeWhile (· != quote)).length ≠ text.length) :
    ∃ rest, text.takeWhile (· != quote) ++ quote :: rest = text := by
  induction text with
  | nil => simp at closed
  | cons head tail ih =>
    by_cases here : head = quote
    · exact ⟨tail, by simp [here]⟩
    · rw [takeWhile_cons_of_pos (by simpa using here)] at closed ⊢
      obtain ⟨rest, whole⟩ := ih (by simpa using closed)
      exact ⟨rest, by rw [cons_append, whole]⟩

/-- An attribute up to its opening quote as it is written, given the blanks around its
equals sign. -/
def Opening.spelled (found : Opening) (gap secondGap : Text) : Text :=
  found.lead :: (found.name ++ (gap ++ '=' :: (secondGap ++ [found.quote])))

/-- Whether a text is taken for a name by a recogniser of names, at the start of some
text. -/
def IsNameOf (nameLength : Text → Option Nat) (name : Text) : Prop :=
  ∃ behind, nameLength (name ++ behind) = some name.length

/-- An opening is spelled with blanks around its equals sign. -/
theorem opening_spelled {found : Opening} (opened : opening nameLength text = some found) :
    ∃ gap secondGap, text = found.spelled gap secondGap ++ found.inside ∧
      found.insideStart = (found.spelled gap secondGap).length ∧
      isBlank found.lead = true ∧ Text.AllBlank gap ∧
      (found.quote = '"' ∨ found.quote = '\'') ∧ IsNameOf nameLength found.name ∧
      Text.AllBlank secondGap := by
  cases text with
  | nil => cases opened
  | cons lead rest =>
    simp only [opening, bind_eq_bind] at opened
    split at opened
    · cases opened
    · rename_i blank
      obtain ⟨size, name, opened⟩ := bind_eq_some_iff.1 opened
      split at opened
      · rename_i afterSign sign
        split at opened
        · rename_i quote inside quoted
          split at opened
          · cases opened
          · rename_i isQuote
            cases opened
            obtain ⟨gap, gapBlank, gapSize, whole⟩ := blanks_split (rest.drop size)
            obtain ⟨secondGap, secondBlank, secondSize, behindSign⟩ := blanks_split afterSign
            rw [sign] at whole
            rw [quoted] at behindSign
            have named : (rest.take size).length = size := by
              have room := congrArg List.length whole
              simp only [length_append, length_cons, length_drop] at room
              rw [length_take]
              omega
            refine ⟨gap, secondGap, ?_, ?_, by simpa using blank, gapBlank, ?_, ⟨rest.drop size, ?_⟩,
              secondBlank⟩
            · simp only [Opening.spelled, cons_append, append_assoc, nil_append,
                behindSign, whole, take_append_drop]
            · simp only [Opening.spelled, length_cons, length_append, length_nil, named]
              omega
            · simpa [Classical.or_iff_not_imp_left] using isQuote
            · rw [take_append_drop, named, name]
        · cases opened
      · cases opened

/-- The opening of an attribute. -/
def start (item : Attribute) : Opening :=
  ⟨item.lead, item.name, item.quote, item.valueStart, []⟩

/-- An attribute takes its opening, its value and its closing quote. -/
theorem recognise_spelled (recognised : recognise nameLength text = some (length, item)) :
    ∃ gap secondGap rest,
      text = item.start.spelled gap secondGap ++ (item.value ++ [item.quote]) ++ rest ∧
      length = (item.start.spelled gap secondGap ++ (item.value ++ [item.quote])).length ∧
      isBlank item.lead = true ∧ Text.AllBlank gap ∧
      (item.quote = '"' ∨ item.quote = '\'') ∧ IsNameOf nameLength item.name ∧
      Text.AllBlank secondGap ∧ item.valueStart = (item.start.spelled gap secondGap).length := by
  simp only [recognise, bind_eq_bind] at recognised
  obtain ⟨found, opened, recognised⟩ := bind_eq_some_iff.1 recognised
  split at recognised
  · cases recognised
  · rename_i closed
    cases recognised
    obtain ⟨gap, secondGap, rfl, size, blank, gapBlank, isQuote, isName, secondBlank⟩ :=
      opening_spelled opened
    obtain ⟨behind, behindQuote⟩ := exists_of_length_takeWhile (by simpa using closed)
    refine ⟨gap, secondGap, behind, ?_, ?_, blank, gapBlank, isQuote, isName, secondBlank, size⟩
    · rw [append_assoc, append_assoc, singleton_append, behindQuote]
      rfl
    · rw [Attribute.length, length_append, length_append, length_singleton, size, Nat.add_assoc]
      rfl

/-- A value holds no quote like those around it. -/
theorem quote_not_mem_value (recognised : recognise nameLength text = some (length, item)) :
    item.quote ∉ item.value := by
  simp only [recognise, bind_eq_bind] at recognised
  obtain ⟨found, -, recognised⟩ := bind_eq_some_iff.1 recognised
  split at recognised
  · cases recognised
  · cases recognised
    intro member
    simpa using all_eq_true.1 all_takeWhile _ member

/-- A bound template literal takes its opening, the literal with the blanks around it
and its closing quote. -/
theorem recogniseTemplate_spelled (recognised : Stage.recogniseTemplate text = some (length, item)) :
    ∃ gap secondGap before behind rest,
      text = item.start.spelled gap secondGap ++ (before ++ Char.ofNat 0x60 ::
        (item.value ++ Char.ofNat 0x60 :: (behind ++ [item.quote]))) ++ rest ∧
      length = (item.start.spelled gap secondGap ++ (before ++ Char.ofNat 0x60 ::
        (item.value ++ Char.ofNat 0x60 :: (behind ++ [item.quote])))).length ∧
      isBlank item.lead = true ∧ Text.AllBlank gap ∧ Text.AllBlank before ∧
      (item.quote = '"' ∨ item.quote = '\'') ∧ Text.AllBlank secondGap ∧
      item.valueStart = (item.start.spelled gap secondGap ++ before).length + 1 := by
  simp only [Stage.recogniseTemplate, bind_eq_bind] at recognised
  obtain ⟨found, opened, recognised⟩ := bind_eq_some_iff.1 recognised
  split at recognised
  · rename_i tick content ticked
    split at recognised
    · cases recognised
    · rename_i isTick
      split at recognised
      · rename_i closed
        cases recognised
        obtain ⟨gap, secondGap, rfl, size, blank, gapBlank, isQuote, -, secondBlank⟩ :=
          opening_spelled opened
        obtain ⟨before, beforeBlank, beforeSize, inside⟩ := blanks_split found.inside
        obtain rfl : tick = Char.ofNat 0x60 := by simpa using isTick
        simp only [Bool.and_eq_true, decide_eq_true_eq, beq_iff_eq] at closed
        obtain ⟨tail, body⟩ := exists_of_length_takeWhile (Nat.ne_of_lt closed.1)
        generalize content.takeWhile (· != Char.ofNat 0x60) = value at *
        subst body
        have passed : (value ++ Char.ofNat 0x60 :: tail).drop (value.length + 1) = tail := by simp
        rw [passed] at closed ⊢
        obtain ⟨behind, -, behindSize, whole⟩ := blanks_split tail
        obtain ⟨rest, last⟩ := head?_eq_some_iff.1 closed.2
        rw [last] at whole
        rw [ticked] at inside
        refine ⟨gap, secondGap, before, behind, rest, ?_, ?_, blank, gapBlank, beforeBlank, isQuote,
          secondBlank, ?_⟩
        · simp only [append_assoc, cons_append, nil_append, whole, inside]
          rfl
        · simp only [length_append, length_cons, length_nil, size]
          change _ = (found.spelled gap secondGap).length + _
          omega
        · simp only [length_append, size, beforeSize]
          rfl
      · cases recognised
  · cases recognised

/-- The body of a bound template literal ends at the first backtick. -/
theorem tick_not_mem_value (recognised : Stage.recogniseTemplate text = some (length, item)) :
    Char.ofNat 0x60 ∉ item.value := by
  simp only [Stage.recogniseTemplate, bind_eq_bind] at recognised
  obtain ⟨found, -, recognised⟩ := bind_eq_some_iff.1 recognised
  split at recognised
  · split at recognised
    · cases recognised
    · rename_i tick content ticked isTick
      obtain rfl : tick = Char.ofNat 0x60 := by simpa using isTick
      split at recognised
      · cases recognised
        intro member
        simpa using all_eq_true.1 all_takeWhile _ member
      · cases recognised
  · cases recognised

end Attribute

/-! ## Interpolations and literals -/

namespace Interpolation

variable {text expr : Text} {length : Nat}

/-- An interpolation is recognised up to the nearest closing braces. -/
theorem recognise_eq_some_iff :
    recognise text = some (length, expr) ↔ length = (opening ++ expr ++ closing).length ∧
        ¬ closing <:+: expr ++ ['}'] ∧ opening ++ expr ++ closing <+: text := by
  have last : closing.dropLast = ['}'] := rfl
  simp only [recognise, bind_eq_bind, bind_eq_some_iff, strip?_eq_some_iff,
    Prod.exists, cutAt?_eq_some_iff (show closing ≠ [] by decide), last, Option.pure_def,
    some.injEq, Prod.mk.injEq]
  constructor
  · rintro ⟨inside, rfl, body, rest, ⟨rfl, open_⟩, rfl, rfl⟩
    exact ⟨by simp [Nat.add_assoc], open_, ⟨rest, by simp⟩⟩
  · rintro ⟨rfl, open_, rest, rfl⟩
    exact ⟨expr ++ closing ++ rest, by simp, expr, rest, ⟨rfl, open_⟩,
      by simp [Nat.add_assoc], rfl⟩

/-- A substitution is recognised up to the nearest closing brace. -/
theorem recogniseSubstitution_eq_some_iff :
    recogniseSubstitution text = some (length, expr) ↔
      length = (['$', '{'] ++ expr ++ ['}']).length ∧
        ¬ ['}'] <:+: expr ∧ ['$', '{'] ++ expr ++ ['}'] <+: text := by
  have last : ['}'].dropLast = [] := rfl
  simp only [recogniseSubstitution, bind_eq_bind, bind_eq_some_iff,
    strip?_eq_some_iff, Prod.exists, cutAt?_eq_some_iff (show ['}'] ≠ [] by decide), last,
    append_nil, Option.pure_def, some.injEq, Prod.mk.injEq]
  constructor
  · rintro ⟨inside, rfl, body, rest, ⟨rfl, open_⟩, rfl, rfl⟩
    exact ⟨by simp, open_, ⟨rest, by simp⟩⟩
  · rintro ⟨rfl, open_, rest, rfl⟩
    exact ⟨expr ++ ['}'] ++ rest, by simp, expr, rest, ⟨rfl, open_⟩,
      by simp, rfl⟩

end Interpolation

namespace Quotation

variable {quote : Char} {text : Text} {length : Nat}

/-- A body ends before its closing quote. -/
theorem bodyLength_spelled (closed : bodyLength quote text = some length) :
    ∃ body rest, text = body ++ quote :: rest ∧ length = body.length := by
  fun_induction bodyLength quote text generalizing length with
  | case1 => cases closed
  | case2 head tail here =>
    cases closed
    obtain rfl : head = quote := by simpa using here
    exact ⟨[], tail, rfl, rfl⟩
  | case3 => cases closed
  | case4 => cases closed
  | case5 head _ _ escaped rest _ ih =>
    obtain ⟨size, later, rfl⟩ := map_eq_some_iff.1 closed
    obtain ⟨body, behind, rfl, rfl⟩ := ih later
    exact ⟨head :: escaped :: body, behind, rfl, rfl⟩
  | case6 head tail _ _ ih =>
    obtain ⟨size, later, rfl⟩ := map_eq_some_iff.1 closed
    obtain ⟨body, behind, rfl, rfl⟩ := ih later
    exact ⟨head :: body, behind, rfl, rfl⟩

/-- A literal takes its body and the quotes around it. -/
theorem recognise_spelled {quotes : List Char} {body : Text}
    (recognised : recognise quotes text = some (length, quote, body)) :
    ∃ rest, text = quote :: (body ++ [quote]) ++ rest ∧
      length = (quote :: (body ++ [quote])).length ∧ quote ∈ quotes := by
  cases text with
  | nil => cases recognised
  | cons first rest =>
    simp only [recognise, bind_eq_bind] at recognised
    split at recognised
    · cases recognised
    · rename_i known
      obtain ⟨size, closed, recognised⟩ := bind_eq_some_iff.1 recognised
      obtain ⟨body, behind, rfl, rfl⟩ := bodyLength_spelled closed
      cases recognised
      rw [take_left]
      exact ⟨behind, by simp, by simp, by simpa using known⟩

end Quotation

/-! ## Places in order -/

theorem bounded_attribute (nameLength : Text → Option Nat) :
    Text.Bounded fun _ => Attribute.recognise nameLength := by
  intro _ text length item recognised
  obtain ⟨gap, secondGap, rest, rfl, rfl, -⟩ := Attribute.recognise_spelled recognised
  simp only [length_append, length_singleton]
  omega

theorem bounded_template : Text.Bounded fun _ => Stage.recogniseTemplate := by
  intro _ text length item recognised
  obtain ⟨gap, secondGap, before, behind, rest, rfl, rfl, -⟩ :=
    Attribute.recogniseTemplate_spelled recognised
  simp only [length_append, length_cons]
  omega

theorem bounded_interpolation : Text.Bounded fun _ => Interpolation.recognise := by
  intro _ text length expr recognised
  obtain ⟨rfl, -, starts⟩ := Interpolation.recognise_eq_some_iff.1 recognised
  exact ⟨by simp [Interpolation.opening], starts.length_le⟩

theorem bounded_quotation (quotes : List Char) :
    Text.Bounded fun _ => Quotation.recognise quotes := by
  rintro _ text length ⟨quote, body⟩ recognised
  obtain ⟨rest, rfl, rfl, -⟩ := Quotation.recognise_spelled recognised
  simp

theorem bounded_run (eligible : Text → Bool) : Text.Bounded (Run.recognise eligible) := by
  intro prev text length run recognised
  simp only [Run.recognise] at recognised
  split at recognised
  · simp only [ite_none_right_eq_some, some.injEq, Prod.mk.injEq, Bool.and_eq_true,
      Bool.not_eq_true', isEmpty_eq_false_iff] at recognised
    obtain ⟨⟨⟨nonempty, -⟩, -⟩, rfl, -⟩ := recognised
    exact ⟨length_pos_iff.2 nonempty, (List.takeWhile_prefix _).length_le⟩
  · cases recognised

namespace Stage

/-- The places of a stage are in order. -/
theorem ordered_placed {α : Type} {pieces : Found α → Option (List Piece)}
    {places : List (Found α)} {length : Nat} (ordered : Found.Ordered 0 length places) :
    Found.Ordered 0 length (placed pieces places) := by
  refine ordered.filterMap fun place kept kept_eq => ?_
  obtain ⟨value, -, rfl⟩ := map_eq_some_iff.1 kept_eq
  exact ⟨rfl, rfl⟩

/-- What a stage finds stands in order. -/
theorem ordered_find (functions : Functions) (buffer : Text) (stage : Stage) :
    Found.Ordered 0 buffer.length (find functions buffer stage) := by
  cases stage with
  | plainAttribute =>
    exact ordered_placed (ordered_scan (bounded_attribute _) buffer).filter
  | templateAttribute => exact ordered_placed (ordered_scan bounded_template buffer).filter
  | directiveLiteral =>
    exact ordered_placed (ordered_scan (bounded_attribute _) buffer).filter
  | interpolationLiteral => exact ordered_placed (ordered_scan bounded_interpolation buffer)
  | mixedContent => exact ordered_placed (ordered_scan (bounded_run _) buffer)
  | plainText => exact ordered_placed (ordered_scan (bounded_run _) buffer)

end Stage

end Phrasebook.Markup
