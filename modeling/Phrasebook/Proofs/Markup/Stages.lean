import Phrasebook.Proofs.Markup.Body
import Phrasebook.Proofs.Markup.Rewriting
import Phrasebook.Proofs.Markup.Substitution

/-!
# What the stages keep

Every stage rewrites its buffer: it puts texts without brackets in the place of
stretches. Each of these texts has a character near its start that no mark holds, with at
most the name of the function before it. The stages for attributes and interpolations
copy the expressions that they find, with whatever brackets these hold; the stages for
runs see no bracket at all. Where the names are made of name characters, marks stay marks
and no other comments come up.
-/

namespace Phrasebook.Markup

open List Text

variable {name text buffer : Text}

/-! ## Texts that stages bring -/

/-- Whether a text starts with a character that no mark holds, or with the name and such
a character. -/
def Opens (name text : Text) : Prop :=
  ∃ lead first rest, (lead = [] ∨ lead = name) ∧ text = lead ++ first :: rest ∧
    isMarkPart first = false

private theorem opens_cons {first : Char} (other : isMarkPart first = false) (rest : Text) :
    Opens name (first :: rest) :=
  ⟨[], first, rest, .inl rfl, rfl, other⟩

private theorem Opens.append (opens : Opens name text) (behind : Text) : Opens name
    (text ++ behind) := by
  obtain ⟨lead, first, rest, isLead, rfl, other⟩ := opens
  exact ⟨lead, first, rest ++ behind, isLead, by simp, other⟩

/-- What holds of every text that a stage brings into its buffer. -/
structure Brought (name text : Text) : Prop where
  opens : Opens name text
  unbracketed : Run.Unbracketed text
  ends : ∀ char ∈ text.getLast?, char ≠ '-'

namespace Brought

private theorem of_ends {front : Text} {last : Char} (opens : Opens name front)
    (unbracketed : Run.Unbracketed (front ++ [last])) (ends : last ≠ '-') :
    Brought name (front ++ [last]) :=
  ⟨opens.append _, unbracketed, by simpa using ends⟩

/-- Behind a name of name characters, what is brought in neither opens nor closes a
comment. -/
theorem inert (isName : ∀ char ∈ name, isNamePart char = true)
    (brought : Brought name text) : Inert text := by
  obtain ⟨⟨lead, first, rest, isLead, rfl, other⟩, unbracketed, ends⟩ := brought
  refine ⟨by simp, unbracketed, fun char starts => ?_, ends⟩
  have start : isMarkPart char = false ∨ isNamePart char = true := by
    rcases isLead with rfl | rfl
    · cases starts
      exact .inl other
    · cases lead with
      | nil =>
        cases starts
        exact .inl other
      | cons head lead =>
        cases starts
        exact .inr (isName char (by simp))
  constructor <;> rintro rfl <;> revert start <;> decide

end Brought

/-- A call may be brought in when its expressions hold no bracket. -/
theorem brought_call {scope : Scope} (unbracketed : scope.Unbracketed) {text : Text} {quote : Char}
    {exprs : List Text} (quoted : Run.isBracket quote = false)
    (passed : ∀ expr ∈ exprs, Run.Unbracketed expr) :
    Brought scope.functions.markup (scope.call text quote exprs) := by
  have plain := @Scope.Unbracketed.call _ unbracketed text _ _ quoted passed
  obtain ⟨inside, shape⟩ := Call.exists_render_eq scope.functions.markup
    (Key.ofText text scope.path scope.keyLength) quote exprs
  rw [Scope.call, shape] at plain ⊢
  exact .of_ends ⟨_, '(', inside, .inr rfl, rfl, by decide⟩ plain (by decide)

/-! ## Attributes -/

namespace Attribute

variable {gap : Text}

/-- A character of the name of a plain attribute. -/
def isPlainPart (char : Char) : Bool :=
  isWord char || char == '.' || char == '-'

theorem isPlainPart_of_letter {char : Char}
    (letter : (char.isAlpha || char == '_') = true) : isPlainPart char = true := by
  have small : char.toNat < 0x80 := by
    rcases Bool.or_eq_true_iff.1 letter with isAlpha | line
    · have most : char.val ≤ 'z'.val := by
        have cases : (char.isUpper || char.isLower) = true := isAlpha
        rcases Bool.or_eq_true_iff.1 cases with upper | lower
        · exact UInt32.le_trans (of_decide_eq_true upper).2 (by decide)
        · exact of_decide_eq_true (Bool.and_eq_true_iff.1 lower).2
      exact Nat.lt_of_le_of_lt (UInt32.le_iff_toNat_le.1 most) (by decide)
    · rw [beq_iff_eq.1 line]
      decide
  rcases Bool.or_eq_true_iff.1 letter with isAlpha | line
  · simp [isPlainPart, isWord, small, Char.isAlphanum, isAlpha]
  · rw [beq_iff_eq.1 line]
    decide

/-- A plain name is made of its characters. -/
theorem isPlainPart_of_isNameOf (isName : IsNameOf plainName name) :
    ∀ char ∈ name, isPlainPart char = true := by
  obtain ⟨behind, length⟩ := isName
  cases whole : name ++ behind with
  | nil => simp [(append_eq_nil_iff.1 whole).1]
  | cons first rest =>
    rw [whole, plainName] at length
    simp only [Option.ite_none_left_eq_some, Option.some.injEq, Bool.or_eq_true, not_or] at length
    obtain ⟨⟨letter, -⟩, size⟩ := length
    have taken := @List.take_left _ name behind
    rw [whole, ← size, Nat.add_comm, take_succ_cons,
      prefix_iff_eq_take.1 (List.takeWhile_prefix _) |>.symm] at taken
    rw [← taken]
    refine forall_mem_cons.2 ⟨isPlainPart_of_letter ?_, ?_⟩
    · simpa [Classical.or_iff_not_imp_left] using letter
    · exact all_eq_true.1 all_takeWhile

/-- A plain name holds no bracket. -/
theorem unbracketed_of_isNameOf (isName : IsNameOf plainName name) :
    Run.Unbracketed name := fun char member =>
  @Run.isBracket_of_kind isPlainPart (by decide) (by decide) char
    (isPlainPart_of_isNameOf isName char member)

/-- The blanks around the equals sign of an attribute go. -/
theorem rewritten_sign {inMark : Bool} {secondGap : Text} {quote : Char} (blank : Text.AllBlank gap)
    (isQuote : quote = '"' ∨ quote = '\'') :
    Rewritten (Brought name) inMark (gap ++ '=' :: (secondGap ++ [quote])) ['=', quote] := by
  refine .single (fun _ => exists_head_of_blanks blank (by decide) _) ?_
  have opens : Opens name ['='] := opens_cons (by decide) []
  rcases isQuote with rfl | rfl
  · exact .of_ends opens (by decide) (by decide)
  · exact .of_ends opens (by decide) (by decide)

/-- The opening of an attribute is copied without the blanks around the equals sign. -/
theorem rewritten_opening {item : Attribute} (blank : Text.AllBlank gap) (secondGap : Text)
    (isQuote : item.quote = '"' ∨ item.quote = '\'') :
    Rewritten (Brought name) true (item.start.spelled gap secondGap)
      (item.lead :: item.name ++ ['=', item.quote]) :=
  (Rewritten.refl true (item.lead :: item.name)).append (rewritten_sign blank isQuote)

end Attribute

/-! ## Literals inside expressions -/

/-- The pieces of a text with ranges taken by candidates are spelled as the text with the
calls in the places of the ranges. -/
theorem Piece.spell_interleave (scope : Scope) (offset : Nat) (text : Text)
    (ranges : List (Nat × Nat × Candidate)) :
    spell scope (interleave offset text ranges) = Edit.copy offset text
      (ranges.map fun range => ⟨range.1, range.2.1, callText scope range.2.2⟩) := by
  induction ranges generalizing offset text with
  | nil => simp [interleave, spell, Edit.copy]
  | cons range ranges ih =>
    simp [interleave, spell, Edit.copy, ih]

theorem slice_append (before rest : Text) (length : Nat) :
    (before ++ rest).slice before.length (before.length + length) = rest.take length := by
  rw [slice, take_length_add_append, drop_left]

namespace Quotation

variable {functions : Functions} {quotes : List Char} {keyQuote : Char → Char}
  {eligible : Text → Bool} {offset : Nat} {expr : Text}

/-- What becomes a call is a literal of the expression, in its quotes. -/
theorem exists_of_mem_candidates {range : Nat × Nat × Candidate}
    (member : range ∈ candidates functions quotes keyQuote eligible offset expr) :
    ∃ before quote body after, expr = before ++ (quote :: (body ++ [quote])) ++ after ∧
      quote ∈ quotes ∧ range.1 = before.length ∧
      range.2.1 = before.length + (quote :: (body ++ [quote])).length ∧
      range.2.2 = ⟨offset + range.1, offset + range.2.1, Literal.cook body, keyQuote quote, []⟩ := by
  obtain ⟨found, scanned, kept⟩ := mem_filterMap.1 member
  simp only [Option.ite_none_right_eq_some, Option.some.injEq] at kept
  obtain ⟨-, rfl⟩ := kept
  obtain ⟨before, rest, _, length, rfl, recognised, start, stop⟩ := exists_of_mem_scan scanned
  obtain ⟨behind, rfl, rfl, isQuote⟩ := recognise_spelled recognised
  exact ⟨before, found.value.1, found.value.2, behind, (append_assoc _ _ _).symm, isQuote, start,
    by rw [← start]; exact stop, rfl⟩

/-- The literals of an expression are in order. -/
theorem ordered_candidates {β : Type} (value : Candidate → β) : Found.Ordered 0 expr.length
    ((candidates functions quotes keyQuote eligible offset expr).map fun range =>
      (⟨range.1, range.2.1, value range.2.2⟩ : Found β)) := by
  rw [candidates, map_filterMap]
  refine (ordered_scan (bounded_quotation quotes) expr).filterMap
    fun place kept kept_eq => ?_
  obtain ⟨range, range_eq, rfl⟩ := Option.map_eq_some_iff.1 kept_eq
  simp only [Option.ite_none_right_eq_some, Option.some.injEq] at range_eq
  obtain ⟨-, rfl⟩ := range_eq
  exact ⟨rfl, rfl⟩

/-- Calls in the places of literals rewrite an expression. -/
theorem rewritten_candidates {scope : Scope} (unbracketed : scope.Unbracketed)
    (quoted : ∀ quote ∈ quotes, isMarkPart quote = false ∧ Run.isBracket (keyQuote quote) = false) :
    Rewritten (Brought scope.functions.markup) true expr
      (Piece.spell scope (Piece.interleave 0 expr
        (candidates functions quotes keyQuote eligible offset expr))) := by
  rw [Piece.spell_interleave]
  refine Rewritten.copy (ordered_candidates _) fun place member => ?_
  obtain ⟨range, there, rfl⟩ := mem_map.1 member
  obtain ⟨before, quote, body, after, whole, isQuote, start, stop, candidate⟩ :=
    exists_of_mem_candidates there
  obtain ⟨other, plain⟩ := quoted quote isQuote
  refine .single (fun _ => ⟨quote, ?_, other⟩) ?_
  · rw [start, stop, whole, append_assoc, slice_append, take_left]
    rfl
  · rw [Piece.callText, candidate]
    exact @brought_call _ unbracketed _ _ [] plain (by simp)

end Quotation

/-! ## Substitutions -/

theorem unbracketed_argument (index : Nat) : Run.Unbracketed (Call.argument index) := by
  refine Run.unbracketed_append.2 ⟨by decide, fun char member => ?_⟩
  exact @Run.isBracket_of_kind isDigit (by decide) (by decide) char
    (isDigit_of_mem_ofNat member)

/-- An expression is copied behind the name of its argument. The text before it, `old`,
makes way for `new` and the name. -/
theorem rewritten_property {name : Text} {inMark : Bool} {old new expr behind after : Text}
    (outside : inMark = true → ∃ char ∈ (old ++ ['$']).head?, isMarkPart char = false)
    (opens : Opens name new) (unbracketed : Run.Unbracketed new) (index : Nat)
    (rest : ∀ trail, Text.AllBlank trail →
      Rewritten (Brought name) true (trail ++ '}' :: behind) after) :
    Rewritten (Brought name) inMark (old ++ (['$', '{'] ++ expr ++ '}' :: behind))
      (new ++ (Call.argument index ++ ':' :: ' ' :: trim expr) ++ after) := by
  obtain ⟨lead, trail, -, whole, -, trailBlank⟩ := exists_cutBlanks expr
  have brought : Brought name (new ++ Call.argument index ++ [':'] ++ [' ']) := by
    refine .of_ends ((opens.append _).append _) ?_ (by decide)
    simp only [Run.unbracketed_append]
    exact ⟨⟨⟨unbracketed, unbracketed_argument index⟩, by decide⟩, by decide⟩
  have copied := (Rewritten.refl false (trim expr)).append (rest trail trailBlank)
  have swapped := @Rewritten.swap _ inMark (old ++ ['$'] ++ ('{' :: lead)) _ _ _
    (fun inside => ?_) brought copied
  · generalize trim expr = trimmed at *
    subst whole
    simpa using swapped
  · obtain ⟨char, here, other⟩ := outside inside
    refine ⟨char, ?_, other⟩
    rw [head?_append, Option.mem_def.1 here]
    rfl

/-- Expressions are copied into the arguments of a call; what stands between them makes
way for the punctuation of the call. -/
theorem rewritten_properties {name : Text} {inMark : Bool} {old new close : Text}
    (outside : inMark = true → ∃ char ∈ (old ++ ['$']).head?, isMarkPart char = false)
    (opens : Opens name new) (unbracketed : Run.Unbracketed new) (index : Nat)
    (cut : Text × Text) (cuts : List (Text × Text)) :
    Rewritten (Brought name) inMark (old ++ substituted (cut :: cuts) ++ close)
      (new ++ join [',', ' '] (Call.properties index
        ((cut :: cuts).map fun cut => trim cut.1)) ++ [' ', '}', ')']) := by
  -- A blank or the closing brace starts what stands behind an expression.
  have behind {trail : Text} (blank : Text.AllBlank trail) (rest : Text) :=
    exists_head_of_blanks blank (show isMarkPart '}' = false by decide) rest
  induction cuts generalizing inMark old new index cut with
  | nil =>
    have close_brought : Brought name [' ', '}', ')'] :=
      @Brought.of_ends name [' ', '}'] ')' (opens_cons (by decide) _) (by decide) (by decide)
    have last := @rewritten_property name inMark old new cut.1 (cut.2 ++ close) [' ', '}', ')']
      outside opens unbracketed index fun trail blank =>
        .single (fun _ => behind blank _) close_brought
    simpa [substituted, Call.properties, join] using last
  | cons next cuts ih =>
    have more := @rewritten_property name inMark old new cut.1
      (cut.2 ++ substituted (next :: cuts) ++ close) _ outside opens unbracketed index
      fun trail blank => by
        have later := @ih true (trail ++ '}' :: cut.2) [',', ' '] (fun _ => by
          simpa using behind blank (cut.2 ++ ['$'])) (opens_cons (by decide) _) (by decide)
          (index + 1) next
        simpa using later
    simpa [substituted, Call.properties, join, intercalate_cons_cons] using more

/-- A template literal, with the blanks around it, makes way for a call that passes on its
substitutions. -/
theorem rewritten_template {scope : Scope} (unbracketed : scope.Unbracketed)
    {before value behind text : Text} {quote : Char} (blank : Text.AllBlank before)
    (quoted : Run.isBracket quote = false) :
    Rewritten (Brought scope.functions.markup) true
      (before ++ Char.ofNat 0x60 :: (value ++ Char.ofNat 0x60 :: behind))
      (scope.call text quote ((cutAll Interpolation.recogniseSubstitution value).2.map
        fun cut => trim cut.1)) := by
  have outside (rest : Text) :=
    exists_head_of_blanks blank (show isMarkPart (Char.ofNat 0x60) = false by decide) rest
  have whole := eq_append_substituted value
  generalize cutAll Interpolation.recogniseSubstitution value = cut at whole
  obtain ⟨first, cuts⟩ := cut
  cases cuts with
  | nil => exact .single (fun _ => outside _) (brought_call unbracketed quoted (by simp))
  | cons cut cuts =>
    -- The call starts like one without expressions, up to the parenthesis that closes it.
    have short := (@brought_call _ unbracketed text quote [] quoted (by simp)).unbracketed
    simp only [Scope.call, Call.render, isEmpty_nil, if_true] at short
    rw [Scope.call, Call.render, if_neg (by simp)]
    have opens : Opens scope.functions.markup (scope.functions.markup ++ '(' ::
        (quote :: Key.ofText text scope.path scope.keyLength ++ [quote])) :=
      ⟨_, '(', _, .inr rfl, rfl, by decide⟩
    generalize scope.functions.markup ++ '(' ::
      (quote :: Key.ofText text scope.path scope.keyLength ++ [quote]) = front at short opens ⊢
    have plain : Run.Unbracketed (front ++ [',', ' ', '{', ' ']) :=
      Run.unbracketed_append.2 ⟨(Run.unbracketed_append.1 short).1, by decide⟩
    have passed := @rewritten_properties _ true (before ++ Char.ofNat 0x60 :: first)
      (front ++ [',', ' ', '{', ' ']) (Char.ofNat 0x60 :: behind)
      (fun _ => by simpa using outside (first ++ ['$'])) (opens.append _) plain 0 cut cuts
    rw [whole]
    simpa using passed

/-! ## One stage -/

namespace Stage

variable {scope : Scope}

/-- A stage rewrites its buffer if it rewrites each of its places. -/
theorem rewritten_placed {fits : Text → Prop} {α : Type}
    {recognise : Option Char → Text → Option (Nat × α)} {pieces : Found α → Option (List Piece)}
    {places : List (Found α)} (ordered : Found.Ordered 0 buffer.length places)
    (scanned : places ⊆ scan recognise buffer)
    (each : ∀ {prev text length found spelled}, recognise prev text = some (length, found.value) →
      pieces found = some spelled → Rewritten fits true (text.take length)
      (Piece.spell scope spelled)) :
    Rewritten fits true buffer (Edit.copy 0 buffer (contents scope (placed pieces places))) := by
  refine Rewritten.copy (ordered_contents scope (ordered_placed ordered)) fun place member => ?_
  obtain ⟨kept, keptMember, rfl⟩ := mem_map.1 member
  obtain ⟨found, foundMember, kept_eq⟩ := mem_filterMap.1 keptMember
  obtain ⟨spelled, spelled_eq, rfl⟩ := Option.map_eq_some_iff.1 kept_eq
  obtain ⟨before, rest, prev, length, rfl, recognised, start, stop⟩ :=
    exists_of_mem_scan (scanned foundMember)
  dsimp only
  rw [stop, start, slice_append]
  exact each recognised spelled_eq

private theorem isBracket_otherQuote (quote : Char) : Run.isBracket (otherQuote quote) = false := by
  rw [otherQuote]
  split <;> decide

private theorem isMarkPart_otherQuote (quote : Char) : isMarkPart (otherQuote quote) = false := by
  rw [otherQuote]
  split <;> decide

private theorem rewritten_plainAttribute (unbracketed : scope.Unbracketed) (buffer : Text) :
    Rewritten (Brought scope.functions.markup) true buffer (applied scope .plainAttribute buffer) := by
  refine rewritten_placed (ordered_scan (bounded_attribute _) buffer).filter
    filter_sublist.subset fun {_ text length found spelled} recognised pieces => ?_
  obtain ⟨gap, secondGap, rest, rfl, rfl, blank, -, -, isName, -⟩ :=
    Attribute.recognise_spelled recognised
  simp only [findPlainAttribute, Option.ite_none_right_eq_some, Option.some.injEq] at pieces
  obtain ⟨-, rfl⟩ := pieces
  rw [take_left]
  refine .single (fun _ => ⟨_, rfl, isMarkPart_of_isBlank blank⟩) ?_
  have name := Attribute.unbracketed_of_isNameOf isName
  have call := fun text => @Scope.Unbracketed.call _ unbracketed text '\'' [] (by decide) (by simp)
  have lead := @Run.isBracket_of_kind isBlank (by decide) (by decide) _ blank
  have brought := fun text => @Brought.of_ends scope.functions.markup
    (found.value.lead :: ':' :: found.value.name ++ ['=', '"'] ++ scope.call text '\'' []) '"'
    (opens_cons (isMarkPart_of_isBlank blank) _) (by
      simp only [cons_append, Run.unbracketed_cons, Run.unbracketed_append]
      exact ⟨lead, by decide, ⟨⟨name, by decide⟩, call text⟩, by decide⟩) (by decide)
  simpa [Piece.spell, Piece.callText] using brought _

private theorem rewritten_templateAttribute (unbracketed : scope.Unbracketed) (buffer : Text) :
    Rewritten (Brought scope.functions.markup) true buffer
    (applied scope .templateAttribute buffer) := by
  refine rewritten_placed (ordered_scan bounded_template buffer).filter
    filter_sublist.subset fun {_ text length found spelled} recognised pieces => ?_
  obtain ⟨gap, secondGap, before, behind, rest, rfl, rfl, -, gapBlank, beforeBlank, isQuote, -⟩ :=
    Attribute.recogniseTemplate_spelled recognised
  simp only [findTemplateAttribute, Option.ite_none_right_eq_some, Option.some.injEq] at pieces
  obtain ⟨-, rfl⟩ := pieces
  rw [take_left]
  have call := fun text => @rewritten_template scope unbracketed before found.value.value behind text
    (otherQuote found.value.quote) beforeBlank (isBracket_otherQuote _)
  have whole := fun text => ((Attribute.rewritten_opening gapBlank secondGap isQuote).append
    (call text)).append (Rewritten.refl true [found.value.quote])
  simpa [Piece.spell, Piece.callText] using whole _

private theorem rewritten_directiveLiteral (unbracketed : scope.Unbracketed) (buffer : Text) :
    Rewritten (Brought scope.functions.markup) true buffer
    (applied scope .directiveLiteral buffer) := by
  refine rewritten_placed (ordered_scan (bounded_attribute _) buffer).filter
    filter_sublist.subset fun {_ text length found spelled} recognised pieces => ?_
  obtain ⟨gap, secondGap, rest, rfl, rfl, -, gapBlank, isQuote, -⟩ :=
    Attribute.recognise_spelled recognised
  simp only [findDirectiveLiteral, Option.ite_none_right_eq_some, Option.ite_none_left_eq_some,
    Option.some.injEq] at pieces
  obtain ⟨-, -, rfl⟩ := pieces
  rw [take_left]
  have value := @Quotation.rewritten_candidates scope.functions
    [otherQuote found.value.quote, Char.ofNat 0x60] (fun _ => otherQuote found.value.quote)
    (fun body => !body.contains '{' && !body.contains '}')
    (found.start + found.value.valueStart) found.value.value scope unbracketed (by
      simp [isBracket_otherQuote, isMarkPart_otherQuote]
      decide)
  have whole := ((Attribute.rewritten_opening gapBlank secondGap isQuote).append value).append
    (Rewritten.refl true [found.value.quote])
  simpa [Piece.spell] using whole

private theorem rewritten_interpolationLiteral (unbracketed : scope.Unbracketed) (buffer : Text) :
    Rewritten (Brought scope.functions.markup) true buffer
    (applied scope .interpolationLiteral buffer) := by
  refine rewritten_placed (ordered_scan bounded_interpolation buffer)
    (List.Subset.refl _) fun {_ text length found spelled} recognised pieces => ?_
  obtain ⟨rfl, -, rest, rfl⟩ := Interpolation.recognise_eq_some_iff.1 recognised
  simp only [findInterpolationLiteral, Option.ite_none_right_eq_some, Option.ite_none_left_eq_some,
    Option.some.injEq] at pieces
  obtain ⟨-, -, rfl⟩ := pieces
  rw [take_left]
  have value := @Quotation.rewritten_candidates scope.functions ['\'', '"'] id (fun _ => true)
    (found.start + Interpolation.opening.length) found.value scope unbracketed
    (forall_mem_cons.2 ⟨by decide, forall_mem_cons.2 ⟨by decide, by simp⟩⟩)
  have whole := ((Rewritten.refl true Interpolation.opening).append value).append
    (Rewritten.refl true Interpolation.closing)
  simpa [Piece.spell] using whole

end Stage

/-! ## Runs -/

/-- A run that is turned into a call is rewritten: its blanks are copied. -/
theorem TurnsInto.rewritten {scope : Scope} (unbracketed : scope.Unbracketed) {run : Text}
    (turns : TurnsInto scope run text) (plain : Run.Unbracketed run) :
    Rewritten (Brought scope.functions.markup) false run text := by
  obtain ⟨lead, core, trail, stored, exprs, rfl, leadBlank, -, passed, rfl⟩ := turns
  have call := @unbracketed_interpolated _ unbracketed stored exprs
    fun expr member char inside =>
      plain char ((passed expr member).1.subset inside)
  have brought : Brought scope.functions.markup
      (interpolated (scope.call stored '"' exprs)) := by
    have shape : interpolated (scope.call stored '"' exprs) =
        ('{' :: (['{', ' '] ++ scope.call stored '"' exprs ++ [' ', '}'])) ++ ['}'] := by
      simp [interpolated]
    rw [shape] at call ⊢
    exact .of_ends (opens_cons (by decide) _) call (by decide)
  rw [append_assoc, append_assoc]
  exact .blanks leadBlank (.swap (by simp) brought (.refl _ _))

/-- Turning runs into calls rewrites a buffer: a run starts the buffer or stands behind a
closing bracket, and so in no mark. -/
theorem rewritten_mapRuns {scope : Scope} (unbracketed : scope.Unbracketed) {change : Text → Text}
    (turning : Turning scope change) {prev : Option Char} {first : Text} {later : List (Char × Text)}
    (segmented : Run.Segmented first later) :
    Rewritten (Brought scope.functions.markup) (prev.any goesOn) (Run.joined first later)
      (Run.joined (Run.mapRuns change prev first later).1
        (Run.mapRuns change prev first later).2) := by
  have turned {next : Option Char} {first : Text} (plain : Run.Unbracketed first)
      {prev : Option Char} :
      Rewritten (Brought scope.functions.markup) (prev.any goesOn) first
        (Run.turned change prev next first) := by
    rw [Run.turned]
    split
    · rename_i run
      have outside : prev.any goesOn = false := by
        simp only [Run.isRun, Bool.and_eq_true] at run
        cases prev with
        | none => rfl
        | some char =>
          obtain rfl : char = '>' := by simpa using run.1.1
          decide
      rw [outside]
      rcases turning first with turns | same
      · exact turns.rewritten unbracketed plain
      · rw [same]
        exact .refl _ _
    · exact .refl _ _
  induction later generalizing prev first with
  | nil => exact turned (Run.segmented_nil.1 segmented)
  | cons part later ih =>
    obtain ⟨bracket, segment⟩ := part
    obtain ⟨plain, -, segmented⟩ := Run.segmented_cons.1 segmented
    have rest := @ih (some bracket) segment segmented
    exact (turned plain).append (.keep bracket rest)

namespace Stage

variable {scope : Scope}

private theorem rewritten_replace (unbracketed : scope.Unbracketed) {change : Text → Text}
    (turning : Turning scope change) (buffer : Text) :
    Rewritten (Brought scope.functions.markup) false buffer (Run.replace change buffer) := by
  have rewritten := @rewritten_mapRuns scope unbracketed change turning none _ _
    (Run.segmented_segments buffer)
  rwa [Run.joined_segments] at rewritten

/-- A stage rewrites its buffer. -/
theorem rewritten_applied (unbracketed : scope.Unbracketed) (stage : Stage) (buffer : Text) :
    Rewritten (Brought scope.functions.markup) false buffer (applied scope stage buffer) := by
  cases stage with
  | plainAttribute => exact (rewritten_plainAttribute unbracketed buffer).mono
  | templateAttribute => exact (rewritten_templateAttribute unbracketed buffer).mono
  | directiveLiteral => exact (rewritten_directiveLiteral unbracketed buffer).mono
  | interpolationLiteral => exact (rewritten_interpolationLiteral unbracketed buffer).mono
  | mixedContent =>
    rw [applied_mixedContent]
    exact rewritten_replace unbracketed (turning_mixedChange scope) buffer
  | plainText =>
    rw [applied_plainText]
    exact rewritten_replace unbracketed (turning_plainChange scope) buffer

/-- A stage leaves no comments but marks. -/
theorem marksOnly_applied (named : scope.Named) (stage : Stage)
    (marksOnly : Comment.MarksOnly buffer) : Comment.MarksOnly (applied scope stage buffer) :=
  marksOnly.rewritten ((rewritten_applied named.unbracketed stage buffer).imp
    fun _ brought => brought.inert named.1)

/-- The stages together leave no comments but marks. -/
theorem marksOnly_foldl (named : scope.Named) (stages : List Stage)
    (marksOnly : Comment.MarksOnly buffer) :
    Comment.MarksOnly (stages.foldl (fun buffer stage => applied scope stage buffer) buffer) := by
  induction stages generalizing buffer with
  | nil => exact marksOnly
  | cons stage stages ih =>
    exact ih (marksOnly_applied named stage marksOnly)

end Stage

end Phrasebook.Markup
