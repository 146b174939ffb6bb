import Phrasebook.Proofs.Markup.StartTag
import Phrasebook.Proofs.Text.Within

/-!
# Readers of attributes

Three recognisers read attributes: one for plain attributes, one for the directives whose
values may hold literals, and one for bound template literals. Each starts at a blank before a
name and stops at the second of two equal quotes, and what it takes decides that it takes it.
So the readers see nothing new at the end of a value that is not quoted as they read it.
-/

namespace Phrasebook

open List Text Option

namespace Text

/-- The code points of blanks. -/
def blankCodes : List Nat :=
  [9, 10, 11, 12, 13, 28, 29, 30, 31, 32, 0x85, 0xA0, 0x1680, 0x2000, 0x2001, 0x2002, 0x2003,
    0x2004, 0x2005, 0x2006, 0x2007, 0x2008, 0x2009, 0x200A, 0x2028, 0x2029, 0x202F, 0x205F, 0x3000]

private theorem mem_blankCodes {char : Char} (blank : isBlank char = true) :
    char.toNat ∈ blankCodes := by
  simp only [isBlank, Bool.or_eq_true, Bool.and_eq_true, decide_eq_true_eq, beq_iff_eq] at blank
  simp only [blankCodes, mem_cons, not_mem_nil, or_false]
  omega

/-- No blank belongs to a word. -/
theorem isWord_of_isBlank {char : Char} (blank : isBlank char = true) : isWord char = false := by
  have known : (blankCodes.all fun code => !isWord (Char.ofNat code)) = true := by decide +kernel
  rw [← Char.ofNat_toNat char]
  simpa using all_eq_true.1 known _ (mem_blankCodes blank)

theorem ne_of_isWord {char mark : Char} (word : isWord char = true)
    (other : isWord mark = false) : char ≠ mark := by
  rintro rfl
  rw [word] at other
  cases other

end Text

/-- No blank belongs to the name of a function. -/
theorem Markup.isBlank_of_isNamePart {char : Char} (isPart : isNamePart char = true) :
    isBlank char = false := by
  by_contra blank
  have isBlank : isBlank char = true := by simpa using blank
  have other : ¬ char = '$' := by
    rintro rfl
    cases isBlank
  simp [isNamePart, isWord_of_isBlank isBlank, other] at isPart

namespace Markup.Attribute

variable {nameLength : Text → Option Nat} {found : Opening} {text : Text}

/-! ## Names -/

/-- Whether a name ends at a character, whichever kind of name it is. -/
def endsName (char : Char) : Bool :=
  isBlank char || char == '='

/-- Whether a recogniser of names takes a name wherever the name ends. -/
def Steady (nameLength : Text → Option Nat) : Prop :=
  ∀ name, IsNameOf nameLength name → ∀ next rest, endsName next = true →
    nameLength (name ++ next :: rest) = some name.length

private theorem isPlainPart_of_endsName {next : Char} (ends : endsName next = true) :
    isPlainPart next = false := by
  simp only [endsName, Bool.or_eq_true, beq_iff_eq] at ends
  rcases ends with blank | rfl
  · have others : ¬ next = '.' ∧ ¬ next = '-' := by
      constructor <;> rintro rfl <;> cases blank
    simp [isPlainPart, isWord_of_isBlank blank, others]
  · decide

theorem steady_plainName : Steady plainName := by
  intro name isName next rest ends
  have parts := isPlainPart_of_isNameOf isName
  obtain ⟨behind, named⟩ := isName
  cases name with
  | nil =>
    cases behind with
    | nil => cases named
    | cons first behind =>
      rw [nil_append, plainName] at named
      split at named
      · cases named
      · simp at named
  | cons first letters =>
    rw [cons_append, plainName] at named ⊢
    split at named
    · cases named
    · rename_i admitted
      have taken : (letters ++ next :: rest).takeWhile isPlainPart = letters := by
        rw [takeWhile_append_of_pos (forall_mem_cons.1 parts).2,
          takeWhile_cons_of_neg (by simp [isPlainPart_of_endsName ends]), append_nil]
      have noDirective : ['v', '-'].isPrefixOf (first :: (letters ++ next :: rest)) = false := by
        cases letters with
        | nil =>
          have other : ¬ '-' = next := by
            rintro rfl
            cases ends
          simp [isPrefixOf, other]
        | cons second letters =>
          simp only [Bool.or_eq_true, not_or, Bool.not_eq_true] at admitted
          simpa [isPrefixOf] using admitted.2
      simp only [Bool.or_eq_true, not_or, Bool.not_eq_true] at admitted
      rw [if_neg (by simp [admitted.1, noDirective])]
      change some (1 + ((letters ++ next :: rest).takeWhile isPlainPart).length) = _
      rw [taken, length_cons, Nat.add_comm]

/-- Whether no character of some beginnings ends a directive. -/
def arePlain (beginnings : List Text) : Bool :=
  beginnings.all fun beginning => beginning.all (!endsDirective ·)

/-- What stands up to the first character that ends a directive. -/
def directivePart (text : Text) : Text :=
  text.takeWhile (!endsDirective ·)

/-- A directive goes up to its end. -/
theorem directivePart_append {front : Text} (plain : front.all (!endsDirective ·) = true)
    (rest : Text) : directivePart (front ++ rest) = front ++ directivePart rest :=
  takeWhile_append_of_pos (all_eq_true.1 plain)

theorem directivePart_cons {next : Char} (ends : endsDirective next = true) (rest : Text) :
    directivePart (next :: rest) = [] :=
  takeWhile_cons_of_neg (by simp [ends])

/-- A directive takes everything up to a character that ends it, if one of the beginnings and
more stands there. -/
theorem directiveName_eq {beginnings : List Text} (plain : arePlain beginnings = true) (text : Text) :
    directiveName beginnings text =
      if beginnings.any fun beginning => beginning.isPrefixOf (directivePart text) &&
        beginning.length < (directivePart text).length then some (directivePart text).length
      else none := by
  induction beginnings with
  | nil => rfl
  | cons beginning beginnings ih =>
    rw [arePlain, all_cons, Bool.and_eq_true] at plain
    have rest := ih plain.2
    rw [directiveName] at rest ⊢
    rw [findSome?_cons, rest, any_cons]
    cases stripped : strip? beginning text with
    | none =>
      have absent : beginning.isPrefixOf (directivePart text) = false := by
        rw [Bool.eq_false_iff, ne_eq, List.isPrefixOf_iff_prefix]
        intro starts
        obtain ⟨behind, whole⟩ := starts.trans (List.takeWhile_prefix _)
        rw [strip?_eq_some_iff.2 whole.symm] at stripped
        cases stripped
      rw [absent, Bool.false_and, Bool.false_or]
      rfl
    | some behind =>
      obtain rfl := strip?_eq_some_iff.1 stripped
      rw [directivePart_append plain.1, bind_eq_bind, bind_some]
      have part : behind.takeWhile (!endsDirective ·) = directivePart behind := rfl
      rw [part]
      cases directivePart behind with
      | nil => simp
      | cons first argument =>
        have starts : beginning.isPrefixOf (beginning ++ first :: argument) = true :=
          List.isPrefixOf_iff_prefix.2 (prefix_append _ _)
        simp [starts]

/-- Directive names are read steadily. -/
theorem steady_directiveName {beginnings : List Text} (plain : arePlain beginnings = true) :
    Steady (directiveName beginnings) := by
  rintro name ⟨behind, named⟩ next rest ends
  rw [directiveName_eq plain] at named ⊢
  split at named
  · rename_i begins
    have size := some.inj named
    have taken : directivePart (name ++ behind) = name :=
      List.IsPrefix.eq_of_length
        (prefix_of_prefix_length_le (List.takeWhile_prefix _) (prefix_append _ _)
          (Nat.le_of_eq size)) size
    have parts : name.all (!endsDirective ·) = true := by
      rw [← taken]
      exact all_takeWhile
    have stops : endsDirective next = true := by
      simp only [endsName, Bool.or_eq_true] at ends
      rcases ends with blank | sign
      · simp [endsDirective, blank]
      · simp [endsDirective, sign]
    have again : directivePart (name ++ next :: rest) = name := by
      rw [directivePart_append parts, directivePart_cons stops, append_nil]
    rw [taken] at begins
    rw [again, if_pos begins]
  · cases named

/-! ## Openings -/

/-- An attribute up to its opening quote is read in the same way before any text. -/
theorem opening_of_spelled (steady : Steady nameLength) {gap secondGap : Text}
    (blank : isBlank found.lead = true) (isName : IsNameOf nameLength found.name)
    (gapBlank : Text.AllBlank gap) (secondBlank : Text.AllBlank secondGap)
    (isQuote : found.quote = '"' ∨ found.quote = '\'')
    (size : found.insideStart = (found.spelled gap secondGap).length) (inside : Text) :
    opening nameLength (found.spelled gap secondGap ++ inside) = some { found with inside } := by
  obtain ⟨lead, name, quote, start, old⟩ := found
  dsimp only at *
  have named : nameLength (name ++ (gap ++ '=' :: (secondGap ++ quote :: inside))) =
      some name.length := by
    cases gap with
    | nil => exact steady name isName '=' _ (by decide)
    | cons next gap => exact steady name isName next _ (by simp [endsName, gapBlank next])
  have gapSize : blanks (gap ++ '=' :: (secondGap ++ quote :: inside)) = gap.length := by
    rw [blanks, takeWhile_append_of_pos gapBlank, takeWhile_cons_of_neg (by decide),
      append_nil]
  have visible : isBlank quote = false := by rcases isQuote with rfl | rfl <;> decide
  have secondSize : blanks (secondGap ++ quote :: inside) = secondGap.length := by
    rw [blanks, takeWhile_append_of_pos secondBlank,
      takeWhile_cons_of_neg (by simp [visible]), append_nil]
  have known : (quote != '"' && quote != '\'') = false := by
    rcases isQuote with rfl | rfl <;> decide
  have whole : Opening.spelled ⟨lead, name, quote, start, old⟩ gap secondGap ++ inside =
      lead :: (name ++ (gap ++ '=' :: (secondGap ++ quote :: inside))) := by
    simp [Opening.spelled]
  rw [whole, opening]
  simp only [blank, named, gapSize, Bool.not_true, bind_eq_bind, bind_some,
    drop_left, take_left, secondSize]
  simp [known, size, Opening.spelled]
  omega

private theorem of_opening {head : Char} {tail : Text}
    (opened : opening nameLength (head :: tail) = some found) :
    isBlank head = true ∧ nameLength tail ≠ none := by
  constructor
  · by_contra visible
    simp [opening, visible] at opened
  · intro unnamed
    simp [opening, unnamed] at opened

private theorem Opening.spelled_eq (found : Opening) (gap secondGap : Text) :
    found.spelled gap secondGap =
      found.lead :: (found.name ++ (gap ++ '=' :: secondGap)) ++ [found.quote] := by
  simp [Opening.spelled]

/-- A value ends at the first quote like the one before it. -/
theorem recognise_of_opening (opened : opening nameLength text = some found) {value rest : Text}
    (inside : found.inside = value ++ found.quote :: rest)
    (unquoted : ∀ char ∈ value, (char != found.quote) = true) :
    recognise nameLength text = some (found.insideStart + value.length + 1,
      ⟨found.lead, found.name, found.quote, value, found.insideStart⟩) := by
  have taken : found.inside.takeWhile (· != found.quote) = value := by
    rw [inside, takeWhile_append_of_pos unquoted, takeWhile_cons_of_neg (by simp),
      append_nil]
  have shorter : ¬ value.length = found.inside.length := by simp [inside]
  rw [recognise, opened]
  simp [taken, shorter, Attribute.length]

/-- A bound template literal ends at the quote behind its second tick. -/
theorem recogniseTemplate_of_opening (opened : opening (directiveName bindings) text = some found)
    {before value behind rest : Text} (inside : found.inside = before ++ Char.ofNat 0x60 ::
      (value ++ Char.ofNat 0x60 :: (behind ++ found.quote :: rest)))
    (beforeBlank : Text.AllBlank before) (behindBlank : Text.AllBlank behind)
    (unticked : ∀ char ∈ value, (char != Char.ofNat 0x60) = true)
    (visible : isBlank found.quote = false) :
    Stage.recogniseTemplate text = some
      (found.insideStart + before.length + 1 + value.length + behind.length + 2,
        ⟨found.lead, found.name, found.quote, value, found.insideStart + before.length + 1⟩) := by
  have gap : blanks found.inside = before.length := by
    rw [inside, blanks, takeWhile_append_of_pos beforeBlank,
      takeWhile_cons_of_neg (by decide), append_nil]
  have taken : (value ++ Char.ofNat 0x60 :: (behind ++ found.quote :: rest)).takeWhile
      (· != Char.ofNat 0x60) = value := by
    rw [takeWhile_append_of_pos unticked, takeWhile_cons_of_neg (by decide),
      append_nil]
  have lastGap : blanks (behind ++ found.quote :: rest) = behind.length := by
    rw [blanks, takeWhile_append_of_pos behindBlank,
      takeWhile_cons_of_neg (by simp [visible]), append_nil]
  have passed : (value ++ Char.ofNat 0x60 :: (behind ++ found.quote :: rest)).drop
      (value.length + 1) = behind ++ found.quote :: rest := by simp
  rw [Stage.recogniseTemplate, opened]
  simp only [bind_eq_bind, bind_some, gap]
  rw [inside, drop_left]
  simp [taken, lastGap]

/-! ## Readers -/

/-- What the recognisers of attributes have in common. -/
structure IsReader (nameLength : Text → Option Nat) (read : Text → Option (Nat × Attribute)) :
    Prop where
  bounded : Text.Bounded fun _ => read
  /-- It starts at a blank before a name. -/
  named : ∀ {head tail result}, read (head :: tail) = some result →
    isBlank head = true ∧ nameLength tail ≠ none
  /-- It stops at the second of two equal quotes, and nothing behind that matters. -/
  enclosed : ∀ {text result}, read text = some result →
    ∃ front quote inside rest, (quote = '"' ∨ quote = '\'') ∧
      text = front ++ quote :: (inside ++ quote :: rest) ∧
      ∀ other, read (front ++ quote :: (inside ++ quote :: other)) = some result

/-- A recogniser of attributes is a reader. -/
theorem isReader_recognise (steady : Steady nameLength) :
    IsReader nameLength (recognise nameLength) where
  bounded := bounded_attribute nameLength
  named := by
    intro head tail result recognised
    simp only [recognise, bind_eq_bind] at recognised
    obtain ⟨found, opened, -⟩ := bind_eq_some_iff.1 recognised
    exact of_opening opened
  enclosed := by
    intro text result recognised
    simp only [recognise, bind_eq_bind] at recognised
    obtain ⟨found, opened, recognised⟩ := bind_eq_some_iff.1 recognised
    split at recognised
    · cases recognised
    · rename_i closed
      obtain ⟨gap, secondGap, rfl, size, blank, gapBlank, isQuote, isName, secondBlank⟩ :=
        opening_spelled opened
      have opens := opening_of_spelled steady blank isName gapBlank secondBlank isQuote size
      obtain ⟨behind, whole⟩ := exists_of_length_takeWhile (by simpa using closed)
      have unquoted := all_eq_true.1 (@List.all_takeWhile _ (· != found.quote) found.inside)
      generalize found.inside.takeWhile (· != found.quote) = value at *
      cases recognised
      rw [found.spelled_eq] at opens ⊢
      refine ⟨found.lead :: (found.name ++ (gap ++ '=' :: secondGap)), found.quote, value, behind,
        isQuote, by rw [← whole]; simp, fun other => ?_⟩
      rw [append_cons]
      exact recognise_of_opening (opens _) rfl unquoted

/-- So is that of bound templates. -/
theorem isReader_template : IsReader (directiveName bindings) Stage.recogniseTemplate where
  bounded := bounded_template
  named := by
    intro head tail result recognised
    simp only [Stage.recogniseTemplate, bind_eq_bind] at recognised
    obtain ⟨found, opened, -⟩ := bind_eq_some_iff.1 recognised
    exact of_opening opened
  enclosed := by
    intro text result recognised
    simp only [Stage.recogniseTemplate, bind_eq_bind] at recognised
    obtain ⟨found, opened, recognised⟩ := bind_eq_some_iff.1 recognised
    split at recognised
    · rename_i tick content ticked
      split at recognised
      · cases recognised
      · rename_i isTick
        split at recognised
        · rename_i closed
          obtain ⟨gap, secondGap, rfl, size, blank, gapBlank, isQuote, isName, secondBlank⟩ :=
            opening_spelled opened
          have opens := opening_of_spelled (steady_directiveName rfl) blank isName gapBlank
            secondBlank isQuote size
          -- The value holds blanks, the literal between its ticks, and blanks again.
          obtain ⟨before, beforeBlank, beforeSize, inside⟩ := blanks_split found.inside
          obtain rfl : tick = Char.ofNat 0x60 := by simpa using isTick
          simp only [Bool.and_eq_true, decide_eq_true_eq, beq_iff_eq] at closed
          obtain ⟨tail, body⟩ := exists_of_length_takeWhile (Nat.ne_of_lt closed.1)
          have unticked := all_eq_true.1 (@List.all_takeWhile _ (· != Char.ofNat 0x60) content)
          generalize content.takeWhile (· != Char.ofNat 0x60) = value at *
          subst body
          have passed : (value ++ Char.ofNat 0x60 :: tail).drop (value.length + 1) = tail := by simp
          rw [passed] at closed recognised
          obtain ⟨behind, behindBlank, behindSize, whole⟩ := blanks_split tail
          obtain ⟨rest, last⟩ := head?_eq_some_iff.1 closed.2
          rw [last] at whole
          rw [ticked] at inside
          rw [found.spelled_eq] at opens ⊢
          refine ⟨found.lead :: (found.name ++ (gap ++ '=' :: secondGap)), found.quote,
            before ++ Char.ofNat 0x60 :: (value ++ Char.ofNat 0x60 :: behind), rest, isQuote,
            by rw [← inside, ← whole]; simp, fun other => ?_⟩
          have visible : isBlank found.quote = false := by
            rcases isQuote with same | same <;> rw [same] <;> decide
          have again := recogniseTemplate_of_opening (opens (before ++ Char.ofNat 0x60 ::
            (value ++ Char.ofNat 0x60 :: (behind ++ found.quote :: other)))) rfl beforeBlank
            behindBlank unticked visible
          cases recognised
          simpa [beforeSize, behindSize] using again
        · cases recognised
    · cases recognised

/-- A reader sees nothing new behind the end of a value. -/
theorem IsReader.append_eq {read : Text → Option (Nat × Attribute)}
    (reader : IsReader nameLength read) {behind : Text} (unquoted : '"' ∉ text)
    (double : '"' ∉ behind) (single : '\'' ∉ behind) :
    read (text ++ '"' :: behind) = read text := by
  apply ext
  intro result
  constructor
  · intro recognised
    obtain ⟨front, quote, inside, rest, isQuote, whole, again⟩ := reader.enclosed recognised
    rcases isQuote with rfl | rfl
    · -- The quote behind the value would have to stand there twice.
      have count := congrArg (count '"') whole
      simp only [count_append, count_cons_self, count_eq_zero.2 unquoted,
        count_eq_zero.2 double] at count
      omega
    · have foreign : '\'' ∉ '"' :: behind := by simp [single]
      rw [← cons_append, ← append_assoc] at whole
      rcases append_eq_append_iff.1 whole with ⟨middle, -, right⟩ | ⟨middle, left, right⟩
      · exact absurd (by simp [right]) foreign
      · cases middle with
        | nil => cases right
        | cons head middle =>
          obtain ⟨rfl, -⟩ := List.cons.inj right
          rw [left, append_assoc, cons_append]
          exact again middle
  · intro recognised
    obtain ⟨front, quote, inside, rest, -, rfl, again⟩ := reader.enclosed recognised
    simpa using again (rest ++ '"' :: behind)

/-- What a reader finds inside the start tags of a buffer. -/
def standing (read : Text → Option (Nat × Attribute)) (buffer : Text) : List (Found Attribute) :=
  (scan (fun _ => read) buffer).filter fun found => inOpenTag (buffer.take found.start)

end Markup.Attribute

end Phrasebook
