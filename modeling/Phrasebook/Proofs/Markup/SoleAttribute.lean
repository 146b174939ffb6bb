import Phrasebook.Proofs.Markup.Reader

/-!
# Elements with one attribute

An element without content and with one attribute, whose value is in double quotes. Such a
value is not quoted for the stages: they look into it for attributes, which may stand behind an
opening bracket there, and for runs between its brackets. What they find is what they would
find in the value alone, its first and last segments apart.
-/

namespace Phrasebook

open List Text

variable {head char : Char} {index : Nat} {before : Text}

/-- An end that starts with a character of a kind starts with the only one of that kind. -/
theorem Text.tail_of_suffix {kind : Char → Bool} {front behind tail : Text} {mark head : Char}
    (isKind : kind head = true) (before : ∀ char ∈ front, kind char = false)
    (after : ∀ char ∈ behind, kind char = false)
    (ends : head :: tail <:+ front ++ mark :: behind) : tail = behind := by
  have other {text : Text} (plain : ∀ char ∈ text, kind char = false) : head ∉ text := by
    intro member
    rw [plain head member] at isKind
    cases isKind
  rcases suffix_cons_iff.1 (suffix_of_suffix_append (other before) ends) with
    same | later
  · exact (List.cons.inj same).2
  · exact absurd (later.subset mem_cons_self) (other after)

namespace Markup

/-! ## Comments in a value -/

namespace Comment

/-- Characters at which no comment starts stay. -/
theorem maskFrom_front {front rest : Text}
    (plain : ∀ head tail, head :: tail <:+ front → recognise (head :: (tail ++ rest)) = none)
    (index : Nat) : maskFrom index (front ++ rest) = front ++ maskFrom index rest := by
  induction front with
  | nil => rfl
  | cons head front ih =>
    have later := ih fun next tail ends =>
      plain next tail (ends.trans (suffix_cons _ _))
    rw [cons_append, maskFrom_plain index (plain head front suffix_rfl), later, cons_append]

theorem recognise_of_ne (other : head ≠ '<') (tail : Text) : recognise (head :: tail) = none := by
  rw [recognise_eq_none_iff]
  rintro inside whole
  exact absurd (List.cons.inj whole).1 other

/-- A text in which no comment is opened stays. -/
theorem maskFrom_of_not_infix {text : Text} (unopened : ¬ opening <:+: text) (index : Nat) :
    maskFrom index text = text := by
  have stays := @maskFrom_front text [] (fun head tail ends => by
    rw [append_nil, recognise_eq_none_iff]
    rintro inside whole
    exact absurd (.trans ⟨[], inside, by simp [whole]⟩ ends.isInfix) unopened) index
  simpa using stays

theorem mask_of_not_mem {text : Text} (unopened : '<' ∉ text) : mask text = text :=
  maskFrom_of_not_infix (fun opens => unopened (opens.subset mem_cons_self)) 0

/-- A comment inside a value is masked as in the value alone. -/
theorem maskFrom_value {value behind : Text} (unopened : ¬ opening <:+: '"' :: behind)
    (unclosed : ¬ closing <:+: behind) (index : Nat) :
    maskFrom index (value ++ '"' :: behind) = maskFrom index value ++ '"' :: behind := by
  induction value using Comment.induction generalizing index with
  | nil => exact maskFrom_of_not_infix unopened index
  | comment comment rest isComment ih =>
    rw [append_assoc, maskFrom_comment index isComment, maskFrom_comment index isComment,
      ih, append_assoc]
  | plain head tail nothing ih =>
    have still : recognise (head :: (tail ++ '"' :: behind)) = none := by
      rw [recognise_eq_none_iff] at nothing ⊢
      rintro inside whole closes
      rw [← cons_append] at whole
      rcases append_eq_append_iff.1 whole with ⟨middle, opens, rest⟩ | ⟨middle, left, rfl⟩
      · cases middle with
        | nil =>
          rw [nil_append] at rest
          rw [← rest] at closes
          rcases (@Text.infix_append_cons_iff closing [] behind '"' (by decide)).1 closes with
            never | later
          · cases eq_nil_of_infix_nil never
          · exact unclosed later
        | cons first middle =>
          obtain ⟨rfl, -⟩ := List.cons.inj rest
          have held : '"' ∈ opening := by simp [opens]
          exact absurd held (by decide)
      · rcases (infix_append_cons_iff (by decide)).1 closes with inner | later
        · exact nothing middle left inner
        · exact unclosed later
    rw [cons_append, maskFrom_plain index still, maskFrom_plain index nothing, ih, cons_append]

private theorem not_mem_mark (foreign : char ∉ ['<', '!', '-', '@', '>'])
    (noDigit : isDigit char = false) (index : Nat) : char ∉ mark index := by
  have undigited : char ∉ ofNat index := fun member => by
    rw [isDigit_of_mem_ofNat member] at noDigit
    cases noDigit
  simp_all [mark, opening, closing]

/-- A character of no mark is in a masked text only if it was there before. -/
theorem mem_of_mem_maskFrom (foreign : ∀ index, char ∉ mark index) {text : Text}
    (member : char ∈ maskFrom index text) : char ∈ text := by
  induction text using Comment.induction generalizing index with
  | nil => exact member
  | plain head tail nothing ih =>
    rw [maskFrom_plain index nothing] at member
    rcases mem_cons.1 member with rfl | later
    · exact mem_cons_self
    · exact mem_cons_of_mem _ (ih later)
  | comment comment rest isComment ih =>
    rw [maskFrom_comment index isComment] at member
    rcases mem_append.1 member with marked | later
    · exact absurd marked (foreign index)
    · exact mem_append_right _ (ih later)

/-- Masking keeps the first character. -/
theorem head?_maskFrom (index : Nat) (text : Text) : (maskFrom index text).head? = text.head? := by
  induction text using Comment.induction with
  | nil => rfl
  | plain head tail nothing => rw [maskFrom_plain index nothing]; rfl
  | comment comment rest isComment =>
    rw [maskFrom_comment index isComment, head?_append, head?_append, isComment.head?]
    rfl

/-- Masking brings no braces. -/
theorem opening_of_maskFrom {text : Text} (opens : Interpolation.opening <:+: maskFrom index text) :
    Interpolation.opening <:+: text := by
  induction text using Comment.induction generalizing index with
  | nil => exact opens
  | plain head tail nothing ih =>
    rw [maskFrom_plain index nothing] at opens
    rcases infix_cons_iff.1 opens with starts | later
    · obtain ⟨rfl, rest, second⟩ := cons_prefix_cons.1 starts
      have next := head?_maskFrom index tail
      rw [← second] at next
      obtain ⟨behind, rfl⟩ := head?_eq_some_iff.1 next.symm
      exact ⟨[], behind, rfl⟩
    · exact (ih later).trans (suffix_cons _ _).isInfix
  | comment comment rest isComment ih =>
    rw [maskFrom_comment index isComment] at opens
    have foreign : ∀ char ∈ mark index, char ∉ Interpolation.opening := by
      intro char member brace
      obtain rfl : char = '{' := by simpa [Interpolation.opening] using brace
      exact not_mem_mark (by decide) (by decide) index member
    rw [← append_nil (_ ++ _), infix_between_iff (by decide) foreign (by simp)] at opens
    exact (ih opens).trans (suffix_append _ _).isInfix

end Comment

/-- No start tag is open where none was opened. -/
theorem Attribute.inOpenTag_of_not_mem (unopened : '<' ∉ before) : inOpenTag before = false := by
  have others : ∀ char ∈ before.reverse, (char != '<') = true := by
    intro char member
    exact bne_iff_ne.2 fun same => unopened (same ▸ mem_reverse.1 member)
  have whole := @List.takeWhile_append_of_pos _ (· != '<') before.reverse [] others
  simp only [append_nil, takeWhile_nil] at whole
  simp [inOpenTag, whole]

/-- Without an opening bracket no attribute stands in a buffer. -/
theorem Attribute.standing_of_not_mem {buffer : Text} (unopened : '<' ∉ buffer)
    (read : Text → Option (Nat × Attribute)) : standing read buffer = [] := by
  rw [standing, filter_eq_nil_iff]
  intro found _
  rw [inOpenTag_of_not_mem fun member => unopened (mem_of_mem_take member)]
  decide

/-! ## Elements -/

/-- A character of a name that opens nothing. -/
def isNameMark (char : Char) : Bool :=
  Attribute.isBare char && char != '{'

/-- An element without content and with one attribute. -/
structure SoleAttribute where
  tag : Text
  name : Text
  value : Text
  tagged : ∀ char ∈ tag, isWord char = true
  named : ∀ char ∈ name, isNameMark char = true
  unquoted : '"' ∉ value

namespace SoleAttribute

variable (element : SoleAttribute)

/-- The element up to the value. -/
def front : Text :=
  '<' :: (element.tag ++ ' ' :: (element.name ++ ['=', '"']))

/-- The element behind the quote that closes the value. -/
def behind : Text :=
  '>' :: '<' :: '/' :: (element.tag ++ ['>'])

/-- The element as it is written. -/
def text : Text :=
  element.front ++ (element.value ++ '"' :: element.behind)

theorem not_mem_tag {mark : Char} (other : isWord mark = false) : mark ∉ element.tag :=
  fun member => ne_of_isWord (element.tagged mark member) other rfl

private theorem not_mem_behind (mark : Char) (other : isWord mark = false)
    (unlike : mark ∉ ['>', '<', '/']) : mark ∉ element.behind := by
  have untagged := element.not_mem_tag other
  simp_all [behind]

/-- The element with its comments masked. -/
def masked : SoleAttribute :=
  { element with
    value := Comment.mask element.value
    unquoted := fun member => element.unquoted
      (Comment.mem_of_mem_maskFrom (Comment.not_mem_mark (by decide) (by decide)) member) }

/-- What is in neither name stands in the front at its marks alone. -/
theorem not_mem_front (mark : Char) (other : isWord mark = false)
    (unnamed : mark ∉ element.name) (unlike : mark ∉ ['<', ' ', '=', '"']) :
    mark ∉ element.front := by
  have untagged := element.not_mem_tag other
  simp_all [front]

/-- The element is opened once before its value. -/
theorem bracket_not_mem : '<' ∉ element.tag ++ ' ' :: (element.name ++ ['=', '"']) := by
  have untagged := @not_mem_tag element '<' (by decide)
  have unnamed : '<' ∉ element.name := fun member => by cases element.named '<' member
  simp [untagged, unnamed]

private theorem unquoted_names : ∀ char ∈ element.tag ++ ' ' :: (element.name ++ ['=']),
    char ∉ ['"', '\'', '>'] := by
  intro char member marked
  have other : isWord char = false ∧ isNameMark char = false ∧ char ≠ ' ' ∧ char ≠ '=' := by
    simp only [mem_cons, not_mem_nil, or_false] at marked
    rcases marked with rfl | rfl | rfl <;> decide
  simp only [mem_append, mem_cons, not_mem_nil, or_false] at member
  rcases member with tagged | rfl | named | rfl
  · rw [element.tagged char tagged] at other
    cases other.1
  · exact other.2.2.1 rfl
  · rw [element.named char named] at other
    cases other.2.1
  · exact other.2.2.2 rfl

/-- Masking an element masks its value. -/
theorem mask_text : Comment.mask element.text = element.masked.text := by
  have unopened : ¬ Comment.opening <:+: '"' :: element.behind := by
    intro opens
    have held : '!' ∈ '"' :: element.behind := opens.subset (by decide)
    simp [element.not_mem_behind '!' (by decide) (by decide)] at held
  have unclosed : ¬ Comment.closing <:+: element.behind := fun closes =>
    element.not_mem_behind '-' (by decide) (by decide) (closes.subset (by decide))
  rw [Comment.mask_eq, text, Comment.maskFrom_front, Comment.maskFrom_value unopened unclosed]
  · rfl
  · intro head tail ends
    by_cases bracket : head = '<'
    · subst bracket
      have only := @Text.tail_of_suffix (· == '<') [] _ tail '<' '<' rfl (by simp)
        (fun char member => beq_eq_false_iff_ne.2 fun same =>
          element.bracket_not_mem (same ▸ member)) ends
      subst only
      rw [Comment.recognise_eq_none_iff]
      rintro inside whole
      have second := (List.cons.inj whole).2
      cases tagged : element.tag with
      | nil => simp [tagged] at second
      | cons first letters =>
        rw [tagged] at second
        obtain ⟨rfl, -⟩ := List.cons.inj second
        cases element.tagged '!' (by simp [tagged])
    · exact Comment.recognise_of_ne bracket _

theorem mask_text_of_not_mem (unopened : '<' ∉ element.value) :
    Comment.mask element.text = element.text := by
  rw [mask_text]
  simp only [text, masked, Comment.mask_of_not_mem unopened]

/-! ## Attributes -/

theorem isBlank_of_bare (bare : isWord char = true ∨
    isNameMark char = true) : isBlank char = false := by
  rcases bare with word | mark
  · by_contra blank
    rw [isWord_of_isBlank (by simpa using blank)] at word
    cases word
  · exact Attribute.isBlank_of_isBare (Bool.and_eq_true_iff.1 mark).1

/-- The one blank of the element stands before the name. -/
theorem tail_of_blank_suffix {tail : Text} (blank : isBlank head = true)
    (ends : head :: tail <:+ element.front) : tail = element.name ++ ['=', '"'] := by
  have split : element.front = ('<' :: element.tag) ++ ' ' :: (element.name ++ ['=', '"']) := rfl
  rw [split] at ends
  refine tail_of_suffix blank ?_ ?_ ends
  · refine forall_mem_cons.2 ⟨rfl, fun char member => ?_⟩
    exact isBlank_of_bare (.inl (element.tagged char member))
  · refine forall_mem_append.2 ⟨fun char member => ?_, by simp [isBlank]⟩
    exact isBlank_of_bare (.inr (element.named char member))

theorem isBlank_behind (member : char ∈ '"' :: element.behind) : isBlank char = false := by
  simp only [behind, mem_cons, mem_append, not_mem_nil, or_false] at member
  rcases member with rfl | rfl | rfl | rfl | tagged | rfl
  iterate 4 decide
  · exact isBlank_of_bare (.inl (element.tagged char tagged))
  · decide

/-- Inside the value a start tag is open if one was opened there. -/
theorem inOpenTag_front (unquoted : '"' ∉ before) :
    Attribute.inOpenTag (element.front ++ before) = Attribute.inOpenTag before := by
  by_cases bracket : '<' ∈ before
  · obtain ⟨start, rest, rfl, last⟩ := exists_last bracket
    rw [← append_assoc, Attribute.inOpenTag_append last, Attribute.inOpenTag_append last]
  · -- Nothing is opened behind the front, so the quote before the value is still open.
    have plain : '<' ∉ element.tag ++ ' ' :: (element.name ++ ['=', '"']) ++ before := by
      rw [mem_append, not_or]
      exact ⟨element.bracket_not_mem, bracket⟩
    have quoted : Attribute.walk none
        (element.tag ++ ' ' :: (element.name ++ ['=', '"']) ++ before) = some (some '"') := by
      have split : element.tag ++ ' ' :: (element.name ++ ['=', '"']) ++ before =
          (element.tag ++ ' ' :: (element.name ++ ['='])) ++ '"' :: before := by simp
      rw [split, Attribute.walk_append, Attribute.walk_bare element.unquoted_names (by simp)]
      exact Attribute.walk_value unquoted
    have opened := @Attribute.inOpenTag_append [] _ plain
    rw [nil_append] at opened
    rw [Attribute.inOpenTag_of_not_mem bracket, ← Bool.not_eq_true, front, cons_append,
      opened, Attribute.outsideValues_iff, quoted]
    simp

/-- A reader that does not know the name of the attribute finds what it finds in the value. -/
theorem standing_text {nameLength : Text → Option Nat} {read : Text → Option (Nat × Attribute)}
    (reader : Attribute.IsReader nameLength read)
    (unnamed : ∀ rest, nameLength (element.name ++ '=' :: rest) = none) :
    Attribute.standing read element.text =
      (Attribute.standing read element.value).map (Found.within element.front.length) := by
  have found : scan (fun _ => read) element.text =
      (scan (fun _ => read) element.value).map (Found.within element.front.length) := by
    refine scan_within reader.bounded ?_ ?_ ?_
    · intro head tail ends
      rw [Option.eq_none_iff_forall_ne_some]
      intro result recognised
      obtain ⟨blank, known⟩ := reader.named recognised
      rw [element.tail_of_blank_suffix blank ends] at known
      exact known (by simpa using unnamed _)
    · intro rest ends
      rw [Option.eq_none_iff_forall_ne_some]
      rintro ⟨length, item⟩ recognised
      cases rest with
      | nil =>
        have bound := reader.bounded none _ _ _ recognised
        simp at bound
        omega
      | cons head tail =>
        have blank := (reader.named recognised).1
        rw [element.isBlank_behind (ends.subset mem_cons_self)] at blank
        cases blank
    · intro rest ends
      exact reader.append_eq (fun member => element.unquoted (ends.subset member))
        (element.not_mem_behind '"' (by decide) (by decide))
        (element.not_mem_behind '\'' (by decide) (by decide))
  rw [Attribute.standing, found, filter_map, Attribute.standing]
  congr 1
  refine filter_congr fun place member => ?_
  obtain ⟨before, rest, -, -, whole, -, start, -⟩ := exists_of_mem_scan member
  have unquoted : '"' ∉ before := fun held => element.unquoted (by simp [whole, held])
  have outer : element.text.take (element.front.length + place.start) =
      element.front ++ before := by
    rw [text, whole, start, append_assoc, take_length_add_append, take_left]
  have inner : element.value.take place.start = before := by rw [whole, start, take_left]
  simp only [Function.comp, Found.within, outer, inner]
  exact element.inOpenTag_front unquoted

/-! ## Runs -/

/-- A run of the element stands between two brackets. -/
theorem exists_of_standsAt {place : Found Text} (stands : Run.StandsAt element.text place) :
    place.value ≠ [] ∧ ∃ before after,
      element.text = before ++ '>' :: (place.value ++ '<' :: after) := by
  obtain ⟨before, after, whole, unbracketed, run, -, -⟩ := stands
  simp only [Run.isRun, Bool.and_eq_true, Option.all_eq_true, beq_iff_eq, Bool.not_eq_true',
    isEmpty_eq_false_iff] at run
  obtain ⟨⟨prev, next⟩, nonempty⟩ := run
  refine ⟨nonempty, ?_⟩
  -- The first and the last character of the element are brackets, and so in no run.
  rcases eq_nil_or_concat before with rfl | ⟨start, last, rfl⟩
  · obtain ⟨head, tail, split⟩ := exists_cons_of_ne_nil nonempty
    rw [split] at whole unbracketed
    obtain ⟨rfl, -⟩ := List.cons.inj whole
    cases unbracketed '<' (by simp)
  · cases after with
    | nil =>
      rcases eq_nil_or_concat place.value with empty | ⟨inside, final, split⟩
      · exact absurd empty nonempty
      · have shape : element.text = (element.front ++ (element.value ++ '"' :: '>' :: '<' :: '/' ::
            element.tag)) ++ ['>'] := by simp [text, behind]
        rw [concat_eq_append] at split
        rw [split] at whole unbracketed
        rw [shape, append_nil, ← append_assoc (start.concat last)] at whole
        obtain rfl : '>' = final := by simpa using (append_inj' whole rfl).2
        cases unbracketed '>' (by simp)
    | cons first after =>
      obtain rfl := prev last (by simp)
      obtain rfl := next first rfl
      exact ⟨start, after, by rw [whole]; simp⟩

/-- What stands between two brackets behind the front stands in the value. -/
theorem of_between {run after : Text} (unbracketed : Run.Unbracketed run) (nonempty : run ≠ [])
    (whole : before ++ '>' :: (run ++ '<' :: after) = element.value ++ '"' :: element.behind) :
    ∃ after, element.value = before ++ '>' :: (run ++ '<' :: after) := by
  rcases append_eq_append_iff.1 whole with ⟨middle, left, right⟩ | ⟨middle, -, right⟩
  · cases middle with
    | nil => cases right
    | cons head middle =>
      obtain ⟨rfl, tails⟩ := List.cons.inj right
      rcases append_eq_append_iff.1 tails with ⟨rest, rfl, last⟩ | ⟨rest, rfl, last⟩
      · cases rest with
        | nil => cases last
        | cons head rest =>
          obtain ⟨rfl, -⟩ := List.cons.inj last
          exact ⟨rest, left⟩
      · -- The run would go on over the quote behind the value, and then meet a closing bracket.
        cases rest with
        | nil => cases last
        | cons quote rest =>
          cases rest with
          | nil => cases (List.cons.inj last).2
          | cons bracket rest =>
            obtain ⟨rfl, -⟩ := List.cons.inj (List.cons.inj last).2
            cases unbracketed '>' (by simp)
  · -- Behind the quote, a closing bracket stands right before the opening one or at the end.
    cases middle with
    | nil => cases right
    | cons quote middle =>
      cases middle with
      | nil =>
        obtain ⟨head, tail, rfl⟩ := exists_cons_of_ne_nil nonempty
        obtain ⟨rfl, -⟩ := List.cons.inj (List.cons.inj (List.cons.inj right).2).2
        cases unbracketed '<' (by simp)
      | cons bracket middle =>
        cases middle with
        | nil => cases (List.cons.inj (List.cons.inj right).2).2
        | cons second middle =>
          have rest := (List.cons.inj (List.cons.inj (List.cons.inj right).2).2).2
          have held : '<' ∈ '/' :: (element.tag ++ ['>']) := by simp [rest]
          simp [@not_mem_tag element '<' (by decide)] at held

/-- The runs of the element are the runs of its value that stand between two brackets. -/
theorem exists_run_iff {eligible : Text → Bool} {fits : Text → Prop} :
    (∃ place ∈ Run.all eligible element.text, fits place.value) ↔
      ∃ before run after, element.value = before ++ '>' :: (run ++ '<' :: after) ∧
        Run.Unbracketed run ∧ run ≠ [] ∧ eligible run = true ∧ fits run := by
  constructor
  · rintro ⟨place, member, fit⟩
    obtain ⟨stands, holds⟩ := Run.mem_all_iff.1 member
    obtain ⟨nonempty, before, after, whole⟩ := element.exists_of_standsAt stands
    have unclosed : '>' ∉ element.front := by
      refine element.not_mem_front '>' (by decide) (fun member => ?_) (by decide)
      cases element.named '>' member
    obtain ⟨before, inside⟩ := suffix_of_suffix_append unclosed ⟨before, whole.symm⟩
    obtain ⟨after, split⟩ := element.of_between stands.unbracketed nonempty inside
    exact ⟨before, place.value, after, split, stands.unbracketed, nonempty, holds, fit⟩
  · rintro ⟨before, run, after, whole, unbracketed, nonempty, holds, fit⟩
    refine ⟨⟨(element.front ++ before ++ ['>']).length,
      (element.front ++ before ++ ['>']).length + run.length, run⟩, Run.mem_all_iff.2 ⟨?_, holds⟩,
      fit⟩
    refine ⟨element.front ++ before ++ ['>'], '<' :: (after ++ '"' :: element.behind), ?_,
      unbracketed, ?_, rfl, rfl⟩
    · rw [text, whole]
      simp
    · simp [Run.isRun, nonempty]

/-! ## Settled elements -/

private theorem not_opening_text (plain : ¬ Interpolation.opening <:+: element.value) :
    ¬ Interpolation.opening <:+: element.text := by
  have front : ∀ char ∈ element.front, char ∉ Interpolation.opening := by
    intro char member brace
    obtain rfl : char = '{' := by simpa [Interpolation.opening] using brace
    exact element.not_mem_front '{' (by decide) (fun named => by cases element.named '{' named)
      (by decide) member
  have behind : ∀ char ∈ '"' :: element.behind, char ∉ Interpolation.opening := by
    intro char member brace
    obtain rfl : char = '{' := by simpa [Interpolation.opening] using brace
    rcases mem_cons.1 member with same | later
    · cases same
    · exact element.not_mem_behind '{' (by decide) (by decide) later
  rw [text, ← append_assoc, infix_between_iff (by decide) front behind]
  exact plain

/-- An element without interpolations in its value is settled by its attributes and by the runs
in its value. -/
theorem settled_text_iff {functions : Functions}
    (unbraced : ¬ Interpolation.opening <:+: element.value) :
    Settled functions element.text ↔
      (∀ found ∈ Attribute.all Attribute.plainName element.text,
        hasIdeograph found.value.value = false) ∧
      (∀ found ∈ boundTemplates element.text, hasIdeograph
        (fixedText Interpolation.recogniseSubstitution found.value.value) = false) ∧
      (∀ found ∈ Attribute.all (Attribute.directiveName Attribute.bindingsAndEvents) element.text,
        AllWrapped functions [Stage.otherQuote found.value.quote, Char.ofNat 0x60]
          (fun body => !body.contains '{' && !body.contains '}') found.value.value) ∧
      ∀ before run after, element.value = before ++ '>' :: (run ++ '<' :: after) →
        Run.Unbracketed run → hasIdeograph run = true → ¬ IsPlain functions run := by
  have unopened := element.not_opening_text unbraced
  constructor
  · rintro ⟨attributes, templates, directives, -, -, plain⟩
    refine ⟨attributes, templates, directives, ?_⟩
    intro before run after whole unbracketed foreign fits
    have nonempty : run ≠ [] := by
      rintro rfl
      cases foreign
    obtain ⟨place, member, fit⟩ := element.exists_run_iff.2
      ⟨before, run, after, whole, unbracketed, nonempty, foreign, fits⟩
    exact plain place member fit
  · rintro ⟨attributes, templates, directives, runs⟩
    refine ⟨attributes, templates, directives, ?_, ?_, ?_⟩
    · intro found member
      obtain ⟨before, rest, -, length, whole, recognised, -, -⟩ := exists_of_mem_scan member
      obtain ⟨-, -, starts⟩ := Interpolation.recognise_eq_some_iff.1 recognised
      refine absurd (.trans ⟨[], found.value ++ Interpolation.closing, ?_⟩
        (starts.isInfix.trans ⟨before, [], by simp [whole]⟩)) unopened
      simp
    · intro found member
      obtain ⟨⟨before, after, whole, -⟩, holds⟩ := Run.mem_all_iff.1 member
      exact absurd ((occursIn_iff.1 holds).trans ⟨before, after, whole.symm⟩) unopened
    · intro found member fits
      obtain ⟨before, run, after, whole, unbracketed, -, foreign, plain⟩ :=
        element.exists_run_iff.1 ⟨found, member, fits⟩
      exact runs before run after whole unbracketed foreign plain

end SoleAttribute

end Markup

end Phrasebook
