import Mathlib.Data.List.Basic
import Phrasebook.Proofs.Markup.Registered
import Phrasebook.Proofs.Markup.Stages

/-!
# Plain attributes of a start tag

The stage for plain attributes looks for attributes anywhere in its buffer and asks of each
whether it stands inside a start tag and outside the values there. The answer comes from a
walk that starts behind the last opening bracket. A bracket inside a value is taken for the
start of a tag: the closing quote of the value then opens one, and no attribute behind it is
seen. This module says which attributes of a tag become bound, for every tag that is written
with single blanks and double quotes.
-/

namespace Phrasebook.Markup

open List Pass Text

namespace Attribute

variable {nameLength : Text → Option Nat} {head : Char} {tail name : Text} {quote : Option Char}

/-! ## Names -/

/-- A character that can stand in a name: no blank, quote, equals sign or angle bracket. -/
def isBare (char : Char) : Bool :=
  !(isBlank char || List.contains ['=', '"', '\'', '<', '>'] char)

/-- The name of a plain attribute. -/
def isPlainName : Text → Bool
  | [] => false
  | first :: rest =>
    (first.isAlpha || first == '_') && rest.all isPlainPart &&
      !isPrefixOf ['v', '-'] (first :: rest)

/-- The name of a bound attribute, an event handler, a slot or another directive. -/
def isDirectiveName (name : Text) : Bool :=
  [[':'], ['@'], ['#'], ['v', '-']].any (isPrefixOf · name) && name.all isBare

theorem isBlank_of_isBare {char : Char} (bare : isBare char = true) :
    isBlank char = false := by
  simp only [isBare, Bool.not_eq_true', Bool.or_eq_false_iff] at bare
  exact bare.1

/-- An attribute starts at a blank. -/
theorem recognise_of_not_blank (visible : isBlank head = false) :
    recognise nameLength (head :: tail) = none := by
  simp [recognise, opening, visible]

private theorem recognise_of_no_name (unnamed : nameLength tail = none) :
    recognise nameLength (head :: tail) = none := by
  simp [recognise, opening, unnamed]

/-- No attribute starts in a value without an equals sign. -/
theorem recognise_value {text : Text} (unsigned : '=' ∉ text) (rest : Text) :
    recognise plainName (text ++ '"' :: rest) = none := by
  rw [Option.eq_none_iff_forall_ne_some]
  rintro ⟨length, item⟩ recognised
  obtain ⟨gap, secondGap, behind, whole, -, blank, gapBlank, -, isName, -, -⟩ :=
    recognise_spelled recognised
  have parts := isPlainPart_of_isNameOf isName
  -- Nothing up to the equals sign is a quote, so the value would hold the sign.
  have unquoted : '"' ∉ item.lead :: (item.name ++ gap) := by
    simp only [mem_cons, mem_append, not_or]
    refine ⟨?_, fun member => ?_, fun member => ?_⟩
    · rintro same
      rw [← same] at blank
      cases blank
    · exact absurd (parts '"' member) (by decide)
    · exact absurd (gapBlank '"' member) (by decide)
  have split : text ++ '"' :: rest = (item.lead :: (item.name ++ gap)) ++ '=' ::
      (secondGap ++ [item.quote] ++ (item.value ++ [item.quote]) ++ behind) := by
    rw [whole]
    simp [Opening.spelled, start]
  rcases append_eq_append_iff.1 split with ⟨inside, front, back⟩ | ⟨inside, front, back⟩
  · cases inside with
    | nil => cases back
    | cons head inside =>
      obtain ⟨rfl, -⟩ := List.cons.inj back
      exact unquoted (by simp [front])
  · cases inside with
    | nil => cases back
    | cons head inside =>
      obtain ⟨rfl, -⟩ := List.cons.inj back
      exact unsigned (by simp [front])

private theorem plainName_plain (plain : isPlainName name = true) (rest : Text) :
    plainName (name ++ '=' :: rest) = some name.length := by
  cases name with
  | nil => cases plain
  | cons first letters =>
    simp only [isPlainName, Bool.and_eq_true, Bool.not_eq_true', all_eq_true] at plain
    obtain ⟨⟨starts, parts⟩, other⟩ := plain
    have noDirective : ['v', '-'].isPrefixOf (first :: letters ++ '=' :: rest) = false := by
      cases letters with
      | nil => simp [isPrefixOf]
      | cons second letters => simpa [isPrefixOf] using other
    have taken : (letters ++ '=' :: rest).takeWhile isPlainPart = letters := by
      rw [takeWhile_append_of_pos parts, takeWhile_cons_of_neg (by decide),
        append_nil]
    rw [cons_append, plainName, ← cons_append, noDirective, starts]
    change some (1 + ((letters ++ '=' :: rest).takeWhile isPlainPart).length) = _
    rw [taken, length_cons, Nat.add_comm]

/-- A plain attribute is recognised. -/
theorem recognise_plain {value : Text} (plain : isPlainName name = true) (unquoted : '"' ∉ value)
    (rest : Text) :
    recognise plainName (' ' :: (name ++ '=' :: '"' :: (value ++ ['"'])) ++ rest) =
      some ((' ' :: (name ++ '=' :: '"' :: (value ++ ['"']))).length,
        ⟨' ', name, '"', value, name.length + 3⟩) := by
  have size := plainName_plain plain ('"' :: (value ++ '"' :: rest))
  have sign : blanks ('=' :: '"' :: (value ++ '"' :: rest)) = 0 := rfl
  have quote : blanks ('"' :: (value ++ '"' :: rest)) = 0 := rfl
  have inside : (value ++ '"' :: rest).takeWhile (· != '"') = value := by
    have open_ : ∀ char ∈ value, (char != '"') = true := by
      rintro char member
      exact bne_iff_ne.2 fun same => unquoted (same ▸ member)
    rw [takeWhile_append_of_pos open_, takeWhile_cons_of_neg (by decide), append_nil]
  have blank : isBlank ' ' = true := by decide
  simp only [recognise, opening, cons_append, append_assoc, nil_append, blank, size]
  simp [sign, quote, inside, Attribute.length]
  omega

/-- A directive is not recognised as a plain attribute. -/
theorem plainName_directive (directive : isDirectiveName name = true) (rest : Text) :
    plainName (name ++ rest) = none := by
  simp only [isDirectiveName, Bool.and_eq_true, any_eq_true] at directive
  obtain ⟨⟨beginning, known, starts⟩, -⟩ := directive
  obtain ⟨behind, rfl⟩ := List.isPrefixOf_iff_prefix.1 starts
  simp only [mem_cons, not_mem_nil, or_false] at known
  rcases known with rfl | rfl | rfl | rfl
  iterate 3 rfl
  simp [plainName, isPrefixOf]

/-! ## Open quotes -/

/-- The quote that is open behind a text, or nothing if the tag has ended. -/
def walk : (quote : Option Char) → Text → Option (Option Char)
  | quote, [] => some quote
  | some quote, head :: tail => walk (if head == quote then none else some quote) tail
  | none, head :: tail =>
    if head == '"' || head == '\'' then walk (some head) tail
    else if head == '>' then none
    else walk none tail

/-- An attribute is outside of values if the walk ends outside. -/
theorem outsideValues_iff {text : Text} :
    outsideValues quote text = true ↔ walk quote text = some none := by
  fun_induction outsideValues quote text <;> simp_all [walk]

theorem walk_append (quote : Option Char) (left right : Text) :
    walk quote (left ++ right) = (walk quote left).bind (walk · right) := by
  fun_induction walk quote left <;> simp_all [walk]

/-- A text without quotes and closing brackets changes nothing. -/
theorem walk_bare {text : Text} (plain : ∀ char ∈ text, char ∉ ['"', '\'', '>'])
    (isQuote : ∀ char ∈ quote, char = '"' ∨ char = '\'') : walk quote text = some quote := by
  induction text with
  | nil => simp [walk]
  | cons head tail ih =>
    obtain ⟨here, later⟩ := forall_mem_cons.1 plain
    simp only [mem_cons, not_mem_nil, or_false, not_or] at here
    have rest := ih later
    cases quote with
    | none => simpa [walk, here] using rest
    | some quote =>
      have unlike : ¬ head = quote := by
        rcases isQuote quote rfl with rfl | rfl
        · exact here.1
        · exact here.2.1
      simpa [walk, unlike] using rest

theorem walk_value {text : Text} (unquoted : '"' ∉ text) :
    walk (some '"') text = some (some '"') := by
  induction text with
  | nil => rfl
  | cons head tail ih =>
    rw [mem_cons, not_or] at unquoted
    simpa [walk, Ne.symm unquoted.1] using ih unquoted.2

/-- The states in which nothing that follows is seen: a quote is open or the tag has ended. -/
def Hidden (state : Option (Option Char)) : Prop :=
  state = none ∨ state = some (some '"') ∨ state = some (some '\'')

private theorem Hidden.ne {state : Option (Option Char)} (hidden : Hidden state) :
    ¬ state = some none := by
  rcases hidden with rfl | rfl | rfl <;> simp

/-- A value that is not read from its opening quote leaves a quote open. -/
theorem hidden_value {text : Text} (unquoted : '"' ∉ text) {quote : Option Char}
    (inside : quote = none ∨ quote = some '\'') : Hidden (walk quote (text ++ ['"'])) := by
  induction text generalizing quote with
  | nil => rcases inside with rfl | rfl <;> simp [walk, Hidden]
  | cons head tail ih =>
    rw [mem_cons, not_or] at unquoted
    have rest {quote : Option Char} := @ih unquoted.2 quote
    rw [cons_append]
    rcases inside with rfl | rfl
    · by_cases apostrophe : head = '\''
      · simpa [walk, apostrophe] using rest (.inr rfl)
      · by_cases closes : head = '>'
        · exact .inl (by simp [walk, closes])
        · simpa [walk, apostrophe, closes, Ne.symm unquoted.1] using rest (.inl rfl)
    · by_cases apostrophe : head = '\''
      · simpa [walk, apostrophe] using rest (.inl rfl)
      · simpa [walk, apostrophe] using rest (.inr rfl)

/-- Only what is behind the last bracket counts. -/
theorem inOpenTag_append {front behind : Text} (plain : '<' ∉ behind) :
    inOpenTag (front ++ '<' :: behind) = outsideValues none behind := by
  have others : ∀ char ∈ behind.reverse, (char != '<') = true := by
    intro char member
    exact bne_iff_ne.2 fun same => plain (same ▸ mem_reverse.1 member)
  have cut : (front ++ '<' :: behind).reverse.takeWhile (· != '<') = behind.reverse := by
    rw [reverse_append, reverse_cons, append_assoc,
      takeWhile_append_of_pos others, singleton_append,
      takeWhile_cons_of_neg (by decide), append_nil]
  have shorter : behind.reverse.length < (front ++ '<' :: behind).length := by
    simp only [length_reverse, length_append, length_cons]
    omega
  simp only [inOpenTag, cut, shorter, decide_true, Bool.true_and, reverse_reverse]

end Attribute

/-! ## Start tags -/

/-- An attribute as it is written in a start tag: a plain attribute or a directive, with a value
in double quotes. -/
structure TagItem where
  name : Text
  value : Text
  named : (Attribute.isPlainName name || Attribute.isDirectiveName name) = true
  unquoted : '"' ∉ value
  unsigned : '=' ∉ value

namespace TagItem

/-- The item behind its blank. -/
def text (item : TagItem) : Text :=
  ' ' :: (item.name ++ '=' :: '"' :: (item.value ++ ['"']))

/-- The item as a bound attribute that looks its value up. -/
def bound (scope : Scope) (item : TagItem) : Text :=
  ' ' :: ':' :: (item.name ++ '=' :: '"' :: (scope.call (trim item.value) '\'' [] ++ ['"']))

/-- Whether an item is a plain attribute with ideographs in its value. -/
def isForeign (item : TagItem) : Bool :=
  Attribute.isPlainName item.name && hasIdeograph item.value

/-- The item as the stage reads it. -/
def reading (item : TagItem) : Attribute :=
  ⟨' ', item.name, '"', item.value, item.name.length + 3⟩

/-- A name holds no quote and no bracket. -/
theorem not_mem_of_mem_name (item : TagItem) :
    ∀ char ∈ item.name, char ∉ ['"', '\'', '<', '>'] := by
  intro char member marked
  have other : Attribute.isPlainPart char = false ∧ Attribute.isBare char = false := by
    simp only [mem_cons, not_mem_nil, or_false] at marked
    rcases marked with rfl | rfl | rfl | rfl <;> decide
  rcases Bool.or_eq_true_iff.1 item.named with plain | directive
  · obtain ⟨name, value, named, unquoted, unsigned⟩ := item
    cases name with
    | nil => cases member
    | cons first letters =>
      simp only [Attribute.isPlainName, Bool.and_eq_true, all_eq_true] at plain
      rcases mem_cons.1 member with rfl | later
      · rw [Attribute.isPlainPart_of_letter plain.1.1] at other
        cases other.1
      · rw [plain.1.2 char later] at other
        cases other.1
  · simp only [Attribute.isDirectiveName, Bool.and_eq_true, all_eq_true] at directive
    rw [directive.2 char member] at other
    cases other.2

/-- A walk comes to the opening quote of an item as it was before the item. -/
theorem walk_text_eq (item : TagItem) {quote : Option Char}
    (isQuote : ∀ char ∈ quote, char = '"' ∨ char = '\'') :
    Attribute.walk quote item.text = Attribute.walk quote ('"' :: (item.value ++ ['"'])) := by
  have plain : ∀ char ∈ ' ' :: (item.name ++ ['=']), char ∉ ['"', '\'', '>'] := by
    simp only [forall_mem_cons, forall_mem_append]
    refine ⟨by decide, fun char member marked => ?_, by decide, by simp⟩
    exact item.not_mem_of_mem_name char member (by grind)
  have split : item.text = (' ' :: (item.name ++ ['='])) ++ '"' :: (item.value ++ ['"']) := by
    simp [text]
  rw [split, Attribute.walk_append, Attribute.walk_bare plain isQuote, Option.bind_some]

/-- Only the value of an item may hold an opening bracket. -/
theorem bracket_mem_text_iff (item : TagItem) : '<' ∈ item.text ↔ '<' ∈ item.value := by
  have unnamed : '<' ∉ item.name := fun member => item.not_mem_of_mem_name _ member (by decide)
  simp [text, unnamed]

/-- Behind an item that is read from outside all quotes are closed. -/
theorem walk_text (item : TagItem) : Attribute.walk none item.text = some none := by
  rw [item.walk_text_eq (by simp)]
  change Attribute.walk (some '"') (item.value ++ ['"']) = some none
  rw [Attribute.walk_append, Attribute.walk_value item.unquoted]
  rfl

/-- What is hidden stays hidden behind an item. -/
theorem hidden_text (item : TagItem) {state : Option (Option Char)}
    (hidden : Attribute.Hidden state) :
    Attribute.Hidden (state.bind (Attribute.walk · item.text)) := by
  rcases hidden with rfl | rfl | rfl
  · exact .inl rfl
  · rw [Option.bind_some, item.walk_text_eq (by simp)]
    exact Attribute.hidden_value item.unquoted (.inl rfl)
  · rw [Option.bind_some, item.walk_text_eq (by simp)]
    exact Attribute.hidden_value item.unquoted (.inr rfl)

end TagItem

/-- A start tag with single blanks before its attributes. -/
structure StartTag where
  name : Text
  items : List TagItem
  named : ∀ char ∈ name, Attribute.isBare char = true

/-- An item of a tag with the items before it. -/
structure Standing where
  earlier : List TagItem
  item : TagItem

namespace StartTag

variable {earlier items : List TagItem}

/-- A start tag up to some of its items. -/
def front (tag : StartTag) (items : List TagItem) : Text :=
  '<' :: tag.name ++ items.flatMap TagItem.text

/-- A start tag as it is written. -/
def text (tag : StartTag) : Text :=
  tag.front tag.items ++ ['>']

/-- The items of a tag, each with those before it. -/
def standings : (earlier : List TagItem) → List TagItem → List Standing
  | _, [] => []
  | earlier, item :: later => ⟨earlier, item⟩ :: standings (earlier ++ [item]) later

/-- Whether no value holds an opening bracket. -/
def unbroken (items : List TagItem) : Bool :=
  items.all fun item => !item.value.contains '<'

private theorem unbroken_cons (item : TagItem) (items : List TagItem) :
    unbroken (item :: items) = (!item.value.contains '<' && unbroken items) :=
  all_cons

private theorem inOpenTag_items {items : List TagItem} {before behind : Text} (plain : '<' ∉ behind)
    {state : Option (Option Char)} (walked : Attribute.walk none behind = state)
    (known : state = some none ∨ Attribute.Hidden state) :
    Attribute.inOpenTag (before ++ '<' :: (behind ++ items.flatMap TagItem.text)) =
      (decide (state = some none) && unbroken items) := by
  induction items generalizing before behind state with
  | nil =>
    rw [flatMap_nil, append_nil, Attribute.inOpenTag_append plain, unbroken, all_nil,
      Bool.and_true, Bool.eq_iff_iff, Attribute.outsideValues_iff, decide_eq_true_iff, walked]
  | cons item items ih =>
    by_cases bracket : '<' ∈ item.value
    · -- The scan starts at the last bracket of the value, so its closing quote opens one.
      obtain ⟨head, rest, whole, last⟩ := exists_last bracket
      have unquoted : '"' ∉ rest := fun member => item.unquoted (by simp [whole, member])
      have hidden := Attribute.hidden_value unquoted (.inl (Eq.refl none))
      have later := @ih (before ++ '<' :: (behind ++ ' ' :: (item.name ++ '=' ::
        '"' :: head))) (rest ++ ['"']) (by simp [last]) _ rfl (.inr hidden)
      have shut : unbroken (item :: items) = false := by simp [unbroken_cons, bracket]
      rw [shut, Bool.and_false]
      rw [decide_eq_false hidden.ne, Bool.false_and] at later
      rw [← later]
      simp [TagItem.text, whole]
    · have plainText : '<' ∉ item.text := fun member => bracket (item.bracket_mem_text_iff.1 member)
      have open_ : (!item.value.contains '<') = true := by simpa using bracket
      rw [unbroken_cons, open_, Bool.true_and, flatMap_cons, ← append_assoc behind]
      rcases known with rfl | hidden
      · have walks : Attribute.walk none (behind ++ item.text) = some none := by
          rw [Attribute.walk_append, walked]
          exact item.walk_text
        exact ih (by simp [plain, plainText]) walks (.inl rfl)
      · have walks : Attribute.walk none (behind ++ item.text) =
            state.bind (Attribute.walk · item.text) := by rw [Attribute.walk_append, walked]
        have stays := item.hidden_text hidden
        rw [ih (by simp [plain, plainText]) walks (.inr stays),
          decide_eq_false hidden.ne, decide_eq_false stays.ne]

/-- An item is seen exactly when no earlier value holds an opening bracket. -/
theorem inOpenTag_front (tag : StartTag) (earlier : List TagItem) :
    Attribute.inOpenTag (tag.front earlier) = unbroken earlier := by
  have bare {char : Char} (other : Attribute.isBare char = false) :
      char ∉ tag.name := by
    intro member
    rw [tag.named char member] at other
    cases other
  have plain : ∀ char ∈ tag.name, char ∉ ['"', '\'', '>'] := by
    intro char member marked
    simp only [mem_cons, not_mem_nil, or_false] at marked
    rcases marked with rfl | rfl | rfl <;> exact bare (by decide) member
  have seen := @inOpenTag_items earlier [] tag.name (bare (by decide)) (some none)
    (Attribute.walk_bare plain (by simp)) (.inl rfl)
  simpa [front] using seen

/-! ## What the stage finds -/

private theorem mem_standings_iff {standing : Standing} :
    standing ∈ standings earlier items ↔ ∃ before behind,
      items = before ++ standing.item :: behind ∧ standing.earlier = earlier ++ before := by
  induction items generalizing earlier with
  | nil => simp [standings]
  | cons item items ih =>
    rw [standings, mem_cons, ih]
    constructor
    · rintro (rfl | ⟨before, behind, rfl, same⟩)
      · exact ⟨[], items, rfl, (append_nil _).symm⟩
      · exact ⟨item :: before, behind, rfl, by simp [same]⟩
    · rintro ⟨before, behind, whole, same⟩
      cases before with
      | nil =>
        obtain ⟨rfl, -⟩ := List.cons.inj whole
        exact .inl (by rw [← append_nil earlier, ← same])
      | cons first before =>
        obtain ⟨rfl, rfl⟩ := List.cons.inj whole
        exact .inr ⟨before, behind, rfl, by simp [same]⟩

private theorem front_append (tag : StartTag) (earlier later : List TagItem) :
    tag.front (earlier ++ later) = tag.front earlier ++ later.flatMap TagItem.text := by
  simp [front]

private theorem length_front_append (tag : StartTag) (earlier : List TagItem) (item : TagItem) :
    (tag.front (earlier ++ [item])).length = (tag.front earlier).length + item.text.length := by
  simp [front_append]

/-- A plain item as it is read where it stands. -/
def readAt (tag : StartTag) (standing : Standing) : Option (Found Attribute) :=
  if Attribute.isPlainName standing.item.name then
    some ⟨(tag.front standing.earlier).length,
      (tag.front (standing.earlier ++ [standing.item])).length, standing.item.reading⟩
  else none

/-- A scan goes over a directive. -/
theorem scanFrom_directive {item : TagItem} (directive : Attribute.isDirectiveName item.name = true)
    (rest : Text) (offset : Nat) (prev : Option Char) : ∃ last,
    scanFrom (fun _ => Attribute.recognise Attribute.plainName) offset 0 prev
      (item.text ++ rest) = scanFrom (fun _ => Attribute.recognise Attribute.plainName)
          (offset + item.text.length) 0 last rest := by
  have split : item.text ++ rest = ' ' :: ((item.name ++ ['=', '"']) ++
      ((item.value ++ ['"']) ++ rest)) := by simp [TagItem.text]
  have size : offset + 1 + (item.name ++ ['=', '"']).length + (item.value ++ ['"']).length =
      offset + item.text.length := by
    simp only [TagItem.text, length_append, length_cons, length_nil]
    omega
  have visible : ∀ char ∈ item.name ++ ['=', '"'], isBlank char = false := by
    simp only [Attribute.isDirectiveName, Bool.and_eq_true, all_eq_true] at directive
    refine forall_mem_append.2 ⟨fun char member => ?_, ?_⟩
    · exact Attribute.isBlank_of_isBare (directive.2 char member)
    · simp only [mem_cons, not_mem_nil, or_false]
      rintro char (rfl | rfl) <;> decide
  rw [split, scanFrom_of_none (Attribute.recognise_of_no_name (by
    rw [append_assoc]; exact Attribute.plainName_directive directive _)),
    scanFrom_append (fun head tail ends _ =>
      Attribute.recognise_of_not_blank (visible head (ends.subset (by simp)))),
    scanFrom_append (fun head tail ends _ => ?_), size]
  · exact ⟨_, rfl⟩
  · rcases suffix_concat_iff.1 ends with empty | ⟨value, spelled, inside⟩
    · cases empty
    · have unsigned : '=' ∉ value := fun member => item.unsigned (inside.subset member)
      rw [← cons_append, spelled, append_assoc]
      exact Attribute.recognise_value unsigned rest

/-- A scan reads the plain items of a tag. -/
theorem scanFrom_items (tag : StartTag) (items earlier : List TagItem) (prev : Option Char) :
    scanFrom (fun _ => Attribute.recognise Attribute.plainName) (tag.front earlier).length 0
      prev (items.flatMap TagItem.text ++ ['>']) =
        (standings earlier items).filterMap tag.readAt := by
  induction items generalizing earlier prev with
  | nil => rfl
  | cons item items ih =>
    have rest (prev : Option Char) := ih (earlier ++ [item]) prev
    have size := tag.length_front_append earlier item
    rw [size] at rest
    rw [flatMap_cons, append_assoc, standings]
    cases plain : Attribute.isPlainName item.name with
    | true =>
      have read : tag.readAt ⟨earlier, item⟩ = some ⟨(tag.front earlier).length,
          (tag.front earlier).length + item.text.length, item.reading⟩ := by
        rw [readAt, if_pos plain, size]
      rw [filterMap_cons_some read, ← rest item.text.getLast?]
      exact scanFrom_of_some (by simp [TagItem.text])
        (Attribute.recognise_plain plain item.unquoted _)
    | false =>
      have directive : Attribute.isDirectiveName item.name = true := by
        simpa [plain] using item.named
      have unread : tag.readAt ⟨earlier, item⟩ = none := by simp [readAt, plain]
      obtain ⟨last, passed⟩ := scanFrom_directive directive (items.flatMap TagItem.text ++ ['>'])
        (tag.front earlier).length prev
      rw [filterMap_cons_none unread, passed, rest]

private theorem scan_text (tag : StartTag) :
    scan (fun _ => Attribute.recognise Attribute.plainName) tag.text =
      (standings [] tag.items).filterMap tag.readAt := by
  have visible : ∀ char ∈ '<' :: tag.name, isBlank char = false :=
    forall_mem_cons.2 ⟨by decide, fun char member =>
      Attribute.isBlank_of_isBare (tag.named char member)⟩
  have split : tag.text = ('<' :: tag.name) ++ (tag.items.flatMap TagItem.text ++ ['>']) := by
    simp [text, front]
  have start : 0 + ('<' :: tag.name).length = (tag.front []).length := by simp [front]
  rw [scan, split, scanFrom_append (fun head tail ends _ =>
    Attribute.recognise_of_not_blank (visible head (ends.subset (by simp)))), start]
  exact tag.scanFrom_items tag.items [] _

/-- Whether an item becomes bound: it is plain, its value holds ideographs, and it is seen. -/
def isTaken (standing : Standing) : Bool :=
  standing.item.isForeign && unbroken standing.earlier

/-- What the stage puts in the place of an item. -/
def pieces (tag : StartTag) (standing : Standing) : Found (List Piece) :=
  ⟨(tag.front standing.earlier).length, (tag.front (standing.earlier ++ [standing.item])).length,
    [.fixed (' ' :: ':' :: standing.item.name ++ ['=', '"']),
      .call ⟨(tag.front standing.earlier).length + 1,
        (tag.front (standing.earlier ++ [standing.item])).length,
        literally (trim standing.item.value), '\'', []⟩,
      .fixed ['"']]⟩

private theorem find_plainAttribute (tag : StartTag) (functions : Functions) :
    Stage.find functions tag.text .plainAttribute =
      ((standings [] tag.items).filter isTaken).map tag.pieces := by
  rw [Stage.find, Stage.placed, Attribute.all, scan_text, filter_filterMap,
    filterMap_filterMap, ← filterMap_eq_filter, map_filterMap]
  refine filterMap_congr fun standing member => ?_
  obtain ⟨earlier, later, whole, rfl⟩ := mem_standings_iff.1 member
  have before : tag.text.take (tag.front standing.earlier).length = tag.front standing.earlier := by
    rw [text, whole, front_append, append_assoc, take_left]
  cases plain : Attribute.isPlainName standing.item.name with
  | false => simp [readAt, plain, isTaken, TagItem.isForeign, Option.guard]
  | true =>
    have seen := tag.inOpenTag_front standing.earlier
    cases foreign : hasIdeograph standing.item.value <;>
      cases open_ : unbroken standing.earlier <;>
      simp [readAt, plain, isTaken, TagItem.isForeign, before, seen, open_, foreign,
        Stage.findPlainAttribute, TagItem.reading, pieces, Option.filter, Option.guard]

/-! ## The tag after the stage -/

/-- An item, bound or as it is written. -/
def part (scope : Scope) (chosen : Standing → Bool) (standing : Standing) : Text :=
  if chosen standing then standing.item.bound scope else standing.item.text

/-- A tag in which the chosen items are bound. -/
def binding (tag : StartTag) (scope : Scope) (chosen : Standing → Bool) : Text :=
  '<' :: tag.name ++ (standings [] tag.items).flatMap (part scope chosen) ++ ['>']

/-- The trimmed value of an item, at the place of the item behind its blank. -/
def phrase (tag : StartTag) (scope : Scope) (standing : Standing) : KeyedPhrase :=
  ⟨Key.ofText (trim standing.item.value) scope.path scope.keyLength,
    ⟨⟨(tag.front standing.earlier).length + 1,
      (tag.front (standing.earlier ++ [standing.item])).length⟩,
      trim standing.item.value, .markupAttribute⟩⟩

/-- The phrases of the items that the stage takes. -/
def phrases (tag : StartTag) (scope : Scope) : List KeyedPhrase :=
  ((standings [] tag.items).filter isTaken).map (tag.phrase scope)

private theorem spell_pieces (tag : StartTag) (scope : Scope) (standing : Standing) :
    Piece.spell scope (tag.pieces standing).value = standing.item.bound scope := by
  simp [pieces, Piece.spell, Piece.callText, Stage.storedText_literally, TagItem.bound]

/-- The places of the items that the stage takes, with what is put there. -/
def contents (tag : StartTag) (scope : Scope) (standings : List Standing) : List (Found Text) :=
  (standings.filter isTaken).map fun standing =>
    ⟨(tag.front standing.earlier).length, (tag.front (standing.earlier ++ [standing.item])).length,
      standing.item.bound scope⟩

private theorem ordered_contents (tag : StartTag) (scope : Scope) (items earlier : List TagItem) :
    Found.Ordered (tag.front earlier).length (tag.front (earlier ++ items)).length
      (tag.contents scope (standings earlier items)) := by
  induction items generalizing earlier with
  | nil => simp [standings, contents, Found.Ordered]
  | cons item items ih =>
    have later := ih (earlier ++ [item])
    have size := tag.length_front_append earlier item
    have positive : 0 < item.text.length := by simp [TagItem.text]
    rw [append_assoc, singleton_append] at later
    rw [standings, contents, filter_cons]
    split
    · exact ⟨Nat.le_refl _, by simp only; omega, later⟩
    · exact later.mono (by omega)

/-- The items that the stage takes become bound, and the others are copied. -/
theorem copy_contents (tag : StartTag) (scope : Scope) (items earlier : List TagItem) :
    Edit.copy (tag.front earlier).length (items.flatMap TagItem.text ++ ['>'])
      (tag.contents scope (standings earlier items)) =
        (standings earlier items).flatMap (part scope isTaken) ++ ['>'] := by
  induction items generalizing earlier with
  | nil => rfl
  | cons item items ih =>
    have rest := ih (earlier ++ [item])
    have size := tag.length_front_append earlier item
    have ordered := tag.ordered_contents scope items (earlier ++ [item])
    rw [flatMap_cons, append_assoc, standings, flatMap_cons, contents,
      filter_cons, append_assoc, ← rest, part]
    split
    · rw [map_cons, Edit.copy, Nat.sub_self, size, Nat.add_sub_cancel_left, drop_left]
      rfl
    · rw [← contents, Edit.copy_advance (by omega) ordered, size, Nat.add_sub_cancel_left,
        take_left, drop_left]

/-- The stage makes of a tag the one in which the items that it takes are bound. -/
theorem applied_plainAttribute (tag : StartTag) (scope : Scope) :
    Stage.applied scope .plainAttribute tag.text = tag.binding scope isTaken := by
  have places : Stage.contents scope (Stage.find scope.functions tag.text .plainAttribute) =
      tag.contents scope (standings [] tag.items) := by
    rw [Stage.contents, find_plainAttribute, map_map, contents]
    exact map_congr_left fun standing _ => by rw [Function.comp, spell_pieces]; rfl
  have ordered := tag.ordered_contents scope tag.items []
  have split : tag.text = tag.front [] ++ (tag.items.flatMap TagItem.text ++ ['>']) := by
    simp [text, front]
  rw [Stage.applied, places, Edit.copy_advance (Nat.zero_le _) ordered, Nat.sub_zero, split,
    take_left, drop_left, copy_contents]
  simp [binding, front]

private theorem emits_plainAttribute (tag : StartTag) (scope : Scope) :
    Emits (Stage.apply scope .plainAttribute tag.text) (.ok (tag.binding scope isTaken))
      (tag.phrases scope) := by
  have readable : ∀ place ∈ Stage.find scope.functions tag.text .plainAttribute,
      Piece.Readable place.value := by
    rw [find_plainAttribute]
    refine forall_mem_map.2 fun standing _ candidate member => ?_
    obtain rfl : candidate = _ := by simpa [pieces, Piece.candidates] using member
    exact ⟨_, Stage.located_literal (by simp [front, TagItem.text]; omega) _⟩
  have emits := Stage.emits_apply readable
  have phrase (standing : Standing) :
      Piece.phrases scope Stage.plainAttribute.setting (tag.pieces standing).value =
        [tag.phrase scope standing] := by
    simp only [Piece.phrases, pieces, Piece.candidates, map_cons, map_nil,
      Candidate.phrase, Stage.storedText_literally]
    rfl
  rw [applied_plainAttribute, find_plainAttribute, flatMap_map] at emits
  simp only [phrase] at emits
  rwa [phrases, map_eq_flatMap]

/-- Bound and unbound plain items differ in the character behind the blank, so a tag shows
which of its plain items are bound. -/
theorem chosen_eq_of_binding_eq {scope : Scope} {chosen other : Standing → Bool} {rest : Text}
    (plain : ∀ standing, chosen standing ≠ other standing →
      Attribute.isPlainName standing.item.name = true)
    (same : (standings earlier items).flatMap (part scope chosen) ++ rest =
      (standings earlier items).flatMap (part scope other) ++ rest) :
    ∀ standing ∈ standings earlier items, chosen standing = other standing := by
  induction items generalizing earlier with
  | nil => simp [standings]
  | cons item items ih =>
    rw [standings, flatMap_cons, flatMap_cons, append_assoc, append_assoc] at same
    have here : chosen ⟨earlier, item⟩ = other ⟨earlier, item⟩ := by
      refine Decidable.byContradiction fun unlike => ?_
      have letter := plain _ unlike
      obtain ⟨first, letters, name⟩ : ∃ first letters, item.name = first :: letters := by
        cases name : item.name with
        | nil => simp [name, Attribute.isPlainName] at letter
        | cons first letters => exact ⟨first, letters, rfl⟩
      have colon : first ≠ ':' := by
        rintro rfl
        simp [name, Attribute.isPlainName] at letter
      cases left : chosen ⟨earlier, item⟩ <;> cases right : other ⟨earlier, item⟩ <;>
        simp [part, left, right, TagItem.bound, TagItem.text, name, colon,
          Ne.symm colon] at same unlike
    rw [part, part, here] at same
    refine forall_mem_cons.2 ⟨here, ih (append_cancel_left same)⟩

private theorem binding_eq_iff (tag : StartTag) (scope : Scope) :
    tag.binding scope isTaken = tag.binding scope (fun standing => standing.item.isForeign) ↔
      ∀ standing ∈ standings [] tag.items, isTaken standing = standing.item.isForeign := by
  constructor
  · intro same
    simp only [binding, append_assoc] at same
    refine chosen_eq_of_binding_eq (fun standing unlike => ?_) (append_cancel_left same)
    cases plain : Attribute.isPlainName standing.item.name with
    | true => rfl
    | false => simp [isTaken, TagItem.isForeign, plain] at unlike
  · intro same
    have parts : ∀ standing ∈ standings [] tag.items, part scope isTaken standing =
        part scope (fun standing => standing.item.isForeign) standing :=
      fun standing member => by rw [part, part, same standing member]
    rw [binding, binding, flatMap_congr parts]

end StartTag

open StartTag

/-- What the stage for plain attributes does to a start tag. It binds the plain attributes with
ideographs in their values that stand behind no value with an opening bracket, registers the
trimmed values in order, and leaves everything else. All plain attributes with ideographs are
bound exactly when none of them stands behind such a value. -/
theorem plainAttribute_binds_seen_items (scope : Scope) (tag : StartTag) :
    Emits (Stage.apply scope .plainAttribute tag.text) (.ok (tag.binding scope isTaken))
      (tag.phrases scope) ∧
    (tag.binding scope isTaken = tag.binding scope (fun standing => standing.item.isForeign) ↔
      ∀ before item behind, tag.items = before ++ item :: behind → item.isForeign = true →
        ∀ earlier ∈ before, '<' ∉ earlier.value) := by
  refine ⟨tag.emits_plainAttribute scope, ?_⟩
  have seen (standing : Standing) : isTaken standing = standing.item.isForeign ↔
      (standing.item.isForeign = true → ∀ earlier ∈ standing.earlier, '<' ∉ earlier.value) := by
    cases foreign : standing.item.isForeign <;> simp [isTaken, foreign, unbroken]
  rw [binding_eq_iff]
  constructor
  · intro all before item behind whole
    exact (seen ⟨before, item⟩).1 (all _ (mem_standings_iff.2 ⟨before, behind, whole, rfl⟩))
  · intro all standing member
    obtain ⟨before, behind, whole, same⟩ := mem_standings_iff.1 member
    rw [seen, same]
    exact all before standing.item behind whole

/-- The start tag of a paragraph, whose title stands behind a comparison. -/
def comparingTag : StartTag where
  name := ['p']
  items := [⟨":a".toList, "x < y".toList, by decide +kernel, by decide, by decide⟩,
    ⟨"title".toList, "标题".toList, by decide +kernel, by decide, by decide⟩]
  named := all_eq_true.1 rfl

/-- Nothing in `comparingTag` is bound or registered, although its title has ideographs. -/
theorem plainAttribute_binds_seen_items_comparingTag : let scope : Scope :=
      { path := .ofText "src/greeting.vue".toList, shown := "src/greeting.vue".toList }
    let text := "<p :a=\"x < y\" title=\"标题\">".toList
    comparingTag.text = text ∧
    Emits (Stage.apply scope .plainAttribute text) (.ok text) [] ∧
    comparingTag.binding scope (fun standing => standing.item.isForeign) =
      "<p :a=\"x < y\" :title=\"$t('greeting_32c65d')\">".toList := by
  intro scope text
  have written : comparingTag.text = text := by decide +kernel
  have emits := (plainAttribute_binds_seen_items scope comparingTag).1
  have kept : comparingTag.binding scope isTaken = text := by decide +kernel
  have nothing : comparingTag.phrases scope = [] := by decide +kernel
  rw [written, kept, nothing] at emits
  exact ⟨written, emits, by decide +kernel⟩

end Phrasebook.Markup
