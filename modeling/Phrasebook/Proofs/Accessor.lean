import Mathlib.Data.List.Basic
import Phrasebook.Accessor
import Phrasebook.Proofs.Text.Scan

/-!
# Lines put into a script once

The lines of the accessor go into a script at one place: behind its last import, or at the
top. A script has a line when the line's head occurs in it, wherever that is, so putting lines
in could cut an occurrence in two. It does not. A head holds no line end, and of the characters
in which an import ends it holds a closing brace at most. Such a brace closes the attributes of
the import, and what stands before their opening brace is no start of a declaration.
-/

namespace Phrasebook

open List Text

variable {needle front behind tail text : Text} {last : Char} {tree : Script.Node}

/-! ## Occurrences at a cut -/

namespace Text

/-- Whether no occurrence of a text is cut in two by the end of another. -/
def Uncut (needle front : Text) : Prop :=
  ∀ first second, needle = first ++ second → first ≠ [] → second ≠ [] → ¬ first <:+ front

/-- What is put in keeps the occurrences that it does not cut. -/
theorem Uncut.infix_insert (uncut : Uncut needle front) (occurs : needle <:+: front ++ behind)
    (block : Text) : needle <:+: front ++ block ++ behind := by
  obtain ⟨before, after, whole⟩ := occurs
  rw [append_assoc] at whole
  rcases append_eq_append_iff.1 whole with ⟨inside, rfl, rest⟩ | ⟨inside, rfl, rfl⟩
  · rcases append_eq_append_iff.1 rest with ⟨later, rfl, rfl⟩ | ⟨later, split, rfl⟩
    · exact ⟨before, later ++ block ++ behind, by simp⟩
    · by_cases none : inside = []
      · exact ⟨before ++ block, after, by simp [split, none]⟩
      · by_cases all : later = []
        · exact ⟨before, block ++ after, by simp [split, all]⟩
        · exact absurd (suffix_append before inside) (uncut inside later split none all)
  · exact ⟨front ++ block ++ inside, after, by simp⟩

private theorem of_concat_suffix_concat {start text : Text} {final last : Char}
    (ends : start ++ [final] <:+ text ++ [last]) : final = last ∧ start <:+ text := by
  rw [← reverse_prefix] at ends
  simpa using ends

/-- An occurrence is cut only behind a character that it holds before its end. -/
theorem uncut_concat (outside : last ∉ needle.dropLast) : Uncut needle (front ++ [last]) := by
  rintro first second rfl nonempty more ends
  rcases eq_nil_or_concat first with rfl | ⟨start, final, rfl⟩
  · exact nonempty rfl
  · rw [concat_eq_append] at outside ends
    obtain ⟨rfl, -⟩ := of_concat_suffix_concat ends
    rw [dropLast_append_of_ne_nil more] at outside
    simp at outside

/-- The end of a text that starts with one character and is without another stands behind
every occurrence of the other. -/
theorem suffix_of_suffix_append_cons {left right : Text} {head : Char} (unlike : last ≠ head)
    (outside : last ∉ tail) (ends : head :: tail <:+ left ++ last :: right) :
    head :: tail <:+ right := by
  obtain ⟨before, whole⟩ := ends
  rcases append_eq_append_iff.1 whole with ⟨inside, -, rest⟩ | ⟨inside, -, rest⟩
  · cases inside with
    | nil => exact absurd (List.cons.inj rest).1.symm unlike
    | cons first inside => exact absurd (by simp [(List.cons.inj rest).2]) outside
  · cases inside with
    | nil => exact absurd (List.cons.inj rest).1 unlike
    | cons first inside => exact ⟨inside, (List.cons.inj rest).2.symm⟩

/-- Each of some texts occurs where they are joined. -/
theorem infix_join {separator text : Text} {texts : List Text} (member : text ∈ texts) :
    text <:+: join separator texts := by
  induction texts with
  | nil => cases member
  | cons first texts ih =>
    cases texts with
    | nil =>
      obtain rfl : text = first := by simpa using member
      simp [join]
    | cons second texts =>
      rw [join, intercalate_cons_cons]
      rcases mem_cons.1 member with rfl | later
      · exact ⟨[], _, by simp [append_assoc]; rfl⟩
      · exact (ih later).trans (suffix_append _ _).isInfix

end Text

namespace Accessor

variable {accessor : Accessor} {functions : Functions} {script : Text}

/-! ## How imports end -/

/-- The characters that end a line. -/
def lineEnds : List Char :=
  ['\n', '\r', Char.ofNat 0x2028, Char.ofNat 0x2029]

/-- A comment of a script. -/
inductive IsComment : Text → Prop
  | block (inside : Text) : IsComment ('/' :: '*' :: inside ++ ['*', '/'])
  | line (inside : Text) {lineEnd : Char} (ends : lineEnd ∈ lineEnds) :
      IsComment ('/' :: '/' :: inside ++ [lineEnd])

/-- What may stand between two words of a script: blanks and comments. -/
inductive IsGap : Text → Prop
  | nil : IsGap []
  | blank {gap : Text} {char : Char} (earlier : IsGap gap)
      (blank : isBlank char = true) : IsGap (gap ++ [char])
  | comment {gap comment : Text} (earlier : IsGap gap) (isComment : IsComment comment) :
      IsGap (gap ++ comment)

/-- Whether every brace of a piece of a script has its counterpart. Literals, regular
expressions and comments may hold any braces. -/
inductive IsBalanced : Text → Prop
  | nil : IsBalanced []
  | plain {char : Char} {rest : Text} (noBrace : char ∉ ['{', '}'])
      (later : IsBalanced rest) : IsBalanced (char :: rest)
  | braces {inside rest : Text} (inner : IsBalanced inside) (later : IsBalanced rest) :
      IsBalanced ('{' :: inside ++ '}' :: rest)
  | quoted {quote : Char} {inside rest : Text} (isQuote : quote ∈ ['"', '\'', Char.ofNat 0x60, '/'])
      (later : IsBalanced rest) : IsBalanced (quote :: inside ++ quote :: rest)
  | comment {comment rest : Text} (isComment : IsComment comment) (later : IsBalanced rest) :
      IsBalanced (comment ++ rest)

/-- How the statement of an import ends: in a semicolon, a quote or a parenthesis, or in the
brace that closes its attributes. -/
inductive EndsImport : Text → Prop
  | mark {front : Text} {last : Char} (isMark : last ∈ [';', '"', '\'', ')']) :
      EndsImport (front ++ [last])
  | attributes {front word gap inside : Text} (isWord : word ∈ ["with".toList, "assert".toList])
      (isGap : IsGap gap) (balanced : IsBalanced inside) :
      EndsImport (front ++ word ++ gap ++ '{' :: inside ++ ['}'])

/-- Whether every import at the top of a script ends as imports do. -/
def ImportsEnd (script : Text) (tree : Script.Node) : Prop :=
  ∀ node ∈ tree.children, node.kind = .importation → EndsImport (node.textIn script)

/-- A character of identifiers: an ASCII letter or digit, one of `_` and `$`, or anything
beyond ASCII that is no blank. -/
def isIdentifierPart (char : Char) : Bool :=
  char.isAlphanum || char == '_' || char == '$' ||
    (0x80 ≤ char.toNat && !isBlank char)

/-- Whether the accessor and the lookup function have identifiers as names. -/
structure Identified (accessor : Accessor) (functions : Functions) : Prop where
  name : ∀ char ∈ accessor.name, isIdentifierPart char = true
  function : ∀ char ∈ functions.script, isIdentifierPart char = true

private theorem IsComment.exists_last {comment : Text} (isComment : IsComment comment) :
    ∃ front last, comment = front ++ [last] ∧ last ∈ '/' :: lineEnds := by
  cases isComment with
  | block inside => exact ⟨'/' :: '*' :: inside ++ ['*'], '/', by simp, by simp⟩
  | line inside ends => exact ⟨'/' :: '/' :: inside, _, rfl, mem_cons_of_mem _ ends⟩

/-- What follows the last opening brace of a balanced piece is no row of identifiers and
spaces. -/
theorem IsBalanced.not_suffix (balanced : IsBalanced text)
    (plain : ∀ char ∈ tail, isIdentifierPart char = true ∨ char = ' ') :
    ¬ '{' :: tail <:+ text := by
  -- Every step of the induction takes off a start whose last character cannot be in the tail.
  have outside {last : Char} (foreign : isIdentifierPart last = false) (visible : last ≠ ' ') :
      last ∉ tail := by
    intro member
    rcases plain last member with part | space
    · rw [part] at foreign
      cases foreign
    · exact visible space
  induction balanced with
  | nil => simp
  | @plain char rest noBrace later ih =>
    intro ends
    rcases suffix_cons_iff.1 ends with whole | ends
    · obtain ⟨rfl, -⟩ := List.cons.inj whole
      simp at noBrace
    · exact ih ends
  | @braces inside rest inner later _ ih =>
    intro ends
    exact ih (suffix_of_suffix_append_cons (by decide)
      (outside (by decide) (by decide)) ends)
  | @quoted quote inside rest isQuote later ih =>
    have known : quote ≠ '{' ∧ isIdentifierPart quote = false ∧ quote ≠ ' ' := by
      simp only [mem_cons, not_mem_nil, or_false] at isQuote
      rcases isQuote with rfl | rfl | rfl | rfl <;> decide
    intro ends
    exact ih (suffix_of_suffix_append_cons known.1 (outside known.2.1 known.2.2) ends)
  | @comment comment rest isComment later ih =>
    obtain ⟨front, last, rfl, isLast⟩ := isComment.exists_last
    have known : last ≠ '{' ∧ isIdentifierPart last = false ∧ last ≠ ' ' := by
      simp only [lineEnds, mem_cons, not_mem_nil, or_false] at isLast
      rcases isLast with rfl | rfl | rfl | rfl | rfl <;> decide
    intro ends
    rw [append_assoc] at ends
    exact ih (suffix_of_suffix_append_cons known.1 (outside known.2.1 known.2.2) ends)

/-- A gap ends in a blank or in a comment. -/
theorem IsGap.cases_last {gap : Text} (isGap : IsGap gap) :
    gap = [] ∨ (∃ earlier char, gap = earlier ++ [char] ∧ IsGap earlier ∧
      isBlank char = true) ∨
      ∃ front last, gap = front ++ [last] ∧ last ∈ '/' :: lineEnds := by
  cases isGap with
  | nil => exact .inl rfl
  | blank earlier blank => exact .inr (.inl ⟨_, _, rfl, earlier, blank⟩)
  | @comment gap comment earlier isComment =>
    obtain ⟨front, last, rfl, isLast⟩ := isComment.exists_last
    exact .inr (.inr ⟨gap ++ front, last, by simp, isLast⟩)

/-- The word of a declaration does not stand behind the word that introduces attributes. -/
theorem not_const_suffix {front word gap : Text} (isWord : word ∈ ["with".toList, "assert".toList])
    (isGap : IsGap gap) : ¬ "const ".toList <:+ front ++ word ++ gap := by
  simp only [mem_cons, not_mem_nil, or_false] at isWord
  -- The word without the blank behind it would stand before one blank of the gap.
  have short {gap : Text} (isGap : IsGap gap) : ¬ "const".toList <:+ front ++ word ++ gap := by
    intro ends
    rcases isGap.cases_last with rfl | ⟨earlier, last, rfl, -, blank⟩ | ⟨start, last, rfl, isLast⟩
    · rw [← reverse_prefix] at ends
      rcases isWord with rfl | rfl <;> simp at ends
    · rw [← append_assoc] at ends
      obtain ⟨rfl, -⟩ := @Text.of_concat_suffix_concat "cons".toList _ 't' _ ends
      cases blank
    · rw [← append_assoc] at ends
      obtain ⟨rfl, -⟩ := @Text.of_concat_suffix_concat "cons".toList _ 't' _ ends
      simp [lineEnds] at isLast
  intro ends
  rcases isGap.cases_last with rfl | ⟨earlier, last, rfl, before, -⟩ | ⟨start, last, rfl, isLast⟩
  · rw [← reverse_prefix] at ends
    rcases isWord with rfl | rfl <;> simp at ends
  · rw [← append_assoc] at ends
    obtain ⟨-, ends⟩ := @Text.of_concat_suffix_concat "const".toList _ ' ' _ ends
    exact short before ends
  · rw [← append_assoc] at ends
    obtain ⟨rfl, -⟩ := @Text.of_concat_suffix_concat "const".toList _ ' ' _ ends
    simp [lineEnds] at isLast

/-! ## Heads of lines -/

/-- A name with the blanks inside its braces. -/
def padded (blanks : Bool) (name : Text) : Text :=
  if blanks then ' ' :: name ++ [' '] else name

private theorem braced_eq (blanks : Bool) (name : Text) :
    braced blanks name = '{' :: padded blanks name ++ ['}'] := by
  cases blanks <;> simp [braced, padded]

private theorem of_mem_padded {blanks : Bool} {name : Text}
    (identified : ∀ char ∈ name, isIdentifierPart char = true) :
    ∀ char ∈ padded blanks name, isIdentifierPart char = true ∨ char = ' ' := by
  intro char member
  cases blanks with
  | false => exact .inl (identified char member)
  | true =>
    simp only [padded, if_true, cons_append, mem_cons, mem_append, not_mem_nil, or_false] at member
    rcases member with rfl | inside | rfl
    · exact .inr rfl
    · exact .inl (identified char inside)
    · exact .inr rfl

/-- Whether a script has a line with a head, in one of its two spellings. -/
def Has (head : Bool → Text) (script : Text) : Prop :=
  ∃ blanks, head blanks <:+: script

/-- The lines that a script lacks are those whose heads it has in neither spelling. -/
theorem mem_missing_iff {line : Text} :
    line ∈ accessor.missing functions script ↔
      (line = accessor.importLine ∧ ¬ Has accessor.importHead script) ∨
        line = accessor.declarationLine functions ∧
          ¬ Has (accessor.declarationHead functions) script := by
  have lacks (head : Bool → Text) (other : Text) :
      line ∈ (if occursIn (head true) script || occursIn (head false) script then []
        else [other]) ↔ line = other ∧ ¬ Has head script := by
    rw [Has, Bool.exists_bool, ← occursIn_iff, ← occursIn_iff, or_comm, ← Bool.or_eq_true]
    split <;> simp_all
  rw [missing, mem_append]
  exact or_congr (lacks _ _) (lacks _ _)

private theorem missing_eq_nil_iff :
    accessor.missing functions script = [] ↔
      Has accessor.importHead script ∧ Has (accessor.declarationHead functions) script := by
  simp only [eq_nil_iff_forall_not_mem, mem_missing_iff, not_or, not_and, not_not]
  exact ⟨fun none => ⟨(none _).1 rfl, (none _).2 rfl⟩, fun ⟨first, second⟩ _ =>
    ⟨fun _ => first, fun _ => second⟩⟩

/-- Lines that are put in where no head is cut are no longer missing. -/
theorem missing_insert {block : Text}
    (imports : ∀ blanks, Text.Uncut (accessor.importHead blanks) front)
    (declares : ∀ blanks, Text.Uncut (accessor.declarationHead functions blanks) front)
    (lines : ∀ line ∈ accessor.missing functions (front ++ behind), line <:+: block) :
    accessor.missing functions (front ++ block ++ behind) = [] := by
  have inside : block <:+: front ++ block ++ behind := infix_append front block behind
  rw [missing_eq_nil_iff]
  constructor
  · by_cases has : Has accessor.importHead (front ++ behind)
    · obtain ⟨blanks, occurs⟩ := has
      exact ⟨blanks, (imports blanks).infix_insert occurs block⟩
    · have put := lines _ (mem_missing_iff.2 (.inl ⟨rfl, has⟩))
      refine ⟨true, .trans ?_ (put.trans inside)⟩
      exact ⟨[], _, by rw [importLine, nil_append, append_assoc, append_assoc]⟩
  · by_cases has : Has (accessor.declarationHead functions) (front ++ behind)
    · obtain ⟨blanks, occurs⟩ := has
      exact ⟨blanks, (declares blanks).infix_insert occurs block⟩
    · have put := lines _ (mem_missing_iff.2 (.inr ⟨rfl, has⟩))
      exact ⟨true, (prefix_append _ _).isInfix.trans (put.trans inside)⟩

/-! ## Where lines are put in -/

section Cuts

private theorem importHead_eq (accessor : Accessor) (blanks : Bool) :
    accessor.importHead blanks =
      "import ".toList ++ '{' :: padded blanks accessor.name ++ ['}'] := by
  unfold importHead
  generalize "import ".toList = word
  simp [braced_eq]

/-- A declaration holds one closing brace. -/
theorem declarationHead_eq (accessor : Accessor) (functions : Functions) (blanks : Bool) :
    accessor.declarationHead functions blanks =
      ("const ".toList ++ '{' :: padded blanks functions.script) ++
        '}' :: (" = ".toList ++ accessor.name ++ ['(', ')']) := by
  unfold declarationHead
  generalize "const ".toList = word
  generalize " = ".toList = sign
  simp [braced_eq]

/-- What stands in neither an identifier nor the marks of a head. -/
theorem not_mem_head (identified : accessor.Identified functions) (blanks : Bool)
    {char : Char} (foreign : isIdentifierPart char = false)
    (unlike : char ∉ [' ', '{', '=', '(']) :
    char ∉ "import ".toList ++ '{' :: padded blanks accessor.name ∧
      char ∉ "const ".toList ++ '{' :: padded blanks functions.script ∧
      char ∉ " = ".toList ++ accessor.name ++ ['('] := by
  simp only [mem_cons, not_mem_nil, or_false, not_or] at unlike
  obtain ⟨space, brace, sign, parenthesis⟩ := unlike
  have named {name : Text} (part : ∀ char ∈ name, isIdentifierPart char = true) :
      char ∉ padded blanks name := by
    intro member
    rcases of_mem_padded part char member with part | isSpace
    · rw [part] at foreign
      cases foreign
    · exact space isSpace
  have marks : ∀ other ∈ "import ".toList ++ "const ".toList ++ " = ".toList,
      (isIdentifierPart other || [' ', '='].contains other) = true := all_eq_true.1 rfl
  have unmarked : char ∉ "import ".toList ++ "const ".toList ++ " = ".toList := by
    intro member
    have mark := marks char member
    simp [foreign, space, sign] at mark
  have unnamed : char ∉ accessor.name := fun member => by
    rw [identified.name char member] at foreign
    cases foreign
  have first := named identified.name
  have second := named identified.function
  clear marks
  generalize "import ".toList = word at *
  generalize "const ".toList = constWord at *
  generalize " = ".toList = signWord at *
  simp_all

private theorem uncut_importHead (identified : accessor.Identified functions) (blanks : Bool)
    {front : Text}
    {last : Char} (foreign : isIdentifierPart last = false) (unlike : last ∉ [' ', '{', '=', '(']) :
    Text.Uncut (accessor.importHead blanks) (front ++ [last]) := by
  apply uncut_concat
  rw [importHead_eq, dropLast_concat]
  exact (not_mem_head identified blanks foreign unlike).1

private theorem uncut_declarationHead (identified : accessor.Identified functions) (blanks : Bool)
    {front : Text} {last : Char} (foreign : isIdentifierPart last = false)
    (unlike : last ∉ [' ', '{', '=', '(', '}']) :
    Text.Uncut (accessor.declarationHead functions blanks) (front ++ [last]) := by
  have open_ : last ∉ [' ', '{', '=', '('] := by simp_all
  have noBrace : last ≠ '}' := by simp_all
  obtain ⟨-, front, behind⟩ := not_mem_head identified blanks foreign open_
  apply uncut_concat
  have split : accessor.declarationHead functions blanks =
      ("const ".toList ++ '{' :: padded blanks functions.script) ++
        '}' :: (" = ".toList ++ accessor.name ++ ['(']) ++ [')'] := by
    rw [declarationHead_eq]
    generalize "const ".toList ++ '{' :: padded blanks functions.script = start
    generalize " = ".toList ++ accessor.name = middle
    simp
  rw [split, dropLast_concat, mem_append, mem_cons, not_or, not_or]
  exact ⟨front, noBrace, behind⟩

/-- No declaration is cut behind the brace that closes the attributes of an import. -/
theorem uncut_declarationHead_attributes (identified : accessor.Identified functions)
    (blanks : Bool) {front word gap inside : Text}
    (isWord : word ∈ ["with".toList, "assert".toList]) (isGap : IsGap gap)
    (balanced : IsBalanced inside) :
    Text.Uncut (accessor.declarationHead functions blanks)
      (front ++ word ++ gap ++ '{' :: inside ++ ['}']) := by
  rintro first second split nonempty - ends
  have plain := @of_mem_padded blanks _ identified.function
  obtain ⟨-, before, behind⟩ := @not_mem_head _ _ identified blanks '}' (by decide) (by decide)
  -- What is cut off ends in the one closing brace of the declaration.
  obtain ⟨start, rfl⟩ : ∃ start, first = start ++ ['}'] := by
    rcases eq_nil_or_concat first with rfl | ⟨start, final, rfl⟩
    · exact absurd rfl nonempty
    · rw [concat_eq_append] at ends ⊢
      exact ⟨start, by rw [(of_concat_suffix_concat ends).1]⟩
  obtain ⟨-, ends⟩ := of_concat_suffix_concat ends
  obtain rfl : "const ".toList ++ '{' :: padded blanks functions.script = start := by
    rw [declarationHead_eq, append_assoc start, singleton_append] at split
    refine ((append_cons_inj_of_notMem before ?_).1 split).1
    generalize " = ".toList ++ accessor.name = middle at behind ⊢
    simpa using behind
  have unbraced : '{' ∉ padded blanks functions.script := by
    intro member
    rcases plain '{' member with part | space
    · cases part
    · cases space
  obtain ⟨lead, whole⟩ := ends
  rw [← append_assoc] at whole
  have head := @not_const_suffix front word gap isWord isGap
  generalize "const ".toList = declares at *
  rcases append_eq_append_iff.1 whole with ⟨between, left, right⟩ | ⟨between, left, right⟩
  · cases between with
    | nil => exact head ⟨lead, by rw [left, append_nil]⟩
    | cons brace between => exact unbraced (by simp [(List.cons.inj right).2])
  · cases between with
    | nil => exact head ⟨lead, by rw [left, append_nil]⟩
    | cons brace between =>
      exact balanced.not_suffix plain ⟨between, (List.cons.inj right).2.symm⟩

/-- No head is cut behind an import. -/
theorem uncut_of_endsImport (identified : accessor.Identified functions) (ends : EndsImport text)
    (suffix : text <:+ front) (blanks : Bool) :
    Text.Uncut (accessor.importHead blanks) front ∧
      Text.Uncut (accessor.declarationHead functions blanks) front := by
  obtain ⟨before, rfl⟩ := suffix
  cases ends with
  | @mark start last isMark =>
    have known : isIdentifierPart last = false ∧ last ∉ [' ', '{', '=', '(', '}'] := by
      simp only [mem_cons, not_mem_nil, or_false] at isMark
      rcases isMark with rfl | rfl | rfl | rfl <;> decide
    rw [← append_assoc]
    exact ⟨uncut_importHead identified blanks known.1 (by simp_all),
      uncut_declarationHead identified blanks known.1 known.2⟩
  | @attributes start word gap inside isWord isGap balanced =>
    have declares := @uncut_declarationHead_attributes _ _ identified blanks (before ++ start)
      word gap inside isWord isGap balanced
    have imports := @uncut_importHead _ _ identified blanks
      (before ++ (start ++ word ++ gap ++ '{' :: inside)) '}' (by decide) (by decide)
    simp only [append_assoc] at declares imports ⊢
    exact ⟨imports, declares⟩

/-- No head is cut behind line ends. -/
theorem uncut_of_lineEnds (identified : accessor.Identified functions)
    (lineEnds : ∀ char ∈ front, char = '\r' ∨ char = '\n') (blanks : Bool) :
    Text.Uncut (accessor.importHead blanks) front ∧
      Text.Uncut (accessor.declarationHead functions blanks) front := by
  rcases eq_nil_or_concat front with rfl | ⟨start, last, rfl⟩
  · constructor <;> exact fun first second _ nonempty _ ends => nonempty (suffix_nil.1 ends)
  · have known : isIdentifierPart last = false ∧ last ∉ [' ', '{', '=', '(', '}'] := by
      rcases lineEnds last (by simp) with rfl | rfl <;> decide
    rw [concat_eq_append]
    exact ⟨uncut_importHead identified blanks known.1 (by simp_all),
      uncut_declarationHead identified blanks known.1 known.2⟩

end Cuts

/-! ## Injection -/

/-- A script, whose tree is known, with the lines that it lacks. -/
def injected (accessor : Accessor) (functions : Functions) (script : Text) (tree : Script.Node) :
    Option Text :=
  let lines := accessor.missing functions script
  if lines.isEmpty then none else some (insertLines lines script (lastImport? tree))

private theorem inject_eq (accessor : Accessor) (functions : Functions) (lang : Language)
    (script : Text) :
    accessor.inject functions lang script =
      (Script.parse lang scriptName script).map (accessor.injected functions script) := by
  unfold inject
  cases Script.parse lang scriptName script <;> rfl

private theorem injected_eq_none_iff :
    accessor.injected functions script tree = none ↔ accessor.missing functions script = [] := by
  simp [injected]

/-- Lines are put in at one place, at which no head is cut. -/
theorem exists_insertLines (identified : accessor.Identified functions)
    (ends : ImportsEnd script tree) (lines : List Text) :
    ∃ front block behind, script = front ++ behind ∧
      insertLines lines script (lastImport? tree) = front ++ block ++ behind ∧
      (block = '\n' :: join ['\n'] lines ∨ block = join ['\n'] lines ++ ['\n']) ∧
      ∀ blanks, Text.Uncut (accessor.importHead blanks) front ∧
        Text.Uncut (accessor.declarationHead functions blanks) front := by
  cases last : lastImport? tree with
  | none =>
    let lead := script.takeWhile fun char => char == '\r' || char == '\n'
    have whole : lead ++ script.drop lead.length = script :=
      prefix_iff_eq_append.1 (List.takeWhile_prefix _)
    refine ⟨lead, _, script.drop lead.length, whole.symm, ?_, .inr rfl, ?_⟩
    · simp [insertLines, lead]
    · refine uncut_of_lineEnds identified fun char member => ?_
      simpa using all_eq_true.1 all_takeWhile char member
  | some pos =>
    obtain ⟨node, isLast, rfl⟩ := Option.map_eq_some_iff.1 last
    have member := mem_filter.1 (mem_of_getLast? isLast)
    refine ⟨script.take node.stop, _, script.drop node.stop, (take_append_drop _ _).symm, ?_,
      .inl rfl, ?_⟩
    · simp [insertLines]
    · exact uncut_of_endsImport identified (ends node member.1 (by simpa using member.2))
        (drop_suffix _ _)

/-- Injection puts one block of lines into a script, and only if lines are missing. No line is
missing afterwards, so that a second injection puts in nothing, whatever the tree of the new
script is. -/
theorem inject_inserts_once {accessor : Accessor} {functions : Functions}
    (identified : accessor.Identified functions) {script : Text} {tree : Script.Node}
    (ends : ImportsEnd script tree) :
    (∀ lang, Script.parse lang scriptName script = .ok tree →
      accessor.inject functions lang script = .ok (accessor.injected functions script tree)) ∧
    (accessor.injected functions script tree = none ↔ accessor.missing functions script = []) ∧
    ∀ after, accessor.injected functions script tree = some after →
      (∃ front block behind, script = front ++ behind ∧ after = front ++ block ++ behind ∧
        (block = '\n' :: join ['\n'] (accessor.missing functions script) ∨
          block = join ['\n'] (accessor.missing functions script) ++ ['\n'])) ∧
      accessor.missing functions after = [] ∧
      (∀ second, accessor.injected functions after second = none) ∧
      ∀ lang, accessor.inject functions lang after =
        (Script.parse lang scriptName after).map fun _ => none := by
  refine ⟨fun lang parses => by rw [inject_eq, parses]; rfl, injected_eq_none_iff, ?_⟩
  intro after inserted
  obtain ⟨front, block, behind, split, whole, lines, uncut⟩ :=
    exists_insertLines identified ends (accessor.missing functions script)
  obtain rfl : front ++ block ++ behind = after := by
    rw [injected] at inserted
    split at inserted
    · cases inserted
    · rw [← whole]
      exact Option.some.inj inserted
  have complete : accessor.missing functions (front ++ block ++ behind) = [] := by
    refine missing_insert (fun blanks => (uncut blanks).1) (fun blanks => (uncut blanks).2) ?_
    intro line isMissing
    rw [← split] at isMissing
    have joined := @Text.infix_join ['\n'] _ _ isMissing
    rcases lines with rfl | rfl
    · exact joined.trans (suffix_cons _ _).isInfix
    · exact joined.trans (prefix_append _ _).isInfix
  have nothing : accessor.injected functions (front ++ block ++ behind) = fun _ => none :=
    funext fun _ => injected_eq_none_iff.2 complete
  refine ⟨⟨front, block, behind, split, rfl, lines⟩, complete, congrFun nothing, fun lang => ?_⟩
  rw [inject_eq, nothing]

/-- A brace closes the attributes of an import before a declaration without a semicolon. -/
theorem inject_inserts_once_attributes :
    let accessor : Accessor := {}
    let functions : Functions := {}
    let script := "import x from \"y\" with { t }\nconst { t } = useI18n()".toList
    let importation := Script.Node.mk .importation .none 0 28 []
    let tree := Script.Node.mk .other .none 0 52 [importation]
    ImportsEnd script tree ∧
    ∃ after, accessor.injected functions script tree = some after ∧
      accessor.missing functions after = [] := by
  intro accessor functions script importation tree
  have identified : accessor.Identified functions :=
    ⟨all_eq_true.1 rfl, all_eq_true.1 rfl⟩
  have ends : ImportsEnd script tree := by
    intro node member _
    obtain rfl : node = importation := mem_singleton.1 member
    exact @EndsImport.attributes "import x from \"y\" ".toList "with".toList [' '] " t ".toList
      (by simp) (.blank .nil rfl)
      (.plain (by decide) (.plain (by decide) (.plain (by decide) .nil)))
  obtain ⟨-, -, inserts⟩ := inject_inserts_once identified ends
  exact ⟨ends, _, rfl, (inserts _ rfl).2.1⟩

end Accessor

end Phrasebook
