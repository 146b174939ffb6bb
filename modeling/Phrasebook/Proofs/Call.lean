import Phrasebook.Proofs.Markup.Run

/-!
# What a call is made of

A call holds the name of its function, a key, and the expressions that it passes on.
Function names and keys are usually made of name characters. Such a call brings no
angle bracket along that is not in one of its expressions, and two closing braces stand
together in it only inside an expression.
-/

namespace Phrasebook

open List Text

open Markup (isNamePart)

variable {char : Char} {texts exprs : List Text}

/-- Whether the names that the calls of a file hold are made of name characters. -/
def Scope.Named (scope : Scope) : Prop :=
  (∀ char ∈ scope.functions.markup, isNamePart char = true) ∧
    ∀ char ∈ Key.lead scope.path, isNamePart char = true

/-- Whether the names that the calls of a file hold have no angle bracket in them. -/
def Scope.Unbracketed (scope : Scope) : Prop :=
  Markup.Run.Unbracketed scope.functions.markup ∧ Markup.Run.Unbracketed (Key.lead scope.path)

/-- Whether the names that the calls of a file hold have no closing brace in them either. -/
structure Scope.Discreet (scope : Scope) : Prop where
  unbracketed : scope.Unbracketed
  markup : '}' ∉ scope.functions.markup
  lead : '}' ∉ Key.lead scope.path

/-- A character that means nothing to the stages for the body of a template: no ideograph,
quote, backslash, bracket or brace. -/
def Call.isHarmless (char : Char) : Bool :=
  !(isIdeograph char || contains ['\'', '"', '\\', '<', '>', '{', '}'] char)

/-- Whether the names that the calls of a file hold mean nothing to these stages. -/
structure Scope.Harmless (scope : Scope) : Prop where
  markup : ∀ char ∈ scope.functions.markup, Call.isHarmless char = true
  script : ∀ char ∈ scope.functions.script, Call.isHarmless char = true
  lead : ∀ char ∈ Key.lead scope.path, Call.isHarmless char = true

/-- The call for a text in the markup of a file. -/
def Scope.call (scope : Scope) (text : Text) (quote : Char) (exprs : List Text) : Text :=
  Call.render scope.functions.markup (Key.ofText text scope.path scope.keyLength) quote exprs

namespace Key

/-- The characters of a key behind the part that names the file. -/
def alphabet : Text :=
  ['_', '0', '1', '2', '3', '4', '5', '6', '7', '8', '9', 'a', 'b', 'c', 'd', 'e', 'f']

private theorem digitChar_mem {digit : Nat} (below : digit < 16) : digit.digitChar ∈ alphabet := by
  have all : ∀ digit : Fin 16, digit.val.digitChar ∈ alphabet := by decide
  exact all ⟨digit, below⟩

private theorem mem_of_mem_toDigits {number : Nat} (member : char ∈ Nat.toDigits 16 number) :
    char ∈ alphabet := by
  induction number using Nat.strongRecOn with
  | ind number ih =>
    by_cases small : number < 16
    · rw [Nat.toDigits_of_lt_base small, mem_singleton] at member
      exact member ▸ digitChar_mem small
    · rw [Nat.toDigits_of_base_le (by decide) (by omega), mem_append,
        mem_singleton] at member
      rcases member with member | rfl
      · exact ih _ (by omega) member
      · exact digitChar_mem (Nat.mod_lt _ (by decide))

private theorem mem_of_mem_hex {message : Bytes} (member : char ∈ Digest.Md5.hex message) :
    char ∈ alphabet := by
  obtain ⟨byte, -, member⟩ := mem_flatMap.1 member
  rcases mem_append.1 member with padding | digit
  · exact eq_of_mem_replicate padding ▸ by decide
  · exact mem_of_mem_toDigits digit

/-- What holds of the part that names the file and of the alphabet holds of a key. -/
theorem forall_mem_ofText {p : Char → Prop} {path : Path} (named : ∀ char ∈ lead path, p char)
    (all : ∀ char ∈ alphabet, p char) (text : Text) (length : Int) :
    ∀ char ∈ ofText text path length, p char := by
  intro char member
  rcases mem_append.1 member with inLead | rest
  · exact named char inLead
  · rcases mem_cons.1 rest with rfl | digit
    · exact all '_' (by decide)
    · exact all char (mem_of_mem_hex (mem_of_mem_take digit))

end Key

namespace Call

/-- The name of an argument is made of three letters and digits. -/
theorem not_mem_argument (letter : char ∉ ['a', 'r', 'g'])
    (digit : isDigit char = false) (index : Nat) : char ∉ argument index := by
  simp only [argument, mem_append, not_or]
  refine ⟨letter, fun member => ?_⟩
  rw [isDigit_of_mem_ofNat member] at digit
  cases digit

/-- The properties of a call are numbered in the order of its expressions. -/
theorem properties_eq_mapIdx (exprs : List Text) :
    properties 0 exprs = exprs.mapIdx fun index expr =>
      argument index ++ ':' :: ' ' :: expr := by
  have numbered (start : Nat) : properties start exprs = exprs.mapIdx fun index expr =>
        argument (start + index) ++ ':' :: ' ' :: expr := by
    induction exprs generalizing start with
    | nil => rfl
    | cons expr exprs ih =>
      rw [properties, ih, mapIdx_cons]
      simp [Nat.add_assoc, Nat.add_comm 1]
  simpa using numbered 0

/-- A call opens with the name of its function and closes with a parenthesis. -/
theorem exists_render_eq (function key : Text) (quote : Char) (exprs : List Text) :
    ∃ inside, render function key quote exprs = function ++ '(' :: inside ++ [')'] := by
  rw [render]
  split
  · exact ⟨quote :: key ++ [quote], by simp⟩
  · exact ⟨quote :: key ++ [quote] ++ [',', ' ', '{', ' '] ++
      join [',', ' '] (properties 0 exprs) ++ [' ', '}'], by simp⟩

section Characters

variable {p : Char → Prop}

private theorem forall_mem_join {separator : Text} (between : ∀ char ∈ separator, p char)
    (inside : ∀ text ∈ texts, ∀ char ∈ text, p char) :
    ∀ char ∈ join separator texts, p char := by
  induction texts with
  | nil => simp [join]
  | cons text texts ih =>
    obtain ⟨here, later⟩ := forall_mem_cons.1 inside
    cases texts with
    | nil => simpa [join] using here
    | cons next texts =>
      rw [join, intercalate_cons_cons]
      simp only [forall_mem_append]
      exact ⟨⟨here, between⟩, ih later⟩

/-- The punctuation of a call, and the letters of the names of its arguments. -/
def punctuation : Text :=
  ['(', ')', ',', ' ', '{', '}', ':', 'a', 'r', 'g']

private theorem forall_mem_properties (fixed : ∀ char ∈ punctuation, p char)
    (digit : ∀ char, isDigit char = true → p char) (passed : ∀ expr ∈ exprs, ∀ char ∈ expr, p char)
    (index : Nat) :
    ∀ property ∈ properties index exprs, ∀ char ∈ property, p char := by
  induction exprs generalizing index with
  | nil => simp [properties]
  | cons expr exprs ih =>
    obtain ⟨here, later⟩ := forall_mem_cons.1 passed
    have number : ∀ char ∈ ofNat index, p char :=
      fun char member => digit char (isDigit_of_mem_ofNat member)
    refine forall_mem_cons.2 ⟨?_, ih later _⟩
    simp only [punctuation, forall_mem_cons] at fixed
    simp only [argument, forall_mem_append, forall_mem_cons]
    exact ⟨⟨by simp [fixed], number⟩, by simp [fixed], by simp [fixed], here⟩

/-- What holds of the parts of a call holds of all its characters. -/
theorem forall_mem_render {function key : Text} {quote : Char}
    (fixed : ∀ char ∈ punctuation, p char) (digit : ∀ char, isDigit char = true → p char)
    (named : ∀ char ∈ function, p char) (keyed : ∀ char ∈ key, p char) (quoted : p quote)
    (passed : ∀ expr ∈ exprs, ∀ char ∈ expr, p char) :
    ∀ char ∈ render function key quote exprs, p char := by
  have between : ∀ char ∈ [',', ' '], p char := by
    simp [fixed ',' (by decide), fixed ' ' (by decide)]
  have joined := forall_mem_join between (forall_mem_properties fixed digit passed 0)
  simp only [punctuation, forall_mem_cons] at fixed
  rw [render]
  split <;>
    simp only [forall_mem_append, forall_mem_cons] <;> simp_all

end Characters

/-! ## Closing braces -/

section Closing

open Markup.Interpolation (closing)

private theorem closing_append_cons_iff {left right : Text} {char : Char}
    (other : char ≠ '}') :
    closing <:+: left ++ char :: right ↔ closing <:+: left ∨ closing <:+: right :=
  infix_append_cons_iff (by simp [closing, other])

private theorem closing_cons_iff {right : Text} {char : Char} (other : char ≠ '}') :
    closing <:+: char :: right ↔ closing <:+: right := by
  simpa [closing] using @closing_append_cons_iff [] right char other

private theorem not_closing_of_not_mem {text : Text} (none : '}' ∉ text) : ¬ closing <:+: text :=
  fun occurs => none (occurs.subset (by simp [closing]))

private theorem not_closing_join (inside : ∀ text ∈ texts, ¬ closing <:+: text) :
    ¬ closing <:+: join [',', ' '] texts := by
  induction texts with
  | nil => simp [join, closing]
  | cons text texts ih =>
    obtain ⟨here, later⟩ := forall_mem_cons.1 inside
    cases texts with
    | nil => simpa [join] using here
    | cons next texts =>
      rw [join, intercalate_cons_cons, append_assoc, cons_append,
        closing_append_cons_iff (by decide), singleton_append, closing_cons_iff (by decide)]
      exact not_or.2 ⟨here, ih later⟩

private theorem not_closing_properties (passed : ∀ expr ∈ exprs, ¬ closing <:+: expr) (index : Nat) :
    ∀ property ∈ properties index exprs, ¬ closing <:+: property := by
  induction exprs generalizing index with
  | nil => simp [properties]
  | cons expr exprs ih =>
    obtain ⟨here, later⟩ := forall_mem_cons.1 passed
    refine forall_mem_cons.2 ⟨?_, ih later _⟩
    have name : '}' ∉ argument index := not_mem_argument (by decide) (by decide) index
    rw [closing_append_cons_iff (by decide), closing_cons_iff (by decide)]
    exact not_or.2 ⟨not_closing_of_not_mem name, here⟩

/-- Closing braces stand together in a call only inside an expression. -/
theorem not_closing_render {function key : Text} {quote : Char} {exprs : List Text}
    (named : '}' ∉ function) (keyed : '}' ∉ key) (quoted : quote ≠ '}')
    (passed : ∀ expr ∈ exprs, ¬ closing <:+: expr) :
    ¬ closing <:+: render function key quote exprs := by
  have joined := not_closing_join (not_closing_properties passed 0)
  have ending : ¬ closing <:+: ['}', ')'] := by decide
  rw [render]
  split
  · apply not_closing_of_not_mem
    simp [named, keyed, quoted.symm]
  · simp only [append_assoc, cons_append, nil_append]
    rw [closing_append_cons_iff (by decide), closing_cons_iff quoted, closing_append_cons_iff quoted,
      closing_cons_iff (by decide), closing_cons_iff (by decide), closing_cons_iff (by decide),
      closing_cons_iff (by decide), closing_append_cons_iff (by decide)]
    simp only [not_closing_of_not_mem named, not_closing_of_not_mem keyed, joined, ending, or_false,
      not_false_eq_true]

end Closing

end Call

private theorem isBracket_of_isNamePart (isName : isNamePart char = true) :
    Markup.Run.isBracket char = false :=
  @Markup.Run.isBracket_of_kind isNamePart (by decide) (by decide) char isName

/-- A call holds no bracket outside its expressions. -/
theorem Scope.Unbracketed.call {scope : Scope} (unbracketed : scope.Unbracketed) {text : Text}
    {quote : Char} {exprs : List Text} (quoted : Markup.Run.isBracket quote = false)
    (passed : ∀ expr ∈ exprs, Markup.Run.Unbracketed expr) :
    Markup.Run.Unbracketed (scope.call text quote exprs) := by
  have digit := @Markup.Run.isBracket_of_kind isDigit (by decide) (by decide)
  have key := Key.forall_mem_ofText unbracketed.2
    (show Markup.Run.Unbracketed Key.alphabet by decide) text scope.keyLength
  exact Call.forall_mem_render (show Markup.Run.Unbracketed Call.punctuation by decide)
    (fun _ => digit) unbracketed.1 key quoted passed

namespace Scope

variable {scope : Scope} {text : Text} {quote : Char} {exprs : List Text}

/-- Closing braces stand together in a call only inside an expression. -/
theorem Discreet.not_closing_call (discreet : scope.Discreet) (quoted : quote ≠ '}')
    (passed : ∀ expr ∈ exprs, ¬ Markup.Interpolation.closing <:+: expr) :
    ¬ Markup.Interpolation.closing <:+: scope.call text quote exprs := by
  have foreign : '}' ∉ Key.alphabet := by decide
  have key := @Key.forall_mem_ofText ('}' ≠ ·) scope.path
    (fun char member same => discreet.lead (same ▸ member))
    (fun char member same => foreign (same ▸ member)) text scope.keyLength
  exact Call.not_closing_render discreet.markup (fun member => key '}' member rfl) quoted passed

/-- Named functions and files bring no bracket along. -/
theorem Named.unbracketed (named : scope.Named) : scope.Unbracketed :=
  ⟨fun char member => isBracket_of_isNamePart (named.1 char member),
    fun char member => isBracket_of_isNamePart (named.2 char member)⟩

/-- They bring no doubled brace along either. -/
theorem Named.discreet (named : scope.Named) : scope.Discreet :=
  ⟨named.unbracketed, fun member => absurd (named.1 '}' member) (by decide),
    fun member => absurd (named.2 '}' member) (by decide)⟩

end Scope

/-! ## Harmless names -/

theorem Call.not_mem_of_isHarmless {text : Text} (harmless : ∀ char ∈ text, isHarmless char = true)
    (other : isHarmless char = false) : char ∉ text := by
  intro member
  rw [harmless char member] at other
  cases other

/-- A call without arguments. -/
theorem Scope.call_nil (scope : Scope) (text : Text) (quote : Char) :
    scope.call text quote [] = scope.functions.markup ++ '(' ::
      (quote :: (Key.ofText text scope.path scope.keyLength ++ [quote]) ++ [')']) := by
  simp [Scope.call, Call.render]

namespace Scope.Harmless

variable {scope : Scope} (harmless : scope.Harmless) {text : Text} {quote char : Char}

include harmless

private theorem of_mem_key (member : char ∈ Key.ofText text scope.path scope.keyLength) :
    Call.isHarmless char = true :=
  Key.forall_mem_ofText harmless.lead (all_eq_true.1 (by decide)) text scope.keyLength
    char member

/-- A key is harmless. -/
theorem not_mem_key (other : Call.isHarmless char = false) :
    char ∉ Key.ofText text scope.path scope.keyLength :=
  Call.not_mem_of_isHarmless (fun _ => harmless.of_mem_key) other

theorem hasIdeograph_key (text : Text) :
    hasIdeograph (Key.ofText text scope.path scope.keyLength) = false := by
  rw [hasIdeograph, any_eq_false]
  intro char member ideograph
  have plain := harmless.of_mem_key member
  simp [Call.isHarmless, ideograph] at plain

/-- A call without expressions holds nothing that means something, its quotes apart. -/
theorem not_mem_call (other : Call.isHarmless char = false) (unlike : char ≠ quote) :
    char ∉ scope.call text quote [] := by
  have parentheses : char ≠ '(' ∧ char ≠ ')' := by
    constructor <;> rintro rfl <;> cases other
  have named := Call.not_mem_of_isHarmless harmless.markup other
  have keyed := @Scope.Harmless.not_mem_key _ harmless text _ other
  simp_all [Scope.call_nil]

theorem discreet : scope.Discreet := by
  have unbracketed {name : Text} (plain : ∀ char ∈ name, Call.isHarmless char = true) :
      Markup.Run.Unbracketed name := by
    intro char member
    have harmless := plain char member
    cases bracket : Markup.Run.isBracket char with
    | false => rfl
    | true => simp_all [Call.isHarmless, Markup.Run.isBracket]
  exact ⟨⟨unbracketed harmless.markup, unbracketed harmless.lead⟩,
    Call.not_mem_of_isHarmless harmless.markup (by decide),
    Call.not_mem_of_isHarmless harmless.lead (by decide)⟩

end Scope.Harmless

end Phrasebook
