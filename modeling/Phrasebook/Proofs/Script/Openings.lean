import Phrasebook.Proofs.Grammar.Lexer
import Phrasebook.Proofs.Script.Divergence

/-!
# Where literals start

A literal in the tree of a script starts with a quotation mark, or with a blank before one. The
grammar decides this: every row of a literal starts with the token of a quotation mark, and what the
tree shows as a literal is one, or the text of an attribute, which starts in the same way. So no
literal starts with a character of a name.
-/

namespace Phrasebook

open List

/-- The code point of a character in a set of ranges is one of those in the ranges. -/
theorem Grammar.CharSet.mem_of_contains {set : CharSet} (plain : set.negated = false) {char : Char}
    (member : set.contains char = true) :
    char.toNat ∈ set.ranges.flatMap fun range => range' range.1 (range.2 + 1 - range.1) := by
  rw [contains, holds, plain, Bool.and_eq_true, Bool.bne_false, any_eq_true] at member
  obtain ⟨-, range, isRange, inside⟩ := member
  rw [Bool.and_eq_true, decide_eq_true_eq, decide_eq_true_eq] at inside
  refine mem_flatMap.2 ⟨range, isRange, mem_range'_1.2 ?_⟩
  omega

namespace Script

open Grammar (Automaton View)
open Grammar.Blueprint
    (Opens keepsTitle not_isMark_of_keyword not_isMark_of_word not_isMark_terminalOf)

variable {mark : Char} {name : Construct}

/-! ## Marks and blanks -/

/-- The marks around literals. -/
def literalMarks : List Char :=
  ['"', '\'', '`']

private theorem isNamePart_of_mark : ∀ mark ∈ literalMarks, Markup.isNamePart mark = false := by
  have all : (literalMarks.all fun mark => !Markup.isNamePart mark) = true := by decide
  simpa using all

private theorem isNamePart_of_blank {char : Char} (blank : blanks.contains char = true) :
    Markup.isNamePart char = false := by
  have all : ((blanks.ranges.flatMap fun range => range' range.1 (range.2 + 1 - range.1)).all
      fun code => !Markup.isNamePart (Char.ofNat code)) = true := by
    decide +kernel
  have here := all_eq_true.1 all _ (Grammar.CharSet.mem_of_contains rfl blank)
  rwa [Char.ofNat_toNat, Bool.not_eq_true'] at here

/-! ## Literals in the grammar -/

/-- What is a literal in a tree, or is shown as one. -/
def literalTitles : List Construct :=
  [.string, .templateString, .attributeString]

private theorem isKeyword_of_mark : ∀ mark ∈ literalMarks, Grammar.Blueprint.isKeyword
    [mark] = false := by
  have all : (literalMarks.all fun mark => !Grammar.Blueprint.isKeyword [mark]) = true := by decide
  simpa using all

/-- In the grammar of a language, literals start with their marks. -/
theorem opens_grammar (lang : Language) : Opens (grammar lang) literalTitles literalMarks where
  first := by
    have all : (((rule lang .program).parts none).all fun part =>
        part.2.isNone && Grammar.Blueprint.stays (grammar lang) part.1) = true := by
      cases lang <;> decide +kernel
    refine ⟨.program, _, rfl, by decide, fun part member => ?_⟩
    simpa using all_eq_true.1 all part member
  parts name member own isOwn part isPart := by
    have all : (constructs.all fun name =>
        (rule lang name :: (rule lang name).repeated).all fun own =>
          (own.parts none).all (keepsTitle literalTitles)) = true := by
      cases lang <;> decide +kernel
    have named := all_eq_true.1 all name member
    exact all_eq_true.1 (all_eq_true.1 named own isOwn) part isPart
  special name member := by
    have all : (literalTitles.all fun name => !(grammar lang).scanned.contains name &&
        !(grammar lang).inlined.contains name && (rule lang name).opensWith literalMarks) = true := by
      cases lang <;> decide +kernel
    have here := all_eq_true.1 all name member
    simp only [Bool.and_eq_true, Bool.not_eq_true', contains_eq_mem, decide_eq_false_iff_not] at here
    exact ⟨here.1.1, here.1.2, here.2⟩
  tokens name member token isToken := by
    -- What starts with a mark has more parts than one.
    have all : (constructs.all fun name => ((rule lang name).parts none).length != 1 ||
        !(rule lang name).opensWith literalMarks) = true := by
      cases lang <;> decide +kernel
    have here := all_eq_true.1 all name member
    rw [show rule lang name = .token token from isToken] at here
    rw [isToken]
    simpa [Grammar.Rule.parts] using here

/-! ## The machine of a language -/

private theorem machine_eq (lang : Language) : machine lang = machineOf lang := by
  cases lang <;> rfl

private theorem runs_machineOf (lang : Language) :
    (machineOf lang).Runs (.ofGrammar (grammar lang)) := by
  unfold machineOf
  generalize Automaton.ofGrammar (grammar lang) = automaton
  exact ⟨rfl, rfl, rfl, rfl, fun _ _ => rfl⟩

private theorem blueprint_machineOf (lang : Language) :
    (machineOf lang).plan = .ofGrammar (grammar lang) :=
  (runs_machineOf lang).plan

/-- The machine of a language follows its grammar. -/
theorem reads_machineOf (lang : Language) (source : Grammar.Source) :
    (machineOf lang).Reads (.ofGrammar (grammar lang))
      ((machineOf lang).plan.Leaf literalMarks source.text) source where
  toRuns := runs_machineOf lang
  sound := Automaton.sound_ofBlueprint _
  whole _ := Grammar.Blueprint.symbols_of_mem_rowsOf_last
  word word isWord start isMark := by
    rw [blueprint_machineOf] at isWord isMark
    exact absurd isMark (not_isMark_of_word (opens_grammar lang) isWord)
  token := by
    rintro seeker rfl
    refine Grammar.Machine.isToken_token rfl (fun _ _ _ _ _ isFound => ?_) (fun _ _ found => ?_) seeker
    · obtain ⟨part, -, rfl⟩ := Option.map_eq_some_iff.1 isFound
      exact not_isMark_terminalOf (opens_grammar lang) part.construct
    · rw [blueprint_machineOf] at found ⊢
      exact not_isMark_of_keyword isKeyword_of_mark found

/-! ## Literals in trees -/

private theorem mem_literalTitles {name : Construct}
    (isLiteral : kindOf name = .quoted ∨ kindOf name = .template) :
    name ∈ literalTitles := by
  unfold kindOf at isLiteral
  split at isLiteral <;> simp_all [literalTitles]

section Views

variable {opens : Nat → Prop} {script : Text} {literal : Node × Ancestors}

mutual

/-- The literals of a node start where the constructs of its view do. -/
theorem opens_of_mem_literals {around : Ancestors} {view : View Construct Field} {node : Node}
    (starts : view.Opens (· ∈ literalTitles) opens) (isNode : nodeOf? view = some node)
    (member : literal ∈ literals script around node) : opens literal.1.start := by
  match view with
  | .node (.construct name) field start stop _ _ parts =>
    rw [View.Opens] at starts
    obtain ⟨own, inside⟩ := starts
    rw [nodeOf?] at isNode
    obtain rfl := Option.some.inj isNode
    unfold literals at member
    dsimp only at member
    split at member
    · cases member
    · rename_i quoted
      obtain rfl := mem_singleton.1 member
      exact own name rfl (mem_literalTitles (.inl quoted))
    · rename_i template
      have here : opens start := own name rfl (mem_literalTitles (.inr template))
      split at member
      · obtain rfl := mem_singleton.1 member
        exact here
      · rcases mem_cons.1 member with rfl | within
        · exact here
        · exact opens_of_mem_literalsAll inside within
    · exact opens_of_mem_literalsAll inside member
  | .node .text .. | .node .fault .. =>
    unfold nodeOf? at isNode
    cases isNode

/-- The literals of nodes in a row start where the constructs of their views do. -/
theorem opens_of_mem_literalsAll {around : Ancestors} {views : List (View Construct Field)}
    (starts : View.AllOpen (· ∈ literalTitles) opens views)
    (member : literal ∈ literalsAll script around (nodesOf views)) : opens literal.1.start := by
  match views with
  | [] =>
    rw [nodesOf, literalsAll] at member
    cases member
  | view :: views =>
    rw [View.AllOpen] at starts
    rw [nodesOf] at member
    cases isNode : nodeOf? view with
    | none =>
      rw [isNode] at member
      exact opens_of_mem_literalsAll starts.2 member
    | some node =>
      rw [isNode, Option.toList_some, singleton_append, literalsAll] at member
      rcases mem_append.1 member with here | later
      · exact opens_of_mem_literals starts.1 isNode here
      · exact opens_of_mem_literalsAll starts.2 later

end

end Views

/-- The literals of a script that is read open with characters that belong to no name. -/
theorem opensApart_of_parse? {lang : Language} {script : Text} {tree : Node}
    (read : parse? lang script = some tree) : OpensApart script tree := by
  rw [parse?, machine_eq] at read
  obtain ⟨whole, isTree, isNode⟩ := Option.bind_eq_some_iff.1 read
  have isWhole := (reads_machineOf lang _).isWhole_of_parse isTree
  rw [blueprint_machineOf] at isNode isWhole
  have starts := isWhole.opens_view (Grammar.Blueprint.marks_ofGrammar (opens_grammar lang)
    fun _ _ isMark isLeaf => isLeaf isMark)
  intro literal member
  obtain ⟨char, here, isMark | isBlank⟩ := opens_of_mem_literals starts isNode member
  · exact ⟨char, getElem?_toArray.symm.trans here, isNamePart_of_mark _ isMark⟩
  · exact ⟨char, getElem?_toArray.symm.trans here, isNamePart_of_blank isBlank⟩

end Script

end Phrasebook
