import Mathlib.Data.List.Basic
import Mathlib.Data.List.TakeDrop
import Phrasebook.Grammar.Scan
import Phrasebook.Proofs.Grammar.Automaton

/-!
# Rules that start with marks

The rows of a blueprint come from rules, by choosing, numbering and replacing. If the rules of
some constructs start with the token of a mark, and nothing else is shown under their names,
then the rows that are left start in the same way.
-/

namespace Phrasebook.Grammar

open List

variable {ν φ : Type}

/-! ## Rows of rules -/

/-- The symbol of a step and the title around it. -/
def Step.outline (step : Step ν φ) : Symbol × Option (Shown ν) :=
  (step.symbol, step.label.shown)

/-- The symbols of a row with the titles around them. -/
def Production.outline (row : Production ν φ) : List (Symbol × Option (Shown ν)) :=
  row.steps.map Step.outline

namespace Rule

private theorem map_changeLast {change : Step ν φ → Step ν φ}
    (same : ∀ step, (change step).outline = step.outline) (steps : List (Step ν φ)) :
    (changeLast change steps).map Step.outline =
    steps.map Step.outline := by
  unfold changeLast
  split
  · rfl
  · rename_i last isLast
    conv_rhs => rw [← dropLast_append_getLast? last isLast]
    simp [same]

/-- The parts that the rows of a rule are made of, with the titles around them. -/
def parts (shown : Option (Shown ν)) : Rule ν φ → List (Rule ν φ × Option (Shown ν))
  | blank => []
  | seq first rest => first.parts shown ++ rest.parts shown
  | choice one other => one.parts shown ++ other.parts shown
  | mark (.shown title) body => body.parts (Option.some title)
  | mark _ body => body.parts shown
  | rule => [(rule, shown)]

/-- Whether all rows of a rule start with the token of one of some marks. -/
def opensWith (marks : List Char) : Rule ν φ → Bool
  | token ⟨.text [char], _, _⟩ => marks.contains char
  | seq first _ => first.opensWith marks
  | choice one other => one.opensWith marks && other.opensWith marks
  | mark _ body => body.opensWith marks
  | _ => false

variable {symbol : Rule ν φ → Symbol}

private theorem outline_mark (note : Mark ν φ) (body : Rule ν φ) (ctx : Context ν φ)
    (atEnd : Bool) :
    ∃ inside : Context ν φ, ((mark note body).flatten symbol ctx atEnd).outline =
        (body.flatten symbol inside atEnd).outline ∧
      ∀ rule : Rule ν φ, (mark note rule).parts ctx.label.shown =
        rule.parts inside.label.shown := by
  cases note with
  | binding binding side =>
    refine ⟨{ ctx with binding := Option.some binding, side := side.or ctx.side }, ?_, fun _ => rfl⟩
    rw [flatten]
    split
    · rfl
    · exact map_changeLast (by intro _; rfl) _
  | weight weight => exact ⟨ctx, rfl, fun _ => rfl⟩
  | shown title =>
    exact ⟨{ ctx with label := { ctx.label with shown := Option.some title } }, rfl, fun _ => rfl⟩
  | field name =>
    exact ⟨{ ctx with label := { ctx.label with field := Option.some name } }, rfl, fun _ => rfl⟩

private theorem outline_seq (first rest : Rule ν φ) (ctx : Context ν φ) (atEnd : Bool) :
    ((seq first rest).flatten symbol ctx atEnd).outline =
      (first.flatten symbol ctx false).outline ++ (rest.flatten symbol ctx atEnd).outline :=
  map_append

/-- The steps of the rows of a rule are parts of it. -/
theorem mem_parts_of_mem_choices {rule choice : Rule ν φ} (isChoice : choice ∈ rule.choices)
    {ctx : Context ν φ} {atEnd : Bool} {pair : Symbol × Option (Shown ν)}
    (member : pair ∈ (choice.flatten symbol ctx atEnd).outline) :
    ∃ part ∈ rule.parts ctx.label.shown, pair = (symbol part.1, part.2) := by
  induction rule generalizing choice ctx atEnd with
  | blank =>
    obtain rfl := mem_singleton.1 isChoice
    cases member
  | token | construct | some =>
    obtain rfl := mem_singleton.1 isChoice
    exact ⟨_, mem_singleton_self _, mem_singleton.1 member⟩
  | seq first rest ihFirst ihRest =>
    obtain ⟨one, isOne, isChoice⟩ := mem_flatMap.1 isChoice
    obtain ⟨other, isOther, rfl⟩ := mem_map.1 isChoice
    rw [outline_seq] at member
    rcases mem_append.1 member with member | member
    · exact (ihFirst isOne member).imp fun _ found => ⟨mem_append_left _ found.1, found.2⟩
    · exact (ihRest isOther member).imp fun _ found => ⟨mem_append_right _ found.1, found.2⟩
  | choice one other ihOne ihOther =>
    rcases mem_append.1 isChoice with isChoice | isChoice
    · exact (ihOne isChoice member).imp fun _ found => ⟨mem_append_left _ found.1, found.2⟩
    · exact (ihOther isChoice member).imp fun _ found => ⟨mem_append_right _ found.1, found.2⟩
  | mark note body ih =>
    obtain ⟨inner, isInner, rfl⟩ := mem_map.1 isChoice
    obtain ⟨inside, same, parts⟩ := outline_mark note inner ctx atEnd
    rw [same] at member
    rw [parts]
    exact ih isInner member

private theorem exists_of_opensWith {marks : List Char} {literal : Token}
    (opens : (token literal : Rule ν φ).opensWith marks = true) :
    ∃ char ∈ marks, literal.pattern = .text [char] := by
  unfold opensWith at opens
  split at opens <;> simp_all

/-- Rows of a rule that starts with marks do. -/
theorem head_of_opensWith {marks : List Char} {rule choice : Rule ν φ}
    (opens : rule.opensWith marks = true) (isChoice : choice ∈ rule.choices) {ctx : Context ν φ}
    {atEnd : Bool} : ∃ token : Token, (∃ char ∈ marks, token.pattern = .text [char]) ∧
      ∃ shown, (choice.flatten symbol ctx atEnd).outline.head? =
        Option.some (symbol (.token token), shown) := by
  induction rule generalizing choice ctx atEnd with
  | blank | construct | some => cases opens
  | token token =>
    obtain rfl := mem_singleton.1 isChoice
    exact ⟨token, exists_of_opensWith opens, _, rfl⟩
  | seq first rest ihFirst ihRest =>
    obtain ⟨one, isOne, isChoice⟩ := mem_flatMap.1 isChoice
    obtain ⟨other, isOther, rfl⟩ := mem_map.1 isChoice
    obtain ⟨token, isMark, shown, head⟩ := ihFirst opens isOne
    refine ⟨token, isMark, shown, ?_⟩
    rw [outline_seq, head?_append, head]
    rfl
  | choice one other ihOne ihOther =>
    rw [opensWith, Bool.and_eq_true] at opens
    rcases mem_append.1 isChoice with isChoice | isChoice
    · exact ihOne opens.1 isChoice
    · exact ihOther opens.2 isChoice
  | mark note body ih =>
    obtain ⟨inner, isInner, rfl⟩ := mem_map.1 isChoice
    obtain ⟨inside, same, -⟩ := outline_mark note inner ctx atEnd
    rw [same]
    exact ih opens isInner

end Rule

namespace Production

variable {rows? : Symbol → Option (List (Production ν φ))}

/-- What replacing one step keeps, replacing all of them keeps. -/
theorem of_mem_expand (holds : Production ν φ → Prop)
    (keeps : ∀ before step after weight inner rows, holds ⟨before ++ step :: after, weight⟩ →
      rows? step.symbol = some rows → inner ∈ rows → holds (splice before step after weight inner))
    {fuel : Nat} {row other : Production ν φ} (start : holds row)
    (member : other ∈ expand rows? fuel row) : holds other := by
  induction fuel generalizing row with
  | zero =>
    obtain rfl := mem_singleton.1 member
    exact start
  | succ fuel ih =>
    rw [expand] at member
    generalize isSpan : row.steps.span (fun step => (rows? step.symbol).isNone) = span at member
    obtain ⟨before, rest⟩ := span
    rw [span_eq_takeWhile_dropWhile, Prod.mk.injEq] at isSpan
    dsimp only at member
    split at member
    · obtain rfl := mem_singleton.1 member
      exact start
    · rename_i step after
      obtain ⟨inner, isInner, member⟩ := mem_flatMap.1 member
      refine ih ?_ member
      obtain ⟨rows, isRows⟩ : ∃ rows, rows? step.symbol = some rows := by
        cases isNone : rows? step.symbol with
        | none => simp [isNone] at isInner
        | some rows => exact ⟨rows, rfl⟩
      rw [isRows] at isInner
      refine keeps _ _ _ _ _ _ ?_ isRows isInner
      rw [← isSpan.1, ← isSpan.2, takeWhile_append_dropWhile]
      exact start

private theorem outline_splice {before after : List (Step ν φ)} {step : Step ν φ} {weight : Int}
    {inner : Production ν φ} : (splice before step after weight inner).outline =
      before.map Step.outline ++ inner.outline.map
      (fun part => (part.1, step.label.shown.or part.2)) ++
        after.map Step.outline := by
  simp only [splice, outline, map_append, map_map]
  rw [Rule.map_changeLast (by intro _; rfl), map_map]
  rfl

end Production

/-! ## Numbers -/

namespace Blueprint

variable {name : ν} {number index : Nat} {symbol : Symbol} {part : Nonterminal ν φ}
  {row : Production ν φ}

/-- Whether a terminal is the token of one of some marks. -/
def IsMark (plan : Blueprint ν φ) (marks : List Char) (terminal : Nat) : Prop :=
  ∃ token, plan.tokens[terminal]? = some token ∧ ∃ mark ∈ marks, token.pattern = .text [mark]

variable [DecidableEq ν] [Hashable ν] [DecidableEq φ] [Hashable φ] {grammar : Grammar ν φ}

omit [DecidableEq φ] [Hashable φ] in
private theorem mem_constructs_of_mem_reachable (member : name ∈ reachable grammar) :
    name ∈ grammar.constructs := by
  rw [reachable] at member
  split at member
  · cases member
  · rename_i first others same
    rw [same]
    exact (filter_sublist.cons_cons first).subset member

/-- The numbers of a grammar. -/
abbrev numbers (grammar : Grammar ν φ) : Numbers ν φ :=
  .ofGrammar grammar

/-- What the number of a part of a rule says about it. -/
inductive Stands (grammar : Grammar ν φ) : Rule ν φ → Symbol → Prop where
  | token {token : Token} {number : Nat}
      (isToken : (numbers grammar).tokens[number]? = some token) :
      Stands grammar (.token token) (.terminal number)
  | scanned {name : ν} {number : Nat} (isScanned : name ∈ grammar.scanned)
      (beyond : (numbers grammar).tokens.length ≤ number) :
      Stands grammar (.construct name) (.terminal number)
  | named {name : ν} {number : Nat} (member : name ∈ grammar.constructs)
      (isToken : (numbers grammar).tokenOf? name = some number) :
      Stands grammar (.construct name) (.terminal number)
  | owner {name : ν} {number : Nat}
      (isOwner : (numbers grammar).owners[number]? = some name) :
      Stands grammar (.construct name) (.nonterminal number)
  | body (rule : Rule ν φ) (number : Nat) :
      Stands grammar (.some rule) (.nonterminal ((numbers grammar).owners.length + number))

private theorem of_tokenOf? (isToken : (numbers grammar).tokenOf? name = some number) :
    ∃ token, grammar.rule name = .token token ∧ (numbers grammar).tokens[number]? = some token := by
  unfold numbers Numbers.ofGrammar at isToken
  dsimp only at isToken
  split at isToken
  · rename_i token isRule
    rw [Option.ite_none_right_eq_some] at isToken
    exact ⟨token, isRule, mem_zipIdx_iff_getElem?.1 (mem_of_getElem?_ofList isToken.2)⟩
  · cases isToken

private theorem stands_of_symbols (found : (numbers grammar).symbols[name]? = some symbol) :
    Stands grammar (.construct name) symbol := by
  rcases mem_append.1 (mem_of_getElem?_ofList found) with member | isOwned
  · rcases mem_append.1 member with isScanned | isNamed
    · obtain ⟨_, isPlace, same⟩ := mem_map.1 isScanned
      cases same
      exact .scanned ((mem_zipIdx isPlace).2.2 ▸ getElem_mem _) (Nat.le_add_right _ _)
    · obtain ⟨_, isName, same⟩ := mem_filterMap.1 isNamed
      obtain ⟨number, isToken, same⟩ := Option.map_eq_some_iff.1 same
      cases same
      exact .named (mem_constructs_of_mem_reachable isName) isToken
  · obtain ⟨_, isPlace, same⟩ := mem_map.1 isOwned
    cases same
    exact .owner (mem_zipIdx_iff_getElem?.1 isPlace)

/-- A part of a rule has a number that stands for it, or one behind all others. -/
theorem stands_symbol (grammar : Grammar ν φ) (rule : Rule ν φ) :
    (numbers grammar).symbol rule = .nonterminal
        ((numbers grammar).owners.length + (numbers grammar).bodies.length + 1) ∨
      Stands grammar rule ((numbers grammar).symbol rule) := by
  cases found : (numbers grammar).symbol? rule with
  | none => exact .inl (by rw [Numbers.symbol, found]; rfl)
  | some symbol =>
    rw [Numbers.symbol, found]
    refine .inr ?_
    cases rule with
    | token token =>
      obtain ⟨number, isNumber, rfl⟩ := Option.map_eq_some_iff.1 found
      exact .token (mem_zipIdx_iff_getElem?.1 (mem_of_getElem?_ofList isNumber))
    | construct name => exact stands_of_symbols found
    | some body =>
      obtain ⟨number, -, rfl⟩ := Option.map_eq_some_iff.1 found
      exact .body body number
    | blank | seq | choice | mark => cases found

/-- The rows of a nonterminal are those of a rule, or those of a repeated part. -/
theorem rows_cases (here : ((numbers grammar).rows grammar)[index]? = some part) :
    (∃ name, (numbers grammar).owners[index]? = some name ∧
        part = ⟨some name, (grammar.rule name).productions (numbers grammar).symbol⟩) ∨
      ∃ body ∈ (numbers grammar).bodies, ∃ itself : Step ν φ, itself.label = {} ∧
        part = ⟨none, ⟨[itself, itself], 0⟩ :: body.productions (numbers grammar).symbol⟩ := by
  rw [Numbers.rows] at here
  dsimp only at here
  rw [getElem?_append] at here
  split at here
  · rw [getElem?_map] at here
    obtain ⟨name, isName, rfl⟩ := Option.map_eq_some_iff.1 here
    exact .inl ⟨name, isName, rfl⟩
  · rw [getElem?_map] at here
    obtain ⟨_, isBody, rfl⟩ := Option.map_eq_some_iff.1 here
    refine .inr ⟨_, ?_, _, rfl, rfl⟩
    exact (mem_zipIdx (mem_of_getElem? isBody)).2.2 ▸ getElem_mem _

private theorem mem_constructs_of_owners (here : (numbers grammar).owners[index]? = some name) :
    name ∈ grammar.constructs :=
  mem_constructs_of_mem_reachable (filter_sublist.subset (mem_of_getElem? here))

/-! ## Marked constructs -/

/-- Whether a part with a special name is a construct with one. -/
def keepsTitle (special : List ν) : Rule ν φ × Option (Shown ν) → Bool
  | (.construct name, some (.construct title)) => !special.contains title || special.contains name
  | (_, some (.construct title)) => !special.contains title
  | _ => true

/-- Whether a part of a rule stays in the rows of a grammar. -/
def stays (grammar : Grammar ν φ) : Rule ν φ → Bool
  | .construct name => !grammar.inlined.contains name
  | _ => true

/-- Whether in a grammar all that is shown under some special names starts with marks. -/
structure Opens (grammar : Grammar ν φ) (special : List ν) (marks : List Char) : Prop where
  first : ∃ name others, grammar.constructs = name :: others ∧ name ∉ special ∧
    ∀ part ∈ (grammar.rule name).parts none, part.2 = none ∧ stays grammar part.1 = true
  parts : ∀ name ∈ grammar.constructs, ∀ rule ∈ grammar.rule name :: (grammar.rule name).repeated,
    ∀ part ∈ rule.parts none, keepsTitle special part = true
  special : ∀ name ∈ special, name ∉ grammar.scanned ∧ name ∉ grammar.inlined ∧
    (grammar.rule name).opensWith marks = true
  /-- No construct is the token of a mark. -/
  tokens : ∀ name ∈ grammar.constructs, ∀ token, grammar.rule name = .token token →
    (grammar.rule name).opensWith marks = false

variable {special : List ν} {marks : List Char}

variable (grammar) in
/-- The rows that stand in the place of a symbol. -/
def rowsFor? : Symbol → Option (List (Production ν φ)) :=
  inlinedRows? ((numbers grammar).rows grammar).toArray
    (grammar.inlined.filterMap ((numbers grammar).symbols[·]?))

variable (grammar marks) in
/-- Whether a symbol is the token of a mark, or nothing at all. -/
def Starts : Symbol → Prop
  | .terminal number => (ofGrammar grammar).IsMark marks number
  | .nonterminal number => (ofGrammar grammar).nonterminals[number]? = none

variable (grammar marks) in
/-- Whether all rows of a symbol start with marks. -/
def Marked (symbol : Symbol) : Prop :=
  Starts grammar marks symbol ∨ ∃ number, symbol = .nonterminal number ∧
    ∀ row ∈ (ofGrammar grammar).rowsOf number, ∃ first, row.symbols.head? = some first ∧
      Starts grammar marks first

private theorem nonterminals_ofGrammar : (ofGrammar grammar).nonterminals =
    (((numbers grammar).rows grammar).map (Nonterminal.expand (rowsFor? grammar)) ++
      [Nonterminal.whole]).toArray :=
  rfl

private theorem size_nonterminals : (ofGrammar grammar).nonterminals.size =
    (numbers grammar).owners.length + (numbers grammar).bodies.length + 1 := by
  simp [nonterminals_ofGrammar, Numbers.rows, Nat.add_assoc]

/-- The rows of a nonterminal come from rows that are written. -/
theorem nonterminals_cases (here : (ofGrammar grammar).nonterminals[index]? = some part) :
    (∃ written, ((numbers grammar).rows grammar)[index]? = some written ∧
      part = written.expand (rowsFor? grammar)) ∨ part = .whole := by
  rw [nonterminals_ofGrammar, getElem?_toArray, getElem?_append] at here
  split at here
  · rw [getElem?_map] at here
    obtain ⟨written, isWritten, rfl⟩ := Option.map_eq_some_iff.1 here
    exact .inl ⟨written, isWritten, rfl⟩
  · exact .inr (mem_singleton.1 (mem_of_getElem? here))

private theorem Starts.rowsFor?_eq_none (starts : Starts grammar marks symbol) :
    rowsFor? grammar symbol = none := by
  cases symbol with
  | terminal => rfl
  | nonterminal number =>
    have outside := Array.getElem?_eq_none_iff.1 starts
    rw [rowsFor?, inlinedRows?, getElem?_toArray, getElem?_eq_none]
    · exact ite_self _
    · rw [nonterminals_ofGrammar] at outside
      simp at outside
      omega

/-- What stays in rows is not replaced. -/
theorem rowsFor?_eq_none_of_stays {rule : Rule ν φ} (isStaying : stays grammar rule = true) :
    rowsFor? grammar ((numbers grammar).symbol rule) = none := by
  -- Only constructs with rows are replaced, and their numbers lead to their names.
  have replaced {number : Nat} {rows : List (Production ν φ)}
      (isRows : rowsFor? grammar (.nonterminal number) = some rows) :
      ∃ name ∈ grammar.inlined, (numbers grammar).owners[number]? = some name := by
    rw [rowsFor?, inlinedRows?, Option.ite_none_right_eq_some, contains_iff_mem] at isRows
    obtain ⟨name, isName, found⟩ := mem_filterMap.1 isRows.1
    cases stands_of_symbols found with
    | owner isOwner => exact ⟨name, isName, isOwner⟩
  have beyond (number : Nat) :
      rowsFor? grammar (.nonterminal ((numbers grammar).owners.length + number)) = none := by
    refine Option.eq_none_iff_forall_ne_some.2 fun rows isRows => ?_
    obtain ⟨_, -, isOwner⟩ := replaced isRows
    rw [getElem?_eq_none (Nat.le_add_right _ _)] at isOwner
    cases isOwner
  rcases stands_symbol grammar rule with same | stands
  · rw [same, Nat.add_assoc]
    exact beyond _
  · generalize (numbers grammar).symbol rule = symbol at stands
    cases stands with
    | token | scanned | named => rfl
    | body => exact beyond _
    | owner isOwner =>
      refine Option.eq_none_iff_forall_ne_some.2 fun rows isRows => ?_
      obtain ⟨other, isInlined, isOther⟩ := replaced isRows
      cases isOwner.symm.trans isOther
      simp [stays, isInlined] at isStaying

private theorem starts_beyond : Starts grammar marks
    (.nonterminal ((numbers grammar).owners.length +
    (numbers grammar).bodies.length + 1)) :=
  Array.getElem?_eq_none (Nat.le_of_eq size_nonterminals)

private theorem starts_token {token : Token}
    (isMark : ∃ mark ∈ marks, token.pattern = .text [mark]) :
    Starts grammar marks ((numbers grammar).symbol (.token token)) := by
  rcases stands_symbol grammar (.token token) with same | stands
  · exact same ▸ starts_beyond
  · generalize (numbers grammar).symbol (.token token) = symbol at stands
    cases stands with
    | token isToken => exact ⟨token, getElem?_toArray.trans isToken, isMark⟩

private theorem rowsOf_of_owner (isOwner : (numbers grammar).owners[number]? = some name) :
    (ofGrammar grammar).rowsOf number =
      ((grammar.rule name).productions (numbers grammar).symbol).flatMap
        (Production.expand (rowsFor? grammar) 64) := by
  have written : ((numbers grammar).rows grammar)[number]? =
      some ⟨some name, (grammar.rule name).productions (numbers grammar).symbol⟩ := by
    rw [Numbers.rows, getElem?_append_left, getElem?_map, isOwner]
    · rfl
    · simpa using (List.getElem?_eq_some_iff.1 isOwner).1
  rw [rowsOf, nonterminals_ofGrammar, List.getElem?_toArray, List.getElem?_append_left,
    getElem?_map, written]
  · rfl
  · simpa using (List.getElem?_eq_some_iff.1 written).1

private theorem exists_of_rowsFor? {rows : List (Production ν φ)}
    (isRows : rowsFor? grammar symbol = some rows) : ∃ (index : Nat) (part : Nonterminal ν φ),
      ((numbers grammar).rows grammar)[index]? = some part ∧ rows = part.productions := by
  cases symbol with
  | terminal => cases isRows
  | nonterminal number =>
    rw [rowsFor?, inlinedRows?, Option.ite_none_right_eq_some, getElem?_toArray] at isRows
    obtain ⟨part, isPart, rfl⟩ := Option.map_eq_some_iff.1 isRows.2
    exact ⟨number, part, isPart, rfl⟩

/-- The first nonterminal is the first construct. -/
theorem owners_zero {others : List ν} (isFirst : grammar.constructs = name :: others) :
    (numbers grammar).owners[0]? = some name := by
  obtain ⟨rest, isReachable⟩ : ∃ rest, reachable grammar = name :: rest := by
    rw [reachable]
    split <;> simp_all
  have isNone : ((numbers grammar).tokenOf? name).isNone = true := by
    unfold numbers Numbers.ofGrammar
    dsimp only
    split
    · simp [isFirst]
    · rfl
  show ((reachable grammar).filter fun name => ((numbers grammar).tokenOf? name).isNone)[0]? = _
  rw [isReachable, filter_cons, if_pos isNone]
  rfl

/-- The last nonterminal is a whole text with its end. -/
theorem symbols_of_mem_rowsOf_last
    (isRow : row ∈ (ofGrammar grammar).rowsOf ((ofGrammar grammar).nonterminals.size - 1)) :
    row.symbols = [.nonterminal 0] := by
  rw [rowsOf, nonterminals_ofGrammar] at isRow
  simp only [size_toArray, length_append, length_singleton, Nat.add_sub_cancel,
    getElem?_toArray, getElem?_concat_length, Option.map_some, Option.getD_some] at isRow
  obtain rfl := mem_singleton.1 isRow
  rfl

private theorem owner_of_name?
    (isName : (ofGrammar grammar).name? (.nonterminal number) = some name) :
    (numbers grammar).owners[number]? = some name := by
  obtain ⟨part, isPart, isName⟩ := Option.bind_eq_some_iff.1 isName
  rcases nonterminals_cases isPart with ⟨written, isWritten, rfl⟩ | rfl
  · rcases rows_cases isWritten with ⟨owner, isOwner, rfl⟩ | ⟨_, _, _, _, rfl⟩
    · exact isOwner.trans isName
    · cases isName
  · cases isName

variable (grammar special marks) in
/-- Whether a symbol with a special title is marked, and stays in rows. -/
def Keeps (part : Symbol × Option (Shown ν)) : Prop :=
  ∀ title ∈ special, part.2 = some (.construct title) →
    Marked grammar marks part.1 ∧ rowsFor? grammar part.1 = none

section Opening

variable (opens : Opens grammar special marks)

include opens

/-- The rows of a construct that starts with marks do. -/
theorem head_of_mem_rowsOf (isSpecial : name ∈ special)
    (isOwner : (numbers grammar).owners[number]? = some name)
    (isRow : row ∈ (ofGrammar grammar).rowsOf number) :
    ∃ first, row.symbols.head? = some first ∧ Starts grammar marks first := by
  rw [rowsOf_of_owner isOwner] at isRow
  obtain ⟨written, isWritten, isRow⟩ := mem_flatMap.1 isRow
  obtain ⟨choice, isChoice, rfl⟩ := mem_map.1 isWritten
  obtain ⟨token, isMark, head⟩ := @Rule.head_of_opensWith _ _ (numbers grammar).symbol _ _ _
    (opens.special name isSpecial).2.2 isChoice {} true
  have starts := @starts_token _ _ _ _ _ _ grammar _ _ isMark
  generalize (numbers grammar).symbol (.token token) = first at head starts
  refine ⟨first, ?_, starts⟩
  have keeps : ∃ shown, row.outline.head? = some (first, shown) := by
    refine Production.of_mem_expand (fun row => ∃ shown, row.outline.head? = some (first, shown)) ?_
      head isRow
    rintro (_ | ⟨before, others⟩) step after weight inner rows ⟨shown, isHead⟩ isRows -
    · obtain rfl : step.symbol = first := congrArg Prod.fst (Option.some.inj isHead)
      rw [starts.rowsFor?_eq_none] at isRows
      cases isRows
    · rw [Production.outline_splice]
      exact ⟨shown, isHead⟩
  have same : row.symbols = row.outline.map (·.1) := by
    simp [Production.symbols, Production.outline, Function.comp_def, Step.outline]
  rw [same, head?_map, keeps.choose_spec]
  rfl

private theorem not_special_of_tokenOf? (member : name ∈ grammar.constructs)
    (isToken : (numbers grammar).tokenOf? name = some number) : name ∉ special := by
  intro isSpecial
  obtain ⟨token, isRule, -⟩ := of_tokenOf? isToken
  cases (opens.special name isSpecial).2.2.symm.trans (opens.tokens name member token isRule)

/-- A construct with a special name is marked, and stays in rows. -/
theorem marked_construct (isSpecial : name ∈ special) :
    Marked grammar marks ((numbers grammar).symbol (.construct name)) ∧
      rowsFor? grammar ((numbers grammar).symbol (.construct name)) = none := by
  obtain ⟨unscanned, unreplaced, starts⟩ := opens.special name isSpecial
  refine ⟨?_, rowsFor?_eq_none_of_stays (by simpa [stays] using unreplaced)⟩
  rcases stands_symbol grammar (.construct name) with same | stands
  · exact .inl (same ▸ starts_beyond)
  · generalize (numbers grammar).symbol (.construct name) = symbol at stands
    cases stands with
    | scanned isScanned => exact absurd isScanned unscanned
    | named member isToken => exact absurd isSpecial (not_special_of_tokenOf? opens member isToken)
    | owner isOwner => exact .inr ⟨_, rfl, fun row => head_of_mem_rowsOf opens isSpecial isOwner⟩

/-- The rows of rules keep special titles. -/
theorem keeps_productions (member : name ∈ grammar.constructs)
    {rule : Rule ν φ} (isRule : rule ∈ grammar.rule name :: (grammar.rule name).repeated)
    (isRow : row ∈ rule.productions (numbers grammar).symbol) :
    ∀ part ∈ row.outline, Keeps grammar special marks part := by
  intro part isPart title isSpecial isTitle
  obtain ⟨choice, isChoice, rfl⟩ := mem_map.1 isRow
  obtain ⟨⟨own, shown⟩, isOwn, rfl⟩ := Rule.mem_parts_of_mem_choices isChoice isPart
  have keeps := opens.parts name member rule isRule _ isOwn
  obtain rfl : shown = some (.construct title) := isTitle
  cases own with
  | construct other => exact marked_construct opens (by simpa [keepsTitle, isSpecial] using keeps)
  | _ => simp [keepsTitle, isSpecial] at keeps

/-- All rows that are written keep special titles. -/
theorem keeps_rows (here : ((numbers grammar).rows grammar)[index]? = some part)
    (isRow : row ∈ part.productions) : ∀ part ∈ row.outline, Keeps grammar special marks part := by
  rcases rows_cases here with ⟨name, isOwner, rfl⟩ | ⟨body, isBody, itself, plain, rfl⟩
  · exact keeps_productions opens (mem_constructs_of_owners isOwner) mem_cons_self isRow
  · rcases mem_cons.1 isRow with rfl | isRow
    · intro part member title _ isTitle
      obtain rfl : part = itself.outline := by simpa [Production.outline] using member
      rw [Step.outline, plain] at isTitle
      cases isTitle
    · obtain ⟨name, isName, isBody⟩ := mem_flatMap.1 (mem_eraseDups.1 isBody)
      obtain ⟨index, isOwner⟩ := mem_iff_getElem?.1 isName
      exact keeps_productions opens (mem_constructs_of_owners isOwner)
        (mem_cons_of_mem _ isBody) isRow

/-- All rows of a blueprint keep special titles. -/
theorem keeps_rowsOf {head : Nat} (isRow : row ∈ (ofGrammar grammar).rowsOf head) :
    ∀ part ∈ row.outline, Keeps grammar special marks part := by
  obtain ⟨part, isPart, isRow⟩ : ∃ part, (ofGrammar grammar).nonterminals[head]? = some part ∧
      row ∈ part.productions := by
    rw [rowsOf] at isRow
    cases isPart : (ofGrammar grammar).nonterminals[head]? with
    | none => simp [isPart] at isRow
    | some part => exact ⟨part, rfl, by simpa [isPart] using isRow⟩
  rcases nonterminals_cases isPart with ⟨written, isWritten, rfl⟩ | rfl
  · obtain ⟨first, isFirst, isRow⟩ := mem_flatMap.1 isRow
    refine Production.of_mem_expand (fun row => ∀ part ∈ row.outline,
        Keeps grammar special marks part) ?_
      (keeps_rows opens isWritten isFirst) isRow
    intro before step after weight inner rows keeps isRows isInner part member
    have outer : ∀ part ∈ before.map Step.outline ++ step.outline :: after.map Step.outline,
        Keeps grammar special marks part := by simpa [Production.outline] using keeps
    rw [Production.outline_splice, append_assoc] at member
    rcases mem_append.1 member with early | member
    · exact outer part (mem_append_left _ early)
    · rcases mem_append.1 member with isNew | late
      · obtain ⟨own, isOwn, rfl⟩ := mem_map.1 isNew
        intro title isSpecial isTitle
        -- What is replaced has no special title, so that it is one of the row that replaces it.
        rcases Option.or_eq_some_iff.1 isTitle with isOuter | ⟨-, isInside⟩
        · have none := (outer step.outline (by simp) title isSpecial isOuter).2
          cases none.symm.trans isRows
        · obtain ⟨index, written, isWritten, rfl⟩ := exists_of_rowsFor? isRows
          exact keeps_rows opens isWritten isInner own isOwn title isSpecial isInside
      · exact outer part (mem_append_right _ (mem_cons_of_mem _ late))
  · obtain rfl := mem_singleton.1 isRow
    intro part member title _ isTitle
    obtain rfl := mem_singleton.1 member
    cases isTitle

/-- Special names belong to marked symbols. -/
theorem marked_of_name? (isName : (ofGrammar grammar).name? symbol = some name)
    (isSpecial : name ∈ special) : Marked grammar marks symbol := by
  cases symbol with
  | terminal number =>
    refine absurd isSpecial ?_
    rw [name?, terminalName?] at isName
    split at isName
    · rename_i found isFound
      obtain ⟨index, isIndex, same⟩ := Option.map_eq_some_iff.1 (Array.getElem?_map.symm.trans isFound)
      obtain ⟨before, after, same, -⟩ := lookup_eq_some_iff.1 (same.trans isName)
      have isNamed : (index, name) ∈ before ++ (index, name) :: after := by simp
      rw [← same] at isNamed
      obtain ⟨_, isReachable, same⟩ := mem_filterMap.1 isNamed
      obtain ⟨number, isToken, same⟩ := Option.map_eq_some_iff.1 same
      cases same
      exact not_special_of_tokenOf? opens (mem_constructs_of_mem_reachable isReachable) isToken
    · intro isSpecial
      rw [show (ofGrammar grammar).scanned = grammar.scanned.toArray from rfl,
        getElem?_toArray] at isName
      exact (opens.special name isSpecial).1 (mem_of_getElem? isName)
  | nonterminal number =>
    exact .inr ⟨number, rfl, fun row => head_of_mem_rowsOf opens isSpecial (owner_of_name? isName)⟩

/-- In the blueprint of a grammar, what is shown under special names starts with marks. -/
theorem marks_ofGrammar {leaf : Nat → Nat → Prop}
    {opening : Nat → Prop} (isOpening : ∀ terminal start, (ofGrammar grammar).IsMark marks terminal →
      leaf terminal start → opening start) :
    (ofGrammar grammar).Marks leaf (· ∈ special) opening (Marked grammar marks) where
  leaf terminal start isMarked := by
    rcases isMarked with starts | ⟨_, same, _⟩
    · exact isOpening terminal start starts
    · cases same
  row head isMarked row isRow := by
    rcases isMarked with outside | ⟨_, same, rows⟩
    · rw [rowsOf, show (ofGrammar grammar).nonterminals[head]? = none from outside] at isRow
      cases isRow
    · cases same
      exact (rows row isRow).imp fun _ found => ⟨found.1, .inl found.2⟩
  shown head row isRow step isStep name isTitle isSpecial :=
    (keeps_rowsOf opens isRow _ (mem_map_of_mem isStep) name isSpecial isTitle).1
  named symbol name isName isSpecial := marked_of_name? opens isName isSpecial
  plain := by
    obtain ⟨first, others, isFirst, ordinary, parts⟩ := opens.first
    have isOwner := owners_zero isFirst
    refine ⟨fun name isName => ?_, fun row isRow label isLabel name isTitle => ?_⟩
    · cases isOwner.symm.trans (owner_of_name? isName)
      exact ordinary
    · rw [rowsOf_of_owner isOwner] at isRow
      obtain ⟨written, isWritten, isRow⟩ := mem_flatMap.1 isRow
      obtain ⟨choice, isChoice, rfl⟩ := mem_map.1 isWritten
      have plain := Production.of_mem_expand
        (fun row => ∀ part ∈ row.outline, part.2 = none ∧ rowsFor? grammar part.1 = none) ?_ ?_ isRow
      · obtain ⟨step, isStep, rfl⟩ := mem_map.1 isLabel
        cases (plain _ (mem_map_of_mem isStep)).1.symm.trans isTitle
      · intro before step after weight inner rows known isRows
        cases (known step.outline (by simp [Production.outline])).2.symm.trans isRows
      · intro part isPart
        obtain ⟨own, isOwn, rfl⟩ := Rule.mem_parts_of_mem_choices isChoice isPart
        obtain ⟨untitled, isStaying⟩ := parts own isOwn
        exact ⟨untitled, rowsFor?_eq_none_of_stays isStaying⟩

/-! ## Terminals that are no marks -/

private theorem not_isMark_of_symbol?
    (found : (ofGrammar grammar).symbol? name = some (.terminal number)) :
    ¬(ofGrammar grammar).IsMark marks number := by
  rintro ⟨token, isToken, mark, isMark, pattern⟩
  replace isToken : (numbers grammar).tokens[number]? = some token :=
    getElem?_toArray.symm.trans isToken
  cases stands_of_symbols found with
  | scanned isScanned beyond =>
    rw [getElem?_eq_none beyond] at isToken
    cases isToken
  | named member isName =>
    obtain ⟨_, isRule, same⟩ := of_tokenOf? isName
    cases isToken.symm.trans same
    have silent := opens.tokens name member token isRule
    obtain ⟨_, _, _⟩ := token
    obtain rfl := pattern
    simp [isRule, Rule.opensWith, isMark] at silent

/-- The word of a grammar is no mark. -/
theorem not_isMark_of_word (isWord : (ofGrammar grammar).word = some number) :
    ¬(ofGrammar grammar).IsMark marks number := by
  obtain ⟨name, -, isNumber⟩ := Option.bind_eq_some_iff.1 isWord
  obtain ⟨symbol, found, isNumber⟩ := Option.bind_eq_some_iff.1 isNumber
  cases symbol with
  | terminal => exact not_isMark_of_symbol? opens (Option.some.inj isNumber ▸ found)
  | nonterminal => cases isNumber

/-- No terminal of a construct is a mark. -/
theorem not_isMark_terminalOf (name : ν) :
    ¬(ofGrammar grammar).IsMark marks ((ofGrammar grammar).terminalOf name) := by
  rw [terminalOf]
  split
  · rename_i found
    exact not_isMark_of_symbol? opens found
  · rintro ⟨token, isToken, -⟩
    have outside : (ofGrammar grammar).tokens[(ofGrammar grammar).terminals]? = none :=
      Array.getElem?_eq_none (Nat.le_trans (Nat.le_add_right _ _) (Nat.le_succ _))
    cases outside.symm.trans isToken

end Opening

/-- No keyword is a mark. -/
theorem not_isMark_of_keyword (letters : ∀ mark ∈ marks, isKeyword [mark] = false) {word : String}
    (found : (ofGrammar grammar).keywords[word]? = some number) :
    ¬(ofGrammar grammar).IsMark marks number := by
  rintro ⟨token, isToken, mark, isMark, pattern⟩
  rw [ofGrammar] at found
  dsimp only at found
  split at found
  · simp at found
  · obtain ⟨⟨_, _⟩, isPlace, same⟩ := mem_filterMap.1 (mem_of_getElem?_ofList found)
    obtain ⟨text, isText, same⟩ := Option.map_eq_some_iff.1 same
    cases same
    cases (mem_zipIdx_iff_getElem?.1 isPlace).symm.trans (getElem?_toArray.symm.trans isToken)
    obtain ⟨isText, isWord⟩ := Option.filter_eq_some_iff.1 isText
    rw [Token.text?, pattern] at isText
    cases isText
    rw [letters mark isMark] at isWord
    cases isWord

end Blueprint

end Phrasebook.Grammar
