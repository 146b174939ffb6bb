import Phrasebook.Proofs.Document.Settled
import Phrasebook.Proofs.Markup.Divergence
import Phrasebook.Proofs.Markup.Quotation
import Phrasebook.Proofs.Markup.SoleAttribute

/-!
# Literals that go to a log

A literal in the arguments of a listed call stays in a script. The stages of the markup do not
ask what is called: of a literal with ideographs in an event handler or in an interpolation they
only ask whether it is wrapped in a lookup call, so it stays exactly when the name of the listed
call ends in the name of a lookup function.
-/

namespace Phrasebook.Markup

open List Text

variable {functions : Functions} {quotes : List Char}

/-! ## Wrapped by a name -/

/-- Whether a text ends in the name of a lookup function, with nothing of a name before it. -/
def EndsInLookup (functions : Functions) (text : Text) : Prop :=
  ∃ front name, text = front ++ name ∧ name ∈ [functions.markup, functions.script] ∧ name ≠ [] ∧
    name.length < window ∧ startsName front.getLast? = true

private theorem mem_callNames_iff {name : Text} (nonempty : name ≠ []) :
    name ∈ callNames functions ↔ name ∈ [functions.markup, functions.script] := by
  simp only [callNames]
  split
  · rename_i none
    constructor
    · intro known
      exact absurd (mem_singleton.1 known) nonempty
    · intro known
      have kept : name ∈ [functions.markup, functions.script].filter (· != []) :=
        mem_filter.2 ⟨known, bne_iff_ne.2 nonempty⟩
      rw [List.isEmpty_iff.1 none] at kept
      cases kept
  · rw [mem_filter, bne_iff_ne]
    exact and_iff_left nonempty

/-- A call with a name wraps its first argument exactly when its name ends in the name of a
lookup function. -/
theorem isWrapped_call_iff {call : Text} (named : startsName call.getLast? = false) (rest : Text) :
    isWrapped functions (call ++ ['('] ++ rest) (call ++ ['(']).length = true ↔
      EndsInLookup functions call := by
  rw [isWrapped_iff]
  constructor
  · rintro ⟨front, opening, split, near, starts, opens⟩
    obtain ⟨name, known, gap, inside, rfl, gapBlank, insideBlank⟩ := opensCall_iff.1 opens
    -- The parenthesis is the last character, and the one before it belongs to a name.
    obtain rfl : inside = [] := by
      rcases eq_nil_or_concat inside with none | ⟨start, last, rfl⟩
      · exact none
      · have whole : call ++ ['('] = (front ++ (name ++ (gap ++ '(' :: start))) ++ [last] := by
          simp [split]
        obtain rfl : '(' = last := by simpa using (append_inj' whole rfl).2
        cases insideBlank '(' (by simp)
    have whole : call ++ ['('] = (front ++ (name ++ gap)) ++ ['('] := by simp [split]
    obtain rfl := (append_inj' whole rfl).1
    obtain rfl : gap = [] := by
      rcases eq_nil_or_concat gap with none | ⟨start, last, rfl⟩
      · exact none
      · have visible := @isBlank_of_isNamePart last (by simpa [startsName] using named)
        rw [gapBlank last (by simp)] at visible
        cases visible
    rw [append_nil] at named ⊢
    have nonempty : name ≠ [] := by
      rintro rfl
      rw [append_nil, starts] at named
      cases named
    refine ⟨front, name, rfl, (mem_callNames_iff nonempty).1 known, nonempty, ?_, starts⟩
    simp only [nil_append, length_append, length_singleton] at near
    omega
  · rintro ⟨front, name, rfl, known, nonempty, near, starts⟩
    refine ⟨front, name ++ ['('], append_assoc _ _ _, ?_, starts, ?_⟩
    · rw [length_append, length_singleton]
      omega
    · refine any_eq_true.2 ⟨name, (mem_callNames_iff nonempty).2 known, ?_⟩
      rw [strip?_eq_some_iff.2 rfl]
      rfl

/-! ## The literal of a call -/

/-- An expression with one literal, and no other quotes, holds that literal. -/
theorem scan_literal (isQuote : '\'' ∈ quotes) {front body behind : Text}
    (before : ∀ char ∈ front, char ∉ quotes) (unquoted : '\'' ∉ body)
    (plain : '\\' ∉ body) (after : ∀ char ∈ behind, char ∉ quotes) :
    scan (fun _ => Quotation.recognise quotes)
        (front ++ ('\'' :: (body ++ ['\'']) ++ behind)) =
      [⟨front.length, front.length + ('\'' :: (body ++ ['\''])).length, '\'', body⟩] := by
  have nothing {head : Char} (other : head ∉ quotes) (tail : Text) :
      Quotation.recognise quotes (head :: tail) = none :=
    Quotation.recognise_eq_none_iff.2 fun member => absurd member other
  have recognised : Quotation.recognise quotes ('\'' :: (body ++ ['\'']) ++ behind) =
      some (('\'' :: (body ++ ['\''])).length, '\'', body) :=
    Quotation.recognise_eq_some_iff.2
      ⟨isQuote, Quotation.isBody_of_not_mem unquoted plain, rfl, prefix_append _ _⟩
  rw [scan, scanFrom_append fun head tail ends _ =>
    nothing (before head (ends.subset mem_cons_self)) _]
  rw [scanFrom_of_some (by simp) recognised, scanFrom_eq_nil, Nat.zero_add]
  rintro (_ | ⟨head, tail⟩) ends
  · rfl
  · exact nothing (after head (ends.subset mem_cons_self)) tail

/-- The literal of a call is wrapped exactly when the name of the call ends in the name of a
lookup function. -/
theorem allWrapped_call_iff {functions : Functions} {quotes : List Char} {eligible : Text → Bool}
    (isQuote : '\'' ∈ quotes) (open_ : '(' ∉ quotes) {call body behind : Text}
    (named : startsName call.getLast? = false) (before : ∀ char ∈ call, char ∉ quotes)
    (unquoted : '\'' ∉ body) (plain : '\\' ∉ body) (fits : eligible body = true)
    (after : ∀ char ∈ behind, char ∉ quotes) :
    AllWrapped functions quotes eligible (call ++ '(' :: '\'' :: (body ++ '\'' :: behind)) ↔
      hasIdeograph body = false ∨ EndsInLookup functions call := by
  have split : call ++ '(' :: '\'' :: (body ++ '\'' :: behind) =
      (call ++ ['(']) ++ ('\'' :: (body ++ ['\'']) ++ behind) := by simp
  have unquotedFront : ∀ char ∈ call ++ ['('], char ∉ quotes :=
    forall_mem_append.2 ⟨before, by simpa using open_⟩
  rw [AllWrapped, split, scan_literal isQuote unquotedFront unquoted plain after,
    ← isWrapped_call_iff named ('\'' :: (body ++ ['\'']) ++ behind)]
  simp only [forall_mem_singleton, fits, true_implies]
  cases hasIdeograph body <;> simp

/-! ## Event handlers -/

namespace SoleAttribute

/-- A reader that knows the name of the attribute finds the attribute and nothing else. -/
theorem all_text (element : SoleAttribute) {nameLength : Text → Option Nat} (known : ∀ inside,
      Attribute.opening nameLength (' ' :: (element.name ++ '=' :: '"' :: inside)) =
        some ⟨' ', element.name, '"', element.name.length + 3, inside⟩) :
    Attribute.all nameLength element.text =
      [⟨element.tag.length + 1,
        element.tag.length + 1 + (element.name.length + 3 + element.value.length + 1),
        ⟨' ', element.name, '"', element.value, element.name.length + 3⟩⟩] := by
  let taken : Text := ' ' :: (element.name ++ '=' :: '"' :: (element.value ++ ['"']))
  have whole : element.text = ('<' :: element.tag) ++ (taken ++ element.behind) := by
    simp [text, front, taken]
  have size : taken.length = element.name.length + 3 + element.value.length + 1 := by
    simp [taken]
    omega
  have recognised : Attribute.recognise nameLength (taken ++ element.behind) =
      some (taken.length, ⟨' ', element.name, '"', element.value, element.name.length + 3⟩) := by
    have split : taken ++ element.behind =
        ' ' :: (element.name ++ '=' :: '"' :: (element.value ++ '"' :: element.behind)) := by
      simp [taken]
    rw [split, size]
    refine Attribute.recognise_of_opening (known _) rfl fun char member => ?_
    rw [bne_iff_ne]
    rintro rfl
    exact element.unquoted member
  have found : scan (fun _ => Attribute.recognise nameLength) element.text =
      [⟨element.tag.length + 1, element.tag.length + 1 + taken.length,
        ⟨' ', element.name, '"', element.value, element.name.length + 3⟩⟩] := by
    rw [whole, scan, scanFrom_append, scanFrom_of_some (by simp [taken]) recognised,
      scanFrom_eq_nil]
    · simp
    · rintro (_ | ⟨head, tail⟩) ends
      · rfl
      · exact Attribute.recognise_of_not_blank (element.isBlank_behind
          (mem_cons_of_mem _ (ends.subset mem_cons_self)))
    · rintro head tail ends -
      refine Attribute.recognise_of_not_blank ?_
      rcases mem_cons.1 (ends.subset mem_cons_self) with rfl | tagged
      · decide
      · exact isBlank_of_bare (.inl (element.tagged head tagged))
  have opened : Attribute.inOpenTag (element.text.take (element.tag.length + 1)) = true := by
    have before : element.text.take (element.tag.length + 1) = [] ++ '<' :: element.tag := by
      rw [whole, ← length_cons, take_left, nil_append]
    rw [before, Attribute.inOpenTag_append (element.not_mem_tag (by decide)),
      Attribute.outsideValues_iff, Attribute.walk_bare ?_ (by simp)]
    intro char member marked
    simp only [mem_cons, not_mem_nil, or_false] at marked
    rcases marked with rfl | rfl | rfl <;> exact element.not_mem_tag (by decide) member
  rw [Attribute.all, found]
  simp [opened, size]

end SoleAttribute

/-! ## Interpolations -/

/-- A paragraph that shows an expression. -/
def shown (expr : Text) : Text :=
  ['<', 'p', '>'] ++ interpolated expr ++ ['<', '/', 'p', '>']

/-- Whether an expression holds no bracket and no brace. -/
def IsShowable (expr : Text) : Prop :=
  ∀ char ∈ expr, char ∉ ['<', '>', '{', '}']

namespace IsShowable

variable {expr : Text}

private theorem not_mem (showable : IsShowable expr) (mark : Char)
    (marked : mark ∈ ['<', '>', '{', '}']) : mark ∉ expr :=
  fun member => showable mark member marked

private theorem unbracketed (showable : IsShowable expr) : Run.Unbracketed (interpolated expr) := by
  have inside : Run.Unbracketed expr := by
    intro char member
    by_contra bracket
    refine showable char member ?_
    simp only [Run.isBracket, Bool.not_eq_false, Bool.or_eq_true, beq_iff_eq] at bracket
    rcases bracket with rfl | rfl <;> decide
  simp only [interpolated, Run.unbracketed_append]
  exact ⟨⟨by decide, inside⟩, by decide⟩

private theorem bracket_not_mem (showable : IsShowable expr) : '<' ∉ interpolated expr :=
  fun member => by cases showable.unbracketed '<' member

/-- The first closing braces are those of the interpolation. -/
theorem not_closing (showable : IsShowable expr) :
    ¬ Interpolation.closing <:+: ' ' :: (expr ++ [' ']) ++ ['}'] := by
  intro closes
  have count := closes.sublist.count_le '}'
  have inside := count_eq_zero.2 (showable.not_mem '}' (by decide))
  simp [Interpolation.closing, inside] at count

private theorem mask_shown (showable : IsShowable expr) : Comment.mask
    (shown expr) = shown expr := by
  have split : shown expr =
      '<' :: (['p', '>'] ++ interpolated expr ++ ['<', '/', 'p', '>']) := by simp [shown]
  have starts : Comment.recognise
      ('<' :: (['p', '>'] ++ interpolated expr ++ ['<', '/', 'p', '>'])) = none := rfl
  have unopened : ¬ Comment.opening <:+: ['<', '/', 'p', '>'] := fun opens =>
    absurd (opens.subset (show '!' ∈ Comment.opening by decide)) (by decide)
  rw [Comment.mask_eq, split, Comment.maskFrom_plain 0 starts, Comment.maskFrom_front ?_,
    Comment.maskFrom_of_not_infix unopened]
  intro head tail ends
  refine Comment.recognise_of_ne ?_ _
  rintro rfl
  rcases mem_append.1 (ends.subset mem_cons_self) with outer | inner
  · exact absurd outer (by decide)
  · exact showable.bracket_not_mem inner

private theorem textsOf_shown (showable : IsShowable expr) :
    Run.textsOf (shown expr) = [interpolated expr] := by
  have split : shown expr = Run.joined [] [('<', ['p']), ('>', interpolated expr),
      ('<', ['/', 'p']), ('>', [])] := by simp [shown, Run.joined]
  have segmented : Run.Segmented [] [('<', ['p']), ('>', interpolated expr),
      ('<', ['/', 'p']), ('>', [])] := by
    simp only [Run.segmented_cons, Run.segmented_nil]
    exact ⟨by decide, rfl, by decide, rfl, showable.unbracketed, rfl, by decide, rfl, by decide⟩
  rw [Run.textsOf, split, Run.segments_joined segmented]
  simp [Run.texts, Run.ifRun, Run.isRun, interpolated]

/-- No attribute stands in what is shown. -/
theorem standing_shown (showable : IsShowable expr) {nameLength : Text → Option Nat}
    {read : Text → Option (Nat × Attribute)} (reader : Attribute.IsReader nameLength read) :
    Attribute.standing read (shown expr) = [] := by
  rw [Attribute.standing, filter_eq_nil_iff]
  intro found member
  obtain ⟨before, rest, -, length, whole, recognised, start, -⟩ := exists_of_mem_scan member
  rw [whole, start, take_left]
  obtain ⟨head, tail, rfl⟩ : ∃ head tail, rest = head :: tail := by
    refine exists_cons_of_ne_nil ?_
    rintro rfl
    have bound := reader.bounded none _ _ _ recognised
    rw [length_nil] at bound
    omega
  have blank := (reader.named recognised).1
  have visible {text : Text} (plain : text.all (!isBlank ·) = true) (held : head ∈ text) :
      False := by
    have other := all_eq_true.1 plain head held
    simp [blank] at other
  rw [shown, append_assoc] at whole
  rcases append_eq_append_iff.1 whole with ⟨inside, rfl, later⟩ | ⟨inside, outer, later⟩
  · rcases append_eq_append_iff.1 later with ⟨last, -, ends⟩ | ⟨last, body, -⟩
    · exact absurd (by simp [ends]) (@visible ['<', '/', 'p', '>'] (by decide))
    · -- The tag before the interpolation has ended, and no other was opened.
      have unopened : '<' ∉ 'p' :: '>' :: inside := by
        have inner : '<' ∉ inside := fun held => showable.bracket_not_mem (by simp [body, held])
        simp [inner]
      change ¬ Attribute.inOpenTag ([] ++ '<' :: 'p' :: '>' :: inside) = true
      rw [Attribute.inOpenTag_append unopened]
      simp [Attribute.outsideValues]
  · exfalso
    cases inside with
    | nil =>
      obtain ⟨rfl, -⟩ := List.cons.inj later
      cases blank
    | cons first inside =>
      obtain ⟨rfl, -⟩ := List.cons.inj later
      exact @visible ['<', 'p', '>'] (by decide) (by simp [outer])

private theorem scan_shown (showable : IsShowable expr) :
    scan (fun _ => Interpolation.recognise) (shown expr) =
      [⟨3, 3 + (interpolated expr).length, ' ' :: (expr ++ [' '])⟩] := by
  have nothing {head : Char} (other : head ≠ '{') (tail : Text) :
      Interpolation.recognise (head :: tail) = none := by
    rw [Option.eq_none_iff_forall_ne_some]
    rintro ⟨length, inside⟩ recognised
    obtain ⟨-, -, rest, starts⟩ := Interpolation.recognise_eq_some_iff.1 recognised
    exact other (List.cons.inj starts).1.symm
  have recognised : Interpolation.recognise (interpolated expr ++ ['<', '/', 'p', '>']) =
      some ((interpolated expr).length, ' ' :: (expr ++ [' '])) := by
    refine Interpolation.recognise_eq_some_iff.2 ⟨?_, showable.not_closing, ?_⟩
    · simp [interpolated, Interpolation.opening, Interpolation.closing]
    · exact ⟨['<', '/', 'p', '>'], by
        simp [interpolated, Interpolation.opening, Interpolation.closing]⟩
  rw [shown, append_assoc, scan, scanFrom_append,
    scanFrom_of_some (by simp [interpolated]) recognised, scanFrom_eq_nil]
  · rfl
  · rintro (_ | ⟨head, tail⟩) ends
    · rfl
    · refine nothing ?_ tail
      rintro rfl
      exact absurd (ends.subset mem_cons_self) (by decide)
  · rintro head tail ends -
    refine nothing ?_ _
    rintro rfl
    exact absurd (ends.subset mem_cons_self) (by decide)

/-- A paragraph that shows an expression is settled exactly when the literals of the expression
are wrapped. -/
theorem settled_shown_iff (showable : IsShowable expr) :
    Settled functions (shown expr) ↔
      AllWrapped functions ['\'', '"'] (fun _ => true) (' ' :: (expr ++ [' '])) := by
  have run {eligible : Text → Bool} {found : Found Text}
      (member : found ∈ Run.all eligible (shown expr)) :
      found.value = interpolated expr := by
    have text := (Run.of_mem_all member).1
    rw [showable.textsOf_shown] at text
    exact mem_singleton.1 text
  have split : interpolated expr = [] ++ (Interpolation.opening ++
      (' ' :: (expr ++ [' '])) ++ Interpolation.closing) ++ [] := by
    simp [interpolated, Interpolation.opening, Interpolation.closing]
  constructor
  · intro settled
    exact settled.interpolations _ (by rw [showable.scan_shown]; exact mem_singleton_self _)
  · intro wrapped
    have none {nameLength : Text → Option Nat} (steady : Attribute.Steady nameLength) :
        Attribute.all nameLength (shown expr) = [] :=
      showable.standing_shown (Attribute.isReader_recognise steady)
    refine ⟨?_, ?_, ?_, ?_, ?_, ?_⟩
    · simp [none Attribute.steady_plainName]
    · have templates : boundTemplates (shown expr) = [] :=
        showable.standing_shown Attribute.isReader_template
      simp [templates]
    · have directives := @none _
        (@Attribute.steady_directiveName Attribute.bindingsAndEvents rfl)
      simp [directives]
    · rw [showable.scan_shown]
      simpa using wrapped
    · intro found member
      rw [run member, split]
      exact not_isMixed_interpolation (by simp [Text.AllBlank]) (by simp [Text.AllBlank])
        showable.not_closing
    · rintro found member ⟨unopened, -⟩
      rw [run member, split] at unopened
      exact unopened ⟨[], ' ' :: (expr ++ [' ']) ++ Interpolation.closing, by simp⟩

end IsShowable

/-! ## Listed calls -/

/-- A call that is listed as a call of a log, with one quoted literal as its argument. Object
and method are identifiers, which start with no digit. -/
structure LoggedLiteral (scope : Scope) where
  object : Text
  method : Text
  body : Text
  objectNamed : IsIdentifier object
  methodNamed : IsIdentifier method
  lettered : ∀ name ∈ [object, method], name.head?.all (!·.isDigit) = true
  plain : ∀ char ∈ body, char ∉ ['\'', '"', '\\', '{', '}', '<', '>']
  listed : object ++ '.' :: method ∈ scope.loggingCalls

namespace LoggedLiteral

variable {scope : Scope} (logged : LoggedLiteral scope)

/-- What is called. -/
def call : Text :=
  logged.object ++ '.' :: logged.method

/-- The call with its argument. -/
def expr : Text :=
  logged.call ++ '(' :: '\'' :: (logged.body ++ ['\'', ')'])

/-- A paragraph that calls the log when it is clicked. -/
def handler : Text :=
  ['<', 'p', ' ', '@', 'c', 'l', 'i', 'c', 'k', '=', '"'] ++ logged.expr ++
    ['"', '>', '<', '/', 'p', '>']

private theorem not_mem_call {mark : Char} (other : isNamePart mark = false) (unlike : mark ≠ '.') :
    mark ∉ logged.call := by
  have unnamed {name : Text} (named : ∀ char ∈ name, isNamePart char = true) :
      mark ∉ name := by
    intro member
    rw [named mark member] at other
    cases other
  simp [call, unnamed logged.objectNamed.2, unnamed logged.methodNamed.2, unlike]

private theorem not_mem_body {mark : Char} (marked : mark ∈ ['\'', '"', '\\', '{', '}', '<', '>']) :
    mark ∉ logged.body :=
  fun member => logged.plain mark member marked

private theorem not_mem_expression {mark : Char} (marked : mark ∈ ['"', '{', '}', '<', '>']) :
    mark ∉ logged.expr := by
  have known : isNamePart mark = false ∧ mark ≠ '.' ∧ mark ∉ ['(', '\'', ')'] ∧
      mark ∈ ['\'', '"', '\\', '{', '}', '<', '>'] := by
    simp only [mem_cons, not_mem_nil, or_false] at marked
    rcases marked with rfl | rfl | rfl | rfl | rfl <;> decide
  have outside := logged.not_mem_call known.1 known.2.1
  have inside := logged.not_mem_body known.2.2.2
  have between := known.2.2.1
  simp_all [expr]

private theorem named : startsName logged.call.getLast? = false := by
  rcases eq_nil_or_concat logged.method with none | ⟨front, last, method⟩
  · exact absurd none logged.methodNamed.1
  · have part := logged.methodNamed.2 last (by simp [method])
    have split : logged.call = (logged.object ++ '.' :: front) ++ [last] := by
      simp [call, method]
    rw [split, getLast?_concat]
    simp [startsName, part]

/-- A quote around literals is not in the name of the call. -/
theorem unquoted_call (other : quotes.all (fun quote => !isNamePart quote && quote != '.') = true) :
    ∀ char ∈ logged.call, char ∉ quotes := by
  intro char member quote
  have unlike := all_eq_true.1 other char quote
  rw [Bool.and_eq_true, Bool.not_eq_true', bne_iff_ne] at unlike
  exact logged.not_mem_call unlike.1 unlike.2 member

private theorem isShowable : IsShowable logged.expr := by
  intro char member marked
  simp only [mem_cons, not_mem_nil, or_false] at marked
  rcases marked with rfl | rfl | rfl | rfl <;>
    exact logged.not_mem_expression (by decide) member

/-- The paragraph as an element with one attribute. -/
def element : SoleAttribute where
  tag := ['p']
  name := ['@', 'c', 'l', 'i', 'c', 'k']
  value := logged.expr
  tagged := all_eq_true.1 rfl
  named := all_eq_true.1 rfl
  unquoted := logged.not_mem_expression (by decide)

private theorem handler_eq : logged.handler = logged.element.text := by
  simp [handler, element, SoleAttribute.text, SoleAttribute.front, SoleAttribute.behind]

/-- The paragraph is settled exactly when the literal is wrapped. -/
theorem settled_handler_iff :
    Settled functions logged.element.text ↔ AllWrapped functions ['\'', Char.ofNat 0x60]
      (fun body => !body.contains '{' && !body.contains '}') logged.expr := by
  have unopened : '<' ∉ logged.element.value := logged.not_mem_expression (by decide)
  have unbraced : ¬ Interpolation.opening <:+: logged.element.value := fun opens =>
    @not_mem_expression _ logged '{' (by decide) (opens.subset mem_cons_self)
  have unseen {nameLength : Text → Option Nat} {read : Text → Option (Nat × Attribute)}
      (reader : Attribute.IsReader nameLength read)
      (unnamed : ∀ rest, nameLength (logged.element.name ++ '=' :: rest) = none) :
      Attribute.standing read logged.element.text = [] := by
    rw [logged.element.standing_text reader unnamed, Attribute.standing_of_not_mem unopened]
    rfl
  have plains : Attribute.all Attribute.plainName logged.element.text = [] :=
    unseen (Attribute.isReader_recognise Attribute.steady_plainName) fun _ => rfl
  have templates : boundTemplates logged.element.text = [] :=
    unseen Attribute.isReader_template fun _ => rfl
  have directives := @SoleAttribute.all_text logged.element
    (Attribute.directiveName Attribute.bindingsAndEvents) fun _ => rfl
  rw [logged.element.settled_text_iff unbraced, plains, templates, directives]
  constructor
  · rintro ⟨-, -, wrapped, -⟩
    have literal := wrapped _ (mem_singleton_self _)
    exact literal
  · intro wrapped
    refine ⟨by simp, by simp, ?_, ?_⟩
    · intro found member
      obtain rfl := mem_singleton.1 member
      exact wrapped
    · rintro before run after whole
      exact absurd (by simp [whole]) unopened

/-- The call as a part of a script, given the parts of the literal. -/
def node (role : Script.Role) (parts : List Script.Node) : Script.Node :=
  let stop := logged.expr.length
  let callee := Script.Node.mk .member .callee 0 logged.call.length
    [.mk .identifier .object 0 logged.object.length [],
      .mk .propertyName .property (logged.object.length + 1) logged.call.length []]
  let arguments := Script.Node.mk .arguments .none logged.call.length stop
    [.mk .quoted .none (logged.call.length + 1) (stop - 1) parts]
  .mk .call role 0 stop [callee, arguments]

/-- Whether a tree is that of the call: the call, or a node around one of its trees. -/
inductive IsTree : Script.Node → Prop
  | whole (role : Script.Role) (parts : List Script.Node) : IsTree (logged.node role parts)
  | around (role : Script.Role) (start stop : Nat) {inner : Script.Node} (isTree : IsTree inner) :
    IsTree (.mk .other role start stop [inner])

variable {logged} in
/-- The literal stays, whatever is around the call. -/
theorem IsTree.stays {tree : Script.Node} (isTree : logged.IsTree tree) (around : Script.Ancestors) :
    ∀ literal ∈ Script.literals logged.expr around tree,
      Script.stays logged.expr scope literal.1 literal.2 = true := by
  have object : logged.expr.slice 0 logged.object.length = logged.object := by
    simp [expr, call, slice]
  have method : logged.expr.slice (logged.object.length + 1) logged.call.length =
      logged.method := by
    have split : logged.call = (logged.object ++ ['.']) ++ logged.method := by simp [call]
    have size : logged.object.length + 1 = (logged.object ++ ['.']).length := by simp
    rw [slice, expr, take_left, size, split, drop_left]
  induction isTree generalizing around with
  | whole role parts =>
    intro literal member
    simp only [node, Script.literals, Script.literalsAll, append_nil, nil_append,
      mem_singleton] at member
    subst member
    simp [Script.stays, Script.Node.kind, Script.Node.child?, Script.Node.children,
      Script.Node.role, Script.isLogging, Script.Node.textIn, Script.Node.start, Script.Node.stop,
      object, method, logged.listed]
  | around role start stop _ ih =>
    simp only [Script.literals, Script.literalsAll, append_nil]
    exact ih _

/-- The literal of a listed call stays in a script, whatever tree of the call is read. In an event
handler and in an interpolation it stays, and nothing is registered, exactly when it holds no
ideograph or the name of the call ends in the name of a lookup function. -/
theorem markup_unchanged_iff :
    (Pass.Emits (extract scope Stage.all logged.handler) (.ok logged.handler) [] ↔
      hasIdeograph logged.body = false ∨ EndsInLookup scope.functions logged.call) ∧
    (Pass.Emits (extract scope Stage.all (shown logged.expr))
        (.ok (shown logged.expr)) [] ↔
      hasIdeograph logged.body = false ∨ EndsInLookup scope.functions (' ' :: logged.call)) ∧
    ∀ tree, logged.IsTree tree →
      Pass.Emits (Script.extract scope logged.expr tree) (.ok logged.expr) [] := by
  have single := @not_mem_body _ logged '\'' (by decide)
  have plain := @not_mem_body _ logged '\\' (by decide)
  refine ⟨?_, ?_, fun tree isTree => ?_⟩
  · have unopened : '<' ∉ logged.element.value := logged.not_mem_expression (by decide)
    rw [emits_extract_iff, handler_eq, logged.element.mask_text_of_not_mem unopened,
      and_iff_right rfl, settled_handler_iff]
    refine allWrapped_call_iff (by decide) (by decide) logged.named ?_ single plain ?_
      (forall_mem_singleton.2 (by decide))
    · exact logged.unquoted_call rfl
    · simp [logged.not_mem_body]
  · rw [emits_extract_iff, logged.isShowable.mask_shown, and_iff_right rfl,
      logged.isShowable.settled_shown_iff]
    have split : ' ' :: (logged.expr ++ [' ']) =
        (' ' :: logged.call) ++ '(' :: '\'' :: (logged.body ++ '\'' :: [')', ' ']) := by
      simp [expr]
    rw [split]
    refine allWrapped_call_iff (by decide) (by decide) ?_ ?_ single plain rfl
      (forall_mem_cons.2 ⟨by decide, forall_mem_singleton.2 (by decide)⟩)
    · have named := logged.named
      cases last : logged.call.getLast? with
      | none =>
        rw [last] at named
        cases named
      | some char =>
        rw [last] at named
        simpa [getLast?_cons, last] using named
    · exact forall_mem_cons.2 ⟨by decide, logged.unquoted_call rfl⟩
  · exact Script.emits_extract_iff.2 ⟨rfl, fun literal member => .inl (isTree.stays [] literal member)⟩

/-- The tree of a script that writes one character to the console. -/
def consoleTree : Script.Node :=
  .mk .other .none 0 16 [.mk .other .none 0 16 [.mk .call .none 0 16
    [.mk .member .callee 0 11
      [.mk .identifier .object 0 7 [], .mk .propertyName .property 8 11 []],
    .mk .arguments .none 11 16 [.mk .quoted .none 12 15 [.mk .other .none 13 14 []]]]]]

/-- What a page writes to the console is extracted, as neither lookup function is called, but
for what its script writes. -/
theorem markup_unchanged_iff_console :
    let scope : Scope := { path := .ofText "src/a.vue".toList, shown := "src/a.vue".toList }
    ∃ logged : LoggedLiteral scope,
      logged.expr = ['c', 'o', 'n', 's', 'o', 'l', 'e', '.', 'l', 'o', 'g', '(', '\'', '好',
        '\'', ')'] ∧
      ¬ Pass.Emits (extract scope Stage.all logged.handler) (.ok logged.handler) [] ∧
      ¬ Pass.Emits (extract scope Stage.all (shown logged.expr))
        (.ok (shown logged.expr)) [] ∧
      Pass.Emits (Script.extract scope logged.expr consoleTree) (.ok logged.expr)
        [] := by
  intro scope
  let logged : LoggedLiteral scope := ⟨['c', 'o', 'n', 's', 'o', 'l', 'e'], ['l', 'o', 'g'], ['好'],
    by decide +kernel, by decide +kernel, by decide, forall_mem_singleton.2 (by decide),
    mem_singleton.2 rfl⟩
  have unlike {text : Text} (ends : text.getLast? = some 'g') :
      ¬ EndsInLookup scope.functions text := by
    rintro ⟨front, name, rfl, known, -⟩
    have names : name = ['$', 't'] ∨ name = ['t'] := by simpa using known
    rcases names with rfl | rfl <;> simp at ends
  obtain ⟨handler, interpolation, scripts⟩ := logged.markup_unchanged_iff
  refine ⟨logged, rfl, fun unchanged => ?_, fun unchanged => ?_, ?_⟩
  · exact (handler.1 unchanged).elim (by decide) (unlike rfl)
  · exact (interpolation.1 unchanged).elim (by decide) (unlike rfl)
  · exact scripts _ (.around _ _ _ (.around _ _ _ (.whole _ [.mk .other .none 13 14 []])))

end LoggedLiteral

end Phrasebook.Markup
