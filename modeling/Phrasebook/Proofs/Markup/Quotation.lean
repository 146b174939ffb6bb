import Phrasebook.Proofs.Markup.Stages
import Phrasebook.Proofs.Markup.Wrapped
import Phrasebook.Proofs.Text.Recast

/-!
# Literals of a changed expression

Calls take the places of literals in an expression. This module shows that the changed
expression is read as before: a literal that stays is found again, the key of a call is the
only literal in it, and no quote that opened nothing opens a literal now. A reader of a
body moves along the text, and a call in the place of a literal never brings the reader
further than the literal did. Wrapped literals stay wrapped, since a call that wraps a
literal opens behind the last quote before it.
-/

namespace Phrasebook

open List Text Option

variable {text rest : Text} {head : Char} {length : Nat} {behind ahead : Reading}

/-! ## Reading a body -/

namespace Markup.Quotation

variable {quote : Char} {body : Text}

/-- How far the reader of a literal's body has come. -/
inductive Reading where
  | inside
  /-- Behind a backslash that takes the next character along. -/
  | escaped
  | closed
  /-- At a line feed that a backslash cannot take along. -/
  | stuck
  deriving DecidableEq

namespace Reading

/-- One character further. -/
def step (quote : Char) : Reading → Char → Reading
  | inside, char =>
    if char = quote then closed else if char = '\\' then escaped else inside
  | escaped, char => if char = '\n' then stuck else inside
  | closed, _ => closed
  | stuck, _ => stuck

/-- A whole text further. -/
def read (quote : Char) (reading : Reading) (text : Text) : Reading :=
  text.foldl (step quote) reading

@[simp] theorem read_nil (reading : Reading) : reading.read quote [] = reading :=
  rfl

@[simp] theorem read_cons (reading : Reading) (head : Char) (tail : Text) :
    reading.read quote (head :: tail) = (reading.step quote head).read quote tail :=
  rfl

@[simp] theorem read_append (reading : Reading) (left right : Text) :
    reading.read quote (left ++ right) = (reading.read quote left).read quote right :=
  foldl_append

@[simp] theorem read_closed (text : Text) : closed.read quote text = closed := by
  induction text with
  | nil => rfl
  | cons head tail ih => exact ih

@[simp] theorem read_stuck (text : Text) : stuck.read quote text = stuck := by
  induction text with
  | nil => rfl
  | cons head tail ih => exact ih

/-- A text with neither the quote nor a backslash is read over. -/
theorem read_inside (unquoted : quote ∉ text) (plain : '\\' ∉ text) :
    inside.read quote text = inside := by
  induction text with
  | nil => rfl
  | cons head tail ih =>
    rw [mem_cons, not_or] at unquoted plain
    rw [read_cons, step, if_neg (Ne.symm unquoted.1), if_neg (Ne.symm plain.1)]
    exact ih unquoted.2 plain.2

private theorem read_escaped (nonempty : text ≠ []) (unquoted : quote ∉ text)
    (plain : '\\' ∉ text) :
    escaped.read quote text = inside ∨ escaped.read quote text = stuck := by
  obtain ⟨head, tail, rfl⟩ := exists_cons_of_ne_nil nonempty
  rw [mem_cons, not_or] at unquoted plain
  rw [read_cons, step]
  split
  · exact .inr (read_stuck tail)
  · exact .inl (read_inside unquoted.2 plain.2)

end Reading

open Reading

/-- A body has a length exactly when its reader comes to the closing quote. -/
theorem bodyLength_eq_none_iff :
    bodyLength quote text = none ↔ inside.read quote text ≠ closed := by
  fun_induction bodyLength quote text with
  | case1 => simp
  | case2 head tail here => simp [step, beq_iff_eq.1 here]
  | case3 head other escape =>
    obtain rfl : head = '\\' := by simpa using escape
    simp_all [step]
  | case4 head other escape escaped rest feed =>
    obtain rfl : head = '\\' := by simpa using escape
    obtain rfl : escaped = '\n' := by simpa using feed
    simp_all [step]
  | case5 head other escape escaped rest feed ih =>
    obtain rfl : head = '\\' := by simpa using escape
    simp_all [step]
  | case6 head tail other escape ih => simp_all [step]

/-- The reader for another quote comes to its end inside a literal or stands behind it. -/
theorem read_take {quote other : Char} {text : Text} {length : Nat} (slash : quote ≠ '\\')
    (closes : bodyLength quote text = some length) :
    inside.read other (text.take (length + 1)) = closed ∨
      other ≠ quote ∧ inside.read other (text.take (length + 1)) = inside := by
  fun_induction bodyLength quote text generalizing length with
  | case1 => cases closes
  | case2 head tail here =>
    obtain rfl : head = quote := by simpa using here
    cases closes
    by_cases same : head = other
    · simp [step, same]
    · exact .inr ⟨Ne.symm same, by simp [step, same, slash]⟩
  | case3 => cases closes
  | case4 => cases closes
  | case5 head unlike escape escaped rest feed ih =>
    obtain ⟨size, later, rfl⟩ := map_eq_some_iff.1 closes
    obtain rfl : head = '\\' := by simpa using escape
    by_cases same : '\\' = other
    · subst same
      simp [step]
    · have rest := ih later
      simp_all [step]
  | case6 head tail unlike escape ih =>
    obtain ⟨size, later, rfl⟩ := map_eq_some_iff.1 closes
    by_cases same : head = other
    · simp [step, same]
    · have rest := ih later
      simp_all [step]

@[simp] theorem bodyLength_quote (quote : Char) (tail : Text) :
    bodyLength quote (quote :: tail) = some 0 := by
  unfold bodyLength
  simp

private theorem bodyLength_plain (unlike : ¬ head = quote) (plain : ¬ head = '\\') (tail : Text) :
    bodyLength quote (head :: tail) = (bodyLength quote tail).map (· + 1) := by
  conv => lhs; unfold bodyLength
  simp [unlike, plain]

/-- Whether a text is the body of a literal, whatever stands behind the closing quote. -/
def IsBody (quote : Char) (body : Text) : Prop :=
  ∀ rest, bodyLength quote (body ++ quote :: rest) = some body.length

private theorem isBody_take (closes : bodyLength quote text = some length) :
    IsBody quote (text.take length) := by
  intro after
  fun_induction bodyLength quote text generalizing length with
  | case1 => cases closes
  | case2 head tail here =>
    cases closes
    simp
  | case3 => cases closes
  | case4 => cases closes
  | case5 head unlike escape escaped rest feed ih =>
    obtain ⟨size, later, rfl⟩ := map_eq_some_iff.1 closes
    have rest := ih later
    simp_all [bodyLength]
  | case6 head tail unlike escape ih =>
    obtain ⟨size, later, rfl⟩ := map_eq_some_iff.1 closes
    have rest := ih later
    simp_all [bodyLength_plain]

/-- A text with neither the quote nor a backslash is a body. -/
theorem isBody_of_not_mem (unquoted : quote ∉ body) (plain : '\\' ∉ body) : IsBody quote body := by
  intro rest
  induction body with
  | nil => simp
  | cons head tail ih =>
    rw [mem_cons, not_or] at unquoted plain
    rw [cons_append, bodyLength_plain (Ne.symm unquoted.1) (Ne.symm plain.1), ih unquoted.2 plain.2]
    rfl

private theorem IsBody.read {quote other : Char} {body : Text} (isBody : IsBody quote body)
    (slash : quote ≠ '\\') :
    inside.read other (body ++ [quote]) = closed ∨
      other ≠ quote ∧ inside.read other (body ++ [quote]) = inside := by
  have taken := @read_take quote other _ _ slash (isBody [])
  rwa [take_of_length_le (by simp)] at taken

/-- Literals are recognised by their quote and their body. -/
theorem recognise_eq_some_iff {quotes : List Char} :
    recognise quotes text = some (length, quote, body) ↔
      quote ∈ quotes ∧ IsBody quote body ∧ length = (quote :: (body ++ [quote])).length ∧
        quote :: (body ++ [quote]) <+: text := by
  constructor
  · intro recognised
    obtain ⟨rest, rfl, size, isQuote⟩ := recognise_spelled recognised
    refine ⟨isQuote, ?_, size, prefix_append _ _⟩
    simp only [recognise, cons_append, bind_eq_bind] at recognised
    split at recognised
    · cases recognised
    · obtain ⟨inside, closes, recognised⟩ := bind_eq_some_iff.1 recognised
      have isBody := isBody_take closes
      simp only [Option.pure_def, some.injEq, Prod.mk.injEq, true_and] at recognised
      rwa [recognised.2] at isBody
  · rintro ⟨isQuote, isBody, rfl, rest, rfl⟩
    simp [recognise, isQuote, isBody rest]

private theorem eq_of_recognise {quotes : List Char} {taken : Text}
    (recognised : recognise quotes (taken ++ rest) = some (taken.length, quote, body)) :
    quote ∈ quotes ∧ IsBody quote body ∧ taken = quote :: (body ++ [quote]) := by
  obtain ⟨isQuote, isBody, size, starts⟩ := recognise_eq_some_iff.1 recognised
  exact ⟨isQuote, isBody, (eq_of_isPrefix_append starts size).symm⟩

/-- A quote that is not closed opens nothing. -/
theorem recognise_eq_none_iff {quotes : List Char} {tail : Text} :
    recognise quotes (head :: tail) = none ↔ (head ∈ quotes → bodyLength head tail = none) := by
  by_cases isQuote : head ∈ quotes
  · cases closes : bodyLength head tail <;> simp [recognise, isQuote, closes]
  · simp [recognise, isQuote]

/-! ### Readers of two texts -/

/-- Whether a reader has no more closed than another one. -/
def Lags (behind ahead : Reading) : Prop :=
  ahead = closed ∨ behind = ahead ∨ behind = stuck

private theorem Lags.read {behind ahead : Reading} (lags : Lags behind ahead) (quote : Char)
    (text : Text) :
    Lags (behind.read quote text) (ahead.read quote text) := by
  rcases lags with rfl | rfl | rfl
  · exact .inl (read_closed text)
  · exact .inr (.inl rfl)
  · exact .inr (.inr (read_stuck text))

/-- A reader gains nothing when another text without backslashes takes the place of a
literal, if it holds no quotes but those of the literal. -/
theorem Lags.read_exchanged (lags : Lags behind ahead) {other : Char} {new : Text}
    (isBody : IsBody quote body) (slash : quote ≠ '\\') (feed : quote ≠ '\n') (nonempty : new ≠ [])
    (plain : '\\' ∉ new) (unquoted : other ≠ quote → other ∉ new) :
    Lags (behind.read other new) (ahead.read other (quote :: (body ++ [quote]))) := by
  rcases lags with rfl | rfl | rfl
  · exact .inl (read_closed _)
  · cases behind with
    | closed => exact .inl (read_closed _)
    | stuck => exact .inr (.inr (read_stuck _))
    | escaped =>
      -- The opening quote is taken along, and the body is read from its start.
      rw [read_cons, step, if_neg feed]
      rcases @IsBody.read _ other _ isBody slash with closes | ⟨unlike, passes⟩
      · exact .inl closes
      · rw [passes]
        exact .inr (read_escaped nonempty (unquoted unlike) plain)
    | inside =>
      by_cases same : quote = other
      · exact .inl (by simp [step, same])
      · rw [read_cons, step, if_neg same, if_neg slash]
        rcases @IsBody.read _ other _ isBody slash with closes | ⟨unlike, passes⟩
        · exact .inl closes
        · rw [passes, read_inside (unquoted unlike) plain]
          exact .inr (.inl rfl)
  · exact .inr (.inr (read_stuck _))

/-- The quotes of literals in interpolations. -/
def quotes : List Char := ['\'', '"']

private theorem kind_of_mem (isQuote : quote ∈ quotes) :
    Call.isHarmless quote = false ∧ isNamePart quote = false ∧ isBlank quote = false ∧
      quote ∉ ['\\', '\n', '}', '('] := by
  simp only [quotes, mem_cons, not_mem_nil, or_false] at isQuote
  rcases isQuote with rfl | rfl <;> decide

private theorem startsName_append {last : Char} (unnamed : isNamePart last = false) (front : Text) :
    startsName (front ++ [last]).getLast? = true := by
  simp [startsName, unnamed]

/-- How a literal behind a gap may change: it stays if it is wrapped or nothing to extract,
or it becomes a call. -/
def Changes (scope : Scope) (gap : Text) (literal : Char × Text) (taken new : Text) : Prop :=
  new = taken ∧ (hasIdeograph literal.2 = true →
      isWrapped scope.functions gap gap.length = true) ∨
    ∃ text, new = scope.call text literal.1 []

section Recast

variable {scope : Scope} {gap after : Text} (harmless : scope.Harmless)
  (recast : Text.Recast (recognise quotes) (Changes scope) gap text after)

include harmless recast

/-- The reader of the changed expression finds no quote that closes where there was none. -/
theorem lags_read {quote : Char} (isQuote : quote ∈ quotes) (lags : Lags behind ahead) :
    Lags (behind.read quote after) (ahead.read quote text) := by
  induction recast generalizing behind ahead with
  | nil => exact lags
  | keep nothing later ih =>
    exact ih (lags.read quote [_])
  | take recognised changed later ih =>
    rw [read_append, read_append]
    apply ih
    obtain ⟨known, isBody, rfl⟩ := eq_of_recognise recognised
    rcases changed with ⟨rfl, -⟩ | ⟨stored, rfl⟩
    · exact lags.read quote _
    · obtain ⟨-, -, -, unlike⟩ := kind_of_mem known
      simp only [mem_cons, not_or] at unlike
      refine lags.read_exchanged isBody unlike.1 unlike.2.1 (by simp [Scope.call_nil]) ?_ ?_
      · exact harmless.not_mem_call (by decide) (Ne.symm unlike.1)
      · exact harmless.not_mem_call (kind_of_mem isQuote).1

/-- No literal starts in the changed expression where none did. -/
theorem recognise_eq_none_of_recast (nothing : recognise quotes (head :: text) = none) :
    recognise quotes (head :: after) = none := by
  rw [recognise_eq_none_iff] at nothing ⊢
  intro isQuote
  have open_ := bodyLength_eq_none_iff.1 (nothing isQuote)
  rw [bodyLength_eq_none_iff]
  intro closes
  rcases lags_read harmless recast isQuote (.inr (.inl (Eq.refl inside))) with closed | same | stuck
  · exact open_ closed
  · exact open_ (same ▸ closes)
  · rw [closes] at stuck
    cases stuck

private theorem head_of_recast (starts : (after ++ ['}']).head? = some '}') :
    (text ++ ['}']).head? = some '}' := by
  cases recast with
  | nil => rfl
  | keep nothing later => exact starts
  | @take _ taken rest new after value recognised changed later =>
    obtain ⟨known, isBody, rfl⟩ := eq_of_recognise recognised
    obtain ⟨-, -, -, unlike⟩ := kind_of_mem known
    simp only [mem_cons, not_or] at unlike
    rcases changed with ⟨rfl, -⟩ | ⟨stored, rfl⟩
    · exact absurd (some.inj starts) unlike.2.2.1
    · have inside : '}' ∈ scope.call stored value.1 [] := by
        obtain ⟨head, tail, call⟩ := exists_cons_of_ne_nil
          (show scope.call stored value.1 [] ≠ [] by simp [Scope.call_nil])
        rw [call] at starts ⊢
        simp_all
      exact absurd inside (harmless.not_mem_call (by decide) (Ne.symm unlike.2.2.1))

/-- Closing braces come together in no other place of the changed expression. -/
theorem closing_of_recast (closes : Interpolation.closing <:+: after ++ ['}']) :
    Interpolation.closing <:+: text ++ ['}'] := by
  induction recast with
  | nil => exact closes
  | @keep gap head tail after nothing later ih =>
    rw [cons_append, infix_cons_iff] at closes ⊢
    rcases closes with starts | inside
    · obtain ⟨rfl, ⟨rest, behind⟩⟩ := cons_prefix_cons.1 starts
      have first := head_of_recast harmless later (by rw [← behind]; rfl)
      obtain ⟨rest, whole⟩ := head?_eq_some_iff.1 first
      exact .inl ⟨rest, by rw [whole]; rfl⟩
    · exact .inr (ih inside)
  | @take gap taken rest new after value recognised changed later ih =>
    obtain ⟨known, isBody, rfl⟩ := eq_of_recognise recognised
    obtain ⟨-, -, -, unlike⟩ := kind_of_mem known
    simp only [mem_cons, not_or] at unlike
    rcases changed with ⟨rfl, -⟩ | ⟨stored, rfl⟩
    · have foreign : value.1 ∉ Interpolation.closing := by
        simp [Interpolation.closing, unlike.2.2.1]
      have spelled (rest : Text) : value.1 :: (value.2 ++ [value.1]) ++ rest ++ ['}'] =
          (value.1 :: value.2) ++ value.1 :: (rest ++ ['}']) := by simp
      rw [spelled, infix_append_cons_iff foreign] at closes ⊢
      exact closes.imp_right ih
    · have foreign : ∀ char ∈ scope.call stored value.1 [],
          char ∉ Interpolation.closing := by
        intro char member inside
        obtain rfl : char = '}' := by simpa [Interpolation.closing] using inside
        exact harmless.not_mem_call (by decide) (Ne.symm unlike.2.2.1) member
      have behind := (infix_between_iff (by decide) foreign
        (show ∀ char ∈ [], char ∉ Interpolation.closing by simp)).1
        (by simpa using closes : Interpolation.closing <:+: _ ++ (after ++ ['}']) ++ [])
      rw [append_assoc]
      exact (ih behind).trans (suffix_append _ _).isInfix

omit harmless recast in
/-- A scan goes over what holds no quote. -/
theorem scanFrom_unquoted {front : Text} (unquoted : ∀ char ∈ front, char ∉ quotes)
    (offset : Nat) (prev : Option Char) :
    scanFrom (fun _ => recognise quotes) offset 0 prev (front ++ rest) =
      scanFrom (fun _ => recognise quotes) (offset + front.length) 0
        (front.getLast?.or prev) rest :=
  scanFrom_append (fun head _ ends _ => recognise_eq_none_iff.2 fun isQuote =>
    absurd isQuote (unquoted head (ends.subset (by simp)))) offset prev

omit recast in
/-- The key is the only literal that a scan finds in a call. -/
theorem scanFrom_call {quote : Char} (isQuote : quote ∈ quotes) (stored : Text) (offset : Nat)
    (prev : Option Char) : ∃ start stop,
    scanFrom (fun _ => recognise quotes) offset 0 prev
      (scope.call stored quote [] ++ after) =
        ⟨start, stop, quote, Key.ofText stored scope.path scope.keyLength⟩ ::
          scanFrom (fun _ => recognise quotes) (offset + (scope.call stored quote []).length) 0
            (some ')') after := by
  have unquoted : ∀ char ∈ scope.functions.markup, char ∉ quotes := fun _ member isQuote =>
    Call.not_mem_of_isHarmless harmless.markup (kind_of_mem isQuote).1 member
  have isKey : IsBody quote (Key.ofText stored scope.path scope.keyLength) :=
    isBody_of_not_mem (harmless.not_mem_key (kind_of_mem isQuote).1)
      (harmless.not_mem_key (by decide))
  have parentheses : ∀ mark ∈ ['(', ')'], ∀ char ∈ [mark], char ∉ quotes := by
    simp [quotes]
  have named : ∀ char ∈ scope.functions.markup ++ ['('], char ∉ quotes :=
    forall_mem_append.2 ⟨unquoted, parentheses '(' (by simp)⟩
  rw [Scope.call_nil]
  generalize Key.ofText stored scope.path scope.keyLength = key at isKey ⊢
  have found : recognise quotes (quote :: (key ++ [quote]) ++ ([')'] ++ after)) =
      some ((quote :: (key ++ [quote])).length, quote, key) :=
    recognise_eq_some_iff.2 ⟨isQuote, isKey, rfl, prefix_append _ _⟩
  have spelled : scope.functions.markup ++ '(' :: (quote :: (key ++ [quote]) ++ [')']) ++ after =
      (scope.functions.markup ++ ['(']) ++ (quote :: (key ++ [quote]) ++ ([')'] ++ after)) := by
    simp
  have size : offset + (scope.functions.markup ++ ['(']).length + (quote :: (key ++ [quote])).length +
      [')'].length = offset + (scope.functions.markup ++ '(' ::
        (quote :: (key ++ [quote]) ++ [')'])).length := by
    simp only [length_append, length_cons, length_nil]
    omega
  rw [spelled, scanFrom_unquoted named, scanFrom_of_some (by simp) found,
    scanFrom_unquoted (parentheses ')' (by simp)), size]
  exact ⟨_, _, rfl⟩

/-- Every literal of the changed expression that is worth extracting is wrapped. -/
theorem wrapped_of_recast {done : Text} (ends : startsName done.getLast? = true)
    {prev : Option Char} :
    ∀ literal ∈ scanFrom (fun _ => recognise quotes) (done ++ gap).length 0 prev after,
      hasIdeograph literal.value.2 = true →
        isWrapped scope.functions (done ++ gap ++ after) literal.start = true := by
  induction recast generalizing done prev with
  | nil => simp [scanFrom]
  | @keep gap head tail after nothing later ih =>
    rw [scanFrom_of_none (recognise_eq_none_of_recast harmless later nothing)]
    have rest := @ih done ends (some head)
    simpa [Nat.add_assoc] using rest
  | @take gap taken rest new after value recognised changed later ih =>
    obtain ⟨known, isBody, rfl⟩ := eq_of_recognise recognised
    rcases changed with ⟨rfl, wrapped⟩ | ⟨stored, rfl⟩
    · have again : recognise quotes (value.1 :: (value.2 ++ [value.1]) ++ after) =
          some ((value.1 :: (value.2 ++ [value.1])).length, value) :=
        recognise_eq_some_iff.2 ⟨known, isBody, rfl, prefix_append _ _⟩
      have rest := @ih (done ++ gap ++ (value.1 :: value.2) ++ [value.1])
        (startsName_append (kind_of_mem known).2.1 _) (value.1 :: (value.2 ++ [value.1])).getLast?
      rw [scanFrom_of_some (by simp) again]
      refine forall_mem_cons.2 ⟨fun ideograph => ?_, ?_⟩
      · exact isWrapped_append _ ends (wrapped ideograph)
      · simpa [Nat.add_assoc] using rest
    · obtain ⟨start, stop, scanned⟩ := @scanFrom_call _ after harmless _ known stored
        (done ++ gap).length prev
      have closed : startsName (done ++ gap ++ scope.call stored value.1 []).getLast? = true := by
        rw [Scope.call_nil, ← append_assoc, ← cons_append, ← append_assoc]
        exact startsName_append (by decide) _
      have rest := @ih _ closed (some ')')
      rw [scanned]
      refine forall_mem_cons.2 ⟨fun ideograph => ?_, ?_⟩
      · rw [harmless.hasIdeograph_key stored] at ideograph
        cases ideograph
      · rw [append_nil, length_append] at rest
        rwa [← append_assoc]

end Recast

/-- The calls in the places of literals recast an expression. -/
theorem recast_candidates {scope : Scope} (harmless : scope.Harmless) (offset : Nat)
    (expr : Text) : Text.Recast (recognise quotes) (Changes scope) [] expr
      (Piece.spell scope (Piece.interleave 0 expr
        (candidates scope.functions quotes id (fun _ => true) offset expr))) := by
  let change (found : Found (Char × Text)) : Option Text :=
    if hasIdeograph found.value.2 && !isWrapped scope.functions expr found.start then
      some (Piece.callText scope ⟨offset + found.start, offset + found.stop,
        Literal.cook found.value.2, found.value.1, []⟩)
    else none
  have places : ((candidates scope.functions quotes id (fun _ => true) offset expr).map
      fun range => (⟨range.1, range.2.1, Piece.callText scope range.2.2⟩ : Found Text)) =
        (scan (fun _ => recognise quotes) expr).filterMap (withContent change) := by
    rw [candidates, map_filterMap]
    congr 1
    funext found
    simp only [withContent, change, Bool.true_and]
    split <;> rfl
  rw [Piece.spell_interleave, places]
  refine recast_copy (bounded_quotation quotes) ?_
  intro done gap taken rest value split ends recognised
  simp only [change]
  split
  · exact .inr ⟨_, rfl⟩
  · rename_i kept
    refine .inl ⟨rfl, fun ideograph => ?_⟩
    have wrapped : isWrapped scope.functions (done ++ gap ++ (taken ++ rest)) (done ++ gap).length =
        true := by
      rw [← split]
      simpa [ideograph] using kept
    obtain ⟨quote, known, stops⟩ :
        ∃ quote ∈ quotes, done = [] ∨ ∃ front, done = front ++ [quote] := by
      rcases ends with empty | ⟨front, taken, rest, ⟨quote, body⟩, rfl, last⟩
      · exact ⟨'"', by decide, .inl empty⟩
      · obtain ⟨known, -, rfl⟩ := eq_of_recognise last
        exact ⟨quote, known, .inr ⟨front ++ quote :: body, by simp⟩⟩
    obtain ⟨meant, -, blank, unlike⟩ := kind_of_mem known
    simp only [mem_cons, not_or] at unlike
    exact isWrapped_of_append ⟨Call.not_mem_of_isHarmless harmless.markup meant,
      Call.not_mem_of_isHarmless harmless.script meant⟩ ⟨unlike.2.2.2.1, blank⟩ stops wrapped

end Markup.Quotation

end Phrasebook
