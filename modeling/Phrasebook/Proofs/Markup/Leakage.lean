import Phrasebook.Proofs.Literal.Cooked
import Phrasebook.Proofs.Markup.Spans
import Phrasebook.Proofs.Markup.Survival

/-!
# Marks in registered texts

The texts of phrases are read from buffers in which marks stand for comments, and nothing
puts the comments back into the texts. A text that is read from a run holds no mark; any
other text holds the marks that its source holds, and no others unless escapes spell them.
Which stage takes a phrase up is left to the stages.
-/

namespace Phrasebook.Markup

open List Pass Text

variable {text body : Text} {quote : Char}

namespace Comment.IsAnyMark

variable {token : Text} (isMark : IsAnyMark token)

include isMark

private theorem exists_inside : ∃ inside, token = '<' :: inside ++ ['>'] ∧
    ∀ char ∈ inside, isMarkPart char = true := by
  obtain ⟨_, isMark⟩ := isMark
  obtain ⟨inside, rfl, -, goes⟩ := isMark.exists_inside
  exact ⟨inside, rfl, fun char member => (Bool.and_eq_true_iff.1 (goes char member)).1⟩

private theorem not_mem {char : Char} (other : isMarkPart char = false) : char ∉ token := by
  obtain ⟨inside, rfl, parts⟩ := isMark.exists_inside
  intro member
  simp only [cons_append, mem_cons, mem_append, not_mem_nil, or_false] at member
  rcases member with rfl | member | rfl
  · cases other
  · rw [parts char member] at other
    cases other
  · cases other

private theorem ne_nil : token ≠ [] :=
  isMark.isComment.ne_nil

/-- A mark stands in no text without brackets. -/
theorem not_infix (plain : Run.Unbracketed text) : ¬ token <:+: text := by
  obtain ⟨inside, rfl, -⟩ := isMark.exists_inside
  exact fun occurs => plain.not_mem (show Run.isBracket '<' = true by decide) (occurs.subset (by simp))

private theorem infix_trim_iff : token <:+: trim text ↔ token <:+: text := by
  obtain ⟨lead, trail, -, whole, leadBlank, trailBlank⟩ := exists_cutBlanks text
  conv => rhs; rw [whole]
  refine (infix_between_iff isMark.ne_nil ?_ ?_).symm
  · exact fun char member => isMark.not_mem (isMarkPart_of_isBlank (leadBlank char member))
  · exact fun char member => isMark.not_mem (isMarkPart_of_isBlank (trailBlank char member))

end Comment.IsAnyMark

/-! ## Woven texts -/

/-- What neither holds a brace nor stands in the name of an argument stands in a woven text
exactly when it stands in one of the parts. -/
theorem infix_weave_iff {needle : Text} (nonempty : needle ≠ []) (opening : '{' ∉ needle)
    (closing : '}' ∉ needle) (foreign : ∀ index, ¬ needle <:+: Call.argument index) (index : Nat)
    (parts : List Text) :
    needle <:+: Call.weave Call.placeholder index parts ↔ ∃ part ∈ parts, needle <:+: part := by
  induction parts generalizing index with
  | nil => simp [Call.weave, nonempty]
  | cons part parts ih =>
    cases parts with
    | nil => simp [Call.weave]
    | cons next parts =>
      have woven : Call.weave Call.placeholder index (part :: next :: parts) =
          part ++ '{' :: (Call.argument index ++
            '}' :: Call.weave Call.placeholder (index + 1) (next :: parts)) := by
        simp [Call.weave, Call.placeholder]
      rw [woven, infix_append_cons_iff opening, infix_append_cons_iff closing,
        ih, or_iff_right (foreign index)]
      simp only [mem_cons, exists_eq_or_imp]

private theorem backslash_mem_weave_iff (index : Nat) (parts : List Text) :
    '\\' ∈ Call.weave Call.placeholder index parts ↔ ∃ part ∈ parts, '\\' ∈ part := by
  have single (text : Text) : ['\\'] <:+: text ↔ '\\' ∈ text := by
    simp [List.IsInfix, mem_iff_append, eq_comm]
  have foreign (index : Nat) : ¬ ['\\'] <:+: Call.argument index := by
    rw [single]
    exact Call.not_mem_argument (by decide) (by decide) index
  simpa only [single] using
    infix_weave_iff (show ['\\'] ≠ [] by decide) (by decide) (by decide) foreign index parts

/-! ## Texts and their sources -/

/-- Whether a text holds the marks of the parts that it was read from, and no others
unless one of the parts holds an escape. -/
def CarriesMarks (parts : List Text) (text : Text) : Prop :=
  ∀ token, Comment.IsAnyMark token → ((∃ part ∈ parts, token <:+: part) → token <:+: text) ∧
    (token <:+: text → (∃ part ∈ parts, token <:+: part) ∨ ∃ part ∈ parts, '\\' ∈ part)

namespace CarriesMarks

variable {parts : List Text}

/-- A text that is written as it stands. -/
theorem refl (text : Text) : CarriesMarks [text] text := by
  simp +contextual [CarriesMarks]

/-- Where there are no brackets there are no marks. -/
theorem of_unbracketed {source : Text} (sourcePlain : Run.Unbracketed source)
    (textPlain : Run.Unbracketed text) : CarriesMarks [source] text := by
  intro token isMark
  simp [isMark.not_infix sourcePlain, isMark.not_infix textPlain]

private theorem trim (carries : CarriesMarks parts text) : CarriesMarks parts (trim text) := by
  intro token isMark
  rw [isMark.infix_trim_iff]
  exact carries token isMark

private theorem cook (cooked : Literal.cook body = .ok (CodePoint.ofText text)) :
    CarriesMarks [body] text := by
  intro token isMark
  simp only [mem_singleton, exists_eq_left]
  constructor
  · intro occurs
    have free := isMark.not_mem (show isMarkPart '\\' = false by decide)
    obtain ⟨inside, rfl, -⟩ := isMark.exists_inside
    rw [cons_append, mem_cons, not_or] at free
    exact CodePoint.ofText_infix_iff.1 (Literal.infix_of_cook (by decide) free.2 cooked occurs)
  · intro occurs
    by_cases free : '\\' ∈ body
    · exact .inr free
    · rw [Literal.cook_of_not_mem free] at cooked
      rw [CodePoint.ofText_injective (Except.ok.inj cooked)]
      exact .inl occurs

/-- Placeholders bring no marks between the parts of a text. -/
theorem of_weave (carries : CarriesMarks [Call.weave Call.placeholder 0 parts] text) :
    CarriesMarks parts text := by
  intro token isMark
  have named (index : Nat) : ¬ token <:+: Call.argument index :=
    isMark.not_infix (unbracketed_argument index)
  have woven := infix_weave_iff isMark.ne_nil (isMark.not_mem (by decide))
    (isMark.not_mem (by decide)) named 0 parts
  have held := carries token isMark
  simp only [mem_singleton, exists_eq_left, woven, backslash_mem_weave_iff] at held
  exact held

/-- What stands around the inner part of a source does not matter where it adds no
marks. -/
theorem of_source {inner source : Text} (carries : CarriesMarks [inner] text)
    (within : inner <:+: source)
    (same : ∀ token, Comment.IsAnyMark token → token <:+: source → token <:+: inner) :
    CarriesMarks [source] text := by
  intro token isMark
  have held := carries token isMark
  simp only [mem_singleton, exists_eq_left] at held ⊢
  refine ⟨fun occurs => held.1 (same token isMark occurs), fun occurs => ?_⟩
  rcases held.2 occurs with occurs | escaped
  · exact .inl (occurs.trans within)
  · exact .inr (within.subset escaped)

/-- Quotes around a literal do not matter. -/
theorem of_quoted (isQuote : isMarkPart quote = false) (carries : CarriesMarks [body] text) :
    CarriesMarks [quote :: (body ++ [quote])] text := by
  refine carries.of_source ⟨[quote], [quote], by simp⟩ fun token isMark occurs => ?_
  have foreign : ∀ char ∈ [quote], char ∉ token := by simpa using isMark.not_mem isQuote
  exact (infix_between_iff isMark.ne_nil foreign foreign).1 (by simpa using occurs)

/-- The name of an attribute, the equals sign and the quotes do not matter. -/
theorem of_attribute {name gap value : Text} (plain : Run.Unbracketed name)
    (blank : Text.AllBlank gap) (isQuote : isMarkPart quote = false)
    (carries : CarriesMarks [value] text) :
    CarriesMarks [name ++ '=' :: (gap ++ quote :: (value ++ [quote]))] text := by
  refine carries.of_source ⟨name ++ '=' :: (gap ++ [quote]), [quote], by simp⟩
    fun token isMark occurs => ?_
  rw [infix_append_cons_iff (isMark.not_mem (by decide)), or_iff_right (isMark.not_infix plain)]
    at occurs
  have foreign : ∀ char ∈ [quote], char ∉ token := by simpa using isMark.not_mem isQuote
  have leadForeign : ∀ char ∈ gap ++ [quote], char ∉ token :=
    forall_mem_append.2 ⟨fun char member =>
      isMark.not_mem (isMarkPart_of_isBlank (blank char member)), foreign⟩
  exact (infix_between_iff isMark.ne_nil leadForeign foreign).1 (by simpa using occurs)

end CarriesMarks

/-! ## One phrase -/

namespace Stage

variable {stage : Stage} {buffer : Text}

/-- The parts of a source that the text of a phrase is read from: what stands between the
substitutions of a template literal, and all of any other source. -/
def fixedParts (stage : Stage) (source : Text) : List Text :=
  match stage with
  | templateAttribute =>
    (cutAll Interpolation.recogniseSubstitution source).1 ::
      (cutAll Interpolation.recogniseSubstitution source).2.map Prod.snd
  | _ => [source]

private theorem unbracketed_trim (plain : Run.Unbracketed text) : Run.Unbracketed (trim text) := by
  obtain ⟨lead, trail, -, whole, -⟩ := exists_cutBlanks text
  have within : trim text <:+: text := ⟨lead, trail, whole.symm⟩
  exact fun char member => plain char (within.subset member)

private theorem unbracketed_refill {fill : Nat → Text → Text} {first : Text}
    {cuts : List (Text × Text)} (plain : Run.Unbracketed (refill fill first cuts))
    {other : Nat → Text → Text} (filled : ∀ index expr, Run.Unbracketed (other index expr)) :
    Run.Unbracketed (refill other first cuts) := by
  obtain ⟨firstPlain, laterPlain⟩ := Run.unbracketed_append.1 plain
  refine Run.unbracketed_append.2 ⟨firstPlain, forall_mem_flatten.2 fun part member => ?_⟩
  obtain ⟨index, inside, rfl⟩ := mem_mapIdx.1 member
  refine Run.unbracketed_append.2 ⟨filled _ _, fun char isPart => laterPlain char ?_⟩
  exact mem_flatten.2 ⟨_, mem_mapIdx.2 ⟨index, inside, rfl⟩, mem_append_right _ isPart⟩

private theorem unbracketed_stored {mixture : Mixture}
    (plain : Run.Unbracketed mixture.whole) : Run.Unbracketed mixture.stored := by
  have core : Run.Unbracketed mixture.core :=
    (Run.unbracketed_append.1 (Run.unbracketed_append.1 plain).1).2
  rw [← mixture.divided.refill_eq] at core
  refine unbracketed_refill core fun index _ => ?_
  have argument := unbracketed_argument index
  simp only [Call.argument, Run.unbracketed_append] at argument
  simp only [Run.unbracketed_append]
  exact ⟨⟨by decide, argument.2⟩, by decide⟩

/-- What is read at a place carries the marks of the place, and none at all out of a run. -/
theorem ReadAt.carriesMarks {place : Found Text} (reads : stage.ReadAt buffer place) :
    CarriesMarks (stage.fixedParts (buffer.slice place.start place.stop)) place.value ∧
      (stage.setting = .markupBody → Run.Unbracketed place.value) := by
  cases stage with
  | plainAttribute =>
    obtain ⟨name, gap, secondGap, quote, value, source, isName, gapBlank, secondBlank, isQuote, -,
      text⟩ := reads
    have plain : Run.Unbracketed (name ++ gap) := Run.unbracketed_append.2
      ⟨Attribute.unbracketed_of_isNameOf isName, fun char inGap => @Run.isBracket_of_kind
        isBlank (by decide) (by decide) char (gapBlank char inGap)⟩
    simp only [fixedParts, source, text]
    refine ⟨(CarriesMarks.refl _).trim.of_attribute plain secondBlank ?_, nofun⟩
    rcases isQuote with rfl | rfl <;> decide
  | templateAttribute =>
    obtain ⟨-, -, first, cuts, whole, cut, -, cooked, text⟩ := reads
    rw [← weave_eq_refill] at cooked
    simp only [fixedParts, cut, text]
    exact ⟨(CarriesMarks.cook cooked).of_weave.trim, nofun⟩
  | directiveLiteral | interpolationLiteral =>
    obtain ⟨quote, body, isQuote, source, cooked⟩ := reads
    simp only [fixedParts, source]
    refine ⟨(CarriesMarks.cook cooked).of_quoted ?_, nofun⟩
    simp only [mem_cons, not_mem_nil, or_false] at isQuote
    rcases isQuote with rfl | rfl | rfl <;> decide
  | mixedContent =>
    obtain ⟨stands, mixture, whole, -, text⟩ := reads
    have plain := unbracketed_stored (whole ▸ stands.unbracketed)
    rw [text]
    exact ⟨.of_unbracketed stands.unbracketed plain, fun _ => plain⟩
  | plainText =>
    obtain ⟨stands, text⟩ := reads
    have plain := unbracketed_trim stands.unbracketed
    rw [text]
    exact ⟨.of_unbracketed stands.unbracketed plain, fun _ => plain⟩

/-- The source of a phrase: the stretch of the buffer that its span covers. -/
def source (buffer : Text) (phrase : Phrase) : Text :=
  buffer.slice phrase.span.start.toNat phrase.span.stop.toNat

/-- What a stage takes out of a buffer carries the marks of its source, and none at all out
of a run. -/
theorem Takes.carriesMarks {scope : Scope} {phrase : KeyedPhrase}
    (takes : Takes scope stage buffer phrase) :
    CarriesMarks (stage.fixedParts (source buffer phrase.phrase)) phrase.phrase.text ∧
      (phrase.phrase.setting = .markupBody → Run.Unbracketed phrase.phrase.text) := by
  obtain ⟨place, found, candidate, member, text, readable, rfl⟩ := takes
  exact ((locates_find scope.functions buffer stage place found).reads candidate member text
    readable).carriesMarks

end Stage

/-- A mark in a canonical buffer is one of its numbered marks. -/
theorem Comment.exists_mark_of_infix {buffer token : Text} (canonical : Comment.Canonical buffer)
    (isMark : Comment.IsAnyMark token) (occurs : token <:+: buffer) :
    ∃ number ∈ Comment.numbers buffer, token = Comment.mark number := by
  obtain ⟨number, isMark⟩ := isMark
  obtain ⟨before, after, rfl⟩ := occurs
  rw [append_assoc] at canonical ⊢
  have there : number ∈ Comment.numbers (token ++ after) := by
    rw [Comment.numbers_mark isMark]
    exact mem_cons_self
  exact ⟨number, (Comment.sublist_numbers_append before _).subset there,
    canonical token number after isMark (suffix_append _ _)⟩

/-- Comments leak into registered texts by the marks that stand for them. A text that is
registered was read by one of the stages, from a stretch of the buffer that the stages
before it left. It carries the marks of the fixed parts of this stretch, and no others
unless escapes spell them; each mark of the stretch stands for a comment of the template.
Only the texts of runs never hold a mark. -/
theorem registered_texts_carry_marks (scope : Scope) (template : Text) {phrase : KeyedPhrase}
    (registered : phrase ∈ ((extract scope Stage.all template).run {}).2.phrases) :
    (phrase.phrase.setting = .markupBody →
      ∀ token, Comment.IsAnyMark token → ¬ token <:+: phrase.phrase.text) ∧
    ∃ earlier stage later, Stage.all = earlier ++ stage :: later ∧
      let buffer := earlier.foldl (fun buffer stage => Stage.applied scope stage buffer)
        (Comment.mask template)
      let source := Stage.source buffer phrase.phrase
      phrase.phrase.setting = stage.setting ∧
      CarriesMarks (stage.fixedParts source) phrase.phrase.text ∧
      (scope.Unbracketed → ∀ token, Comment.IsAnyMark token → token <:+: source →
        ∃ number < (Comment.all template).length, token = Comment.mark number) := by
  obtain ⟨result, added, emits⟩ := registers_applyAll scope Stage.all (Comment.mask template)
  rw [(emits_extract emits).phrases {}, nil_append] at registered
  obtain ⟨earlier, stage, later, stages, takes⟩ :=
    ((Stage.confined_applyAll scope Stage.all _ fun _ _ _ _ =>
      Candidate.failFor_isUnreadable _).of_emits emits).1 phrase registered
  obtain ⟨carries, plain⟩ := takes.carriesMarks
  refine ⟨fun body token isMark => isMark.not_infix (plain body), earlier, stage, later, stages, ?_,
    carries, fun unbracketed token isMark occurs => ?_⟩
  · obtain ⟨_, _, _, _, _, _, rfl⟩ := takes
    rfl
  · obtain ⟨row, canonical⟩ := Stage.marks_foldl_mask unbracketed earlier template
    obtain ⟨number, member, rfl⟩ := Comment.exists_mark_of_infix canonical isMark
      (occurs.trans ((drop_suffix _ _).isInfix.trans (List.take_prefix _ _).isInfix))
    exact ⟨number, mem_range.1 (row.subset member), rfl⟩

/-- A template with a comment inside the value of an attribute. -/
def titleTemplate : Text :=
  "<p title=\"<!--c-->好\"></p>".toList

/-- The text that is registered for `titleTemplate` holds the mark of the comment, which
the template does not hold. -/
theorem registered_texts_carry_marks_titleTemplate :
    let scope : Scope := { path := .ofText "src/a.vue".toList, shown := "src/a.vue".toList }
    let phrase : KeyedPhrase :=
      ⟨"a_5bb820".toList, ⟨⟨3, 21⟩, "<!--@0-->好".toList, .markupAttribute⟩⟩
    phrase ∈ ((extract scope Stage.all titleTemplate).run {}).2.phrases ∧
    Comment.mark 0 <:+: phrase.phrase.text ∧ ¬ Comment.mark 0 <:+: titleTemplate ∧
    ∃ earlier stage later, Stage.all = earlier ++ stage :: later ∧
      CarriesMarks (stage.fixedParts (Stage.source (earlier.foldl
        (fun buffer stage => Stage.applied scope stage buffer) (Comment.mask titleTemplate))
        phrase.phrase)) phrase.phrase.text := by
  intro scope phrase
  have registered : phrase ∈ ((extract scope Stage.all titleTemplate).run {}).2.phrases := by
    decide +kernel
  obtain ⟨-, earlier, stage, later, stages, -, carries, -⟩ :=
    registered_texts_carry_marks scope titleTemplate registered
  refine ⟨registered, occursIn_iff.1 (by decide +kernel), ?_, earlier, stage, later, stages,
    carries⟩
  rw [← occursIn_iff]
  decide +kernel

end Phrasebook.Markup
