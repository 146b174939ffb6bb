import Phrasebook.Proofs.Grammar.Blueprint
import Phrasebook.Proofs.Grammar.Parser

/-!
# Where tokens start

A token starts behind the place where it is looked for. The token of a mark starts at that mark, or
at a blank before it: blanks are skipped, but the start of a token stays where it is while a longer
token that starts with the blank is still possible.
-/

namespace Phrasebook.Grammar

variable {ν φ τ : Type}

namespace Blueprint

variable (plan : Blueprint ν φ) (marks : List Char) (text : Array Char)

/-- Whether a mark or a blank stands at a place. -/
def OpensAt (place : Nat) : Prop :=
  ∃ char, text[place]? = some char ∧ (char ∈ marks ∨ plan.blanks.contains char = true)

/-- Whether a terminal that is the token of a mark starts with a mark or a blank. -/
def Leaf (terminal start : Nat) : Prop :=
  plan.IsMark marks terminal → plan.OpensAt marks text start

/-- What holds of a reading: it starts behind the place `first`, and what is known of the token of a
mark fits to the start. -/
structure Begins (first : Nat) (reading : Reading) : Prop where
  above : first ≤ reading.start
  below : reading.start ≤ reading.pos
  skips : reading.skipping = true →
    reading.start = reading.pos ∨ plan.OpensAt marks text reading.start
  threads : ∀ thread ∈ reading.threads, ∀ token, ∀ mark ∈ marks,
    plan.tokens[thread.token]? = some token → token.pattern = .text [mark] →
      thread.rest = .text [mark] ∧
          (reading.start = reading.pos ∨ plan.OpensAt marks text reading.start) ∨
        thread.rest = .text [] ∧ plan.OpensAt marks text reading.start
  found : ∀ lexeme, reading.found = some lexeme →
    first ≤ lexeme.start ∧ plan.Leaf marks text lexeme.terminal lexeme.start

variable {plan marks text} {first : Nat} {reading : Reading}

private theorem exists_of_complete? {threads : List Thread} {token : Nat}
    (complete : plan.complete? threads = some token) :
    ∃ thread ∈ threads, thread.token = token ∧ thread.rest.isNullable = true := by
  rw [complete?] at complete
  refine List.foldlRecOn (motive := fun best => ∀ token, best = some token →
    ∃ thread ∈ threads, thread.token = token ∧
      thread.rest.isNullable = true) threads _ ?_ ?_ token complete
  · intro token nothing
    cases nothing
  · intro best known thread member token isBest
    split at isBest
    · exact known token isBest
    · have ends : thread.rest.isNullable = true := by simp_all
      split at isBest
      · cases isBest
        exact ⟨thread, member, rfl, ends⟩
      · split at isBest
        · exact known token isBest
        · cases isBest
          exact ⟨thread, member, rfl, ends⟩

/-- What is found so far is a lexeme. -/
theorem Begins.found_or (begins : plan.Begins marks text first reading) {lexeme : Lexeme}
    (isFound : ((plan.complete? reading.threads).map fun token =>
      (⟨token, reading.start, reading.pos⟩ : Lexeme)).or reading.found = some lexeme) :
    first ≤ lexeme.start ∧ plan.Leaf marks text lexeme.terminal lexeme.start := by
  rcases Option.or_eq_some_iff.1 isFound with isNew | ⟨-, isOld⟩
  · obtain ⟨token, complete, rfl⟩ := Option.map_eq_some_iff.1 isNew
    obtain ⟨thread, member, rfl, nullable⟩ := exists_of_complete? complete
    refine ⟨begins.above, ?_⟩
    rintro ⟨token, isToken, mark, isMark, pattern⟩
    rcases begins.threads thread member token mark isMark isToken pattern with ⟨rest, -⟩ | ⟨-, opens⟩
    · rw [rest] at nullable
      cases nullable
    · exact opens
  · exact begins.found lexeme isOld

/-- What is known of tokens holds behind one more character. -/
theorem Begins.step (begins : plan.Begins marks text first reading) {char : Char}
    (here : text[reading.pos]? = some char) {fresh next : List Thread} {skips : Bool}
    {found : Option Lexeme} (freshes : ∀ thread ∈ fresh, thread = plan.thread thread.token)
    (residual : ∀ thread ∈ next, ∃ last ∈ reading.threads,
      thread.token = last.token ∧ thread.rest ∈ last.rest.residuals char)
    (isBlank : skips = true → reading.skipping = true ∧ plan.blanks.contains char = true)
    (isFound : ∀ lexeme, found = some lexeme →
      first ≤ lexeme.start ∧ plan.Leaf marks text lexeme.terminal lexeme.start) :
    plan.Begins marks text first
      { pos := reading.pos + 1
        start := if next.isEmpty then reading.pos + 1 else reading.start
        skipping := skips
        threads := if skips then next ++ fresh else next
        found } := by
  obtain ⟨above, below, skipping, threads, -⟩ := begins
  generalize isStart : (if next.isEmpty then reading.pos + 1 else reading.start) = start
  have known : start = reading.pos + 1 ∨ start = reading.start := by grind
  have blank (isSkipped : skips = true) :
      start = reading.pos + 1 ∨ plan.OpensAt marks text start := by
    obtain ⟨wasSkipping, contains⟩ := isBlank isSkipped
    rcases known with same | rfl
    · exact .inl same
    · rcases skipping wasSkipping with same | opens
      · exact .inr ⟨char, same ▸ here, .inr contains⟩
      · exact .inr opens
  have going : ∀ thread ∈ next, ∀ token, ∀ mark ∈ marks,
      plan.tokens[thread.token]? = some token → token.pattern = .text [mark] →
        thread.rest = .text [] ∧ plan.OpensAt marks text start := by
    intro thread member token mark isMark isToken pattern
    obtain ⟨last, isLast, sameToken, isRest⟩ := residual thread member
    rw [if_neg (by simp [List.ne_nil_of_mem member])] at isStart
    rcases threads last isLast token mark isMark (sameToken ▸ isToken) pattern with
      ⟨rest, starts⟩ | ⟨rest, -⟩
    · rw [rest, Pattern.residuals] at isRest
      split at isRest
      · rename_i same
        obtain rfl := eq_of_beq same
        refine ⟨List.mem_singleton.1 isRest, ?_⟩
        rw [← isStart]
        exact starts.elim (fun same => ⟨mark, same ▸ here, .inl isMark⟩) id
      · cases isRest
    · rw [rest, Pattern.residuals] at isRest
      cases isRest
  refine ⟨by dsimp only; omega, by dsimp only; omega, blank, ?_, isFound⟩
  intro thread member token mark isMark isToken pattern
  cases skips with
  | false => exact .inr (going thread member token mark isMark isToken pattern)
  | true =>
    rcases List.mem_append.1 member with isNext | isFresh
    · exact .inr (going thread isNext token mark isMark isToken pattern)
    · refine .inl ⟨?_, blank rfl⟩
      rw [freshes thread isFresh, Blueprint.thread, isToken]
      exact pattern

/-- What is known of tokens holds to their ends. -/
theorem Begins.readOn {fresh : List Thread}
    (freshes : ∀ thread ∈ fresh, thread = plan.thread thread.token) {fuel : Nat} {endFits : Bool}
    (begins : plan.Begins marks text first reading) :
    plan.Begins marks text first (plan.readOn text fresh fuel endFits reading) := by
  induction fuel generalizing endFits reading with
  | zero => exact begins
  | succ fuel ih =>
    have ended (found : Option Lexeme) (known : ∀ lexeme, found = some lexeme →
        first ≤ lexeme.start ∧ plan.Leaf marks text lexeme.terminal lexeme.start) :
        plan.Begins marks text first { reading with found } :=
      ⟨begins.above, begins.below, begins.skips, begins.threads, known⟩
    rw [Blueprint.readOn]
    split
    · split
      · refine ended _ ?_
        rintro lexeme ⟨⟩
        refine ⟨Nat.le_trans begins.above begins.below, fun ⟨token, isToken, _⟩ => ?_⟩
        have outside : plan.tokens[plan.ending]? = none :=
          Array.getElem?_eq_none (Nat.le_add_right _ _)
        cases outside.symm.trans isToken
      · exact ended _ fun _ => begins.found_or
    · rename_i char here
      dsimp only
      split
      · exact ended _ fun _ => begins.found_or
      · split
        · exact ended _ fun _ => begins.found_or
        · refine ih (begins.step here freshes ?_ ?_ fun _ => begins.found_or)
          · intro thread member
            obtain ⟨last, isLast, isThread⟩ := List.mem_flatMap.1 (List.mem_eraseDups.1 member)
            obtain ⟨rest, isRest, rfl⟩ := List.mem_map.1 isThread
            exact ⟨last, isLast, rfl, isRest⟩
          · intro skips
            simp only [Bool.and_eq_true] at skips
            exact ⟨skips.1.1, skips.2⟩

/-- The token at a place starts there or behind it. -/
theorem begins_read (wanted : List Nat) (endFits : Bool) (pos : Nat) :
    plan.Begins marks text pos (plan.read text wanted endFits pos) := by
  have all : ∀ thread ∈ wanted.map plan.thread, thread = plan.thread thread.token := by
    rintro thread member
    obtain ⟨number, -, rfl⟩ := List.mem_map.1 member
    rfl
  refine Begins.readOn (fun thread member => all thread (List.mem_of_mem_filter member))
    ⟨Nat.le_refl _, Nat.le_refl _, fun _ => .inl rfl, ?_, fun _ nothing => by cases nothing⟩
  intro thread member token mark _ isToken pattern
  refine .inl ⟨?_, .inl rfl⟩
  rw [all thread member, Blueprint.thread, isToken]
  exact pattern

end Blueprint

namespace Machine

variable {σ : Type} [DecidableEq σ] [BEq τ] {machine : Machine σ ν φ τ} {marks : List Char}

omit [DecidableEq σ] [BEq τ] in
private theorem isToken_leafOf {leaf : Nat → Nat → Prop} {seeker : Seeker σ ν φ τ} {lexeme : Lexeme}
    (starts : leaf lexeme.terminal (seeker.entry.pos + (lexeme.start - seeker.entry.pos))) :
    (seeker.leafOf lexeme).IsToken leaf seeker.entry.pos := by
  refine ⟨rfl, rfl, fun terminal isTerminal => ?_⟩
  cases isTerminal
  exact starts

/-- The next token starts as its terminal does, if no mark comes from the scanner or a keyword. -/
theorem isToken_token (fault : machine.fault = none)
    (scans : ∀ text pos wanted memory found, machine.scan text pos wanted memory = some found →
      ¬machine.plan.IsMark marks found.lexeme.terminal)
    (keywords : ∀ (word : String) number, machine.plan.keywords[word]? = some number →
      ¬machine.plan.IsMark marks number) (seeker : Seeker σ ν φ τ) :
    (machine.token seeker).IsToken (machine.plan.Leaf marks seeker.source.text)
      seeker.entry.pos := by
  unfold token seek
  dsimp only
  split
  · rename_i isFound _
    simp only [scanned?, Option.pure_def, Option.bind_eq_bind, Option.bind_none,
      Option.ite_none_left_eq_some, Option.bind_eq_some_iff, Option.some.injEq] at isFound
    obtain ⟨-, found, isScan, -, rfl⟩ := isFound
    refine ⟨rfl, rfl, fun terminal isTerminal isMark => ?_⟩
    cases isTerminal
    exact absurd isMark (scans _ _ _ _ _ isScan)
  · rename_i nothing
    cases nothing
  · split
    · rename_i lexeme isFound _
      obtain ⟨above, isLeaf⟩ := (@Blueprint.begins_read _ _ _ marks _ _ _ _).found lexeme isFound
      rw [← Nat.add_sub_of_le above] at isLeaf
      unfold recognised
      dsimp only
      split
      · rename_i keyword isKeyword
        split
        · exact isToken_leafOf isLeaf
        · obtain ⟨-, isKeyword⟩ := Option.ite_none_right_eq_some.1 isKeyword
          refine ⟨rfl, rfl, fun terminal isTerminal isMark => ?_⟩
          cases isTerminal
          exact absurd isMark (keywords _ _ isKeyword)
      · exact isToken_leafOf isLeaf
    · rename_i nothing
      cases nothing
    · rw [fault, isFault, fault]
      exact ⟨rfl, rfl, fun _ nothing => by cases nothing⟩

end Machine

end Phrasebook.Grammar
