import Phrasebook.Json.Reader
import Phrasebook.Json.Writer
import Phrasebook.Proofs.Text.CodePoint

/-!
# Objects of strings are read back

An object whose members are texts reads as it was written. Nothing is said here
about texts that the writer does not produce.
-/

namespace Phrasebook

open List Text CodePoint

namespace Mapping

variable {κ α : Type} [BEq κ] [LawfulBEq κ]

/-- A pair under a new key joins a mapping at its end. -/
theorem put_of_not_mem {key : κ} {value : α} {mapping : List (κ × α)}
    (fresh : key ∉ mapping.map Prod.fst) : put key value mapping = mapping ++ [(key, value)] := by
  induction mapping with
  | nil => rfl
  | cons pair mapping ih =>
    obtain ⟨other, old⟩ := pair
    simp only [map_cons, mem_cons, not_or] at fresh
    have differs : ¬ other = key := fun same => fresh.1 same.symm
    simp [put, differs, ih fresh.2]

/-- Pairs with different keys are a mapping already. -/
theorem ofPairs_of_nodup {pairs : List (κ × α)} (distinct : (pairs.map Prod.fst).Nodup) :
    ofPairs pairs = pairs := by
  suffices joined : ∀ mapping : List (κ × α), ((mapping ++ pairs).map Prod.fst).Nodup →
      pairs.foldl (fun mapping pair => put pair.1 pair.2 mapping) mapping = mapping ++ pairs by
    exact joined [] (by simpa using distinct)
  clear distinct
  induction pairs with
  | nil => simp
  | cons pair pairs ih =>
    intro mapping distinct
    obtain ⟨key, value⟩ := pair
    have fresh : key ∉ mapping.map Prod.fst := by
      intro member
      rw [map_append, nodup_append] at distinct
      exact distinct.2.2 _ member _ (by simp) rfl
    simp only [foldl_cons, put_of_not_mem fresh]
    rw [ih]
    · simp
    · simpa using distinct

end Mapping

namespace Json

variable {begin offset : Nat} {tail : Text} {char : Char}

/-! ## Strings -/

/-- A string as the writer spells it. -/
def spelled (text : Text) : Text :=
  '"' :: (text.flatMap escaped ++ ['"'])

/-- The writer spells the code points of a text as that text. -/
theorem string_ofText (text : Text) :
    string (ofText text) = ofText (spelled text) := by
  have body : (ofText text).flatMap escapedPoint = ofText (text.flatMap escaped) := by
    induction text with
    | nil => rfl
    | cons char text ih => simp [escapedPoint, ih]
  simp [string, spelled, body]

/-- The characters of an escape that was met are passed one by one. -/
theorem stringFrom_skip (begin offset : Nat) (skipped tail : Text) :
    stringFrom begin skipped.length offset (skipped ++ tail) =
      (stringFrom begin 0 (offset + skipped.length) tail).map
        fun (text, length) => (text, length + skipped.length) := by
  induction skipped generalizing offset with
  | nil =>
    cases read : stringFrom begin 0 offset tail <;> simp [Except.map, read]
  | cons head skipped ih =>
    rw [cons_append, length_cons, stringFrom, ih, Nat.add_right_comm offset 1, Nat.add_assoc offset]
    cases stringFrom begin 0 (offset + (skipped.length + 1)) tail <;>
      simp [Except.map, bind, Except.bind, pure, Except.pure, Nat.add_assoc]

/-- An escape puts its code point before what the string reads behind it. -/
theorem stringFrom_escape (body : Text) {text : Text} {length : Nat}
    (met : escape begin (offset + 1) (body ++ tail) = .ok (body.length, .scalar char))
    (read : stringFrom begin 0 (offset + 1 + body.length) tail = .ok (ofText text, length)) :
    stringFrom begin 0 offset ('\\' :: body ++ tail) =
      .ok (ofText (char :: text), body.length + 1 + length) := by
  have skipped := stringFrom_skip begin (offset + 1) body tail
  rw [read] at skipped
  simp only [cons_append, stringFrom, met, bind, Except.bind, skipped, Except.map, pure,
    Except.pure]
  simp
  omega

/-- The digits of a control character's number are four, and are read as it. -/
private theorem control_digits :
    ∀ code < 0x20, (hexPadded 4 code).length = 4 ∧ (hexPadded 4 code).all isHex = true ∧
      hexNumberOf (hexPadded 4 code) = code := by
  decide

/-- The escape of a control character by its number is read as that character. -/
theorem escape_control (control : char.toNat < 0x20) (later : tail ≠ []) :
    escape begin offset ('u' :: hexPadded 4 char.toNat ++ tail) = .ok (5, .scalar char) := by
  obtain ⟨four, hex, number⟩ := control_digits _ control
  have enough : ¬ (hexPadded 4 char.toNat ++ tail).length ≤ 4 := by
    have := length_pos_iff.mpr later
    rw [length_append]
    omega
  have digits : Literal.hexDigits? 4 (hexPadded 4 char.toNat ++ tail) =
      some (hexPadded 4 char.toNat) := by
    have taken : (hexPadded 4 char.toNat ++ tail).take 4 = hexPadded 4 char.toNat :=
      take_left' four
    rw [Literal.hexDigits?, taken]
    simp only [four, hex, beq_self_eq_true, Bool.and_self, if_true]
  have low : isHighSurrogate char.toNat = false := by
    simp [isHighSurrogate]
    omega
  have scalar : CodePoint.ofNat char.toNat = .scalar char := by
    have range : ¬ IsSurrogate char.toNat := by
      simp only [IsSurrogate]
      omega
    simp [CodePoint.ofNat, range, Char.ofNat_toNat]
  simp only [cons_append, escape, beq_self_eq_true, if_true, numberedEscape, enough, if_false,
    digits, number, low, Bool.false_eq_true, scalar]

/-- One spelled character is read as that character. -/
theorem stringFrom_escaped {text : Text} {length : Nat} (later : tail ≠ [])
    (read : stringFrom begin 0 (offset + (escaped char).length) tail =
      .ok (CodePoint.ofText text, length)) :
    stringFrom begin 0 offset (escaped char ++ tail) =
      .ok (ofText (char :: text), (escaped char).length + length) := by
  have simple : ∀ letter, letter ≠ 'u' → simpleEscape? letter = some char →
      escaped char = ['\\', letter] →
      stringFrom begin 0 offset (escaped char ++ tail) =
        .ok (ofText (char :: text), (escaped char).length + length) := by
    intro letter other meaning form
    rw [form] at read ⊢
    refine stringFrom_escape [letter] ?_ read
    simp [escape, other, meaning]
  by_cases quote : char = '"'
  · exact simple '"' (by decide) (by rw [quote]; rfl) (by rw [quote]; rfl)
  by_cases backslash : char = '\\'
  · exact simple '\\' (by decide) (by rw [backslash]; rfl) (by rw [backslash]; rfl)
  by_cases feed : char = '\n'
  · exact simple 'n' (by decide) (by rw [feed]; rfl) (by rw [feed]; rfl)
  by_cases carriage : char = '\r'
  · exact simple 'r' (by decide) (by rw [carriage]; rfl) (by rw [carriage]; rfl)
  by_cases tab : char = '\t'
  · exact simple 't' (by decide) (by rw [tab]; rfl) (by rw [tab]; rfl)
  by_cases backspace : char.toNat = 8
  · have code : char = Char.ofNat 8 := by rw [← backspace, Char.ofNat_toNat]
    exact simple 'b' (by decide) (by rw [code]; rfl) (by rw [code]; rfl)
  by_cases form : char.toNat = 12
  · have code : char = Char.ofNat 12 := by rw [← form, Char.ofNat_toNat]
    exact simple 'f' (by decide) (by rw [code]; rfl) (by rw [code]; rfl)
  by_cases control : char.toNat < 0x20
  · have spelling : escaped char = '\\' :: 'u' :: hexPadded 4 char.toNat := by
      simp [escaped, quote, backslash, feed, carriage, tab, backspace, form, control]
    have four := (control_digits _ control).1
    rw [spelling] at read ⊢
    refine stringFrom_escape ('u' :: hexPadded 4 char.toNat) ?_ ?_
    · rw [escape_control control later, length_cons, four]
    · rw [← read, length_cons (a := '\\'), Nat.add_assoc, Nat.add_comm 1]
  · have spelling : escaped char = [char] := by
      simp [escaped, quote, backslash, feed, carriage, tab, backspace, form, control]
    rw [spelling] at read ⊢
    have printable : ¬ char.toNat < 32 := control
    simp only [length_singleton] at read
    simp [stringFrom, quote, backslash, printable, read, bind, Except.bind, pure, Except.pure,
      Nat.add_comm]

/-- The body of a spelled string is read as its text. -/
theorem stringFrom_spelled (begin offset : Nat) (text rest : Text) :
    stringFrom begin 0 offset (text.flatMap escaped ++ '"' :: rest) =
      .ok (ofText text, (text.flatMap escaped).length + 1) := by
  induction text generalizing offset with
  | nil => rfl
  | cons char text ih =>
    rw [flatMap_cons, append_assoc,
      stringFrom_escaped (by simp) (ih _), length_append, Nat.add_assoc]

/-! ## What readers take -/

/-- A reader takes what stands before a rest, and yields a value. -/
def Reads {α : Type} (reader : Reader α) (taken rest : Text) (value : α) : Prop :=
  ∀ offset, reader.run ⟨taken ++ rest, offset⟩ = .ok (value, ⟨rest, offset + taken.length⟩)

namespace Reads

variable {α β : Type} {rest : Text} {reader : Reader α} {value : α} {result : β} {taken : Text}

/-- Two readers one after the other take what each of them takes. -/
theorem bind {next : α → Reader β} (first : Text) {second : Text}
    (reads : Reads reader first (second ++ rest) value)
    (later : Reads (next value) second rest result) :
    Reads (reader >>= next) (first ++ second) rest result := by
  intro offset
  have end_ := later (offset + first.length)
  rw [Nat.add_assoc, ← length_append] at end_
  rw [StateT.run_bind, append_assoc, reads offset]
  exact end_

/-- A reader that takes nothing stands before one that does. -/
theorem peek {next : α → Reader β} (reads : Reads reader [] (taken ++ rest) value)
    (later : Reads (next value) taken rest result) : Reads (reader >>= next) taken rest result :=
  bind [] reads later

private theorem pure (value : α) : Reads (Pure.pure value) [] rest value := by
  intro offset
  rfl

/-- A reader may look at the cursor first. -/
theorem get {next : Cursor → Reader β}
    (later : ∀ offset, Reads (next ⟨taken ++ rest, offset⟩) taken rest result) :
    Reads (MonadState.get >>= next) taken rest result :=
  fun offset => later offset offset

/-- The next character is looked at and not taken. -/
theorem next : Reads Reader.next [] rest rest.head? := by
  intro offset
  rfl

/-- Characters that are passed are taken. -/
theorem pass (taken : Text) : Reads (Reader.pass taken.length) taken rest () := by
  intro offset
  have dropped : (Cursor.mk (taken ++ rest) offset).advance taken.length =
      ⟨rest, offset + taken.length⟩ := by
    simp [Cursor.advance]
  exact congrArg (fun cursor => Except.ok ((), cursor)) dropped

/-- Blanks before anything else are taken. -/
theorem blanks (blank : taken.all isBlank = true)
    (other : ∀ char ∈ rest.head?, isBlank char = false) : Reads Reader.blanks taken rest () := by
  intro offset
  have none : rest.takeWhile isBlank = [] := by
    cases rest with
    | nil => rfl
    | cons head rest => simp [other head (by simp)]
  have all : (taken ++ rest).takeWhile isBlank = taken := by
    rw [takeWhile_append_of_pos (by simpa using blank), none, append_nil]
  have dropped : (Cursor.mk (taken ++ rest) offset).advance
      ((taken ++ rest).takeWhile isBlank).length = ⟨rest, offset + taken.length⟩ := by
    simp [Cursor.advance, all]
  exact congrArg (fun cursor => Except.ok ((), cursor)) dropped

/-- An expected character is taken with the blanks behind it. -/
theorem expect {char : Char} {problem : Problem} (taken : Text)
    (blank : taken.all isBlank = true) (other : ∀ char ∈ rest.head?, isBlank char = false) :
    Reads (Reader.expect char problem) (char :: taken) rest () := by
  refine peek next ?_
  simp only [cons_append, head?_cons, beq_self_eq_true, if_true]
  exact bind [char] (pass [char]) (blanks blank other)

/-- A spelled string is taken whole. -/
theorem string (text : Text) : Reads Reader.string (spelled text) rest (ofText text) := by
  intro offset
  have read := stringFrom_spelled offset (offset + 1) text rest
  have passes : Reads (Reader.pass (spelled text).length) (spelled text) rest () := pass _
  have passed := passes offset
  have size : (spelled text).length = (text.flatMap escaped).length + 1 + 1 := by simp [spelled]
  have body : (spelled text ++ rest).drop 1 = text.flatMap escaped ++ '"' :: rest := by
    simp [spelled]
  rw [size] at passed ⊢
  simp only [Reader.string, StateT.run_bind, StateT.run_get, StateT.run_monadLift, pure_bind,
    monadLift_self, body, read]
  change ((Reader.pass ((text.flatMap escaped).length + 1 + 1)).run ⟨spelled text ++ rest, offset⟩
    >>= fun result => (Pure.pure (ofText text) : Reader CodePoints).run result.2) = _
  rw [passed]
  rfl

end Reads

/-! ## Objects -/

/-- A member as the writer spells it, without the blanks before it. -/
def spelledMember (entry : Text × Text) : Text :=
  spelled entry.1 ++ ([':', ' '] ++ spelled entry.2)

/-- Members as the writer spells them, from the first name to the closing brace. -/
def spelledMembers (entry : Text × Text) : List (Text × Text) → Text
  | [] => spelledMember entry ++ ['\n', '}']
  | next :: entries =>
    spelledMember entry ++ ([',', '\n', ' ', ' '] ++ spelledMembers next entries)

/-- An object as the writer spells it. -/
def spelledObject : List (Text × Text) → Text
  | [] => ['{', '}']
  | entry :: entries => ['{', '\n', ' ', ' '] ++ spelledMembers entry entries

/-- The code points of an entry's key and text. -/
def pointsOf (entry : Text × Text) : CodePoints × CodePoints :=
  (ofText entry.1, ofText entry.2)

/-- The writer spells one member as that member. -/
theorem member_pointsOf (entry : Text × Text) :
    member (pointsOf entry) = ofText ([' ', ' '] ++ spelledMember entry) := by
  simp [member, pointsOf, string_ofText, spelledMember]

/-- The writer spells an object of texts as that object. -/
theorem object_pointsOf (entries : List (Text × Text)) :
    object (entries.map pointsOf) = ofText (spelledObject entries) := by
  cases entries with
  | nil => rfl
  | cons entry entries =>
    have joined : (ofText [',', '\n']).intercalate
        (((entry :: entries).map pointsOf).map member) ++ ofText ['\n', '}'] =
        ofText ([' ', ' '] ++ spelledMembers entry entries) := by
      induction entries generalizing entry with
      | nil => simp [intercalate, member_pointsOf, spelledMembers]
      | cons next entries ih =>
        rw [map_cons, map_cons, map_cons, map_cons, intercalate_cons_cons,
          ← map_cons, ← map_cons, append_assoc, append_assoc,
          ih next, member_pointsOf]
        simp [spelledMembers]
    simp only [object, map_cons, isEmpty_cons, Bool.false_eq_true, if_false,
      append_assoc] at joined ⊢
    rw [joined]
    simp [spelledObject]

/-- The members that a reader finds for entries. -/
def membersOf (entries : List (Text × Text)) : List (CodePoints × Value) :=
  entries.map fun entry => (ofText entry.1, .string (ofText entry.2))

namespace Reads

/-- A spelled string is a value. -/
theorem value_string (fuel : Nat) (text rest : Text) :
    Reads (Reader.value (fuel + 1)) (spelled text) rest (.string (ofText text)) := by
  rw [Reader.value]
  refine peek next ?_
  rw [← append_nil (spelled text)]
  exact bind _ (string text) (pure _)

/-- A spelled member is taken with the blanks behind it; what follows decides about
the rest. -/
theorem members_of_ending (entry : Text × Text) {fuel : Nat} (gap ending : Text) {rest : Text}
    {result : List (CodePoints × Value)} (blank : gap.all isBlank = true)
    (other : ∀ char ∈ (ending ++ rest).head?, isBlank char = false)
    (later : Reads (do
        let pair := (ofText entry.1, Value.string (ofText entry.2))
        if (← Reader.next) == some '}' then
          Reader.pass 1
          return [pair]
        Reader.expect ',' .comma
        return pair :: (← Reader.members (fuel + 1))) ending rest result) :
    Reads (Reader.members (fuel + 2)) (spelledMember entry ++ (gap ++ ending)) rest result := by
  rw [Reader.members]
  refine peek next ?_
  have quote : (spelledMember entry ++ (gap ++ ending) ++ rest).head? = some '"' := rfl
  simp only [quote, bne_self_eq_false, Bool.false_eq_true, if_false]
  rw [spelledMember, append_assoc, append_assoc]
  refine bind _ (string entry.1) (bind [] (blanks rfl ?_) ?_)
  · simp [isBlank]
  refine bind _ (expect [' '] rfl ?_) ?_
  · simp [spelled, isBlank]
  exact bind _ (value_string fuel entry.2 _) (bind _ (blanks blank other) later)

/-- Spelled members are taken with their closing brace. -/
theorem members (entry : Text × Text) (entries : List (Text × Text)) (fuel : Nat)
    (enough : entries.length + 1 < fuel) (rest : Text) :
    Reads (Reader.members fuel) (spelledMembers entry entries) rest
      (membersOf (entry :: entries)) := by
  induction entries generalizing entry fuel with
  | nil =>
    obtain ⟨fuel, rfl⟩ : ∃ more, fuel = more + 2 := ⟨fuel - 2, by simp at enough; omega⟩
    refine members_of_ending entry ['\n'] ['}'] rfl (by simp [isBlank]) ?_
    refine peek next ?_
    exact bind _ (pass ['}']) (pure _)
  | cons following entries ih =>
    obtain ⟨fuel, rfl⟩ : ∃ more, fuel = more + 2 := ⟨fuel - 2, by simp at enough; omega⟩
    refine members_of_ending entry [] _ rfl (by simp [isBlank]) ?_
    refine peek next ?_
    have more := ih following (fuel + 1) (by simp at enough ⊢; omega)
    refine bind _ (expect ['\n', ' ', ' '] rfl ?_) ?_
    · cases entries <;> simp [spelledMembers, spelledMember, spelled, isBlank]
    · rw [← append_nil (spelledMembers following entries)]
      exact bind _ more (pure _)

/-- A spelled object is a value. -/
theorem value_object (entries : List (Text × Text)) {fuel : Nat}
    (enough : entries.length + 1 < fuel) (distinct : (entries.map Prod.fst).Nodup) (rest : Text) :
    Reads (Reader.value fuel) (spelledObject entries) rest (.object (membersOf entries)) := by
  obtain ⟨fuel, rfl⟩ : ∃ more, fuel = more + 1 := ⟨fuel - 1, by omega⟩
  rw [Reader.value]
  cases entries with
  | nil =>
    refine peek next ?_
    refine bind ['{'] (pass ['{']) (bind [] (blanks rfl ?_) (peek next ?_))
    · simp [isBlank]
    · exact bind _ (pass ['}']) (pure _)
  | cons entry entries =>
    have keys : ((membersOf (entry :: entries)).map Prod.fst).Nodup := by
      have same : (membersOf (entry :: entries)).map Prod.fst =
          ((entry :: entries).map Prod.fst).map ofText := by
        simp [membersOf]
      rw [same]
      exact List.Pairwise.map _ (fun _ _ differs => differs ∘ ofText_injective) distinct
    have head : (spelledMembers entry entries ++ rest).head? = some '"' := by
      cases entries <;> rfl
    refine peek next ?_
    refine bind ['{'] (pass ['{']) (bind ['\n', ' ', ' '] (blanks rfl ?_) (peek next ?_))
    · simp [head, isBlank]
    · rw [head, ← append_nil (spelledMembers entry entries)]
      have read := members entry entries fuel (by simp at enough; omega) rest
      refine bind _ read ?_
      rw [Mapping.ofPairs_of_nodup keys]
      exact pure _

end Reads

/-- An object is at least as long as it has members. -/
theorem length_lt_spelledObject (entries : List (Text × Text)) :
    entries.length < (spelledObject entries).length := by
  cases entries with
  | nil => simp [spelledObject]
  | cons entry entries =>
    have more : entries.length < (spelledMembers entry entries).length := by
      induction entries generalizing entry with
      | nil => simp [spelledMembers, spelledMember, spelled]
      | cons next entries ih =>
        have later := ih next
        simp [spelledMembers]
        omega
    simp [spelledObject]
    omega

/-- An object of texts under different names, with a line feed behind it, is read as
its members. -/
theorem parse_spelledObject {entries : List (Text × Text)} (distinct : (entries.map Prod.fst).Nodup) :
    parse (spelledObject entries ++ ['\n']) = .ok (.object (membersOf entries)) := by
  have head : (spelledObject entries ++ ['\n']).head? = some '{' := by
    cases entries <;> rfl
  have enough := length_lt_spelledObject entries
  have reads : Reads Reader.document (spelledObject entries ++ ['\n']) []
      (.object (membersOf entries)) := by
    refine Reads.peek Reads.next ?_
    simp only [append_nil, head]
    refine Reads.bind [] (Reads.blanks rfl (by simp [head, isBlank])) ?_
    refine Reads.get fun offset => ?_
    refine Reads.bind _ (Reads.value_object entries (by simp; omega) distinct _) ?_
    rw [← append_nil ['\n']]
    refine Reads.bind ['\n'] (Reads.blanks rfl (by simp)) ?_
    exact Reads.get fun offset => Reads.pure _
  have run := reads 0
  rw [append_nil] at run
  rw [parse, Cursor.start, run]
  rfl

end Json

end Phrasebook
