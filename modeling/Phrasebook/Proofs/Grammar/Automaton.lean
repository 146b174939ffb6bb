import Mathlib.Data.List.Induction
import Phrasebook.Proofs.Grammar.Openings

/-!
# States follow the rows of a grammar

Every item of an automaton is one of a row. An item that a state holds behind a symbol comes from
one before that symbol, which the state before holds too, or which stands in front of its row. So
going back from a complete item over as many symbols as it has steps gives the symbols of a row.
-/

namespace Phrasebook.Grammar

open List Option

variable {ν φ : Type}

theorem mem_of_getElem?_ofList {α β : Type} [BEq α] [LawfulBEq α] [Hashable α]
    {entries : List (α × β)} {key : α} {value : β}
    (found : (Std.HashMap.ofList entries)[key]? = some value) : (key, value) ∈ entries := by
  induction entries using reverseRecOn with
  | nil => simp at found
  | append_singleton entries entry ih =>
    rw [Std.HashMap.ofList_eq_insertMany_empty] at ih found
    rw [Std.HashMap.insertMany_append, Std.HashMap.insertMany_list_singleton,
      Std.HashMap.getElem?_insert] at found
    split at found
    · rename_i same
      obtain rfl := eq_of_beq same
      obtain rfl := some.inj found
      simp
    · exact mem_append_left _ (ih found)

/-! ## Items -/

namespace Item

variable {plan : Blueprint ν φ} {item : Item ν φ}

/-- The symbols ahead of an item. -/
def symbols (item : Item ν φ) : List Symbol :=
  item.rest.map (·.symbol)

/-- Whether an item is one of a row of its head. -/
def IsOf (plan : Blueprint ν φ) (item : Item ν φ) : Prop :=
  ∃ row ∈ plan.rowsOf item.head, ∃ dot, item = ofRow item.head row dot

private theorem isOf_ofRow {head : Nat} {row : Production ν φ} (isRow : row ∈ plan.rowsOf head)
    (dot : Nat) : (ofRow head row dot).IsOf plan :=
  ⟨row, isRow, dot, rfl⟩

/-- An item has the labels of a row, and its symbols are left of it. -/
theorem IsOf.labels (isOf : item.IsOf plan) :
    ∃ row ∈ plan.rowsOf item.head, row.labels = item.labels ∧
      row.symbols.drop item.dot = item.symbols := by
  obtain ⟨row, isRow, dot, same⟩ := isOf
  refine ⟨row, isRow, by rw [same]; rfl, ?_⟩
  rw [same, symbols, Production.symbols, ← map_drop]
  rfl

/-- What the item behind a step has of the one before it. -/
theorem of_behind? {next : Item ν φ} (behind : item.behind? = some next) :
    ∃ symbol, item.next = some symbol ∧ item.symbols = symbol :: next.symbols ∧
      item.head = next.head ∧ item.labels = next.labels ∧ item.dot + 1 = next.dot := by
  rw [behind?] at behind
  split at behind
  · cases behind
  · rename_i step rest isRest
    obtain rfl := some.inj behind
    exact ⟨step.symbol, by rw [Item.next, isRest]; rfl, by rw [symbols, isRest]; rfl, rfl, rfl, rfl⟩

end Item

namespace Automaton

variable {automaton : Automaton ν φ} {state target : State} {symbol : Symbol} {item : Item ν φ}
  {entry : Nat × TerminalSet} {terminal : Nat}

/-- What holds of an automaton that follows its blueprint. -/
structure Sound (automaton : Automaton ν φ) : Prop where
  items : ∀ (number : Nat) item, automaton.items[number]? = some item → item.IsOf automaton.plan
  successors : ∀ number next : Nat, automaton.successors[number]? = some (some next) →
    ∀ item, automaton.items[number]? = some item → item.behind? = automaton.items[next]?
  openings : ∀ (index : Nat) symbol, ∀ group : List Opening,
    (automaton.openings[index]?).bind (·.get[symbol]?) = some group →
      ∀ opening ∈ group, ∃ item : Item ν φ, item.IsOf automaton.plan ∧ item.dot = 0 ∧
        item.next = some symbol ∧ item.behind? = automaton.items[opening.item]?
  start : ∀ number, automaton.start = some number → ∀ item, automaton.items[number]? = some item →
    item.dot = 0
  empty : automaton.canBeEmpty = true → ∃ row ∈ automaton.plan.rowsOf 0, row.steps = []

/-- Whether a state has an item. -/
def Holds (automaton : Automaton ν φ) (state : State) (item : Item ν φ) : Prop :=
  ∃ entry ∈ state.kernel, automaton.items[entry.1]? = some item

/-- Whether a state has an item, or the item stands in front of its row. -/
def Allows (automaton : Automaton ν φ) (state : State) (item : Item ν φ) : Prop :=
  item.IsOf automaton.plan ∧ (automaton.Holds state item ∨ item.dot = 0)

/-- Whether all items of a state that are behind a step are so behind a symbol in another one. -/
def Leads (automaton : Automaton ν φ) (state : State) (symbol : Symbol) (target : State) : Prop :=
  ∀ item, automaton.Holds target item → item.dot = 0 ∨
    ∃ last, automaton.Allows state last ∧ last.next = some symbol ∧ last.behind? = some item

private theorem Sound.allows (sound : automaton.Sound) (holds : automaton.Holds state item) :
    automaton.Allows state item :=
  ⟨holds.elim fun entry here => sound.items entry.1 item here.2, .inl holds⟩

/-- Going back over a symbol. -/
theorem Leads.back (leads : automaton.Leads state symbol target)
    (allows : automaton.Allows target item)
    (behind : item.dot ≠ 0) : ∃ last, automaton.Allows state last ∧ last.head = item.head ∧
      last.labels = item.labels ∧ last.dot + 1 = item.dot ∧ last.symbols = symbol :: item.symbols := by
  rcases leads item (allows.2.resolve_right behind) with fresh | ⟨last, before, next, isBehind⟩
  · exact absurd fresh behind
  · obtain ⟨other, isOther, symbols, head, labels, dot⟩ := Item.of_behind? isBehind
    obtain rfl := some.inj (next.symm.trans isOther)
    exact ⟨last, before, head, labels, dot, symbols⟩

/-! ## The state behind a symbol -/

private theorem exists_of_mem_joinEqual {entries : List (Nat × TerminalSet)}
    (member : entry ∈ joinEqual entries) : ∃ other ∈ entries, other.1 = entry.1 := by
  fun_induction joinEqual entries with
  | case1 one ahead other more rest same ih =>
    obtain ⟨found, isFound, number⟩ := ih member
    rcases mem_cons.1 isFound with rfl | later
    · exact ⟨_, mem_cons_self, number⟩
    · exact ⟨found, by simp [later], number⟩
  | case2 one ahead other more rest apart ih =>
    rcases mem_cons.1 member with rfl | later
    · exact ⟨_, mem_cons_self, rfl⟩
    · obtain ⟨found, isFound, number⟩ := ih later
      exact ⟨found, mem_cons_of_mem _ isFound, number⟩
  | case3 entries => exact ⟨entry, member, rfl⟩

private theorem Sound.of_mem_advance (sound : automaton.Sound) {next : Nat × TerminalSet}
    (isEntry : entry ∈ state.kernel) (member : next ∈ automaton.advance symbol entry)
    (isItem : automaton.items[next.1]? = some item) :
    ∃ last, automaton.Allows state last ∧ last.next = some symbol ∧ last.behind? = some item := by
  obtain ⟨number, ahead⟩ := entry
  rw [advance] at member
  dsimp only at member
  split at member
  · cases member
  · rename_i last isLast
    have allows : automaton.Allows state last := sound.allows ⟨_, isEntry, isLast⟩
    have own : next ∈ (if last.next = some symbol then
        (automaton.successors[number]?).join.toList.map (·, ahead) else []) →
        ∃ last, automaton.Allows state last ∧ last.next = some symbol ∧ last.behind? = some item := by
      intro own
      split at own
      · rename_i isNext
        obtain ⟨target, isTarget, rfl⟩ := mem_map.1 own
        have successor := join_eq_some_iff.1 (mem_toList.1 isTarget)
        exact ⟨last, allows, isNext, (sound.successors _ _ successor last isLast).trans isItem⟩
      · cases own
    split at member
    · rename_i index isNext
      rcases mem_append.1 member with isOwn | isOpening
      · exact own isOwn
      · obtain ⟨opening, isFound, rfl⟩ := mem_map.1 isOpening
        cases found : (automaton.openings[index]?).bind (·.get[symbol]?) with
        | none =>
          rw [found] at isFound
          cases isFound
        | some group =>
          rw [found] at isFound
          obtain ⟨first, isOf, dot, next, behind⟩ := sound.openings _ _ _ found opening isFound
          exact ⟨first, ⟨isOf, .inr dot⟩, next, behind.trans isItem⟩
    · exact own member

/-- The state behind a symbol is led to by it. -/
theorem Sound.leads_next (sound : automaton.Sound) (state : State) (symbol : Symbol) :
    automaton.Leads state symbol (automaton.next state symbol) := by
  rintro item ⟨entry, isEntry, isItem⟩
  obtain ⟨other, isOther, number⟩ := exists_of_mem_joinEqual isEntry
  rw [mem_mergeSort] at isOther
  obtain ⟨before, isBefore, isAdvanced⟩ := mem_flatMap.1 isOther
  exact .inr (sound.of_mem_advance isBefore isAdvanced (number ▸ isItem))

/-- Any symbol may lead to the state in front of a text. -/
theorem Sound.leads_initial (sound : automaton.Sound) (state : State) (symbol : Symbol) :
    automaton.Leads state symbol automaton.initial := by
  rintro item ⟨entry, isEntry, isItem⟩
  obtain ⟨number, isStart, rfl⟩ := mem_map.1 isEntry
  exact .inl (sound.start number (mem_toList.1 isStart) item isItem)

/-! ## Actions -/

private theorem mem_of_mem_ended [DecidableEq ν] {items : List (Item ν φ)} {ended : Ended ν φ}
    (member : item ∈ (items.foldl (Ended.add automaton) ended).items) :
    item ∈ ended.items ∨ item ∈ items := by
  induction items generalizing ended with
  | nil => exact .inl member
  | cons first items ih =>
    have fromAdd : item ∈ (ended.add automaton first).items → item ∈ ended.items ∨ item = first := by
      rw [Ended.add]
      grind
    grind

/-- What a state can do with a terminal. -/
inductive Does (automaton : Automaton ν φ) (state : State) (terminal : Nat) :
    Action State ν φ → Prop where
  | shift (repeats : Bool) :
      Does automaton state terminal (.shift (automaton.next state (.terminal terminal)) repeats)
  | extra : Does automaton state terminal .extra
  | empty (canBeEmpty : automaton.canBeEmpty = true) :
      Does automaton state terminal (.reduce ⟨0, 0, 0, []⟩)
  | accept {item : Item ν φ} (holds : automaton.Holds state item) (complete : item.rest = [])
      (isLast : item.head + 1 = automaton.plan.nonterminals.size) :
      Does automaton state terminal .accept
  | reduce {item : Item ν φ} (holds : automaton.Holds state item) (complete : item.rest = []) :
      Does automaton state terminal (.reduce ⟨item.head, item.length, item.weight, item.labels⟩)

section Actions

variable [DecidableEq ν]

/-- What a state is said to do, it does. -/
theorem does_of_mem_actions {action : Action State ν φ}
    (member : action ∈ automaton.actions state terminal) : automaton.Does state terminal action := by
  rw [actions] at member
  dsimp only at member
  generalize isRelevant : state.kernel.filterMap _ = relevant at member
  have ends (isEnd : action ∈ ((relevant.filter (·.next.isNone)).foldl
      (Ended.add automaton) {}).items.map automaton.endAction) :
      automaton.Does state terminal action := by
    obtain ⟨item, isItem, rfl⟩ := mem_map.1 isEnd
    obtain ⟨isItem, complete⟩ :=
      mem_filter.1 ((mem_of_mem_ended isItem).resolve_left not_mem_nil)
    rw [← isRelevant] at isItem
    obtain ⟨entry, isEntry, found⟩ := mem_filterMap.1 isItem
    have holds : automaton.Holds state item :=
      ⟨entry, isEntry, (filter_eq_some_iff.1 found).1⟩
    have complete : item.rest = [] := by simpa [Item.next] using complete
    rw [endAction]
    split
    · rename_i isLast
      exact .accept holds complete (eq_of_beq isLast)
    · exact .reduce holds complete
  have empty (allows : automaton.allowsEmpty state = true) : automaton.canBeEmpty = true :=
    (Bool.and_eq_true_iff.1 allows).1
  grind [Does]

/-- A row that ends has been gone over. -/
theorem Sound.of_reduce (sound : automaton.Sound) {reduction : Reduction ν φ}
    (member : .reduce reduction ∈ automaton.actions state terminal) :
    ∃ item, automaton.Allows state item ∧ item.symbols = [] ∧ item.head = reduction.head ∧
      item.labels = reduction.labels ∧ item.dot = reduction.count := by
  cases does_of_mem_actions member with
  | empty canBeEmpty =>
    obtain ⟨row, isRow, steps⟩ := sound.empty canBeEmpty
    exact ⟨.ofRow 0 row 0, ⟨Item.isOf_ofRow isRow 0, .inr rfl⟩,
      by simp [Item.symbols, Item.ofRow, steps],
      rfl, by simp [Item.ofRow, Production.labels, steps], rfl⟩
  | @reduce item holds complete =>
    exact ⟨item, sound.allows holds, by rw [Item.symbols, complete]; rfl, rfl, rfl,
      by simp [Item.length, complete]⟩

/-- A text that ends has been gone over: its last symbol is that of a whole text. -/
theorem Sound.of_accept (sound : automaton.Sound)
    (whole : ∀ row ∈ automaton.plan.rowsOf (automaton.plan.nonterminals.size - 1),
      row.symbols = [.nonterminal 0]) (member : .accept ∈ automaton.actions target terminal)
    (leads : automaton.Leads state symbol target) : symbol = .nonterminal 0 := by
  cases does_of_mem_actions member with
  | @accept item holds complete isLast =>
    have drop {other : Item ν φ} (isOf : other.IsOf automaton.plan)
        (same : other.head = item.head) : [.nonterminal 0].drop other.dot = other.symbols := by
      obtain ⟨row, isRow, -, symbols⟩ := isOf.labels
      rw [same, show item.head = automaton.plan.nonterminals.size - 1 by omega] at isRow
      rwa [whole row isRow] at symbols
    have isEnd := drop (sound.allows holds).1 rfl
    rw [Item.symbols, complete] at isEnd
    have behind : item.dot ≠ 0 := by
      intro front
      rw [front] at isEnd
      cases isEnd
    obtain ⟨last, before, sameHead, -, -, symbols⟩ := leads.back (sound.allows holds) behind
    rw [← drop before.1 sameHead] at symbols
    have member : symbol ∈ [Symbol.nonterminal 0].drop last.dot := by simp [symbols]
    exact mem_singleton.1 (mem_of_mem_drop member)

end Actions

/-! ## The automaton of a blueprint -/

section Building

variable [DecidableEq ν] [Hashable ν] [DecidableEq φ] [Hashable φ] {plan : Blueprint ν φ}
  {own : List (Production ν φ)} {index number : Nat}

omit [DecidableEq ν] [Hashable ν] [DecidableEq φ] [Hashable φ] in
private theorem rowsOf_eq
    (here : (plan.nonterminals.toList.map (·.productions))[index]? = some own) :
    plan.rowsOf index = own := by
  rw [getElem?_map, Array.getElem?_toList] at here
  rw [Blueprint.rowsOf, here]
  rfl

private theorem isOf_of_mem_itemsOf
    (member : item ∈ itemsOf (plan.nonterminals.toList.map (·.productions))) :
    item.IsOf plan := by
  obtain ⟨⟨item, number⟩, isEntry, rfl⟩ := mem_map.1 member
  rw [mem_mergeSort, Std.HashMap.mem_toList_iff_getElem?_eq_some] at isEntry
  have found := mem_zipIdx_iff_getElem?.1 (mem_reverse.1 (mem_of_getElem?_ofList isEntry))
  obtain ⟨⟨own, index⟩, isOwn, isIn⟩ := mem_flatMap.1 (mem_of_getElem? found)
  obtain ⟨row, isRow, isDot⟩ := mem_flatMap.1 isIn
  obtain ⟨dot, -, rfl⟩ := mem_map.1 isDot
  have place := mem_zipIdx_iff_getElem?.1 isOwn
  exact Item.isOf_ofRow (rowsOf_eq place ▸ isRow) dot

private theorem getElem?_of_numbers {items : List (Item ν φ)}
    (found : (Std.HashMap.ofList items.zipIdx)[item]? = some number) :
    items.toArray[number]? = some item :=
  getElem?_toArray.trans (mem_zipIdx_iff_getElem?.1 (mem_of_getElem?_ofList found))

private theorem exists_of_mem_startsOf {numbers : Std.HashMap (Item ν φ) Nat}
    (member : (symbol, number) ∈ startsOf numbers index own) :
    ∃ row ∈ own, ∃ next, (Item.ofRow index row 0).next = some symbol ∧
      (Item.ofRow index row 0).behind? = some next ∧ numbers[next]? = some number := by
  obtain ⟨row, isRow, found⟩ := mem_filterMap.1 member
  simp only [Option.pure_def, bind_eq_bind, bind_eq_some_iff, some.injEq, Prod.mk.injEq] at found
  obtain ⟨_, isNext, next, behind, _, isNumber, rfl, rfl⟩ := found
  exact ⟨row, isRow, next, isNext, behind, isNumber⟩

private theorem exists_of_openingsOf {starts : Array (List (Symbol × Nat))}
    {leads : Array (List Lead)} {group : List Opening}
    (isGroup : (openingsOf starts leads index)[symbol]? = some group) {opening : Opening}
    (member : opening ∈ group) :
    ∃ (target : Nat) (own : List (Symbol × Nat)), starts[target]? = some own ∧
      (symbol, opening.item) ∈ own := by
  rw [openingsOf] at isGroup
  dsimp only at isGroup
  generalize isAll : flatMap _ _ = all at isGroup
  have known : ∀ symbol group, ((all.foldl (fun groups (entry : Symbol × Opening) =>
      groups.insert entry.1 (entry.2 :: groups.getD entry.1 []))
        ({} : Std.HashMap Symbol (List Opening)))[symbol]? = some group) →
      ∀ opening ∈ group, (symbol, opening) ∈ all := by
    refine foldlRecOn (motive := fun groups => ∀ symbol group, groups[symbol]? = some group →
      ∀ opening ∈ group, (symbol, opening) ∈ all) _ _ (by simp) ?_
    intro groups earlier entry isEntry symbol group here opening member
    rw [Std.HashMap.getElem?_insert] at here
    split at here
    · rename_i same
      obtain rfl := eq_of_beq same
      obtain rfl := some.inj here
      rcases mem_cons.1 member with rfl | old
      · exact isEntry
      · rw [Std.HashMap.getD_eq_getD_getElem?] at old
        cases before : groups[entry.1]? with
        | none => simp [before] at old
        | some group => exact earlier _ group before _ (by simpa [before] using old)
    · exact earlier symbol group here opening member
  have isEntry := known symbol group isGroup opening member
  rw [← isAll] at isEntry
  obtain ⟨⟨target, ahead, passes⟩, -, isEntry⟩ := mem_flatMap.1 isEntry
  obtain ⟨⟨_, number⟩, isStart, same⟩ := mem_map.1 isEntry
  cases same
  cases isOwn : starts[target]? with
  | none => simp [isOwn] at isStart
  | some own => exact ⟨target, own, isOwn, by simpa [isOwn] using isStart⟩

/-- The automaton of a blueprint follows it. -/
theorem sound_ofBlueprint (plan : Blueprint ν φ) : (ofBlueprint plan).Sound where
  items number item here :=
    isOf_of_mem_itemsOf (mem_of_getElem? (getElem?_toArray.symm.trans here))
  successors number next here item isItem := by
    rw [ofBlueprint] at here isItem ⊢
    dsimp only at here isItem ⊢
    rw [getElem?_toArray, getElem?_map, getElem?_toArray.symm.trans isItem] at here
    obtain ⟨behind, isBehind, found⟩ := bind_eq_some_iff.1 (some.inj here)
    rw [isBehind, getElem?_of_numbers found]
  openings index symbol group here opening member := by
    rw [ofBlueprint] at here ⊢
    dsimp only at here ⊢
    obtain ⟨thunk, isThunk, isGroup⟩ := bind_eq_some_iff.1 here
    rw [Array.getElem?_map] at isThunk
    obtain ⟨_, -, rfl⟩ := map_eq_some_iff.1 isThunk
    obtain ⟨target, own, isOwn, isStart⟩ := exists_of_openingsOf isGroup member
    rw [getElem?_toArray, getElem?_map] at isOwn
    obtain ⟨⟨rows, place⟩, isRows, rfl⟩ := map_eq_some_iff.1 isOwn
    obtain ⟨row, isRow, next, isNext, behind, found⟩ := exists_of_mem_startsOf isStart
    have here := mem_zipIdx_iff_getElem?.1 (mem_of_getElem? isRows)
    exact ⟨_, Item.isOf_ofRow (rowsOf_eq here ▸ isRow) 0, rfl, isNext,
      behind.trans (getElem?_of_numbers found).symm⟩
  start number here item isItem := by
    rw [ofBlueprint] at here isItem
    dsimp only at here isItem
    obtain ⟨_, -, here⟩ := bind_eq_some_iff.1 here
    obtain ⟨_, -, here⟩ := bind_eq_some_iff.1 here
    rw [getElem?_of_numbers here] at isItem
    obtain rfl := some.inj isItem
    rfl
  empty can := by
    rw [ofBlueprint] at can ⊢
    dsimp only at can ⊢
    obtain ⟨row, isRow, empty⟩ := any_eq_true.1 can
    refine ⟨row, ?_, List.isEmpty_iff.1 empty⟩
    rw [head?_eq_getElem?, getElem?_map, Array.getElem?_toList] at isRow
    exact isRow

end Building

end Automaton

end Phrasebook.Grammar
