import Phrasebook.Grammar.Standing

/-!
# Links of a stack

Every link of a stack joins the place of one entry to that of another. The places of entries never
change: operations only add entries and links, or put a tree in the place of another one that leads
to the same entry. So whatever relation holds of all links goes on to hold, and what holds of a walk
over links holds of all ways back.
-/

namespace Phrasebook.Grammar.Stack

open List Option

variable {σ ν φ τ : Type} {stack : Stack σ ν φ τ}

/-- The state of an entry and where it is. -/
def place? (entries : Array (Entry σ ν φ τ)) (number : Nat) : Option (σ × Nat) :=
  entries[number]?.map fun entry => (entry.state, entry.pos)

theorem place?_of_entry {entries : Array (Entry σ ν φ τ)} {number : Nat} {entry : Entry σ ν φ τ}
    (here : entries[number]? = some entry) :
    place? entries number = some (entry.state, entry.pos) := by
  rw [place?, here]
  rfl

variable (joins : σ × Nat → Tree ν φ τ → σ × Nat → Prop)

/-- Whether the tree of a link leads from the place of its entry to another place. -/
def Carries (entries : Array (Entry σ ν φ τ)) (link : Link ν φ τ) (here : σ × Nat) : Prop :=
  ∃ tree there, link.tree = some tree ∧ place? entries link.entry = some there ∧ joins there tree here

/-- Whether all links lead to their entries. -/
def Joined (entries : Array (Entry σ ν φ τ)) : Prop :=
  ∀ (number : Nat) entry, entries[number]? = some entry → ∀ link ∈ entry.links,
    Carries joins entries link (entry.state, entry.pos)

/-- Whether entries come from others: all links lead to their entries, and all places are kept. -/
structure Grows (before after : Array (Entry σ ν φ τ)) : Prop where
  joined : Joined joins after
  places : ∀ number place, place? before number = some place → place? after number = some place

variable {joins} {before entries after : Array (Entry σ ν φ τ)} {number : Nat} {here : σ × Nat}
  {link : Link ν φ τ}

theorem Joined.grows (joined : Joined joins entries) : Grows joins entries entries :=
  ⟨joined, fun _ _ known => known⟩

theorem Grows.trans (first : Grows joins before entries) (second : Grows joins entries after) :
    Grows joins before after :=
  ⟨second.joined, fun number place known => second.places _ _ (first.places number place known)⟩

private theorem Carries.mono (carries : Carries joins entries link here)
    (places : ∀ number place, place? entries number = some place → place? after number = some place) :
    Carries joins after link here := by
  obtain ⟨tree, there, isTree, isThere, joined⟩ := carries
  exact ⟨tree, there, isTree, places _ _ isThere, joined⟩

/-- An entry may change what is not its place, and take links that lead to it. -/
theorem Joined.modify (joined : Joined joins stack.entries) {change : Entry σ ν φ τ → Entry σ ν φ τ}
    (same : ∀ entry, (change entry).state = entry.state ∧ (change entry).pos = entry.pos)
    (links : ∀ entry, stack.entries[number]? = some entry → ∀ link ∈ (change entry).links,
      link ∈ entry.links ∨ Carries joins stack.entries link (entry.state, entry.pos)) :
    Grows joins stack.entries
      { stack with entries := stack.entries.modify number change }.entries := by
  have places (other : Nat) (place : σ × Nat) (known : place? stack.entries other = some place) :
      place? (stack.entries.modify number change) other = some place := by
    rw [place?] at known ⊢
    rw [Array.getElem?_modify]
    split
    · rw [Option.map_map, ← known]
      congr 1
      funext entry
      simp [same entry]
    · exact known
  refine ⟨fun other entry isEntry link member => Carries.mono ?_ places, places⟩
  rw [Array.getElem?_modify] at isEntry
  split at isEntry
  · rename_i isNumber
    subst isNumber
    obtain ⟨old, was, rfl⟩ := map_eq_some_iff.1 isEntry
    rw [(same old).1, (same old).2]
    exact (links old was link member).elim (joined number old was link) id
  · exact joined other entry isEntry link member

/-- An entry behind a tree that leads to it can be added. -/
theorem Joined.grow (joined : Joined joins stack.entries) (plan : Blueprint ν φ)
    {tree : Tree ν φ τ} {state : σ} (isHere : place? stack.entries number = some here)
    (leads : joins here tree (state, here.2 + tree.size)) :
    Grows joins stack.entries (stack.grow plan number (some tree) state).entries ∧
      place? (stack.grow plan number (some tree) state).entries stack.entries.size =
        some (state, here.2 + tree.size) := by
  obtain ⟨entry, isEntry, rfl⟩ := map_eq_some_iff.1 isHere
  rw [Stack.grow, isEntry]
  dsimp only
  have places (other : Nat) (place : σ × Nat) (known : place? stack.entries other = some place) :
      place? (stack.entries.push (.behind plan entry number (some tree) state)) other =
        some place := by
    obtain ⟨old, isOld, -⟩ := map_eq_some_iff.1 known
    have below := (Array.getElem?_eq_some_iff.1 isOld).1
    rwa [place?, Array.getElem?_push, if_neg (by omega)]
  refine ⟨⟨fun other added isAdded link member => Carries.mono ?_ places, places⟩, ?_⟩
  · rw [Array.getElem?_push] at isAdded
    split at isAdded
    · obtain rfl := some.inj isAdded
      obtain rfl := mem_singleton.1 member
      exact ⟨tree, _, rfl, isHere, leads⟩
    · exact joined other added isAdded link member
  · rw [place?, Array.getElem?_push, if_pos rfl]
    rfl

/-! ## Joining readings -/

section Joining

variable [DecidableEq σ] [BEq τ] {source : Source} {plan : Blueprint ν φ} {fault : Option σ}
  {after : Stack σ ν φ τ}

/-- An entry that is shared stands at the place of the target. -/
theorem place?_of_shared {target : Entry σ ν φ τ} {index shared : Nat} {links : List (Link ν φ τ)}
    (isShared : addition source stack link target index links = .shared shared) :
    place? stack.entries shared = some (target.state, target.pos) := by
  induction links generalizing index with
  | nil => cases isShared
  | cons known rest ih =>
    rw [addition] at isShared
    split at isShared
    · exact ih isShared
    · split at isShared
      · split at isShared <;> cases isShared
      · split at isShared
        · exact ih isShared
        · rename_i entry isEntry
          dsimp only at isShared
          split at isShared
          · rename_i same
            cases isShared
            simp only [Bool.and_eq_true, decide_eq_true_eq, beq_iff_eq] at same
            rw [place?_of_entry isEntry, same.1.1, same.1.2]
          · exact ih isShared

/-- Adding a way that leads to an entry keeps all links. -/
theorem Joined.addLink {fuel : Nat} (joined : Joined joins stack.entries)
    (isHere : place? stack.entries number = some here)
    (carries : Carries joins stack.entries link here) :
    Grows joins stack.entries (addLink plan source fuel number link stack).entries := by
  induction fuel generalizing number link stack here with
  | zero => exact joined.grows
  | succ fuel ih =>
    rw [Stack.addLink]
    split
    · exact joined.grows
    · split
      · rename_i entry target isEntry isTarget
        obtain rfl := some.inj ((place?_of_entry isEntry).symm.trans isHere)
        have own (other : Entry σ ν φ τ) (isOther : stack.entries[number]? = some other) :
            other = entry := some.inj (isOther.symm.trans isEntry)
        dsimp only
        split
        · exact joined.grows
        · refine joined.modify (fun _ => ⟨rfl, rfl⟩) fun other isOther further member => ?_
          obtain rfl := own other isOther
          rcases mem_or_eq_of_mem_set member with known | rfl
          · exact .inl known
          · exact .inr carries
        · rename_i shared isShared
          have all : Grows joins stack.entries (target.links.foldl (fun stack further =>
              Stack.addLink plan source fuel shared further stack) stack).entries := by
            refine foldlRecOn (motive := fun (after : Stack σ ν φ τ) =>
              Grows joins stack.entries after.entries) _ _ joined.grows
              fun after grows further member => ?_
            exact grows.trans (ih grows.joined (grows.places _ _ (place?_of_shared isShared))
              ((joined link.entry target isTarget further member).mono grows.places))
          exact all.trans (all.joined.modify (fun _ => ⟨rfl, rfl⟩) fun _ _ _ => .inl)
        · split
          · exact joined.grows
          · refine joined.modify (fun _ => ⟨rfl, rfl⟩) fun other isOther further member => ?_
            obtain rfl := own other isOther
            rcases mem_append.1 member with known | added
            · exact .inl known
            · obtain rfl := mem_singleton.1 added
              exact .inr carries
      · exact joined.grows

/-- Two readings that go on as one lead where both did. -/
theorem Joined.merge? {one other : Nat} (joined : Joined joins stack.entries)
    (merged : stack.merge? plan source fault one other = some after) :
    Grows joins stack.entries after.entries := by
  rw [Stack.merge?] at merged
  split at merged
  · cases merged
  · rename_i can
    split at merged
    · rename_i head entry second further isOne isOther
      simp only [canMerge, isOne, isOther, Bool.not_eq_true, Bool.not_eq_false', Bool.and_eq_true,
        decide_eq_true_eq, beq_iff_eq] at can
      obtain ⟨⟨⟨⟨-, state⟩, pos⟩, -⟩, -⟩ := can
      have entryOf {version : Nat} {head : Head σ ν φ τ} {entry : Entry σ ν φ τ}
          (isTop : stack.top? version = some (head, entry)) :
          stack.entries[head.entry]? = some entry := by
        simp only [top?, Option.pure_def, bind_eq_bind, bind_eq_some_iff] at isTop
        grind
      have all : Grows joins stack.entries (further.links.foldl (fun stack link =>
          Stack.addLink plan source stack.entries.size head.entry link stack) stack).entries := by
        refine foldlRecOn (motive := fun (after : Stack σ ν φ τ) =>
          Grows joins stack.entries after.entries) _ _ joined.grows fun after grows link member => ?_
        have carries := (joined _ further (entryOf isOther) link member).mono grows.places
        rw [← state, ← pos] at carries
        exact grows.trans (grows.joined.addLink
          (grows.places _ _ (place?_of_entry (entryOf isOne))) carries)
      obtain rfl := some.inj merged
      split
      · exact all
      · exact all
    · cases merged

/-- Merging a head with another one only joins. -/
theorem Joined.mergeFirst? {others : List Nat} {version : Nat} (joined : Joined joins stack.entries)
    (merged : stack.mergeFirst? plan source fault others version = some after) :
    Grows joins stack.entries after.entries := by
  obtain ⟨other, -, merged⟩ := bind_eq_some_iff.1 merged
  exact joined.merge? merged

end Joining

theorem entries_replace (stack : Stack σ ν φ τ) (version target : Nat) :
    (stack.replace version target).entries = stack.entries := by
  rw [replace]
  split <;> rfl

theorem entries_settle (stack : Stack σ ν φ τ) (version : Nat) :
    (stack.settle version).entries = stack.entries := by
  rw [settle]
  split <;> rfl

/-! ## Walking -/

/-- Whether something holds of all rows of some ways. -/
def AllRows (holds : Nat → List (Tree ν φ τ) → Prop) (popped : List (Popped ν φ τ)) : Prop :=
  ∀ way ∈ popped, ∀ row ∈ way.rows, holds way.entry row

section Walking

variable {α : Type} {visit : α → Walker ν φ τ → Entry σ ν φ τ → α × Visit}
  {good : Walker ν φ τ → Prop} {holds : Nat → List (Tree ν φ τ) → Prop}

private theorem AllRows.record {popped : List (Popped ν φ τ)} (all : AllRows holds popped)
    {entry : Nat} {row : List (Tree ν φ τ)} (here : holds entry row) :
    AllRows holds (Stack.record entry row popped) := by
  unfold AllRows at *
  induction popped with
  | nil => grind [Stack.record]
  | cons first ways ih => grind [Stack.record]

variable
    (follows : ∀ walker entry note link, good walker → stack.entries[walker.entry]? = some entry →
      (visit note walker entry).2.ends = false → link ∈ entry.links → good (walker.follow link))
    (wanted : ∀ walker entry note, good walker → stack.entries[walker.entry]? = some entry →
      (visit note walker entry).2.wanted = true → holds walker.entry walker.trees)

include follows wanted

/-- What holds of walkers goes on to hold in a round, and of what they find. -/
theorem walkRound_all {walkers : List (Walker ν φ τ)} (round : Round α ν φ τ)
    (all : ∀ walker ∈ walkers, good walker) (rows : AllRows holds round.popped)
    (moved : ∀ walker ∈ round.moved, good walker)
    (added : ∀ walker ∈ round.added, good walker) :
    AllRows holds (stack.walkRound visit walkers round).popped ∧
      (∀ walker ∈ (stack.walkRound visit walkers round).moved, good walker) ∧
      ∀ walker ∈ (stack.walkRound visit walkers round).added, good walker := by
  induction walkers generalizing round with
  | nil => exact ⟨rows, moved, added⟩
  | cons walker walkers ih =>
    obtain ⟨isGood, later⟩ := forall_mem_cons.1 all
    rw [walkRound]
    split
    · exact ih round later rows moved added
    · rename_i entry here
      generalize visited : visit round.note walker entry = found
      obtain ⟨note, outcome⟩ := found
      have recorded : AllRows holds
          (if outcome.wanted then record walker.entry walker.trees round.popped
            else round.popped) := by
        split
        · rename_i isWanted
          exact rows.record (wanted walker entry round.note isGood here
            (by rw [visited]; exact isWanted))
        · exact rows
      dsimp only
      split
      · rename_i first others links ends
        have goesOn : ∀ link ∈ first :: others, good (walker.follow link) := fun link member =>
          follows walker entry round.note link isGood here (by rw [visited]; exact ends)
            (links ▸ member)
        refine ih _ later recorded
          (forall_mem_cons.2 ⟨goesOn first mem_cons_self, moved⟩) fun other member => ?_
        rcases mem_append.1 member with isNew | known
        · obtain ⟨link, isLink, rfl⟩ := mem_map.1 (mem_reverse.1 isNew)
          exact goesOn link (mem_cons_of_mem _ (mem_of_mem_take isLink))
        · exact added other known
      · exact ih _ later recorded moved added

variable (good) in
/-- What holds of walkers from an entry on holds of what a walk finds. -/
theorem walk_all (start : good { entry := number }) (note : α) :
    AllRows holds (stack.walk number visit note).2 := by
  have all {fuel : Nat} {walkers : List (Walker ν φ τ)} {note : α} {popped : List (Popped ν φ τ)}
      (all : ∀ walker ∈ walkers, good walker) (rows : AllRows holds popped) :
      AllRows holds (stack.walkOn visit fuel walkers note popped).2 := by
    fun_induction walkOn stack visit fuel walkers note popped with
    | case1 => exact rows
    | case2 => exact rows
    | case3 fuel walkers note popped nonempty round ih =>
      obtain ⟨found, moved, added⟩ := walkRound_all follows wanted { note, popped } all rows
        (fun _ member => absurd member not_mem_nil) fun _ member => absurd member not_mem_nil
      refine ih (fun walker member => ?_) found
      exact (mem_append.1 member).elim (fun isMoved => moved walker (mem_reverse.1 isMoved))
        fun isAdded => added walker (mem_reverse.1 isAdded)
  exact all (forall_mem_singleton.2 start) fun way member => absurd member not_mem_nil

end Walking

end Phrasebook.Grammar.Stack
