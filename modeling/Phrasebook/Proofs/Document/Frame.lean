import Phrasebook.Proofs.Component.Regions
import Phrasebook.Proofs.Document.Rerun

/-!
# What extraction leaves alone in a component

Extraction from a component replaces its template and its script by what it makes of
them, and copies everything else: tags, blocks of other kinds, templates after the first
one and scripts that were not chosen. It does not matter which of the two comes first.
-/

namespace Phrasebook

open List Pass

/-! ## Nothing comes of nothing -/

namespace Markup

/-- There is nothing to extract from an empty template. -/
theorem emits_extract_nil (scope : Scope) : Emits (extract scope Stage.all []) (.ok []) [] := by
  refine emits_extract_iff.2 ⟨rfl, Stage.find_eq_nil_iff.1 fun stage _ => ?_⟩
  cases stage <;> rfl

end Markup

namespace Script

private theorem eq_nil_of_mem_fixedParts_nil {node : Node} {body : Text}
    (member : body ∈ fixedParts [] node) : body = [] := by
  have nothing : ∀ start stop, Text.slice [] start stop = [] := by
    intro start stop
    simp [Text.slice]
  rw [fixedParts] at member
  generalize node.start + 1 = pos at member
  generalize node.children = children at member
  induction children generalizing pos with
  | nil =>
    rw [fixedParts.go, nothing] at member
    exact mem_singleton.1 member
  | cons child children ih =>
    rw [fixedParts.go] at member
    split at member
    · rcases mem_cons.1 member with rfl | later
      · exact nothing _ _
      · exact ih _ later
    · exact ih _ member

/-- There is nothing to extract from an empty script, whatever its tree is. -/
theorem emits_edits_nil (scope : Scope) (tree : Node) : Emits (edits scope [] tree) (.ok []) [] := by
  have idle : IsIdle [] := ⟨[], rfl, rfl⟩
  refine emits_edits_iff.2 ⟨rfl, fun literal _ => .inr fun body member => ?_⟩
  rw [bodies] at member
  split at member
  · rw [mem_singleton.1 member, Text.slice, take_nil, drop_nil]
    exact idle
  · rw [eq_nil_of_mem_fixedParts_nil member]
    exact idle

end Script

namespace Document

variable {scope : Scope} {region : Region} {edits : List (Edit Char)} {added : List KeyedPhrase}
  {text : Text} {settings : Settings} {result : List (Edit Char) × Bool} {component : Component}

/-! ## What becomes of a region -/

/-- What extraction makes of a template. One that is not written in HTML stays. -/
def rewrittenTemplate (scope : Scope) (region : Region) : Except Failure Text :=
  if region.isHtml then ((Markup.extract scope Markup.Stage.all region.content).run {}).1
  else .ok region.content

/-- What extraction makes of a script: calls take the place of its literals, and a script
with calls gets the lines that it lacks for them. -/
def rewrittenScript (settings : Settings) (scope : Scope) (region : Region) :
    Except Failure Text := do
  let lang := Language.ofLabel (region.lang.getD [])
  let tree ← Script.parse lang scope.path.toText region.content
  let edits ← ((Script.edits scope region.content tree).run {}).1
  if edits.isEmpty then return region.content
  let script ← Script.rewritten region.content edits
  let injected ← settings.accessor.inject settings.functions lang script
  return injected.getD script

/-- A text in the place of a region. -/
def replacement (region : Region) (text : Text) : Found Text :=
  ⟨region.start, region.stop, text⟩

/-- The place of a region, if there is one, with what it becomes. -/
def replaced (rewritten : Region → Except Failure Text) :
    Option Region → Except Failure (List (Found Text))
  | none => .ok []
  | some region => (rewritten region).map fun text => [replacement region text]

/-- The places of the chosen regions of a component with what extraction makes of them. -/
def replacements (settings : Settings) (scope : Scope) (component : Component) :
    Except Failure (List (Found Text)) := do
  let templates ← replaced (rewrittenTemplate scope) component.template
  let scripts ← replaced (rewrittenScript settings scope) component.script
  return templates ++ scripts

/-- Whether edits put a text in the place of a region. Without an edit the region stays;
an empty one always does. -/
def Puts (region : Region) (text : Text) (edits : List (Edit Char)) : Prop :=
  (edits = [Edit.ofFound (replacement region text)] ∧ region.content ≠ []) ∨
    (edits = [] ∧ text = region.content)

private theorem puts_of_emits_templateEdit
    (emits : Emits (templateEdit scope region) (.ok edits) added) :
    ∃ text, rewrittenTemplate scope region = .ok text ∧ Puts region text edits := by
  cases isHtml : region.isHtml with
  | false =>
    rw [templateEdit, isHtml] at emits
    obtain ⟨_, _, _, -, yields, -⟩ := Emits.of_bind (.note _ _ _ _) (fun _ => .pure _) emits
    refine ⟨region.content, by rw [rewrittenTemplate, isHtml]; rfl, .inr ⟨?_, rfl⟩⟩
    exact (Emits.pure_iff.1 yields).1
  | true =>
    obtain ⟨text, registered, rfl, extracts⟩ := exists_of_emits_templateEdit isHtml emits
    refine ⟨text, ?_, ?_⟩
    · rw [rewrittenTemplate, isHtml, if_pos rfl]
      exact extracts.result {}
    · rw [templateChange]
      by_cases same : text = region.content
      · exact .inr ⟨if_pos (beq_iff_eq.2 same), same⟩
      · refine .inl ⟨if_neg (mt beq_iff_eq.1 same), fun empty => same ?_⟩
        rw [empty] at extracts ⊢
        exact Except.ok.inj (extracts.unique (Markup.emits_extract_nil scope)).1

private theorem puts_of_emits_scriptEdit
    (emits : Emits (scriptEdit settings scope region) (.ok result) added) :
    ∃ text, rewrittenScript settings scope region = .ok text ∧ Puts region text result.1 := by
  rw [scriptEdit] at emits
  obtain ⟨tree, _, _, parses, emits, -⟩ := Emits.of_bind (registers_ofExcept _)
    (fun _ => .bind (Script.registers_edits _ _ _) fun _ => .bind (registers_ofExcept _) fun _ =>
      .bind (.note _ _ _ _) fun _ => .pure _) emits
  obtain ⟨edits, _, _, finds, emits, -⟩ := Emits.of_bind (Script.registers_edits _ _ _)
    (fun _ => .bind (registers_ofExcept _) fun _ => .bind (.note _ _ _ _) fun _ => .pure _) emits
  obtain ⟨made, _, _, edit, emits, -⟩ := Emits.of_bind (registers_ofExcept _)
    (fun _ => .bind (.note _ _ _ _) fun _ => .pure _) emits
  obtain ⟨_, _, _, -, yields, -⟩ := Emits.of_bind (.note _ _ _ _) (fun _ => .pure _) emits
  obtain ⟨rfl, -⟩ := Emits.pure_iff.1 yields
  have parsed := (emits_ofExcept_iff.1 parses).1
  have found := finds.result {}
  have edited := (emits_ofExcept_iff.1 edit).1
  rw [regionEdit] at edited
  simp only [rewrittenScript, parsed, found, bind, Except.bind, pure, Except.pure]
  cases nothing : edits.isEmpty with
  | true =>
    rw [nothing] at edited
    cases edited
    exact ⟨region.content, rfl, .inr ⟨rfl, rfl⟩⟩
  | false =>
    have full : region.content ≠ [] := by
      intro empty
      rw [empty] at finds
      cases (finds.unique (Script.emits_edits_nil scope tree)).1
      cases nothing
    rw [nothing] at edited
    cases calls : Script.rewritten region.content edits with
    | error failure =>
      simp [calls, bind, Except.bind] at edited
    | ok script =>
      cases injects : settings.accessor.inject settings.functions
          (Language.ofLabel (region.lang.getD [])) script with
      | error failure =>
        simp [calls, injects, bind, Except.bind] at edited
      | ok injected =>
        simp only [calls, injects, bind, Except.bind, pure, Except.pure, Bool.false_eq_true,
          if_false, Except.ok.injEq] at edited
        refine ⟨injected.getD script, ?_, .inl ⟨?_, full⟩⟩
        · simp [injects]
        · rw [← edited]
          rfl

/-- Whether edits put texts in the places of regions, one in each. -/
inductive PutsAll : List Region → List (Found Text) → List (Edit Char) → Prop
  | nil : PutsAll [] [] []
  | cons {region : Region} {text : Text} {edits : List (Edit Char)} {regions : List Region}
    {places : List (Found Text)} {later : List (Edit Char)} (puts : Puts region text edits)
    (rest : PutsAll regions places later) :
    PutsAll (region :: regions) (replacement region text :: places) (edits ++ later)

private theorem PutsAll.singleton (puts : Puts region text edits) :
    PutsAll [region] [replacement region text] edits := by
  have all := PutsAll.cons puts .nil
  rwa [append_nil] at all

private theorem PutsAll.append {regions others : List Region} {places there : List (Found Text)}
    {more : List (Edit Char)} (puts : PutsAll regions places edits)
    (also : PutsAll others there more) :
    PutsAll (regions ++ others) (places ++ there) (edits ++ more) := by
  induction puts with
  | nil => exact also
  | cons puts _ ih =>
    rw [append_assoc]
    exact .cons puts ih

private theorem putsAll_of_emits_templateEdits
    (emits : Emits (templateEdits scope component) (.ok edits) added) :
    ∃ places, replaced (rewrittenTemplate scope) component.template = .ok places ∧
      PutsAll component.template.toList places edits := by
  rw [templateEdits] at emits
  cases template : component.template with
  | none =>
    rw [template] at emits
    obtain ⟨rfl, -⟩ := Emits.pure_iff.1 emits
    exact ⟨[], rfl, .nil⟩
  | some region =>
    rw [template] at emits
    obtain ⟨text, rewritten, puts⟩ := puts_of_emits_templateEdit emits
    refine ⟨[replacement region text], ?_, .singleton puts⟩
    rw [replaced, rewritten]
    rfl

private theorem putsAll_of_emits_scriptEdits
    (emits : Emits (scriptEdits settings scope component) (.ok result) added) :
    ∃ places, replaced (rewrittenScript settings scope) component.script = .ok places ∧
      PutsAll component.script.toList places result.1 := by
  rw [scriptEdits] at emits
  cases script : component.script with
  | none =>
    rw [script] at emits
    obtain ⟨rfl, -⟩ := Emits.pure_iff.1 emits
    exact ⟨[], rfl, .nil⟩
  | some region =>
    rw [script] at emits
    obtain ⟨_, _, _, -, emits, -⟩ := Emits.of_bind (registers_reportSkipped _ _ _)
      (fun _ => registers_scriptEdit _ _ _) emits
    obtain ⟨text, rewritten, puts⟩ := puts_of_emits_scriptEdit emits
    refine ⟨[replacement region text], ?_, .singleton puts⟩
    rw [replaced, rewritten]
    rfl

/-! ## The whole component -/

/-- An edit puts a text in a place that is not empty. -/
theorem Puts.of_mem {content : Text} (puts : Puts region text edits)
    (cut : region.IsCutFrom content) {edit : Edit Char} (member : edit ∈ edits) :
    edit = Edit.ofFound (replacement region text) ∧ region.start < region.stop := by
  rcases puts with ⟨rfl, full⟩ | ⟨rfl, -⟩
  · exact ⟨mem_singleton.1 member, cut.lt_of_ne_nil full⟩
  · cases member

private theorem Puts.nodup (puts : Puts region text edits) : edits.Nodup := by
  rcases puts with ⟨rfl, -⟩ | ⟨rfl, -⟩
  · exact pairwise_singleton _ _
  · exact .nil

namespace PutsAll

variable {content : Text} {regions : List Region} {places : List (Found Text)} {place : Found Text}

/-- Every place is that of a region, and some of the edits put its text there. -/
theorem exists_region (puts : PutsAll regions places edits) (member : place ∈ places) :
    ∃ region ∈ regions, place = replacement region place.value ∧
      ∃ own, Puts region place.value own ∧ own ⊆ edits := by
  induction puts with
  | nil => cases member
  | @cons region text own regions places later puts rest ih =>
    rcases mem_cons.1 member with rfl | after
    · exact ⟨region, mem_cons_self, rfl, own, puts, subset_append_left _ _⟩
    · obtain ⟨other, there, same, own, puts, among⟩ := ih after
      exact ⟨other, mem_cons_of_mem _ there, same, own, puts, subset_append_of_subset_right _ among⟩

/-- Every edit puts a text in a place that is not empty. -/
theorem exists_place (puts : PutsAll regions places edits)
    (cut : ∀ region ∈ regions, region.IsCutFrom content) {edit : Edit Char} (member : edit ∈ edits) :
    ∃ place ∈ places, place.start < place.stop ∧ edit = Edit.ofFound place := by
  induction puts with
  | nil => cases member
  | cons puts rest ih =>
    obtain ⟨cutFirst, cutRest⟩ := forall_mem_cons.1 cut
    rcases mem_append.1 member with first | after
    · obtain ⟨same, positive⟩ := puts.of_mem cutFirst first
      exact ⟨_, mem_cons_self, positive, same⟩
    · obtain ⟨place, there, found⟩ := ih cutRest after
      exact ⟨place, mem_cons_of_mem _ there, found⟩

/-- A region that is apart from others is apart from their places. -/
theorem apart_of_mem (puts : PutsAll regions places edits) {region : Region}
    (apart : ∀ other ∈ regions, region.Apart other) (text : Text) (member : place ∈ places) :
    Edit.Apart (replacement region text) place := by
  obtain ⟨other, there, same, -⟩ := puts.exists_region member
  rw [same]
  exact apart other there

private theorem pairwise (puts : PutsAll regions places edits)
    (apart : regions.Pairwise Region.Apart) :
    places.Pairwise Edit.Apart := by
  induction puts with
  | nil => exact .nil
  | cons puts rest ih =>
    obtain ⟨first, others⟩ := pairwise_cons.1 apart
    exact .cons (fun _ member => rest.apart_of_mem first _ member) (ih others)

private theorem nodup (puts : PutsAll regions places edits)
    (cut : ∀ region ∈ regions, region.IsCutFrom content) (apart : regions.Pairwise Region.Apart) :
    edits.Nodup := by
  induction puts with
  | nil => exact .nil
  | @cons region text own _ _ _ puts rest ih =>
    obtain ⟨cutFirst, cutRest⟩ := forall_mem_cons.1 cut
    obtain ⟨first, others⟩ := pairwise_cons.1 apart
    refine nodup_append.2 ⟨puts.nodup, ih cutRest others, ?_⟩
    rintro edit isFirst _ isLater rfl
    -- One edit would stand for two places, neither of which is empty.
    obtain ⟨rfl, positive⟩ := puts.of_mem cutFirst isFirst
    obtain ⟨place, there, otherPositive, same⟩ := rest.exists_place cutRest isLater
    have places := rest.apart_of_mem first text there
    simp only [Edit.ofFound, Edit.Apart, replacement, Edit.mk.injEq] at same places
    omega

/-- A place without an edit keeps what stands there. -/
theorem kept (puts : PutsAll regions places edits)
    (cut : ∀ region ∈ regions, region.IsCutFrom content) (member : place ∈ places) :
    Edit.ofFound place ∈ edits ∨ place.value = content.slice place.start place.stop := by
  obtain ⟨region, there, same, own, ⟨rfl, -⟩ | ⟨-, unchanged⟩, among⟩ := puts.exists_region member
  · exact .inl (among (mem_singleton.2 (congrArg Edit.ofFound same)))
  · refine .inr ?_
    rw [unchanged, same]
    exact (cut region there).slice_eq.symm

/-- Nothing is put in an empty place. -/
theorem eq_nil (puts : PutsAll regions places edits)
    (cut : ∀ region ∈ regions, region.IsCutFrom content) (member : place ∈ places)
    (behind : place.stop ≤ place.start) : place.value = [] := by
  obtain ⟨region, there, same, own, puts, -⟩ := puts.exists_region member
  rw [same] at behind
  have empty := (cut region there).eq_nil_of_le behind
  rcases puts with ⟨-, full⟩ | ⟨-, unchanged⟩
  · exact absurd empty full
  · rw [unchanged, empty]

/-- Edits for regions that do not reach into each other put all texts in their places and
leave everything else as it is. -/
theorem applyAll_eq_copy (puts : PutsAll regions places edits)
    (cut : ∀ region ∈ regions, region.IsCutFrom content) (apart : regions.Pairwise Region.Apart) :
    ∃ ordered : List (Found Text),
      ordered.Perm (places.filter fun place => place.start < place.stop) ∧
      Found.Ordered 0 content.length ordered ∧
      Edit.applyAll content edits = Edit.copy 0 content ordered := by
  refine Edit.applyAll_of_apart ((puts.pairwise apart).filter _) ?_ (puts.nodup cut apart) ?_ ?_
  · intro place member
    obtain ⟨member, positive⟩ := mem_filter.1 member
    obtain ⟨region, there, same, -⟩ := puts.exists_region member
    refine ⟨of_decide_eq_true positive, ?_⟩
    rw [same]
    exact (cut region there).stop_le
  · intro edit member
    obtain ⟨place, there, positive, same⟩ := puts.exists_place cut member
    exact ⟨place, mem_filter.2 ⟨there, decide_eq_true positive⟩, same⟩
  · intro place member
    exact puts.kept cut (mem_filter.1 member).1

end PutsAll

/-- Whether a text is a file in which the chosen template and script of a component have
been replaced by what extraction makes of them, in the order in which they stand, with
everything before, between and after them as it was. An empty region stays empty. -/
def ChangesChosen (settings : Settings) (scope : Scope) (content : Text) (component : Component)
    (after : Text) : Prop :=
  ∃ places ordered,
    replacements settings scope component = .ok places ∧
    ordered.Perm (places.filter fun place => place.start < place.stop) ∧
    (∀ place ∈ places, place.stop ≤ place.start → place.value = []) ∧
    Found.Ordered 0 content.length ordered ∧
    after = Edit.copy 0 content ordered

/-- Extraction from pieces of a file that do not reach into each other changes the chosen
ones only. -/
theorem changesChosen_of_emits {content after : Text} {accessorAdded : Bool}
    (cut : component.IsCutFrom content)
    (emits : Emits (extractComponent settings scope content component) (.ok (after, accessorAdded))
      added) : ChangesChosen settings scope content component after := by
  obtain ⟨inTemplate, inScript, _, _, emitsTemplate, emitsScript, after⟩ :=
    exists_edits_of_emits_extractComponent emits
  obtain ⟨templates, template, putsTemplate⟩ := putsAll_of_emits_templateEdits emitsTemplate
  obtain ⟨scripts, script, putsScript⟩ := putsAll_of_emits_scriptEdits emitsScript
  have puts := putsTemplate.append putsScript
  have chosen : component.template.toList ++ component.script.toList <+: component.regions := by
    rw [Component.regions, ← append_assoc]
    exact prefix_append _ _
  have each := fun region member => cut.each region (chosen.subset member)
  have apart := cut.apart.sublist chosen.sublist
  obtain ⟨ordered, same, inOrder, copied⟩ := puts.applyAll_eq_copy each apart
  refine ⟨templates ++ scripts, ordered, ?_, same, ?_, inOrder, after.trans copied⟩
  · rw [replacements, template, script]
    rfl
  · intro place member behind
    exact puts.eq_nil each member behind

/-- Blocks that stand in the order of a file, with byte offsets between its characters,
make regions that are the pieces of the file at their places in characters and do not reach
into each other. Extraction from them changes the chosen template and the chosen script
only. The blocks that are read from a file are such blocks, and extraction from a file that
succeeds is extraction from them. -/
theorem component_changes_in_chosen_regions (settings : Settings) (cwd path : Path)
    (content : Text) (catalogue : Catalogue) (outline : Component.Outline) :
    (outline.Fits content →
      (Component.ofOutline content outline).IsCutFrom content ∧
      ∀ session after accessorAdded,
        ((extractComponent settings (settings.scope cwd path) content
          (.ofOutline content outline)).run session).1 = .ok (after, accessorAdded) →
        ChangesChosen settings (settings.scope cwd path) content
          (.ofOutline content outline) after) ∧
    (Component.Outline.ofText content).Fits content ∧
    match isComponent path, (process settings cwd path content catalogue).1 with
    | true, .ok outcome =>
      ChangesChosen settings (settings.scope cwd path) content (.ofText content)
        outcome.after
    | _, _ => True := by
  refine ⟨fun fits => ⟨fits.isCutFrom, fun session after accessorAdded extracts => ?_⟩,
    Component.Outline.fits_ofText content, ?_⟩
  · obtain ⟨result, added, emits⟩ := registers_extractComponent settings
      (settings.scope cwd path) content (.ofOutline content outline)
    rw [emits.result] at extracts
    subst extracts
    exact changesChosen_of_emits fits.isCutFrom emits
  · cases isComponent : isComponent path with
    | false => trivial
    | true =>
      obtain ⟨result, later, journal, processed⟩ : ∃ result later journal,
          process settings cwd path content catalogue = (result, later, journal) :=
        ⟨_, _, _, rfl⟩
      rw [processed]
      cases result with
      | error failure => trivial
      | ok outcome =>
        obtain ⟨emits, -⟩ := emits_of_process processed
        exact changesChosen_of_emits (Component.Outline.fits_ofText content).isCutFrom
          (emits_extractComponent_of_emits_extract emits isComponent)

/-- The outline of a template with one ideograph, which stands behind an ideograph in a
comment. -/
def outlineBehindIdeograph : Component.Outline where
  blocks := [⟨true, [], 20, 23⟩]
  soundness := .sound

/-- A template that starts behind twenty bytes starts behind eighteen characters, and what
extraction makes of the file is the file with another text in its place. -/
theorem component_changes_in_chosen_regions_behindIdeograph :
    let settings : Settings := {}
    let path := Path.ofText "src/a.vue".toList
    let content := "<!--好--><template>好</template>".toList
    let component := Component.ofOutline content outlineBehindIdeograph
    component.template.map (fun region => (region.start, region.stop)) = some (18, 19) ∧
    component.IsCutFrom content ∧
    ∃ after, ChangesChosen settings (settings.scope path path) content component after ∧
      after ≠ content := by
  intro settings path content component
  have fits : outlineBehindIdeograph.Fits content :=
    ⟨pairwise_singleton _ _, forall_mem_singleton.2 ⟨18, by decide, by decide⟩,
      forall_mem_singleton.2 ⟨19, by decide, by decide⟩⟩
  have holds := (component_changes_in_chosen_regions settings path path content {}
    outlineBehindIdeograph).1 fits
  have succeeds : ((extractComponent settings (settings.scope path path) content component).run
      {}).1.toOption.any (·.1 != content) = true := by decide +kernel
  obtain ⟨⟨after, added⟩, read, changed⟩ := (Option.any_eq_true _ _).1 succeeds
  refine ⟨by decide +kernel, holds.1, after, holds.2 {} after added (eq_ok_of_toOption read), ?_⟩
  exact bne_iff_ne.1 changed

end Document

end Phrasebook
