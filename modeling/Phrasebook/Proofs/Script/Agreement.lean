import Phrasebook.Proofs.Markup.Settled
import Phrasebook.Proofs.Script.Template

/-!
# Template literals in markup and in scripts

A template literal may be the value of a bound attribute or stand in a script. The markup
ends each substitution at the nearest closing brace, unescapes the text as a whole and
trims it; the script follows the tree and cooks each fixed part by itself. Both find the
same phrase exactly when the markup reads the parts and holes of the literal as they stand.
-/

namespace Phrasebook

open List Text

namespace Markup.Stage

/-- A page with one attribute, which is bound to a template literal. -/
def boundPage (body : Text) : Text :=
  ['<', 'p', ' ', ':', 'a', '=', '"', Char.ofNat 0x60] ++ body ++
    [Char.ofNat 0x60, '"', '>', '<', '/', 'p', '>']

/-- The phrases that the stage for bound template literals finds on a page. -/
def templatePhrases (functions : Functions) (page : Text) : List Candidate :=
  (find functions page .templateAttribute).flatMap fun found => Piece.candidates found.value

private theorem recogniseTemplate_bound {body : Text} (free : Char.ofNat 0x60 ∉ body)
    (rest : Text) :
    recogniseTemplate ([' ', ':', 'a', '=', '"', Char.ofNat 0x60] ++ body ++
        [Char.ofNat 0x60, '"'] ++ rest) =
      some (body.length + 8, ⟨' ', [':', 'a'], '"', body, 6⟩) := by
  have opened : Attribute.opening (Attribute.directiveName Attribute.bindings)
      ([' ', ':', 'a', '=', '"', Char.ofNat 0x60] ++ body ++ [Char.ofNat 0x60, '"'] ++ rest) =
        some ⟨' ', [':', 'a'], '"', 5, Char.ofNat 0x60 :: (body ++ [Char.ofNat 0x60, '"'] ++ rest)⟩ :=
    rfl
  have taken : (body ++ [Char.ofNat 0x60, '"'] ++ rest).takeWhile (· != Char.ofNat 0x60) = body := by
    rw [append_assoc, takeWhile_append_of_pos, cons_append,
      takeWhile_cons_of_neg (by simp), append_nil]
    rintro char member
    exact bne_iff_ne.2 fun isTick => free (isTick ▸ member)
  have behind : (body ++ [Char.ofNat 0x60, '"'] ++ rest).drop (body.length + 1) = '"' :: rest := by
    rw [append_assoc, drop_append, drop_of_length_le (by omega)]
    simp
  have gap : blanks (Char.ofNat 0x60 :: (body ++ [Char.ofNat 0x60, '"'] ++ rest)) = 0 := rfl
  have lastGap : blanks ('"' :: rest) = 0 := rfl
  rw [recogniseTemplate, opened]
  simp only [Option.bind_eq_bind, Option.bind_some, gap, drop_zero, taken, behind, lastGap]
  simp
  omega

private theorem scan_boundPage {body : Text} (free : Char.ofNat 0x60 ∉ body) :
    scan (fun _ => recogniseTemplate) (boundPage body) =
      [⟨2, body.length + 10, ⟨' ', [':', 'a'], '"', body, 6⟩⟩] := by
  have page : boundPage body = '<' :: 'p' :: (([' ', ':', 'a', '=', '"', Char.ofNat 0x60] ++ body ++
      [Char.ofNat 0x60, '"']) ++ ['>', '<', '/', 'p', '>']) := by
    simp [boundPage]
  have size : body.length + 8 =
      ([' ', ':', 'a', '=', '"', Char.ofNat 0x60] ++ body ++ [Char.ofNat 0x60, '"']).length := by
    simp
  have recognised := recogniseTemplate_bound free ['>', '<', '/', 'p', '>']
  rw [size] at recognised
  rw [page, scan, scanFrom_of_none rfl, scanFrom_of_none rfl,
    scanFrom_of_some (by simp) recognised, ← size, show 0 + 1 + 1 + (body.length + 8) =
      body.length + 10 by omega]
  rfl

/-- The page holds one phrase if the markup sees ideographs in the fixed parts of the
literal. -/
theorem templatePhrases_boundPage {body first : Text} {cuts : List (Text × Text)}
    (free : Char.ofNat 0x60 ∉ body)
    (read : cutAll Interpolation.recogniseSubstitution body = (first, cuts))
    (functions : Functions) :
    templatePhrases functions (boundPage body) =
      if hasIdeograph (first :: cuts.map Prod.snd).flatten then
        [{ start := 8
           stop := 8 + body.length
           value := (Literal.cook (Call.weave Call.placeholder 0 (first :: cuts.map Prod.snd))).map
             CodePoint.trim
           quote := '\''
           exprs := cuts.map fun cut => trim cut.1 }]
      else [] := by
  have inTag : Attribute.inOpenTag ((boundPage body).take 2) = true := rfl
  rw [templatePhrases, find, scan_boundPage free, filter_cons_of_pos (by simpa using inTag),
    filter_nil, placed, filterMap_cons, findTemplateAttribute, read]
  dsimp only
  cases hasIdeograph (first :: cuts.map Prod.snd).flatten <;> rfl

end Markup.Stage

namespace Script

open Markup (PlainRow unblanked)

variable {script first : Text} {node : Node} {cuts : List (Text × Text)}

/-- Whether a phrase of the markup is one of a script: its text up to trimming, and its
expressions up to blanks around dots. -/
structure Agrees (candidate : Markup.Candidate) (value : Except Literal.EscapeFault CodePoints)
    (arguments : List Text) : Prop where
  value : candidate.value = value.map CodePoint.trim
  exprs : List.Forall₂ SameUpToDots candidate.exprs arguments

private theorem unblanked_trim (text : Text) : unblanked (trim text) = unblanked text := by
  obtain ⟨lead, trail, -, whole, leadBlank, trailBlank⟩ := exists_cutBlanks text
  have split := congrArg unblanked whole
  rw [unblanked_append, unblanked_append, unblanked_of_allBlank leadBlank,
    unblanked_of_allBlank trailBlank, nil_append, append_nil] at split
  exact split.symm

private theorem map_unblanked_eq {texts others : List Text}
    (same : List.Forall₂ SameUpToDots texts others) :
    texts.map unblanked = others.map unblanked := by
  induction same with
  | nil => rfl
  | cons here later ih =>
    rw [map_cons, map_cons, here.unblanked, ih]

/-- Whether a page with a template literal holds the phrase that a script with the literal
holds, and no other. -/
def TemplatesAgree (functions : Functions) (script : Text) (node : Node) : Prop :=
  ∃ candidate, Markup.Stage.templatePhrases functions (Markup.Stage.boundPage
      (script.slice (node.start + 1 : Nat) (node.stop - 1 : Nat))) = [candidate] ∧
    Agrees candidate (templateValue script node) (arguments script node)

/-- The markup reads a plain row as it stands, so only the arguments can differ. -/
theorem templatesAgree_iff_of_plainRow (holds : holdsText script node = true)
    (row : Row script (node.stop - 1) (node.start + 1) node.children first cuts)
    (free : Char.ofNat 0x60 ∉ script.slice (node.start + 1 : Nat) (node.stop - 1 : Nat))
    (plain : PlainRow first cuts) (functions : Functions) :
    TemplatesAgree functions script node ↔
      List.Forall₂ SameUpToDots (cuts.map fun cut => trim cut.1) (arguments script node) := by
  have parts : fixedParts script node = first :: cuts.map Prod.snd := row.fixedParts_eq
  have read := Markup.cutAll_substituted_iff.2 plain
  rw [← row.slice_eq] at read
  rw [holdsText, parts] at holds
  rw [TemplatesAgree, Markup.Stage.templatePhrases_boundPage free read, if_pos holds]
  constructor
  · rintro ⟨candidate, found, agrees⟩
    obtain rfl := singleton_inj.1 found
    exact agrees.exprs
  · intro same
    refine ⟨_, rfl, ?_, same⟩
    rw [templateValue, parts, cook_weave row.escapesNext_eq_false]

/-- Reading the same arguments is enough to have read the row as it stands. -/
theorem plainRow_of_templatesAgree
    (row : Row script (node.stop - 1) (node.start + 1) node.children first cuts)
    (free : Char.ofNat 0x60 ∉ script.slice (node.start + 1 : Nat) (node.stop - 1 : Nat))
    (same : List.Forall₂ SameUpToDots (cuts.map fun cut => trim cut.1) (arguments script node))
    {functions : Functions} (agree : TemplatesAgree functions script node) :
    PlainRow first cuts := by
  obtain ⟨candidate, found, agrees⟩ := agree
  rw [Markup.Stage.templatePhrases_boundPage free rfl] at found
  split at found
  · obtain rfl := singleton_inj.1 found
    have holes := (map_unblanked_eq agrees.exprs).trans (map_unblanked_eq same).symm
    simp only [map_map, Function.comp_def, unblanked_trim] at holes
    rw [row.slice_eq] at holes
    exact Markup.cutAll_substituted_iff.1 (Markup.cutAll_of_same_holes holes)
  · cases found

/-- A script registers a template literal under its value and passes its arguments on. If
no hole of the literal holds a closing brace and no fixed part looks like a hole, a page
with the same literal holds the same phrase exactly when its arguments are the holes up to
blanks. If no hole holds a comment they are, and then the page holds the same phrase only
for such a literal. -/
theorem template_extractors_agree_iff {script first : Text} {node : Node}
    {cuts : List (Text × Text)} (holds : holdsText script node = true)
    (row : Row script (node.stop - 1) (node.start + 1) node.children first cuts)
    (free : Char.ofNat 0x60 ∉ script.slice (node.start + 1 : Nat) (node.stop - 1 : Nat))
    (scope : Scope) :
    (extractTemplate script scope node = do
      let key ← Pass.register scope (byteSpan script node) .scriptTemplate (templateValue script node)
      return some (callEdit scope node key (arguments script node))) ∧
    (PlainRow first cuts →
      (TemplatesAgree scope.functions script node ↔
        List.Forall₂ SameUpToDots (cuts.map fun cut => trim cut.1) (arguments script node))) ∧
    (List.Forall₂ (Uncommented script) (cuts.map Prod.fst) (substitutions node) →
      (TemplatesAgree scope.functions script node ↔ PlainRow first cuts)) := by
  refine ⟨extractTemplate_eq holds scope, fun plain =>
    templatesAgree_iff_of_plainRow holds row free plain scope.functions, fun uncommented => ?_⟩
  have same := forall₂_sameUpToDots uncommented
  rw [map_map] at same
  constructor
  · exact plainRow_of_templatesAgree row free same
  · exact fun plain => (templatesAgree_iff_of_plainRow holds row free plain scope.functions).2 same

/-- A literal whose hole holds a member, as the tree of its script has it. -/
theorem template_extractors_agree_member :
    let script : Text :=
      [Char.ofNat 0x60, '好', '$', '{', ' ', 'a', ' ', '.', ' ', 'b', ' ', '}', Char.ofNat 0x60]
    let member : Node := .mk .member .none 5 10
      [.mk .identifier .object 5 6 [], .mk .propertyName .property 9 10 []]
    let node : Node := .mk .template .none 0 13
      [.mk .other .none 1 2 [], .mk .substitution .none 2 12 [member]]
    TemplatesAgree {} script node := by
  intro script member node
  let scope : Scope := { path := .ofText "src/a.vue".toList, shown := "src/a.vue".toList }
  let hole : Text := [' ', 'a', ' ', '.', ' ', 'b', ' ']
  have row : Row script 12 1 node.children ['好'] [(hole, [])] :=
    .other (by decide) (.hole rfl (by decide) rfl (by decide) (.last (by decide)))
  have spelled : member.textIn script = ['a'] ++ [' '] ++ '.' :: ([' '] ++ ['b']) := rfl
  have dots : DotsBlank script member :=
    .member rfl rfl spelled (by decide) (by decide) (.plain (by decide)) (.plain (by decide))
  have uncommented : Uncommented script hole (.mk .substitution .none 2 12 [member]) :=
    ⟨member, [], [' '], [' '], rfl, rfl, by decide, by decide, by decide, by decide, dots⟩
  have plain : PlainRow ['好'] [(hole, [])] :=
    ⟨by decide, by decide, fun hole occurs => by simp at occurs⟩
  have agree := @template_extractors_agree_iff script ['好'] node _ (by decide) row (by decide) scope
  exact (agree.2.2 (.cons uncommented .nil)).2 plain

/-- A brace inside a hole ends the hole for the markup. -/
example : ¬ PlainRow ['好'] [("\x7ba:1\x7d.a".toList, [])] :=
  fun plain => plain.2.1 (by decide)

end Script

end Phrasebook
