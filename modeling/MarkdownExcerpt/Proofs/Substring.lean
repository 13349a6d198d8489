import MarkdownExcerpt.Proofs.Excerpt
import MarkdownExcerpt.Proofs.Node.Join
import MarkdownExcerpt.Proofs.Treatment
import MarkdownExcerpt.Proofs.Walk
import MarkdownExcerpt.Search

/-! The text of an excerpt. Policies that drop no content leave exactly the characters of the
document text that the range names, whatever the shape of the tree is. -/
namespace MarkdownExcerpt

/-- Policies under which no content in a window is lost. -/
structure Config.KeepsContent (config : Config) : Prop where
  content : config.content = ⟨true, true, true⟩
  leaf : ∀ kind, config.behavior.leafPolicy kind = .truncate
  formatting : ∀ kind, config.behavior.formattingPolicy kind ≠ .exclude
  media : ∀ kind, config.behavior.mediaPolicy kind ≠ .strip
  block : ∀ kind, config.behavior.blockPolicy kind ≠ .exclude

namespace Config.KeepsContent

variable {config : Config}

/-- How text is cleaned does not matter for that. -/
lemma withText (h : config.KeepsContent) (text : TextCleanup) :
    Config.KeepsContent { config with text := text } :=
  ⟨h.content, h.leaf, h.formatting, h.media, h.block⟩

lemma leavesOut (h : config.KeepsContent) (type : Option String) :
    config.leavesOut type = false := by
  simp [Config.leavesOut, h.content, Inclusion.leftOutTypes]

lemma drops (h : config.KeepsContent) (kind : NodeKind) : config.drops kind = false := by
  cases kind with
  | leaf kind => simp [Config.drops, h.leaf]
  | formatting kind => simpa [Config.drops] using h.formatting kind
  | media kind => simpa [Config.drops] using h.media kind
  | block kind => simpa [Config.drops] using h.block kind
  | _ => rfl

lemma truncates (h : config.KeepsContent) {node : Node} (hleaf : node.bearsText = true) :
    config.truncates node.kind = true := by
  cases hkind : node.kind with
  | leaf kind => simp [Config.truncates, h.leaf]
  | _ => simp [Node.bearsText, hkind, NodeKind.isLeaf] at hleaf

end Config.KeepsContent

/-- Breaks that are walked have no characters in them. -/
def Node.BreaksEmpty (node : Node) : Prop :=
  node.Throughout fun n => n.category = .atomic → n.length = 0

/-- The tree of an excerpt as a document of its own. -/
def Excerpt.document (excerpt : Excerpt) : Document :=
  match excerpt.node with
  | none => .empty
  | some node => .tree node

namespace Node

variable {config : Config} {window : Span} {start : Int} {node : Node}

lemma shown_of_misses (h : (node.spanFrom start).misses window = true) :
    window.shown start node.characters = [] :=
  Span.shown_of_misses (by rwa [length_characters])

lemma shown_of_isWithin (h : (node.spanFrom start).isWithin window = true) :
    window.shown start node.characters = node.characters :=
  Span.shown_of_isWithin (by rwa [length_characters])

lemma shown_of_length_eq_zero (h : node.length = 0) :
    window.shown start node.characters = node.characters := by
  have hnil : node.characters = [] := List.eq_nil_of_length_eq_zero (by rw [length_characters, h])
  simp [hnil]

@[simp] lemma characters_one (node : Node) : (Outcome.one node).characters = node.characters := by
  simp [Outcome.characters, Outcome.nodes]

/-- Without cleaning, what is left of a leaf is what the window shows of it. -/
lemma visibleValue_eq (hw : config.text.whitespace = .preserve) (kind : LeafKind) :
    Treatment.visibleValue config window (node.spanFrom start) kind node =
      window.shown start node.text.toList := by
  cases kind <;> simp [Treatment.visibleValue, Text.clean, hw, Span.shown]

/-- Nothing is cleaned in a leaf that is covered, unless all text is normalized. -/
lemma visibleValue_of_isWithin (hw : config.text.whitespace ≠ .normalize)
    (hleaf : node.bearsText = true) (hin : (node.spanFrom start).isWithin window = true)
    (kind : LeafKind) :
    Treatment.visibleValue config window (node.spanFrom start) kind node = node.text.toList := by
  have hshown : window.shown start node.text.toList = node.text.toList := by
    rw [← characters_of_bearsText hleaf]
    exact shown_of_isWithin hin
  have hedges := Span.isWithin_iff.mp hin
  rw [start_spanFrom, stop_spanFrom] at hedges
  have hfront : ¬start < window.start := by omega
  have hback : ¬window.stop < start + node.length := by omega
  cases kind with
  | text =>
    rw [← hshown]
    cases hpolicy : config.text.whitespace with
    | normalize => exact absurd hpolicy hw
    | trim => simp [Treatment.visibleValue, Text.clean, hpolicy, hfront, hback, Span.shown]
    | preserve => simp [Treatment.visibleValue, Text.clean, hpolicy, Span.shown]
  | _ => exact hshown

lemma characters_emit_shorten (hleaf : node.bearsText = true) (children : List Node)
    (value : List Char) : (Treatment.emit node children (.shorten value)).characters = value := by
  simp only [Treatment.emit]
  split
  · next hempty =>
    rw [List.isEmpty_iff.mp hempty]
    rfl
  · simp [characters_of_bearsText, hleaf]

lemma characters_emit_rebuild (hleaf : node.bearsText = false) (children : List Node)
    (evenEmpty : Bool) :
    (Treatment.emit node children (.rebuild evenEmpty)).characters =
      children.flatMap characters := by
  have hstay : (Outcome.one (node.withChildren children)).characters =
      children.flatMap characters := by
    simp [Outcome.characters, Outcome.nodes, characters_of_not_bearsText, hleaf]
  simp only [Treatment.emit]
  split
  · next hempty =>
    have hnil : children = [] := by simp_all
    simp [hnil, Outcome.characters, Outcome.nodes]
  · exact hstay

/-- Of a leaf that the window meets, another window shows just what is left. -/
def ShowsLeft (config : Config) (window inner : Span) (leaf : Node) (span : Span) : Prop :=
  ∀ kind, leaf.kind = .leaf kind → span.misses window = false →
    inner.shown span.start leaf.text.toList = Treatment.visibleValue config window span kind leaf

variable {inner : Span}

lemma characters_outcomes {nodes : List Node}
    (hshows : ∀ node ∈ nodes, ∀ start : Int,
      (∀ entry ∈ node.spansFrom start, ShowsLeft config window inner entry.1 entry.2) →
        (node.outcome config window start).characters = inner.shown start node.characters)
    {start : Int}
    (hleaves : ∀ entry ∈ spansOf start nodes, ShowsLeft config window inner entry.1 entry.2) :
    (outcomes config window start nodes).flatMap Outcome.characters =
      inner.shown start (nodes.flatMap characters) := by
  induction nodes generalizing start with
  | nil => simp [outcomes]
  | cons node rest ih =>
    rw [spansOf, List.forall_mem_append] at hleaves
    rw [outcomes, List.flatMap_cons, List.flatMap_cons, Span.shown_append, length_characters,
      hshows node (by simp) start hleaves.1, ih (fun n hm => hshows n (by simp [hm])) hleaves.2]

/-- The characters that come out of a node are those that a narrower window shows of it, if this is
so for each of its leaves. -/
theorem characters_outcome (hc : config.KeepsContent) (hw : config.text.whitespace ≠ .normalize)
    (hstart : window.start ≤ inner.start) (hstop : inner.stop ≤ window.stop)
    (hbreaks : node.BreaksEmpty)
    (hleaves : ∀ entry ∈ node.spansFrom start, ShowsLeft config window inner entry.1 entry.2) :
    (node.outcome config window start).characters = inner.shown start node.characters := by
  induction node using Node.inductionOn generalizing start with
  | step node ih =>
    cases hseen : (node.spanFrom start).misses window with
    | true =>
      have hmiss : (node.spanFrom start).misses inner = true := by
        rw [Span.misses_iff] at hseen ⊢
        omega
      rw [outcome_of_misses hseen, shown_of_misses hmiss]
      rfl
    | false =>
      have hself : ∀ {kind}, node.kind = .leaf kind → inner.shown start node.characters =
          Treatment.visibleValue config window (node.spanFrom start) kind node := by
        intro kind hkind
        have hleaf : node.bearsText = true := bearsText_of_leaf hkind
        rw [characters_of_bearsText hleaf]
        exact hleaves (node, node.spanFrom start) (by simp [spansFrom_eq]) kind hkind hseen
      have hchildren : node.bearsText = false →
          (node.rebuilt config window start).flatMap characters =
            inner.shown start node.characters := by
        intro hleaf
        rw [rebuilt, Outcome.characters_assemble, characters_of_not_bearsText hleaf]
        refine characters_outcomes (fun child hm s => ih child hm (hbreaks.child hleaf hm)) ?_
        intro entry he
        exact hleaves entry (by simp [spansFrom_eq, hleaf, he])
      have htreated := node.treated config hseen
      rw [outcome_eq]
      generalize (node.decision config window start).treatment = treatment at htreated
      cases htreated with
      | leftOut h => simp [hc.leavesOut] at h
      | excluded hpart h => simp [hc.drops] at h
      | leaf hleaf h =>
        have hin : ¬node.IsPartial window start := fun hpart => by
          simp [hc.truncates hleaf] at h
          exact h hpart
        obtain ⟨kind, hkind⟩ := exists_kind_of_bearsText hleaf
        rw [hself hkind, visibleValue_of_isWithin hw hleaf (isWithin_of_not_isPartial hseen hin),
          ← characters_of_bearsText hleaf]
        exact characters_one node
      | cut hkind hpart h =>
        have hleaf : node.bearsText = true := bearsText_of_leaf hkind
        rw [hself hkind, characters_emit_shorten hleaf]
      | atomic hkind =>
        rw [shown_of_length_eq_zero (hbreaks.self (by simp [category, hkind, NodeKind.category]))]
        exact characters_one node
      | bare hkind hbare =>
        rw [shown_of_length_eq_zero (length_of_bare (bearsText_of_isLoose hkind) hbare)]
        exact characters_one node
      | list hkind =>
        have hleaf : node.bearsText = false := bearsText_of_list hkind
        rw [characters_emit_rebuild hleaf, hchildren hleaf]
      | container hleaf hlist hatomic hparent h =>
        rw [characters_emit_rebuild hleaf, hchildren hleaf]
      | spliced hpart h =>
        rw [← hchildren (bearsText_of_splices h)]
        simp [Treatment.emit, Outcome.characters]

/-- What comes out of the node has the characters of the node that are in the window. -/
def ShowsWindow (config : Config) (window : Span) (node : Node) : Prop :=
  ∀ start : Int, (node.outcome config window start).characters =
    window.shown start node.characters

/-- The characters that come out of a node are those of the node in the window. -/
theorem showsWindow (hc : config.KeepsContent) (hw : config.text.whitespace = .preserve)
    (window : Span) (node : Node) (hbreaks : node.BreaksEmpty) :
    node.ShowsWindow config window := by
  intro start
  apply characters_outcome hc (by simp [hw]) (Int.le_refl _) (Int.le_refl _) hbreaks
  rintro ⟨leaf, span⟩ he kind - -
  rw [show span = leaf.spanFrom span.start from (span_bounds he).1]
  exact (visibleValue_eq hw kind).symm

end Node

lemma Outcome.characters_tree? (outcome : Outcome) :
    (outcome.tree?.map Node.characters).getD [] = outcome.characters := by
  cases outcome with
  | nothing => rfl
  | one node => simp [tree?]
  | many nodes isolated =>
    have hroot : (Node.rootOf nodes).bearsText = false := rfl
    simp [tree?, Node.characters_of_not_bearsText hroot, characters, Outcome.nodes]

lemma Outcome.isSome_tree? {outcome : Outcome} (h : outcome.nodes ≠ []) :
    outcome.tree?.isSome = true := by
  cases outcome with
  | nothing => exact absurd rfl h
  | one node => rfl
  | many nodes isolated => rfl

namespace Excerpt

/-- The characters of the tree of an excerpt. -/
def characters (excerpt : Excerpt) : List Char := (excerpt.node.map Node.characters).getD []

theorem text_document (excerpt : Excerpt) :
    excerpt.document.text = .ok (String.ofList excerpt.characters) := by
  rcases excerpt with ⟨_ | node, boundaries, info⟩ <;> rfl

end Excerpt

namespace Node

variable {config : Config} {node : Node}

/-- A range that selects no characters gives none, even if it gives a tree. -/
lemma characters_excerptAlone_of_le {range : Range}
    (h : range.stopWithin node.length ≤ range.start) :
    (node.excerptAlone config range).characters = [] := by
  rw [Excerpt.characters, node_excerptAlone_of_le h]
  split
  · next hzero => exact List.eq_nil_of_length_eq_zero (by simp [length_characters, hzero.1])
  · rfl

lemma characters_excerptAlone (hc : config.KeepsContent) (hw : config.text.whitespace = .preserve)
    (hbreaks : node.BreaksEmpty) (range : Range) :
    (node.excerptAlone config range).characters =
      Text.piece node.characters range.start (range.stopWithin node.length) := by
  by_cases h : range.start < range.stopWithin node.length
  · rw [Excerpt.characters, node_excerptAlone h, Outcome.characters_tree?,
      node.showsWindow hc hw _ hbreaks 0, Span.shown]
    simp
  · rw [characters_excerptAlone_of_le (by omega), Text.piece_eq_nil (by omega)]

/-- Something comes out of a node with characters in the window. -/
lemma nodes_outcome_ne_nil (hc : config.KeepsContent) (hw : config.text.whitespace = .preserve)
    (hbreaks : node.BreaksEmpty) {window : Span} (hwindow : window.start < window.stop)
    {start : Int} (hpos : 0 < node.length) (hseen : (node.spanFrom start).misses window = false) :
    (node.outcome config window start).nodes ≠ [] := by
  intro hnil
  have hshown := node.showsWindow hc hw window hbreaks start
  rw [Outcome.characters, hnil] at hshown
  exact Span.shown_ne_nil (by rwa [length_characters]) hwindow
    (by rwa [length_characters]) hshown.symm

/-- The text of an excerpt is the piece of the document text that the range names, and there is a
tree wherever the range starts before the end of the document. -/
theorem text_excerpt (hc : config.KeepsContent) (hw : config.text.whitespace = .preserve)
    (hbreaks : node.BreaksEmpty) (number : Nat) (range : Range) :
    ∃ excerpt, (node.excerpt config number range {}).1 = .ok excerpt ∧
      excerpt.document.text = .ok (String.ofList
        (Text.piece node.characters range.start (range.stop.getD node.length))) ∧
      (range.start < node.length → excerpt.node.isSome = true) := by
  refine ⟨_, excerpt_fresh config number range node, ?_, ?_⟩
  · rw [Excerpt.text_document, characters_excerptAlone hc hw hbreaks, Range.stopWithin_eq_min,
      ← length_characters, Text.piece_min_length]
  · intro hstart
    have hlt := Range.start_lt_stopWithin hstart
    rw [node_excerptAlone hlt]
    apply Outcome.isSome_tree?
    refine nodes_outcome_ne_nil hc hw hbreaks (Int.ofNat_lt.mpr hlt) (by omega) ?_
    rw [Span.misses_eq_false_iff, stop_spanFrom, start_spanFrom]
    simp only
    omega

/-- Text in wrappers of several kinds, with a break between them. -/
def article : Node :=
  wrapperOf "root" [leafOf "text" "ab",
    wrapperOf "emphasis" [wrapperOf "paragraph" [leafOf "text" "cdef"]],
    bare [("type", .str "break")],
    wrapperOf "list" [wrapperOf "listItem" [leafOf "code" " gh"]]]

/-- Policies by which all wrappers but list items give way. -/
def plainPolicies : Config where
  behavior :=
    { formatting := .strip, block := .unwrap, overrides := [.block .listItem .include] }
  text := { whitespace := .preserve }

lemma keepsContent_plainPolicies : plainPolicies.KeepsContent := by
  refine ⟨rfl, ?_, ?_, ?_, ?_⟩ <;> intro kind <;> cases kind <;> decide

theorem text_excerpt_article :
    plainPolicies.KeepsContent ∧ plainPolicies.text.whitespace = .preserve ∧
      article.BreaksEmpty ∧
      ∃ excerpt, (article.excerpt plainPolicies 0 ⟨1, some 8, by decide⟩ {}).1 = .ok excerpt ∧
        excerpt.document.text = .ok "bcdef g" ∧ excerpt.node.isSome = true := by
  have hbreaks : article.BreaksEmpty := by
    unfold BreaksEmpty Throughout
    decide
  obtain ⟨excerpt, hexcerpt, htext, hsome⟩ :=
    text_excerpt keepsContent_plainPolicies rfl hbreaks 0 ⟨1, some 8, by decide⟩
  exact ⟨keepsContent_plainPolicies, rfl, hbreaks, excerpt, hexcerpt, htext, hsome (by decide)⟩

end Node
end MarkdownExcerpt
