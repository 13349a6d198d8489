import MarkdownExcerpt.Proofs.Joining
import MarkdownExcerpt.Proofs.LeftOut

/-! The shape of an excerpt. However malformed a document is, the nodes of an excerpt that can be
taken apart have lists of children with nothing but nodes in them, none of which is empty that the
policies say shall not be, and where text is joined no two text leaves are left side by side. -/
namespace MarkdownExcerpt

/-- The second node is in the first, and neither it nor any node on the way to it is a leaf or a
break. -/
inductive Node.Exposes : Node → Node → Prop
  | self {node : Node} (hopen : node.kind.isSealed = false) : Exposes node node
  | step {node child found : Node} (hopen : node.kind.isSealed = false)
      (hchild : child ∈ node.childNodes) (h : Exposes child found) : Exposes node found

/-- No two neighbours are both text. -/
def Node.Unjoined (nodes : List Node) : Prop :=
  nodes.IsChain fun first second => ¬(first.isText = true ∧ second.isText = true)

/-- What the children of a node of an excerpt are like, if the node can be taken apart. -/
structure Node.WellShaped (config : Config) (node : Node) : Prop where
  parent : node.category ∈ [.formatting, .root, .block, .list] → node.isParent = true
  nodes : ∀ child ∈ node.children, ∃ inner, child = .node inner
  list : node.category = .list → node.children ≠ []
  filled : config.preserveEmptyBlocks = false →
    node.category ∈ [.formatting, .root, .block] ∨
        node.category ∈ [.media, .unknown] ∧ node.isParent = true →
      node.children ≠ []
  apart : config.text.mergeAdjacentText = true → config.UnwrapsNothing →
    Unjoined node.childNodes

namespace Node

lemma kind_of_category_list {node : Node} (h : node.category = .list) : node.kind = .list := by
  cases hkind : node.kind with
  | leaf kind => cases kind <;> simp [category, hkind, NodeKind.category, LeafKind.category] at h
  | _ => simp_all [category, NodeKind.category]

/-- Every node that can be taken apart has the shape. -/
def ShapedThroughout (config : Config) (node : Node) : Prop :=
  ∀ found, node.Exposes found → found.WellShaped config

variable {config : Config} {window : Span} {start : Int} {node : Node}

lemma shapedThroughout_of_isSealed (h : node.kind.isSealed = true) :
    node.ShapedThroughout config := by
  intro found hfound
  cases hfound with
  | self hopen => simp [h] at hopen
  | step hopen => simp [h] at hopen

lemma shapedThroughout_of_isText (h : node.isText = true) : node.ShapedThroughout config := by
  apply shapedThroughout_of_isSealed
  rw [kind_of_isText h]
  rfl

lemma WellShaped.shapedThroughout (h : node.WellShaped config)
    (hchildren : ∀ child ∈ node.childNodes, child.ShapedThroughout config) :
    node.ShapedThroughout config := by
  intro found hfound
  cases hfound with
  | self => exact h
  | step hopen hchild hfound => exact hchildren _ hchild found hfound

lemma unjoined_push {siblings : List Node} (h : Unjoined siblings) :
    Unjoined (push node siblings) := by
  cases siblings with
  | nil => exact .singleton _
  | cons next rest =>
    by_cases hjoins : node.isText = true ∧ next.isText = true
    · rw [push_of_joins hjoins.1 hjoins.2]
      cases rest with
      | nil => exact .singleton _
      | cons other rest =>
        obtain ⟨hnext, hrest⟩ := List.isChain_cons_cons.mp h
        refine List.isChain_cons_cons.mpr ⟨fun hboth => hnext ⟨hjoins.2, hboth.2⟩, hrest⟩
    · rw [push_of_not_joins (by simpa using hjoins)]
      exact List.isChain_cons_cons.mpr ⟨hjoins, h⟩

theorem unjoined_joinTexts (nodes : List Node) : Unjoined (joinTexts nodes) := by
  induction nodes with
  | nil => exact .nil
  | cons node rest ih =>
    rw [joinTexts_cons]
    exact unjoined_push ih

/-- Where text is joined and no block unwrapped, the new children of a node do not join. -/
lemma unjoined_rebuilt (hjoin : config.text.mergeAdjacentText = true)
    (hunwraps : config.UnwrapsNothing) (start : Int) (node : Node) :
    Unjoined (node.rebuilt config window start) := by
  rw [rebuilt, hjoin, Outcome.assemble_true_of_not_isIsolated fun _ ho =>
    isIsolated_of_mem_outcomes hunwraps ho]
  exact unjoined_joinTexts _

lemma wellShaped_withChildren {children : List Node}
    (hlist : node.category = .list → children ≠ [])
    (hfilled : config.preserveEmptyBlocks = false → children ≠ [])
    (hapart : config.text.mergeAdjacentText = true → config.UnwrapsNothing → Unjoined children) :
    (node.withChildren children).WellShaped config := by
  have hcategory : (node.withChildren children).category = node.category := by simp [category]
  have hchildren : (node.withChildren children).children = children.map .node := rfl
  constructor
  case parent => exact fun _ => rfl
  case nodes =>
    rw [hchildren]
    intro child hchild
    obtain ⟨inner, -, rfl⟩ := List.mem_map.mp hchild
    exact ⟨inner, rfl⟩
  case list =>
    rw [hcategory, hchildren]
    simpa using hlist
  case filled =>
    rw [hchildren]
    intro hempty _
    simpa using hfilled hempty
  case apart =>
    rw [childNodes_withChildren]
    exact hapart

/-- What comes out of the node has the shape, wherever it starts. -/
def ComesOutShaped (config : Config) (window : Span) (node : Node) : Prop :=
  ∀ (start : Int), ∀ next ∈ (node.outcome config window start).nodes,
    next.ShapedThroughout config

lemma shapedThroughout_of_mem_outcomes {nodes : List Node}
    (hnodes : ∀ node ∈ nodes, node.ComesOutShaped config window) {next : Node}
    (h : next ∈ (outcomes config window start nodes).flatMap Outcome.nodes) :
    next.ShapedThroughout config := by
  induction nodes generalizing start with
  | nil => simp [outcomes] at h
  | cons node rest ih =>
    rw [outcomes, List.flatMap_cons, List.mem_append] at h
    rcases h with h | h
    · exact hnodes node (by simp) start next h
    · exact ih (fun n hm => hnodes n (by simp [hm])) h

/-- A new child comes out of a child, or else is a leaf that was joined. -/
lemma shapedThroughout_of_mem_rebuilt
    (hchildren : ∀ child ∈ node.childNodes, child.ComesOutShaped config window) {next : Node}
    (h : next ∈ node.rebuilt config window start) : next.ShapedThroughout config := by
  cases htext : next.isText with
  | true => exact shapedThroughout_of_isText htext
  | false =>
    rw [rebuilt, Outcome.mem_assemble_of_not_isText htext] at h
    exact shapedThroughout_of_mem_outcomes hchildren h

/-- The node around its new children, if it is there at all, has the shape. -/
lemma shapedThroughout_of_mem_rebuild {evenEmpty : Bool}
    (hlist : node.category = .list → evenEmpty = false)
    (hfilled : config.preserveEmptyBlocks = false → evenEmpty = false)
    (hchildren : ∀ next ∈ node.rebuilt config window start, next.ShapedThroughout config)
    {next : Node} (h : next ∈ (Treatment.emit node (node.rebuilt config window start)
      (.rebuild evenEmpty)).nodes) : next.ShapedThroughout config := by
  simp only [Treatment.emit] at h
  split at h
  · simp [Outcome.nodes] at h
  · next hstays =>
    obtain rfl : next = node.withChildren (node.rebuilt config window start) := by
      simpa [Outcome.nodes] using h
    have hne (heven : evenEmpty = false) : node.rebuilt config window start ≠ [] := by
      intro hnil
      apply hstays
      rw [hnil, heven]
      rfl
    apply WellShaped.shapedThroughout
    · apply wellShaped_withChildren
      · exact fun hcategory => hne (hlist hcategory)
      · exact fun hempty => hne (hfilled hempty)
      · exact fun hjoin hunwraps => unjoined_rebuilt hjoin hunwraps start node
    · rw [childNodes_withChildren]
      exact hchildren

lemma wellShaped_of_bare (hloose : node.kind.isLoose = true) (hbare : node.isParent = false) :
    node.WellShaped config := by
  have hcategory : node.category = .media ∨ node.category = .unknown := by
    cases hkind : node.kind <;>
      simp_all [category, NodeKind.category, NodeKind.isLoose]
  cases node with
  | parent attributes children => simp [isParent] at hbare
  | bare attributes =>
    constructor
    case apart => exact fun _ _ => .nil
    all_goals rcases hcategory with hmedia | hunknown <;> simp_all [Node.children]

theorem comesOutShaped (config : Config) (window : Span) (node : Node) :
    node.ComesOutShaped config window := by
  induction node using Node.inductionOn with
  | step node ih =>
    intro start next hnext
    have hrebuilt : ∀ next ∈ node.rebuilt config window start, next.ShapedThroughout config :=
      fun next => shapedThroughout_of_mem_rebuilt ih
    cases hseen : (node.spanFrom start).misses window with
    | true => simp [outcome_of_misses hseen, Outcome.nodes] at hnext
    | false =>
      have htreated := node.treated config hseen
      rw [outcome_eq] at hnext
      generalize (node.decision config window start).treatment = treatment at htreated hnext
      cases htreated with
      | leftOut h => simp [Treatment.emit, Outcome.nodes] at hnext
      | excluded hpart h => simp [Treatment.emit, Outcome.nodes] at hnext
      | leaf hleaf h =>
        obtain rfl : next = node := by simpa [Treatment.emit, Outcome.nodes] using hnext
        obtain ⟨kind, hkind⟩ := exists_kind_of_bearsText hleaf
        exact shapedThroughout_of_isSealed (by rw [hkind]; rfl)
      | cut hkind hpart h =>
        simp only [Treatment.emit] at hnext
        split at hnext
        · simp [Outcome.nodes] at hnext
        · obtain rfl := List.mem_singleton.mp hnext
          exact shapedThroughout_of_isSealed (by rw [kind_withValue, hkind]; rfl)
      | atomic hkind =>
        obtain rfl : next = node := by simpa [Treatment.emit, Outcome.nodes] using hnext
        exact shapedThroughout_of_isSealed (by rw [hkind]; rfl)
      | bare hkind hbare =>
        obtain rfl : next = node := by simpa [Treatment.emit, Outcome.nodes] using hnext
        apply (wellShaped_of_bare hkind hbare).shapedThroughout
        cases next with
        | bare attributes => simp
        | parent attributes children => simp [isParent] at hbare
      | list hkind =>
        exact shapedThroughout_of_mem_rebuild (fun _ => rfl) (fun _ => rfl) hrebuilt hnext
      | container hleaf hlist hatomic hparent h =>
        exact shapedThroughout_of_mem_rebuild
          (fun hcategory => absurd (kind_of_category_list hcategory) hlist) id hrebuilt hnext
      | spliced hpart h =>
        rw [Treatment.emit, Outcome.nodes_content] at hnext
        exact hrebuilt next hnext

/-- So does a root that is made for the content of a node that gives way. -/
lemma shapedThroughout_of_tree? {tree : Node}
    (h : (node.outcome config window start).tree? = some tree) : tree.ShapedThroughout config := by
  have hnodes := node.comesOutShaped config window start
  cases hout : node.outcome config window start with
  | nothing => simp [hout, Outcome.tree?] at h
  | one single =>
    obtain rfl : single = tree := by simpa [hout, Outcome.tree?] using h
    exact hnodes single (by simp [hout, Outcome.nodes])
  | many nodes isolated =>
    obtain rfl : rootOf nodes = tree := by simpa [hout, Outcome.tree?] using h
    rw [hout] at hnodes
    have htreatment := treatment_of_many hout
    have hcontent : Outcome.content (node.rebuilt config window start) isolated =
        .many nodes isolated := by
      rw [← hout, outcome_eq, htreatment]
      rfl
    have hne : nodes ≠ [] := by
      rintro rfl
      simp only [Outcome.content] at hcontent
      split at hcontent
      · cases hcontent
      · next hsome => simp_all
    have hsame : nodes = node.rebuilt config window start := by
      rw [← Outcome.nodes_content (node.rebuilt config window start) isolated, hcontent]
      rfl
    apply WellShaped.shapedThroughout
    · rw [← withChildren_rootOf []]
      apply wellShaped_withChildren
      · exact fun _ => hne
      · exact fun _ => hne
      · rw [hsame]
        exact fun hjoin hunwraps => unjoined_rebuilt hjoin hunwraps start node
    · rw [childNodes_rootOf]
      exact hnodes

/-- Every node in an excerpt of a document with characters that can be taken apart, and that stands
in no leaf or break, is well-shaped. -/
theorem wellShaped_excerpt (config : Config) {node : Node} (hlength : 0 < node.length)
    (number : Nat) (range : Range) :
    ∃ excerpt, (node.excerpt config number range {}).1 = .ok excerpt ∧
      ∀ tree ∈ excerpt.node, ∀ found, tree.Exposes found → found.WellShaped config := by
  refine ⟨_, excerpt_fresh config number range node, fun tree htree => ?_⟩
  by_cases hrange : range.start < range.stopWithin node.length
  · rw [node_excerptAlone hrange] at htree
    exact shapedThroughout_of_tree? htree
  · rw [node_excerptAlone_of_le (by omega), if_neg (by omega)] at htree
    simp at htree

/-- A list that loses its only item, in a quotation with nothing else in it, and emphasis between
two texts. -/
def ragged : Node :=
  parent [("type", .str "root")]
    [.node (wrapperOf "blockquote" [wrapperOf "list" [wrapperOf "listItem" [leafOf "text" "ab"]]]),
      .stray (.int 1), .node (leafOf "text" "cd"),
      .node (wrapperOf "emphasis" [leafOf "text" "ef"]), .node (leafOf "text" "gh")]

/-- Cut emphasis gives way, cut items are dropped, and nothing stays that is empty. -/
def tidyPolicies : Config where
  behavior := { formatting := .strip, overrides := [.block .listItem .exclude] }
  preserveEmptyBlocks := false

theorem wellShaped_excerpt_ragged :
    0 < ragged.length ∧
      ∃ excerpt, (ragged.excerpt tidyPolicies 0 ⟨1, some 5, by decide⟩ {}).1 = .ok excerpt ∧
        excerpt.node = some (wrapperOf "root" [leafOf "text" "cde"]) ∧
        ∀ found, (wrapperOf "root" [leafOf "text" "cde"]).Exposes found →
          found.WellShaped tidyPolicies := by
  have hlength : 0 < ragged.length := by decide
  obtain ⟨excerpt, hexcerpt, hshaped⟩ :=
    wellShaped_excerpt tidyPolicies hlength 0 ⟨1, some 5, by decide⟩
  obtain rfl := Except.ok.inj (hexcerpt.symm.trans (excerpt_fresh _ _ _ _))
  exact ⟨hlength, _, hexcerpt, rfl, hshaped _ rfl⟩

end Node
end MarkdownExcerpt
