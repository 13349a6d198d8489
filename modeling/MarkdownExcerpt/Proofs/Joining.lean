import Mathlib.Data.List.Basic
import MarkdownExcerpt.Proofs.Agreement
import MarkdownExcerpt.Proofs.Node.Join

/-! Joining as a pass of its own. While a window is cut out, text is joined in each list of children
that is put together. As long as no policy unwraps blocks, cutting without joining and joining from
the leaves up afterwards gives the same. -/
namespace MarkdownExcerpt

/-- Nodes of the kind are never taken apart: leaves and breaks. -/
def NodeKind.isSealed : NodeKind → Bool
  | leaf _ => true
  | atomic _ => true
  | _ => false

mutual

/-- The node with text joined in every list of children in it, but for those of leaves and
breaks. -/
def Node.joinDeep : Node → Node
  | .bare attributes => .bare attributes
  | .parent attributes children =>
    let node := Node.parent attributes children
    if node.kind.isSealed then node
    else node.withChildren (Node.joinTexts (Child.joinDeepAll children))

def Child.joinDeepAll : List Child → List Node
  | [] => []
  | .stray _ :: rest => Child.joinDeepAll rest
  | .node child :: rest => child.joinDeep :: Child.joinDeepAll rest

end

lemma Child.joinDeepAll_eq (children : List Child) :
    Child.joinDeepAll children = (Child.nodes children).map Node.joinDeep := by
  induction children with
  | nil => rfl
  | cons child rest ih => cases child <;> simp [Child.joinDeepAll, ih]

namespace Node

theorem joinDeep_of_isSealed {node : Node} (h : node.kind.isSealed = true) :
    node.joinDeep = node := by
  cases node with
  | bare attributes => rfl
  | parent attributes children => rw [joinDeep, if_pos h]

theorem joinDeep_of_not_isParent {node : Node} (h : node.isParent = false) :
    node.joinDeep = node := by
  cases node with
  | bare attributes => rfl
  | parent attributes children => simp [isParent] at h

/-- Any other node gets its children joined among each other, once each of them is joined. -/
theorem joinDeep_of_isParent {node : Node} (h : node.isParent = true)
    (hopen : node.kind.isSealed = false) :
    node.joinDeep = node.withChildren (joinTexts (node.childNodes.map joinDeep)) := by
  cases node with
  | bare attributes => simp [isParent] at h
  | parent attributes children =>
    rw [joinDeep, hopen, if_neg Bool.false_ne_true, Child.joinDeepAll_eq]
    rfl

lemma joinDeep_withChildren {node : Node} (hopen : node.kind.isSealed = false)
    (children : List Node) :
    (node.withChildren children).joinDeep =
      node.withChildren (joinTexts (children.map joinDeep)) := by
  rw [joinDeep_of_isParent (by simp) (by simpa using hopen), childNodes_withChildren,
    withChildren_withChildren]

lemma bearsText_of_not_isSealed {node : Node} (hopen : node.kind.isSealed = false) :
    node.bearsText = false := by
  cases hkind : node.kind <;> simp_all [NodeKind.isSealed, bearsText, NodeKind.isLeaf]

/-- Joining keeps the text. -/
theorem characters_joinDeep (node : Node) : node.joinDeep.characters = node.characters := by
  induction node using Node.inductionOn with
  | step node ih =>
    cases hopen : node.kind.isSealed with
    | true => rw [joinDeep_of_isSealed hopen]
    | false =>
      cases hparent : node.isParent with
      | false => rw [joinDeep_of_not_isParent hparent]
      | true =>
        have hleaf := bearsText_of_not_isSealed hopen
        rw [joinDeep_of_isParent hparent hopen,
          characters_of_not_bearsText (by simpa using hleaf), childNodes_withChildren,
          characters_joinTexts, List.flatMap_map, characters_of_not_bearsText hleaf]
        exact List.flatMap_congr ih

@[simp] theorem length_joinDeep (node : Node) : node.joinDeep.length = node.length :=
  length_eq_of_characters node.characters_joinDeep

end Node

namespace Config

/-- The configuration by which text is joined, or is not. -/
def joining (join : Bool) (config : Config) : Config :=
  { config with text := { config.text with mergeAdjacentText := join } }

/-- No block gives way to its content. -/
def UnwrapsNothing (config : Config) : Prop :=
  ∀ kind, config.behavior.blockPolicy kind ≠ .unwrap

lemma UnwrapsNothing.isBlock_of_splices {config : Config} (h : config.UnwrapsNothing)
    {kind : NodeKind} (hsplices : config.splices kind = true) : kind.isBlock = false := by
  cases kind with
  | block kind => exact absurd (by simpa [splices] using hsplices) (h kind)
  | _ => rfl

end Config

/-- What comes out of a node, joined afterwards. -/
def Outcome.joinDeep : Outcome → Outcome
  | nothing => nothing
  | one node => one node.joinDeep
  | many nodes isolated => many (Node.joinTexts (nodes.map Node.joinDeep)) isolated

namespace Outcome

@[simp] theorem isIsolated_joinDeep (outcome : Outcome) :
    outcome.joinDeep.isIsolated = outcome.isIsolated := by cases outcome <;> rfl

lemma joinDeep_content (nodes : List Node) (isolated : Bool) :
    (content nodes isolated).joinDeep =
      content (Node.joinTexts (nodes.map Node.joinDeep)) isolated := by
  cases nodes with
  | nil => rfl
  | cons node rest => simp [content, joinDeep]

lemma tree?_joinDeep (outcome : Outcome) :
    outcome.joinDeep.tree? = outcome.tree?.map Node.joinDeep := by
  cases outcome with
  | many nodes isolated =>
    have hopen : (Node.rootOf nodes).kind.isSealed = false := rfl
    have hroot := Node.joinDeep_withChildren hopen nodes
    rw [Node.withChildren_rootOf, Node.withChildren_rootOf] at hroot
    simp [joinDeep, tree?, hroot]
  | _ => rfl

/-- In a list of children, what is joined joins like what is yet to be joined. -/
lemma joinsLike_nodes_joinDeep (outcome : Outcome) :
    Node.JoinsLike outcome.joinDeep.nodes (outcome.nodes.map Node.joinDeep) := by
  cases outcome with
  | many nodes isolated => exact Node.joinsLike_joinTexts _
  | _ => exact fun _ => rfl

lemma joinsLike_flatMap_joinDeep (outcomes : List Outcome) :
    Node.JoinsLike ((outcomes.map joinDeep).flatMap nodes)
      ((outcomes.flatMap nodes).map Node.joinDeep) := by
  induction outcomes with
  | nil => exact fun _ => rfl
  | cons outcome rest ih =>
    rw [List.map_cons, List.flatMap_cons, List.flatMap_cons, List.map_append]
    exact (joinsLike_nodes_joinDeep outcome).append ih

/-- Siblings of which none is isolated are one run. -/
lemma runs_of_not_isIsolated {outcomes : List Outcome}
    (h : ∀ outcome ∈ outcomes, outcome.isIsolated = false) :
    runs outcomes = (outcomes.flatMap nodes, []) := by
  induction outcomes with
  | nil => rfl
  | cons outcome rest ih =>
    simp [runs, ih fun o ho => h o (List.mem_cons_of_mem _ ho), h outcome (by simp)]

lemma assemble_true_of_not_isIsolated {outcomes : List Outcome}
    (h : ∀ outcome ∈ outcomes, outcome.isIsolated = false) :
    assemble true outcomes = Node.joinTexts (outcomes.flatMap nodes) := by
  simp [assemble, runs_of_not_isIsolated h]

/-- Joining what was joined before and joining what was not gives the same children. -/
lemma assemble_joinDeep {outcomes : List Outcome}
    (h : ∀ outcome ∈ outcomes, outcome.isIsolated = false) :
    assemble true (outcomes.map joinDeep) =
      Node.joinTexts ((assemble false outcomes).map Node.joinDeep) := by
  have hjoined : ∀ outcome ∈ outcomes.map joinDeep, outcome.isIsolated = false := by
    intro outcome ho
    obtain ⟨apart, hapart, rfl⟩ := List.mem_map.mp ho
    rw [isIsolated_joinDeep, h apart hapart]
  rw [assemble_true_of_not_isIsolated hjoined, assemble_false]
  exact (joinsLike_flatMap_joinDeep outcomes).joinTexts_eq

end Outcome

namespace Node

variable {config : Config} {window : Span} {start : Int} {node : Node}

/-- Whether text is joined makes no difference to what becomes of a node. -/
lemma decision_joining (join : Bool) :
    node.decision (config.joining join) window start = node.decision config window start := rfl

theorem decisions_joining (config : Config) (window : Span) (join : Bool) (node : Node)
    (start : Int) :
    node.decisions (config.joining join) window start = node.decisions config window start := by
  have halike : DecidesAlike config (config.joining join) window window 0 (node.spansFrom start) :=
    fun entry _ => by rw [Int.add_zero, decision_joining]
  have hsame := decisions_congr halike
  rwa [Int.add_zero] at hsame

lemma isIsolated_outcome (h : config.UnwrapsNothing) :
    (node.outcome config window start).isIsolated = false := by
  rw [outcome_eq]
  cases htreatment : (node.decision config window start).treatment with
  | splice isolated =>
    obtain ⟨hpart, hsplices⟩ := splices_of_treatment htreatment
    have htreated := node.treated config hpart.1
    rw [htreatment] at htreated
    obtain rfl : isolated = false := by
      cases htreated
      exact h.isBlock_of_splices hsplices
    simp only [Treatment.emit, Outcome.content]
    split <;> rfl
  | shorten value =>
    simp only [Treatment.emit]
    split <;> rfl
  | rebuild evenEmpty =>
    simp only [Treatment.emit]
    split <;> rfl
  | _ => rfl

/-- Cutting with joining gives what joining gives after cutting without. -/
def JoinsAfterwards (config : Config) (window : Span) (node : Node) : Prop :=
  ∀ start : Int, node.outcome (config.joining true) window start =
    (node.outcome (config.joining false) window start).joinDeep

lemma outcomes_joining {nodes : List Node}
    (hnodes : ∀ node ∈ nodes, node.JoinsAfterwards config window) (start : Int) :
    outcomes (config.joining true) window start nodes =
      (outcomes (config.joining false) window start nodes).map Outcome.joinDeep := by
  induction nodes generalizing start with
  | nil => rfl
  | cons node rest ih =>
    rw [outcomes, outcomes, List.map_cons, hnodes node (by simp) start,
      ih fun n hm => hnodes n (by simp [hm])]

lemma isIsolated_of_mem_outcomes (h : config.UnwrapsNothing) {nodes : List Node}
    {outcome : Outcome} (ho : outcome ∈ outcomes config window start nodes) :
    outcome.isIsolated = false := by
  induction nodes generalizing start with
  | nil => simp [outcomes] at ho
  | cons node rest ih =>
    rcases List.mem_cons.mp ho with rfl | ho
    · exact isIsolated_outcome h
    · exact ih ho

lemma rebuilt_joining (h : config.UnwrapsNothing)
    (hchildren : ∀ child ∈ node.childNodes, child.JoinsAfterwards config window) :
    node.rebuilt (config.joining true) window start =
      joinTexts ((node.rebuilt (config.joining false) window start).map joinDeep) := by
  have hfree : (config.joining false).UnwrapsNothing := h
  rw [rebuilt, rebuilt, outcomes_joining hchildren]
  exact Outcome.assemble_joinDeep fun _ ho => isIsolated_of_mem_outcomes hfree ho

/-- Whatever becomes of a node, carrying it out commutes with joining. -/
lemma Treated.emit_joinDeep {treatment : Treatment}
    (h : node.Treated config window start treatment) (children : List Node) :
    Treatment.emit node (joinTexts (children.map joinDeep)) treatment =
      (Treatment.emit node children treatment).joinDeep := by
  have hrebuild (hopen : node.kind.isSealed = false) (evenEmpty : Bool) :
      Treatment.emit node (joinTexts (children.map joinDeep)) (.rebuild evenEmpty) =
        (Treatment.emit node children (.rebuild evenEmpty)).joinDeep := by
    have hempty : (joinTexts (children.map joinDeep)).isEmpty = children.isEmpty := by
      cases children <;> simp
    simp only [Treatment.emit, hempty]
    split
    · rfl
    · rw [Outcome.joinDeep, joinDeep_withChildren hopen]
  cases h with
  | leftOut => rfl
  | excluded => rfl
  | leaf hleaf =>
    obtain ⟨kind, hkind⟩ := exists_kind_of_bearsText hleaf
    have hsealed : node.kind.isSealed = true := by rw [hkind]; rfl
    rw [Treatment.emit, Treatment.emit, Outcome.joinDeep, joinDeep_of_isSealed hsealed]
  | @cut kind hkind =>
    have hsealed (value : String) : (node.withValue value).kind.isSealed = true := by
      rw [kind_withValue, hkind]
      rfl
    simp only [Treatment.emit]
    split
    · rfl
    · rw [Outcome.joinDeep, joinDeep_of_isSealed (hsealed _)]
  | atomic hkind =>
    have hsealed : node.kind.isSealed = true := by rw [hkind]; rfl
    rw [Treatment.emit, Treatment.emit, Outcome.joinDeep, joinDeep_of_isSealed hsealed]
  | bare hkind hbare =>
    rw [Treatment.emit, Treatment.emit, Outcome.joinDeep, joinDeep_of_not_isParent hbare]
  | list hkind => exact hrebuild (by rw [hkind]; rfl) _
  | container hleaf hlist hatomic =>
    refine hrebuild ?_ _
    cases hkind : node.kind <;>
      simp_all [NodeKind.isSealed, bearsText, NodeKind.isLeaf, category, NodeKind.category]
  | spliced => rw [Treatment.emit, Treatment.emit, Outcome.joinDeep_content]

theorem joinsAfterwards {config : Config} (h : config.UnwrapsNothing) (window : Span)
    (node : Node) : node.JoinsAfterwards config window := by
  induction node using Node.inductionOn with
  | step node ih =>
    intro start
    rw [outcome_eq, outcome_eq, decision_joining, decision_joining]
    cases hseen : (node.spanFrom start).misses window with
    | true =>
      rw [decision_of_misses hseen]
      rfl
    | false =>
      rw [rebuilt_joining h ih]
      exact (node.treated config hseen).emit_joinDeep _

/-- With joining, the excerpt of a tree with characters is that without joining, joined afterwards;
its boundaries and what is said about it are the same. -/
theorem excerpt_joining {config : Config} (h : config.UnwrapsNothing) {node : Node}
    (hlength : 0 < node.length) (number : Nat) (range : Range) :
    ∃ apart, (node.excerpt (config.joining false) number range {}).1 = .ok apart ∧
      (node.excerpt (config.joining true) number range {}).1 =
        .ok { apart with node := apart.node.map joinDeep } := by
  refine ⟨_, excerpt_fresh _ number range node, ?_⟩
  rw [excerpt_fresh]
  have htally (join : Bool) (window : Span) :
      node.tallyOf (config.joining join) window = node.tallyOf config window := by
    rw [tallyOf, tallyOf, decisions_joining]
  have hout := joinsAfterwards h ⟨range.start, range.stopWithin node.length⟩ node 0
  have hne : node.length ≠ 0 := by omega
  simp only [excerptAlone, htally, hout, Outcome.tree?_joinDeep, if_neg hne]
  split
  · rfl
  · simp [Option.map_map, Function.comp_def]

/-- Text beside emphasis that holds two leaves of its own. -/
def refrain : Node :=
  wrapperOf "root" [leafOf "text" "ab",
    wrapperOf "emphasis" [leafOf "text" "cd", leafOf "text" "ef"], leafOf "text" "gh"]

/-- Emphasis that is cut gives way to its content. -/
def withoutEmphasis : Config where
  behavior := { formatting := .strip }

theorem excerpt_joining_refrain :
    withoutEmphasis.UnwrapsNothing ∧ 0 < refrain.length ∧
      ∃ apart, (refrain.excerpt (withoutEmphasis.joining false) 0 ⟨1, some 5, by decide⟩ {}).1 =
          .ok apart ∧
        apart.node = some (wrapperOf "root"
          [leafOf "text" "b", leafOf "text" "cd", leafOf "text" "e"]) ∧
        (refrain.excerpt (withoutEmphasis.joining true) 0 ⟨1, some 5, by decide⟩ {}).1 =
          .ok { apart with node := some (wrapperOf "root" [leafOf "text" "bcde"]) } := by
  have hunwraps : withoutEmphasis.UnwrapsNothing := by
    intro kind
    cases kind <;> decide
  have hlength : 0 < refrain.length := by decide
  obtain ⟨apart, hapart, hjoined⟩ :=
    excerpt_joining hunwraps hlength 0 ⟨1, some 5, by decide⟩
  obtain rfl := Except.ok.inj (hapart.symm.trans (excerpt_fresh _ _ _ _))
  exact ⟨hunwraps, hlength, _, hapart, rfl, hjoined⟩

end Node
end MarkdownExcerpt
