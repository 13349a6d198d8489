import MarkdownExcerpt.Document
import MarkdownExcerpt.Meter
import MarkdownExcerpt.Proofs.Node.Children

/-! Meters that remember only true lengths. Such a meter measures every node right, whatever it
remembers, and stays sound: a fresh meter is the simplest one. -/
namespace MarkdownExcerpt

namespace Node

/-- The node at a path of indices below a node. -/
def nodeAt? (node : Node) (path : List Nat) : Option Node :=
  match node.at? path with
  | some (.node found) => some found
  | _ => none

@[simp] theorem nodeAt?_nil (node : Node) : node.nodeAt? [] = some node := rfl

lemma nodeAt?_cons {node child : Node} {index : Nat}
    (h : node.children[index]? = some (.node child)) (path : List Nat) :
    node.nodeAt? (index :: path) = child.nodeAt? path := by
  simp [nodeAt?, at?_cons_node h]

lemma nodeAt?_cons_eq_some {node found : Node} {index : Nat} {path : List Nat}
    (h : node.nodeAt? (index :: path) = some found) :
    ∃ child, node.children[index]? = some (.node child) ∧ child.nodeAt? path = some found := by
  unfold nodeAt? at?  at h
  cases hc : node.children[index]? with
  | none => simp [hc] at h
  | some child =>
    cases child with
    | node child => exact ⟨child, rfl, by simpa [nodeAt?, hc] using h⟩
    | stray value => cases hp : path.isEmpty <;> simp [hc, hp] at h

/-- One step further down a path leads to a child. -/
theorem nodeAt?_append_singleton {node found child : Node} {path : List Nat} {index : Nat}
    (h : node.nodeAt? path = some found) (hc : found.children[index]? = some (.node child)) :
    node.nodeAt? (path ++ [index]) = some child := by
  induction path generalizing node with
  | nil =>
    obtain rfl : node = found := by simpa using h
    simpa using nodeAt?_cons hc []
  | cons first path ih =>
    obtain ⟨next, hnext, hfound⟩ := nodeAt?_cons_eq_some h
    rw [List.cons_append, nodeAt?_cons hnext]
    exact ih hfound

end Node

/-- The nodes among children, the first of which has an index, have a property at the places below
that of their parent. -/
def Child.EachAt (property : NodeId → Node → Prop) (id : NodeId) (index : Nat)
    (children : List Child) : Prop :=
  ∀ i child, children[i]? = some (.node child) → property (id.child (index + i)) child

namespace Child.EachAt

variable {property : NodeId → Node → Prop} {id : NodeId} {index : Nat} {rest : List Child}

lemma head {child : Node} (h : EachAt property id index (.node child :: rest)) :
    property (id.child index) child := h 0 child rfl

lemma tail {first : Child} (h : EachAt property id index (first :: rest)) :
    EachAt property id (index + 1) rest := by
  intro i child hchild
  have hproperty := h (i + 1) child (by simpa using hchild)
  rwa [show index + (i + 1) = index + 1 + i by omega] at hproperty

lemma cons {first : Child} (hfirst : ∀ child, first = .node child → property (id.child index) child)
    (hrest : EachAt property id (index + 1) rest) : EachAt property id index (first :: rest) := by
  intro i child hchild
  cases i with
  | zero => exact hfirst child (by simpa using hchild)
  | succ i =>
    have hproperty := hrest i child (by simpa using hchild)
    rwa [show index + 1 + i = index + (i + 1) by omega] at hproperty

end Child.EachAt

/-- Nodes at places, each with its children at the places below it. -/
structure Forest where
  node? : NodeId → Option Node
  node?_child : ∀ {id : NodeId} {node child : Node} {index : Nat}, node? id = some node →
    node.children[index]? = some (.node child) → node? (id.child index) = some child

namespace Forest

/-- The nodes of one tree. -/
def ofTree (number : Nat) (root : Node) : Forest where
  node? id := if id.tree = number then root.nodeAt? id.path else none
  node?_child {id node child index} h hc := by
    by_cases ht : id.tree = number
    · simp only [if_pos ht] at h
      simpa [NodeId.child, ht] using Node.nodeAt?_append_singleton h hc
    · simp [ht] at h

@[simp] theorem node?_ofTree_root (number : Nat) (root : Node) :
    (ofTree number root).node? (.root number) = some root := by
  simp [ofTree, NodeId.root]

/-- The children from an index on stand below the place of their parent. -/
def Holds (forest : Forest) (id : NodeId) (index : Nat) (children : List Child) : Prop :=
  Child.EachAt (fun place node => forest.node? place = some node) id index children

lemma holds_children {forest : Forest} {id : NodeId} {node : Node}
    (h : forest.node? id = some node) : forest.Holds id 0 node.children := by
  intro i child hc
  simpa using forest.node?_child h hc

end Forest

namespace Meter

/-- What is remembered of the nodes of a forest is true. -/
def Sound (forest : Forest) (meter : Meter) : Prop :=
  ∀ id node length, forest.node? id = some node → meter.known? id = some length →
    length = node.length

theorem sound_fresh (forest : Forest) : Sound forest {} := by
  intro id node length _ hk
  simp [known?] at hk

lemma Sound.remember {forest : Forest} {meter : Meter} {id : NodeId} {node : Node}
    (h : meter.Sound forest) (hn : forest.node? id = some node) :
    (meter.remember id node.length).Sound forest := by
  intro other found length hf hk
  rw [known?_remember] at hk
  split at hk
  · next heq =>
    subst heq
    obtain rfl : node = found := Option.some.inj (hn.symm.trans hf)
    exact (Option.some.inj hk).symm
  · exact h other found length hf hk

lemma Sound.measureLeaf {forest : Forest} {meter : Meter} (h : meter.Sound forest)
    {kind : LeafKind} {node : Node} (hk : node.kind = .leaf kind) :
    (meter.measureLeaf kind node).1 = node.length ∧
      (meter.measureLeaf kind node).2.Sound forest := by
  have hlen : node.length = node.text.length := by
    rw [Node.length_eq, if_pos (by simp [Node.bearsText, hk, NodeKind.isLeaf])]
  unfold Meter.measureLeaf
  split
  · next value hv => exact ⟨by simp [hlen, Node.text, hv, Json.text?], h⟩
  · next value hv =>
    refine ⟨?_, h⟩
    have : node.text = "" := by
      unfold Node.text
      cases ha : node.attribute? "value" with
      | none => rfl
      | some json => cases json <;> simp_all [Json.text?]
    simp [hlen, this]

/-- What a meter does with a node that it does not remember. -/
lemma measure_of_unknown {meter : Meter} {id : NodeId} (h : meter.known? id = none) (node : Node) :
    meter.measure id node =
      let measured :=
        match node.kind with
        | .leaf kind => meter.measureLeaf kind node
        | _ => meter.measureChildren id 0 node.children
      (measured.1, measured.2.remember id measured.1) := by
  cases node with
  | bare attributes =>
    cases hk : (Node.bare attributes).kind <;>
      simp [measure, h, hk, Node.children, measureChildren]
  | parent attributes children =>
    cases hk : (Node.parent attributes children).kind <;> simp [measure, h, hk, Node.children]

/-- Sound meters of a forest measure a node right wherever it stands, and stay sound. -/
def MeasuresRight (forest : Forest) (node : Node) : Prop :=
  ∀ (meter : Meter) (id : NodeId), meter.Sound forest → forest.node? id = some node →
    (meter.measure id node).1 = node.length ∧ (meter.measure id node).2.Sound forest

lemma Sound.measureChildren {forest : Forest} {id : NodeId} {children : List Child}
    (hright : ∀ child ∈ Child.nodes children, MeasuresRight forest child) {meter : Meter}
    (h : meter.Sound forest) {index : Nat} (hc : forest.Holds id index children) :
    (meter.measureChildren id index children).1 = Child.lengthOfList children ∧
      (meter.measureChildren id index children).2.Sound forest := by
  induction children generalizing meter index with
  | nil => exact ⟨rfl, h⟩
  | cons child rest ih =>
    cases child with
    | stray value =>
      simpa [Meter.measureChildren, Child.lengthOfList, Child.length] using ih hright h hc.tail
    | node child =>
      obtain ⟨hlength, hsound⟩ := hright child (by simp) meter (id.child index) h hc.head
      obtain ⟨hothers, hlast⟩ := ih (fun c hm => hright c (by simp [hm])) hsound hc.tail
      refine ⟨?_, hlast⟩
      simp [Meter.measureChildren, Child.lengthOfList, Child.length, hlength, hothers]

/-- A sound meter measures every node right, and stays sound. -/
theorem measuresRight (forest : Forest) (node : Node) : MeasuresRight forest node := by
  induction node using Node.inductionOn with
  | step node ih =>
    intro meter id h hn
    cases hk : meter.known? id with
    | some length =>
      rw [measure.eq_def, hk]
      exact ⟨h id node length hn hk, h⟩
    | none =>
      rw [measure_of_unknown hk]
      have hstep : ∀ measured : Int × Meter, measured.1 = node.length → measured.2.Sound forest →
          measured.1 = node.length ∧ (measured.2.remember id measured.1).Sound forest :=
        fun measured hlength hsound => ⟨hlength, hlength ▸ hsound.remember hn⟩
      by_cases hleaf : node.bearsText
      · obtain ⟨kind, hkind⟩ := Node.exists_kind_of_bearsText hleaf
        simp only [hkind]
        exact hstep _ (h.measureLeaf hkind).1 (h.measureLeaf hkind).2
      · have hchildren := h.measureChildren ih (forest.holds_children hn)
        have hlength : node.length = Child.lengthOfList node.children := by
          rw [Node.length_eq, if_neg hleaf]
        rw [← hlength] at hchildren
        cases hkind : node.kind with
        | leaf kind => simp [Node.bearsText, hkind, NodeKind.isLeaf] at hleaf
        | _ => exact hstep _ hchildren.1 hchildren.2

theorem Sound.measure {forest : Forest} {meter : Meter} (h : meter.Sound forest) {id : NodeId}
    {node : Node} (hn : forest.node? id = some node) :
    (meter.measure id node).1 = node.length ∧ (meter.measure id node).2.Sound forest :=
  measuresRight forest node meter id h hn

/-- A fresh meter measures every tree right. -/
lemma measure_fresh (number : Nat) (node : Node) :
    (({} : Meter).measure (.root number) node).1 = node.length :=
  ((sound_fresh (.ofTree number node)).measure (Forest.node?_ofTree_root number node)).1

end Meter
end MarkdownExcerpt
