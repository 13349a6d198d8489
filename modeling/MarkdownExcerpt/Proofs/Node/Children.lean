import Mathlib.Tactic.Lemma
import MarkdownExcerpt.Search

/-! Induction over trees by the children that are nodes, and the measures of a node in terms of
those children. What else stands in a list of children plays no part. -/
namespace MarkdownExcerpt

/-- The nodes among children. -/
def Child.nodes (children : List Child) : List Node :=
  children.filterMap fun
    | .node child => some child
    | .stray _ => none

/-- The length of siblings together. -/
def Node.lengthOf : List Node → Nat
  | [] => 0
  | node :: rest => node.length + lengthOf rest

namespace Child

@[simp] theorem nodes_nil : nodes [] = [] := rfl

@[simp] theorem nodes_node (node : Node) (rest : List Child) :
    nodes (.node node :: rest) = node :: nodes rest := rfl

@[simp] theorem nodes_stray (value : Json) (rest : List Child) :
    nodes (.stray value :: rest) = nodes rest := rfl

lemma lengthOfList_eq (children : List Child) :
    lengthOfList children = Node.lengthOf (nodes children) := by
  induction children with
  | nil => rfl
  | cons child rest ih => cases child <;> simp [lengthOfList, Child.length, Node.lengthOf, ih]

lemma charactersOfList_eq (children : List Child) :
    charactersOfList children = (nodes children).flatMap Node.characters := by
  induction children with
  | nil => rfl
  | cons child rest ih => cases child <;> simp [charactersOfList, Child.characters, ih]

end Child

/-- A node among children, with its index and the offset at which it starts. -/
structure Seat where
  index : Nat
  start : Int
  node : Node
  deriving Repr

namespace Child

/-- The nodes among children from an index on, the first of which starts at an offset. -/
def seats (index : Nat) (start : Int) : List Child → List Seat
  | [] => []
  | .stray _ :: rest => seats (index + 1) start rest
  | .node child :: rest => ⟨index, start, child⟩ :: seats (index + 1) (start + child.length) rest

variable {index : Nat} {start : Int} {children : List Child} {seat other : Seat}

lemma index_le_of_mem_seats (h : seat ∈ seats index start children) : index ≤ seat.index := by
  induction children generalizing index start with
  | nil => simp [seats] at h
  | cons child rest ih =>
    cases child with
    | stray value => exact Nat.le_of_succ_le (ih h)
    | node child =>
      rcases List.mem_cons.mp h with rfl | hm
      · exact Nat.le_refl _
      · exact Nat.le_of_succ_le (ih hm)

lemma seats_inj (h : seat ∈ seats index start children) (h' : other ∈ seats index start children)
    (heq : seat.index = other.index) : seat = other := by
  induction children generalizing index start with
  | nil => simp [seats] at h
  | cons child rest ih =>
    cases child with
    | stray value => exact ih h h'
    | node child =>
      rcases List.mem_cons.mp h with rfl | hm <;> rcases List.mem_cons.mp h' with rfl | hm'
      · rfl
      · have hle := index_le_of_mem_seats hm'
        simp only at heq
        omega
      · have hle := index_le_of_mem_seats hm
        simp only at heq
        omega
      · exact ih hm hm'

lemma mem_nodes_of_mem_seats (h : seat ∈ seats index start children) :
    seat.node ∈ nodes children := by
  induction children generalizing index start with
  | nil => simp [seats] at h
  | cons child rest ih =>
    cases child with
    | stray value => exact ih h
    | node child =>
      rcases List.mem_cons.mp h with rfl | hm
      · simp
      · simp [ih hm]

/-- The nodes lie one after another within the length of all children. -/
lemma seat_bounds (h : seat ∈ seats index start children) :
    start ≤ seat.start ∧ seat.start + seat.node.length ≤ start + lengthOfList children := by
  induction children generalizing index start with
  | nil => simp [seats] at h
  | cons child rest ih =>
    cases child with
    | stray value => simpa [lengthOfList, Child.length] using ih h
    | node child =>
      simp only [lengthOfList, Child.length]
      rcases List.mem_cons.mp h with rfl | hm
      · simp only
        omega
      · have hbounds := ih hm
        omega

end Child

namespace Node

/-- A node with a type and a value. -/
def leafOf (type value : String) : Node := bare [("type", .str type), ("value", .str value)]

/-- A node with a type and children. -/
def wrapperOf (type : String) (children : List Node) : Node :=
  parent [("type", .str type)] (children.map .node)

@[simp] theorem lengthOf_nil : lengthOf [] = 0 := rfl

@[simp] theorem lengthOf_cons (node : Node) (rest : List Node) :
    lengthOf (node :: rest) = node.length + lengthOf rest := rfl

theorem lengthOf_eq_zero_iff {nodes : List Node} :
    lengthOf nodes = 0 ↔ ∀ node ∈ nodes, node.length = 0 := by
  induction nodes with
  | nil => simp
  | cons node rest ih => simp [ih]

theorem childNodes_eq (node : Node) : node.childNodes = Child.nodes node.children := rfl

@[simp] theorem childNodes_bare (attributes : Fields) : (bare attributes).childNodes = [] := rfl

mutual

/-- What holds of a node whenever it holds of its children holds of every node. -/
@[elab_as_elim]
theorem inductionOn {motive : Node → Prop} (node : Node)
    (step : ∀ node : Node, (∀ child ∈ node.childNodes, motive child) → motive node) :
    motive node :=
  match node with
  | .bare attributes => step (.bare attributes) (by simp)
  | .parent attributes children => step (.parent attributes children) (inductionOnAll step children)

theorem inductionOnAll {motive : Node → Prop}
    (step : ∀ node : Node, (∀ child ∈ node.childNodes, motive child) → motive node) :
    (children : List Child) → ∀ child ∈ Child.nodes children, motive child
  | [] => by simp
  | .stray _ :: rest => inductionOnAll step rest
  | .node first :: rest => by
    intro child hmem
    rcases List.mem_cons.mp hmem with heq | hmem
    · exact heq ▸ inductionOn first step
    · exact inductionOnAll step rest child hmem

end

lemma bearsText_of_leaf {node : Node} {kind : LeafKind} (h : node.kind = .leaf kind) :
    node.bearsText = true := by
  simp [bearsText, h, NodeKind.isLeaf]

lemma bearsText_of_list {node : Node} (h : node.kind = .list) : node.bearsText = false := by
  simp [bearsText, h, NodeKind.isLeaf]

/-- A node of a known kind has the type name of its kind. -/
lemma type?_eq_name? {node : Node} (h : node.kind ≠ .unknown) :
    node.type? = node.kind.name? := by
  unfold kind at h ⊢
  cases htype : node.type? with
  | none => simp [htype] at h
  | some type =>
    rw [htype] at h
    exact (NodeKind.name?_ofName h).symm

lemma exists_kind_of_bearsText {node : Node} (h : node.bearsText = true) :
    ∃ kind, node.kind = .leaf kind := by
  cases hkind : node.kind <;> simp_all [bearsText, NodeKind.isLeaf]

theorem length_of_not_bearsText {node : Node} (h : node.bearsText = false) :
    node.length = lengthOf node.childNodes := by
  rw [length_eq, h, Child.lengthOfList_eq]
  rfl

lemma length_eq_of_characters {first second : Node}
    (h : first.characters = second.characters) : first.length = second.length := by
  rw [← length_characters, h, length_characters]

theorem characters_of_bearsText {node : Node} (h : node.bearsText = true) :
    node.characters = node.text.toList := by
  rw [characters_eq, if_pos h]

theorem characters_of_not_bearsText {node : Node} (h : node.bearsText = false) :
    node.characters = node.childNodes.flatMap Node.characters := by
  rw [characters_eq, h, Child.charactersOfList_eq]
  rfl

lemma length_of_bare {node : Node} (hleaf : node.bearsText = false) (hbare : node.isParent = false) :
    node.length = 0 := by
  cases node with
  | bare attributes => simp [length_of_not_bearsText hleaf]
  | parent attributes children => simp [isParent] at hbare

@[simp] theorem kind_withValue (value : String) (node : Node) :
    (node.withValue value).kind = node.kind := by simp [kind]

@[simp] theorem kind_withChildren (children : List Node) (node : Node) :
    (node.withChildren children).kind = node.kind := by simp [kind]

@[simp] theorem bearsText_withValue (value : String) (node : Node) :
    (node.withValue value).bearsText = node.bearsText := by simp [bearsText]

@[simp] theorem bearsText_withChildren (children : List Node) (node : Node) :
    (node.withChildren children).bearsText = node.bearsText := by simp [bearsText]

@[simp] theorem childNodes_rootOf (children : List Node) :
    (rootOf children).childNodes = children :=
  childNodes_withChildren children (bare [("type", .str "root")])

@[simp] theorem kind_rootOf (children : List Node) : (rootOf children).kind = .root := rfl

@[simp] theorem withChildren_rootOf (first second : List Node) :
    (rootOf first).withChildren second = rootOf second := rfl

theorem withChildren_withChildren (first second : List Node) (node : Node) :
    (node.withChildren first).withChildren second = node.withChildren second := by
  simp [withChildren, attributes, Assoc.erase_erase]

end Node
end MarkdownExcerpt
