import MarkdownExcerpt.Log
import MarkdownExcerpt.Node

/-! The length of nodes in characters of document text, and a meter that remembers lengths. A node
is remembered by its place, so equal nodes at different places are different nodes. What a meter is
told to remember is believed, even a length below zero. -/

namespace MarkdownExcerpt

/-- Where a node stands: the number of its tree, and the indices that lead to it from the root. -/
structure NodeId where
  tree : Nat
  path : List Nat
  deriving DecidableEq, Repr

namespace NodeId

def root (tree : Nat) : NodeId := ⟨tree, []⟩

def child (id : NodeId) (index : Nat) : NodeId := ⟨id.tree, id.path ++ [index]⟩

end NodeId

mutual

/-- The number of characters of document text in a node, without any memory. -/
def Node.length (node : Node) : Nat :=
  if node.bearsText then node.text.length
  else
    match node with
    | .bare _ => 0
    | .parent _ children => Child.lengthOfList children

def Child.length : Child → Nat
  | .node node => node.length
  | .stray _ => 0

def Child.lengthOfList : List Child → Nat
  | [] => 0
  | child :: rest => child.length + Child.lengthOfList rest

end

/-- A node has the length of its own text, or else of its children. -/
theorem Node.length_eq (node : Node) :
    node.length =
      if node.bearsText then node.text.length else Child.lengthOfList node.children := by
  cases node <;> simp [Node.length, Node.children, Child.lengthOfList]

/-- Remembered lengths, and what was noted on the way. -/
structure Meter where
  entries : List (NodeId × Int) := []
  log : List LogEntry := []
  deriving DecidableEq, Repr

namespace Meter

def known? (meter : Meter) (id : NodeId) : Option Int := Assoc.get? id meter.entries

/-- Remembers a length, in place of the one remembered before. -/
def remember (meter : Meter) (id : NodeId) (length : Int) : Meter :=
  { meter with entries := Assoc.set id length meter.entries }

def note (meter : Meter) (entry : LogEntry) : Meter :=
  { meter with log := meter.log ++ [entry] }

/-- Forgets every length. -/
def clear (meter : Meter) : Meter := { meter with entries := [] }

def size (meter : Meter) : Nat := meter.entries.length

/-- The length of a leaf; a value that is no text is noted and has none. -/
def measureLeaf (meter : Meter) (kind : LeafKind) (node : Node) : Int × Meter :=
  match node.attribute? "value" with
  | some (.str value) => (value.length, meter)
  | value => (0, meter.note (.valueNotText kind.name (value.getD .null).kindName))

mutual

/-- The length of the node at a place. A remembered length is believed; any other is worked out,
with the lengths of all nodes on the way, and remembered. -/
def measure (meter : Meter) (id : NodeId) (node : Node) : Int × Meter :=
  match meter.known? id with
  | some length => (length, meter)
  | none =>
    let (length, meter) :=
      match node.kind with
      | .leaf kind => meter.measureLeaf kind node
      | _ =>
        match node with
        | .bare _ => (0, meter)
        | .parent _ children => meter.measureChildren id 0 children
    (length, meter.remember id length)

/-- The length of the children of a node from an index on. -/
def measureChildren (meter : Meter) (id : NodeId) (index : Nat) : List Child → Int × Meter
  | [] => (0, meter)
  | .stray _ :: rest => meter.measureChildren id (index + 1) rest
  | .node child :: rest =>
    let (length, meter) := meter.measure (id.child index) child
    let (others, meter) := meter.measureChildren id (index + 1) rest
    (length + others, meter)

end

theorem known?_remember (meter : Meter) (id other : NodeId) (length : Int) :
    (meter.remember id length).known? other =
      if id = other then some length else meter.known? other :=
  Assoc.get?_set id other length meter.entries

end Meter
end MarkdownExcerpt
