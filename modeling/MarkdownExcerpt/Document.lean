import MarkdownExcerpt.Node

/-! Documents: a syntax tree, no tree at all, or a value that is no tree. -/

namespace MarkdownExcerpt

inductive Document where
  | empty
  | tree (root : Node)
  | malformed
  deriving Repr

namespace Document

def ofJson : Json → Document
  | .null => empty
  | .obj fields => tree (.ofFields fields)
  | _ => malformed

end Document

/-- What stands at a path of indices below a node. -/
def Node.at? (node : Node) : List Nat → Option Child
  | [] => some (.node node)
  | index :: path =>
    match node.children[index]? with
    | some (.node child) => child.at? path
    | some (.stray value) => if path.isEmpty then some (.stray value) else none
    | none => none

@[simp] theorem Node.at?_nil (node : Node) : node.at? [] = some (.node node) := rfl

theorem Node.at?_cons_node {node child : Node} {index : Nat} {path : List Nat}
    (h : node.children[index]? = some (.node child)) :
    node.at? (index :: path) = child.at? path := by
  simp [Node.at?, h]

/-- What stands at a path, as a document of its own; where there is nothing, it is malformed. -/
def Document.below (document : Document) (path : List Nat) : Document :=
  match document with
  | .tree root =>
    match root.at? path with
    | some (.node node) => .tree node
    | some (.stray value) => .ofJson value
    | none => .malformed
  | _ => if path.isEmpty then document else .malformed

end MarkdownExcerpt
