import MarkdownExcerpt.Assoc
import MarkdownExcerpt.Json
import MarkdownExcerpt.Node.Kind

/-! Markdown syntax trees. A node is a set of attributes, and a parent has a list of children
beside them; what stands among the children and is no node is kept but never counted. Nodes may
be malformed: a missing or odd `type`, `value` or `children` has a meaning and is no error. -/

namespace MarkdownExcerpt

mutual

inductive Node where
  /-- A node without a list of children. -/
  | bare (attributes : Fields)
  | parent (attributes : Fields) (children : List Child)
  deriving Repr

inductive Child where
  | node (value : Node)
  /-- A value in a list of children that is no node. -/
  | stray (value : Json)
  deriving Repr

end

namespace Node

def attributes : Node → Fields
  | bare attributes => attributes
  | parent attributes _ => attributes

def children : Node → List Child
  | bare _ => []
  | parent _ children => children

def isParent : Node → Bool
  | bare _ => false
  | parent _ _ => true

def mapAttributes (f : Fields → Fields) : Node → Node
  | bare attributes => bare (f attributes)
  | parent attributes children => parent (f attributes) children

def attribute? (key : String) (node : Node) : Option Json := Assoc.get? key node.attributes

/-- The type name, if the node has one that is a text. -/
def type? (node : Node) : Option String := (node.attribute? "type").bind Json.text?

def kind (node : Node) : NodeKind := NodeKind.ofType node.type?

def category (node : Node) : Category := node.kind.category

/-- The value, which is empty unless it is a text. -/
def text (node : Node) : String := ((node.attribute? "value").bind Json.text?).getD ""

/-- Whether the value of the node is document text. -/
def bearsText (node : Node) : Bool := node.kind.isLeaf

def isText (node : Node) : Bool := node.type? == some "text"

/-- The children that are nodes. -/
def childNodes (node : Node) : List Node :=
  node.children.filterMap fun
    | .node child => some child
    | .stray _ => none

/-- The node with another value and everything else as it was. -/
def withValue (value : String) (node : Node) : Node :=
  node.mapAttributes (Assoc.set "value" (.str value))

def without (key : String) (node : Node) : Node := node.mapAttributes (Assoc.erase key)

/-- The node with other children; whatever stood in their place before is gone. -/
def withChildren (children : List Node) (node : Node) : Node :=
  parent (Assoc.erase "children" node.attributes) (children.map .node)

/-- A root with the given children and nothing else. -/
def rootOf (children : List Node) : Node :=
  parent [("type", .str "root")] (children.map .node)

/-- Puts an attribute in front of the others. -/
def withAttribute (entry : String × Json) (node : Node) : Node := node.mapAttributes (entry :: ·)

end Node

/-! Nodes and objects are the same thing written in two ways. -/

mutual

def Child.ofJson : Json → Child
  | .obj fields => .node (Node.ofFields fields)
  | value => .stray value

/-- The node that an object is. A list in the field `children` makes it a parent; a field of that
name with anything else in it is an attribute. -/
def Node.ofFields : Fields → Node
  | [] => .bare []
  | (key, .arr items) :: rest =>
    if key = "children" then .parent (Assoc.erase "children" rest) (Child.listOfJson items)
    else (Node.ofFields rest).withAttribute (key, .arr items)
  | (key, value) :: rest => (Node.ofFields rest).withAttribute (key, value)

def Child.listOfJson : List Json → List Child
  | [] => []
  | item :: rest => Child.ofJson item :: Child.listOfJson rest

end

mutual

def Child.toJson : Child → Json
  | .node node => node.toJson
  | .stray value => value

def Node.toJson : Node → Json
  | .bare attributes => .obj attributes
  | .parent attributes children =>
    .obj (attributes ++ [("children", .arr (Child.listToJson children))])

def Child.listToJson : List Child → List Json
  | [] => []
  | child :: rest => child.toJson :: Child.listToJson rest

end

namespace Node

@[simp] theorem attributes_mapAttributes (f : Fields → Fields) (node : Node) :
    (node.mapAttributes f).attributes = f node.attributes := by cases node <;> rfl

@[simp] theorem children_mapAttributes (f : Fields → Fields) (node : Node) :
    (node.mapAttributes f).children = node.children := by cases node <;> rfl

@[simp] theorem isParent_mapAttributes (f : Fields → Fields) (node : Node) :
    (node.mapAttributes f).isParent = node.isParent := by cases node <;> rfl

theorem attribute?_withValue (key value : String) (node : Node) :
    (node.withValue value).attribute? key =
      if "value" = key then some (.str value) else node.attribute? key := by
  simp [attribute?, withValue, Assoc.get?_set]

theorem attribute?_without (key gone : String) (node : Node) :
    (node.without gone).attribute? key = if gone = key then none else node.attribute? key := by
  simp [attribute?, without, Assoc.get?_erase]

theorem attribute?_withChildren (key : String) (children : List Node) (node : Node) :
    (node.withChildren children).attribute? key =
      if "children" = key then none else node.attribute? key := by
  simp [attribute?, withChildren, attributes, Assoc.get?_erase]

@[simp] theorem type?_withValue (value : String) (node : Node) :
    (node.withValue value).type? = node.type? := by simp [type?, attribute?_withValue]

@[simp] theorem type?_withChildren (children : List Node) (node : Node) :
    (node.withChildren children).type? = node.type? := by simp [type?, attribute?_withChildren]

@[simp] theorem text_withValue (value : String) (node : Node) :
    (node.withValue value).text = value := by simp [text, attribute?_withValue, Json.text?]

@[simp] theorem isParent_withChildren (children : List Node) (node : Node) :
    (node.withChildren children).isParent = true := rfl

@[simp] theorem childNodes_withChildren (children : List Node) (node : Node) :
    (node.withChildren children).childNodes = children := by
  simp only [childNodes, withChildren, Node.children]
  induction children with
  | nil => rfl
  | cons child rest ih => simp [ih]

example : Node.ofFields [("children", .arr [.obj [("type", .str "text")], .int 1]),
      ("type", .str "list")] =
    .parent [("type", .str "list")] [.node (.bare [("type", .str "text")]), .stray (.int 1)] := rfl

example : (Node.ofFields [("children", .str "x")]).isParent = false := rfl

end Node
end MarkdownExcerpt
