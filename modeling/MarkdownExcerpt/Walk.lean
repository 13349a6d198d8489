import MarkdownExcerpt.Document
import MarkdownExcerpt.Excerpt
import MarkdownExcerpt.Meter
import MarkdownExcerpt.Position
import MarkdownExcerpt.Span

/-! Walking a tree in order, parents before their children, with the span of each node. The walk
does not enter leaves whose value is document text. -/

namespace MarkdownExcerpt

/-- One node on a walk, and the meter when the node had been measured. -/
structure Step where
  path : List Nat
  node : Node
  span : Span
  meter : Meter
  deriving Repr

mutual

/-- The walk from a node that has been measured. -/
def Node.walkFrom (id : NodeId) (span : Span) (meter : Meter) (node : Node) : List Step × Meter :=
  let step : Step := ⟨id.path, node, span, meter⟩
  if node.bearsText then ([step], meter)
  else
    match node with
    | .bare _ => ([step], meter)
    | .parent _ children =>
      let (steps, meter) := Child.walkList id 0 span.start meter children
      (step :: steps, meter)

/-- The walks from the children of a node from an index on, the first of which starts at an
offset. -/
def Child.walkList (id : NodeId) (index : Nat) (start : Int) (meter : Meter) :
    List Child → List Step × Meter
  | [] => ([], meter)
  | .stray _ :: rest => Child.walkList id (index + 1) start meter rest
  | .node child :: rest =>
    let (length, meter) := meter.measure (id.child index) child
    let span := Span.ofLength start length
    let (steps, meter) := child.walkFrom (id.child index) span meter
    let (others, meter) := Child.walkList id (index + 1) span.stop meter rest
    (steps ++ others, meter)

end

namespace Node

/-- Every node that is walked, and the meter at the end. -/
def walk (number : Nat) (meter : Meter) (node : Node) : List Step × Meter :=
  let (length, meter) := meter.measure (.root number) node
  node.walkFrom (.root number) (.ofLength 0 length) meter

/-- The nodes of a tree with their spans, in order. -/
def spans (node : Node) : List (Node × Span) :=
  (node.walk 0 {}).1.map fun step => (step.node, step.span)

/-- The span of the node at a path. The walk goes no further than to that node. -/
def spanAt (number : Nat) (path : List Nat) (meter : Meter) (node : Node) : Option Span × Meter :=
  let (steps, final) := node.walk number meter
  match steps.find? fun step => step.path == path with
  | some step => (some step.span, step.meter)
  | none => (none, final)

end Node

namespace Document

def walk (number : Nat) (meter : Meter) : Document → Except Failure (List Step) × Meter
  | empty => (.ok [], meter)
  | malformed => (.error .notTree, meter)
  | tree node =>
    let (steps, meter) := node.walk number meter
    (.ok steps, meter)

/-- Where the node at a path stands. -/
def position (number : Nat) (path : List Nat) (meter : Meter) :
    Document → Except Failure (Option Position) × Meter
  | empty => (.ok none, meter)
  | malformed => (.error .notTree, meter)
  | tree node =>
    match node.spanAt number path meter with
    | (none, meter) => (.ok none, meter)
    | (some span, meter) => (Failure.ofValidated (some <$> Position.ofSpan span), meter)

end Document
end MarkdownExcerpt
