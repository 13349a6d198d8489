import MarkdownExcerpt.Meter
import MarkdownExcerpt.Treatment

/-! Cutting a window out of a tree. Offsets are those of the tree that is cut: a child starts where
the span of the child before it ended, however much of that child is left. Children that start at
or after the end of the window are not visited. -/

namespace MarkdownExcerpt

/-- How many nodes were covered in part, and the types of the nodes that a policy changed, each
once and in the order in which they were met. -/
structure Tally where
  partialNodes : Nat := 0
  modifiedTypes : List String := []
  deriving DecidableEq, Repr

namespace Tally

def addType (tally : Tally) (type : String) : Tally :=
  if tally.modifiedTypes.contains type then tally
  else { tally with modifiedTypes := tally.modifiedTypes ++ [type] }

def record (tally : Tally) (decision : Decision) : Tally :=
  let tally :=
    if decision.isPartial then { tally with partialNodes := tally.partialNodes + 1 } else tally
  match decision.modifiedType with
  | some type => tally.addType type
  | none => tally

end Tally

/-- What a run of cutting carries along. -/
structure Progress where
  meter : Meter := {}
  tally : Tally := {}
  deriving DecidableEq, Repr

namespace Progress

/-- The span of a node that starts at an offset. -/
def span (progress : Progress) (id : NodeId) (start : Int) (node : Node) : Span × Progress :=
  let (length, meter) := progress.meter.measure id node
  (.ofLength start length, { progress with meter })

def record (progress : Progress) (decision : Decision) : Progress :=
  { progress with tally := progress.tally.record decision }

end Progress

mutual

/-- What comes out of the node at a place when a window is cut out, given its span. -/
def Node.cut (config : Config) (window : Span) (id : NodeId) (span : Span) (progress : Progress)
    (node : Node) : Outcome × Progress :=
  let decision := Decision.of config window span node
  let progress := progress.record decision
  if decision.treatment.descends then
    match node with
    | .bare attributes => (decision.treatment.emit (.bare attributes) [], progress)
    | .parent attributes children =>
      let (outcomes, progress) := Child.cutList config window id 0 span.start progress children
      (decision.treatment.emit (.parent attributes children)
        (Outcome.assemble config.text.mergeAdjacentText outcomes), progress)
  else (decision.treatment.emit node [], progress)

/-- What comes out of the children of a node from an index on, the first of which starts at an
offset. -/
def Child.cutList (config : Config) (window : Span) (id : NodeId) (index : Nat) (start : Int)
    (progress : Progress) : List Child → List Outcome × Progress
  | [] => ([], progress)
  | .stray _ :: rest => Child.cutList config window id (index + 1) start progress rest
  | .node child :: rest =>
    if window.stop ≤ start then ([], progress)
    else
      let (span, progress) := progress.span (id.child index) start child
      let (outcome, progress) := child.cut config window (id.child index) span progress
      let (others, progress) :=
        Child.cutList config window id (index + 1) span.stop progress rest
      (outcome :: others, progress)

end

namespace Node

/-- What comes out of a node that starts at an offset. -/
def cutAt (config : Config) (window : Span) (id : NodeId) (start : Int) (progress : Progress)
    (node : Node) : Outcome × Progress :=
  let (span, progress) := progress.span id start node
  node.cut config window id span progress

/-- The new children of a node that starts at an offset, whatever becomes of the node itself. -/
def newChildren (config : Config) (window : Span) (id : NodeId) (start : Int)
    (progress : Progress) (node : Node) : List Node × Progress :=
  let (outcomes, progress) := Child.cutList config window id 0 start progress node.children
  (Outcome.assemble config.text.mergeAdjacentText outcomes, progress)

/-- New children are those of the node, put together. -/
theorem cut_eq (config : Config) (window : Span) (id : NodeId) (span : Span) (progress : Progress)
    (node : Node) :
    node.cut config window id span progress =
      let decision := Decision.of config window span node
      if decision.treatment.descends then
        let (children, progress) :=
          node.newChildren config window id span.start (progress.record decision)
        (decision.treatment.emit node children, progress)
      else (decision.treatment.emit node [], progress.record decision) := by
  cases node with
  | bare attributes =>
    simp [cut, newChildren, Node.children, Child.cutList]
  | parent attributes children => simp [cut, newChildren, Node.children]

end Node
end MarkdownExcerpt
