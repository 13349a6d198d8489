import MarkdownExcerpt.Node.Join

/-! What comes out of a node, and how the outcomes of the children of a node become its new
children: neighbouring text leaves may join, but never across the edge of an isolated outcome. -/

namespace MarkdownExcerpt

inductive Outcome where
  | nothing
  | one (node : Node)
  /-- The content of a node that is gone, in its place. Text of isolated content joins no text
  beside it. -/
  | many (nodes : List Node) (isolated : Bool)
  deriving Repr

namespace Outcome

def nodes : Outcome → List Node
  | nothing => []
  | one node => [node]
  | many nodes _ => nodes

def isIsolated : Outcome → Bool
  | many _ isolated => isolated
  | _ => false

/-- The outcome of a node of which only the content is left. -/
def content (nodes : List Node) (isolated : Bool) : Outcome :=
  if nodes.isEmpty then nothing else many nodes isolated

/-- The outcome as one tree, under a new root if the node itself is gone. -/
def tree? : Outcome → Option Node
  | nothing => none
  | one node => some node
  | many nodes _ => some (Node.rootOf nodes)

/-- The outcomes of siblings in runs whose text may join: the run in front, and the runs after it.
An isolated outcome is a run by itself. -/
def runs : List Outcome → List Node × List (List Node)
  | [] => ([], [])
  | outcome :: rest =>
    let (front, others) := runs rest
    if outcome.isIsolated then ([], outcome.nodes :: front :: others)
    else (outcome.nodes ++ front, others)

/-- The new children of a node. -/
def assemble (join : Bool) (outcomes : List Outcome) : List Node :=
  let (front, others) := runs outcomes
  (front :: others).flatMap fun run => if join then Node.joinTexts run else run

@[simp] theorem nodes_content (nodes : List Node) (isolated : Bool) :
    (content nodes isolated).nodes = nodes := by
  cases nodes <;> simp [content, Outcome.nodes]

/-- Content alone never comes out as the node itself. -/
theorem content_ne_one (nodes : List Node) (isolated : Bool) (node : Node) :
    content nodes isolated ≠ one node := by
  unfold content
  split <;> simp

theorem flatten_runs (outcomes : List Outcome) :
    (runs outcomes).1 ++ (runs outcomes).2.flatten = outcomes.flatMap nodes := by
  induction outcomes with
  | nil => rfl
  | cons outcome rest ih =>
    unfold runs
    by_cases h : outcome.isIsolated <;> simp [h, ← ih]

/-- Without joining, the new children are what the outcomes hold, in order. -/
theorem assemble_false (outcomes : List Outcome) :
    assemble false outcomes = outcomes.flatMap nodes := by
  rw [← flatten_runs]
  simp [assemble]

@[simp] theorem assemble_nil (join : Bool) : assemble join [] = [] := by
  cases join <;> rfl

end Outcome
end MarkdownExcerpt
