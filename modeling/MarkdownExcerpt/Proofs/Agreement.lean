import MarkdownExcerpt.Proofs.Excerpt
import MarkdownExcerpt.Proofs.Treatment
import MarkdownExcerpt.Proofs.Walk

/-! Two runs of cutting side by side, with different policies, with different windows or from
different offsets on. If they decide alike on every node that is walked, the same is recorded, and
if both join text or both do not, the same comes out. -/
namespace MarkdownExcerpt

/-- Two configurations say the same about whatever is not cut: what is left out, whether emptied
containers stay, and whether text is joined. -/
structure Config.AgreesUncut (config other : Config) : Prop where
  join : config.text.mergeAdjacentText = other.text.mergeAdjacentText
  content : config.content = other.content
  empty : config.preserveEmptyBlocks = other.preserveEmptyBlocks

namespace Config.AgreesUncut

variable {config other : Config}

lemma leavesOut (h : config.AgreesUncut other) (type : Option String) :
    other.leavesOut type = config.leavesOut type := by
  simp only [Config.leavesOut, h.content]

lemma whole (h : config.AgreesUncut other) (node : Node) :
    Treatment.whole other node = Treatment.whole config node := by
  simp only [Treatment.whole, Treatment.ofContainer, h.empty]

end Config.AgreesUncut

namespace Node

/-- The run with the other configuration and window, which starts further on by an offset, decides on
every one of the nodes as the first run does. -/
def DecidesAlike (config other : Config) (window second : Span) (offset : Int)
    (entries : List (Node × Span)) : Prop :=
  ∀ entry ∈ entries, entry.1.decision other second (entry.2.start + offset) =
    entry.1.decision config window entry.2.start

namespace DecidesAlike

variable {config other : Config} {window second : Span} {offset start : Int} {node : Node}

lemma self (h : DecidesAlike config other window second offset (node.spansFrom start)) :
    node.decision other second (start + offset) = node.decision config window start :=
  h (node, node.spanFrom start) (by simp [spansFrom_eq])

lemma children (h : DecidesAlike config other window second offset (node.spansFrom start))
    (hleaf : node.bearsText = false) :
    DecidesAlike config other window second offset (spansOf start node.childNodes) := by
  intro entry he
  exact h entry (by simp [spansFrom_eq, hleaf, he])

variable {rest : List Node}

lemma head (h : DecidesAlike config other window second offset (spansOf start (node :: rest))) :
    DecidesAlike config other window second offset (node.spansFrom start) :=
  fun entry he => h entry (List.mem_append_left _ he)

lemma tail (h : DecidesAlike config other window second offset (spansOf start (node :: rest))) :
    DecidesAlike config other window second offset (spansOf (start + node.length) rest) :=
  fun entry he => h entry (List.mem_append_right _ he)

end DecidesAlike
end Node

variable {config other : Config} {window second : Span} {offset : Int}

lemma Child.decisions_congr {children : List Child}
    (hsame : ∀ child ∈ Child.nodes children, ∀ start : Int,
      Node.DecidesAlike config other window second offset (child.spansFrom start) →
        child.decisions other second (start + offset) = child.decisions config window start)
    {start : Int}
    (h : Node.DecidesAlike config other window second offset
      (Node.spansOf start (Child.nodes children))) :
    Child.decisions other second (start + offset) children =
      Child.decisions config window start children := by
  induction children generalizing start with
  | nil => rfl
  | cons child rest ih =>
    cases child with
    | stray value => exact ih hsame h
    | node child =>
      rw [Child.decisions, Child.decisions, hsame child (by simp) start h.head,
        Int.add_right_comm, ih (fun c hm => hsame c (by simp [hm])) h.tail]

namespace Node

/-- Runs that decide alike on all nodes that are walked come to the same nodes. -/
theorem decisions_congr {node : Node} {start : Int}
    (h : DecidesAlike config other window second offset (node.spansFrom start)) :
    node.decisions other second (start + offset) = node.decisions config window start := by
  induction node using Node.inductionOn generalizing start with
  | step node ih =>
    rw [decisions_eq, decisions_eq, h.self]
    cases hdescends : (node.decision config window start).treatment.descends with
    | false => rfl
    | true =>
      have hleaf := bearsText_of_descends hdescends
      rw [if_pos rfl, if_pos rfl, Child.decisions_congr (fun c hm _ => ih c hm) (h.children hleaf)]

lemma outcomes_congr {nodes : List Node}
    (hsame : ∀ node ∈ nodes, ∀ start : Int,
      DecidesAlike config other window second offset (node.spansFrom start) →
        node.outcome other second (start + offset) = node.outcome config window start)
    {start : Int} (h : DecidesAlike config other window second offset (spansOf start nodes)) :
    outcomes other second (start + offset) nodes = outcomes config window start nodes := by
  induction nodes generalizing start with
  | nil => rfl
  | cons node rest ih =>
    rw [outcomes, outcomes, hsame node (by simp) start h.head, Int.add_right_comm,
      ih (fun n hm => hsame n (by simp [hm])) h.tail]

/-- Runs that decide alike on all nodes that are walked bring out the same. -/
theorem outcome_congr
    (hjoin : config.text.mergeAdjacentText = other.text.mergeAdjacentText) {node : Node}
    {start : Int} (h : DecidesAlike config other window second offset (node.spansFrom start)) :
    node.outcome other second (start + offset) = node.outcome config window start := by
  induction node using Node.inductionOn generalizing start with
  | step node ih =>
    rw [outcome_eq, outcome_eq, h.self]
    cases hdescends : (node.decision config window start).treatment.descends with
    | false => exact Treatment.emit_of_not_descends hdescends _ _ _
    | true =>
      have hleaf := bearsText_of_descends hdescends
      rw [rebuilt, rebuilt, outcomes_congr (fun c hm _ => ih c hm) (h.children hleaf), hjoin]

/-- Configurations by which the same is decided on all nodes of a tree give the same excerpt. -/
theorem excerptAlone_congr {range : Range} {node : Node}
    (hjoin : config.text.mergeAdjacentText = other.text.mergeAdjacentText)
    (h : DecidesAlike config other (range.window node) (range.window node) 0 (node.spansFrom 0)) :
    node.excerptAlone other range = node.excerptAlone config range := by
  have houtcome : node.outcome other (range.window node) 0 =
      node.outcome config (range.window node) 0 := outcome_congr hjoin h
  have hdecisions : node.decisions other (range.window node) 0 =
      node.decisions config (range.window node) 0 := decisions_congr h
  have htally : node.tallyOf other (range.window node) = node.tallyOf config (range.window node) := by
    rw [tallyOf, tallyOf, hdecisions]
  rw [Range.window] at houtcome htally
  simp only [excerptAlone, houtcome, htally]

end Node
end MarkdownExcerpt
