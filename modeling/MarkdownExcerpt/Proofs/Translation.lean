import MarkdownExcerpt.Cut
import MarkdownExcerpt.Proofs.Node.Children

/-! Offsets count from an arbitrary zero. A run of cutting compares places with the edges of the
window and with nothing else, so it goes on in the same way when both are moved by one offset, also
below zero and for windows that run backwards. -/
namespace MarkdownExcerpt

lemma Span.start_shift (span : Span) (offset : Int) :
    (span.shift offset).start = span.start + offset := rfl

lemma Span.stop_shift (span : Span) (offset : Int) :
    (span.shift offset).stop = span.stop + offset := rfl

lemma Span.shift_ofLength (start length offset : Int) :
    (ofLength start length).shift offset = ofLength (start + offset) length := by
  simp only [shift, ofLength, Int.add_right_comm]

/-- Moving the start moves the span; what is measured does not depend on it. -/
lemma Progress.span_shift (progress : Progress) (id : NodeId) (start offset : Int) (node : Node) :
    progress.span id (start + offset) node =
      ((progress.span id start node).1.shift offset, (progress.span id start node).2) := by
  simp only [Progress.span, Span.shift_ofLength]

/-- Cutting the node out of a moved window, from a span that is moved along, goes as before,
whatever the meter knows. -/
def Node.MovesAlong (config : Config) (window : Span) (offset : Int) (node : Node) : Prop :=
  ∀ (id : NodeId) (span : Span) (progress : Progress),
    node.cut config (window.shift offset) id (span.shift offset) progress =
      node.cut config window id span progress

variable {config : Config} {window : Span} {offset : Int}

lemma Child.cutList_shift {children : List Child}
    (hmoves : ∀ child ∈ Child.nodes children, child.MovesAlong config window offset) (id : NodeId)
    (index : Nat) (start : Int) (progress : Progress) :
    cutList config (window.shift offset) id index (start + offset) progress children =
      cutList config window id index start progress children := by
  induction children generalizing index start progress with
  | nil => simp only [cutList]
  | cons child rest ih =>
    cases child with
    | stray value => simpa only [cutList] using ih hmoves _ _ _
    | node child =>
      -- Where the visits end is a comparison with the edge of the window, which moves along too.
      have hend : (window.shift offset).stop ≤ start + offset ↔ window.stop ≤ start := by
        rw [Span.stop_shift]
        omega
      simp only [cutList, hend, Progress.span_shift]
      rw [hmoves child (by simp), Span.stop_shift, ih fun c hc => hmoves c (by simp [hc])]

lemma Node.newChildren_shift {node : Node}
    (hmoves : ∀ child ∈ node.childNodes, child.MovesAlong config window offset) (id : NodeId)
    (start : Int) (progress : Progress) :
    node.newChildren config (window.shift offset) id (start + offset) progress =
      node.newChildren config window id start progress := by
  rw [childNodes_eq] at hmoves
  simp only [newChildren, Child.cutList_shift hmoves]

theorem Node.movesAlong (config : Config) (window : Span) (offset : Int) (node : Node) :
    node.MovesAlong config window offset := by
  induction node using Node.inductionOn with
  | step node ih =>
    intro id span progress
    simp only [cut_eq, Decision.of_shift, Span.start_shift, newChildren_shift ih]

/-- A window and a start that are moved by one offset give the same outcome, the same new children
and the same record, from any progress on and whatever lengths the meter believes in. -/
theorem Node.cutAt_translated (config : Config) (window : Span) (id : NodeId) (start offset : Int)
    (progress : Progress) (node : Node) :
    node.cutAt config (window.shift offset) id (start + offset) progress =
        node.cutAt config window id start progress ∧
      node.newChildren config (window.shift offset) id (start + offset) progress =
        node.newChildren config window id start progress := by
  constructor
  · simp only [cutAt, Progress.span_shift]
    exact node.movesAlong config window offset id _ _
  · exact newChildren_shift (fun child _ => child.movesAlong config window offset) id start progress

example :
    let paragraph : Node := .parent [("type", .str "paragraph")]
      [.node (.bare [("type", .str "text"), ("value", .str "abcd")])]
    (paragraph.newChildren {} ⟨-4, -2⟩ (.root 0) (-5) {}).1 =
      [.bare [("type", .str "text"), ("value", .str "bc")]] := rfl

end MarkdownExcerpt
