import MarkdownExcerpt.Proofs.Outcome

/-! Cutting that visits every child. A loop over children stops where the window ends, at every
level of a tree. Here are the same loops without that test: they measure more, but if all that is
remembered is true, they come to the same children and record the same. -/
namespace MarkdownExcerpt

mutual

/-- What comes out of a node, given its span, if no loop stops early. -/
def Node.cutFully (config : Config) (window : Span) (id : NodeId) (span : Span)
    (progress : Progress) (node : Node) : Outcome × Progress :=
  let decision := Decision.of config window span node
  let progress := progress.record decision
  if decision.treatment.descends then
    match node with
    | .bare attributes => (decision.treatment.emit (.bare attributes) [], progress)
    | .parent attributes children =>
      let (outcomes, progress) := Child.cutListFully config window id 0 span.start progress children
      (decision.treatment.emit (.parent attributes children)
        (Outcome.assemble config.text.mergeAdjacentText outcomes), progress)
  else (decision.treatment.emit node [], progress)

/-- What comes out of the children of a node from an index on, down to the last one. -/
def Child.cutListFully (config : Config) (window : Span) (id : NodeId) (index : Nat) (start : Int)
    (progress : Progress) : List Child → List Outcome × Progress
  | [] => ([], progress)
  | .stray _ :: rest => Child.cutListFully config window id (index + 1) start progress rest
  | .node child :: rest =>
    let (span, progress) := progress.span (id.child index) start child
    let (outcome, progress) := child.cutFully config window (id.child index) span progress
    let (others, progress) :=
      Child.cutListFully config window id (index + 1) span.stop progress rest
    (outcome :: others, progress)

end

namespace Node

/-- What comes out of a node that starts at an offset, if no loop stops early. -/
def cutFullyAt (config : Config) (window : Span) (id : NodeId) (start : Int) (progress : Progress)
    (node : Node) : Outcome × Progress :=
  let (span, progress) := progress.span id start node
  node.cutFully config window id span progress

/-- The new children of a node that starts at an offset, made of what comes out of all of its
children. -/
def newChildrenFully (config : Config) (window : Span) (id : NodeId) (start : Int)
    (progress : Progress) (node : Node) : List Node × Progress :=
  let (outcomes, progress) := Child.cutListFully config window id 0 start progress node.children
  (Outcome.assemble config.text.mergeAdjacentText outcomes, progress)

lemma cutFully_eq (config : Config) (window : Span) (id : NodeId) (span : Span)
    (progress : Progress) (node : Node) :
    node.cutFully config window id span progress =
      let decision := Decision.of config window span node
      if decision.treatment.descends then
        let (children, progress) :=
          node.newChildrenFully config window id span.start (progress.record decision)
        (decision.treatment.emit node children, progress)
      else (decision.treatment.emit node [], progress.record decision) := by
  cases node with
  | bare attributes =>
    simp [cutFully, newChildrenFully, Node.children, Child.cutListFully]
  | parent attributes children => simp [cutFully, newChildrenFully, Node.children]

/-- With all children visited, cutting the node wherever it stands gives its outcome and records its
decisions. -/
def CutsFullyRight (forest : Forest) (config : Config) (window : Span) (node : Node) : Prop :=
  ∀ (id : NodeId) (start : Int) (progress : Progress), progress.meter.Sound forest →
    forest.node? id = some node →
    (node.cutFully config window id (node.spanFrom start) progress).1 =
        node.outcome config window start ∧
      (node.cutFully config window id (node.spanFrom start) progress).2.Follows forest
        progress.tally (node.decisions config window start)

end Node

variable {config : Config} {window : Span}

lemma Child.cutListFully_eq {forest : Forest} {id : NodeId} {children : List Child}
    (hright : ∀ child ∈ Child.nodes children, child.CutsFullyRight forest config window)
    {index : Nat} (start : Int) (progress : Progress) (hs : progress.meter.Sound forest)
    (hc : forest.Holds id index children) :
    (Child.cutListFully config window id index start progress children).1 =
        Child.outcomes config window start children ∧
      (Child.cutListFully config window id index start progress children).2.Follows forest
        progress.tally (Child.decisions config window start children) := by
  induction children generalizing index start progress with
  | nil => exact ⟨rfl, hs, rfl⟩
  | cons child rest ih =>
    cases child with
    | stray value => exact ih hright start progress hs hc.tail
    | node child =>
      obtain ⟨hout, hfollows⟩ := hright child (by simp) (id.child index) start
        { progress with meter := (progress.meter.measure (id.child index) child).2 }
        (hs.measure hc.head).2 hc.head
      obtain ⟨houtcomes, hlast⟩ := ih (fun c hm => hright c (by simp [hm]))
        (start + child.length) _ hfollows.sound hc.tail
      rw [cutListFully, Progress.span_of_sound hs hc.head]
      refine ⟨?_, hfollows.append hlast⟩
      simp only [outcomes, hout]
      rw [Node.stop_spanFrom, houtcomes]

namespace Node

theorem cutsFullyRight (forest : Forest) (config : Config) (window : Span) (node : Node) :
    node.CutsFullyRight forest config window := by
  induction node using Node.inductionOn with
  | step node ih =>
    intro id start progress hs hn
    obtain ⟨houtcomes, hfollows⟩ := Child.cutListFully_eq ih start
      (progress.record (node.decision config window start)) hs (forest.holds_children hn)
    rw [cutFully_eq]
    exact emit_of_loop hs (congrArg Outcome.runs houtcomes) hfollows

variable {forest : Forest} {id : NodeId} {node : Node} {progress : Progress}

lemma newChildrenFully_of_sound (hs : progress.meter.Sound forest)
    (hn : forest.node? id = some node) (config : Config) (window : Span) (start : Int) :
    (node.newChildrenFully config window id start progress).1 = node.rebuilt config window start ∧
      (node.newChildrenFully config window id start progress).2.Follows forest progress.tally
        (Child.decisions config window start node.children) := by
  obtain ⟨houtcomes, hfollows⟩ := Child.cutListFully_eq
    (fun child _ => child.cutsFullyRight forest config window) start progress hs
    (forest.holds_children hn)
  refine ⟨?_, hfollows⟩
  rw [rebuilt, childNodes_eq, ← Child.outcomes_eq, ← houtcomes]
  rfl

lemma cutFullyAt_of_sound (hs : progress.meter.Sound forest) (hn : forest.node? id = some node)
    (config : Config) (window : Span) (start : Int) :
    (node.cutFullyAt config window id start progress).1 = node.outcome config window start ∧
      (node.cutFullyAt config window id start progress).2.Follows forest progress.tally
        (node.decisions config window start) := by
  rw [cutFullyAt, Progress.span_of_sound hs hn]
  exact node.cutsFullyRight forest config window id start
    { progress with meter := (progress.meter.measure id node).2 } (hs.measure hn).2 hn

/-- Stopping early loses nothing. With a meter that remembers true lengths only, the new children of
a node are the same as if every child were visited, at every level below it, and so is what comes
out of the node itself; in both cases the same is recorded. -/
theorem newChildren_eq_newChildrenFully (hs : progress.meter.Sound forest)
    (hn : forest.node? id = some node) (config : Config) (window : Span) (start : Int) :
    ((node.newChildren config window id start progress).1 =
          (node.newChildrenFully config window id start progress).1 ∧
        (node.newChildren config window id start progress).2.tally =
          (node.newChildrenFully config window id start progress).2.tally) ∧
      (node.cutAt config window id start progress).1 =
          (node.cutFullyAt config window id start progress).1 ∧
        (node.cutAt config window id start progress).2.tally =
          (node.cutFullyAt config window id start progress).2.tally := by
  obtain ⟨hchildren, hrecorded⟩ := newChildren_of_sound hs hn config window start
  obtain ⟨hall, hrecordedAll⟩ := newChildrenFully_of_sound hs hn config window start
  obtain ⟨hout, hfollows⟩ := cutAt_of_sound hs hn config window start
  obtain ⟨houtAll, hfollowsAll⟩ := cutFullyAt_of_sound hs hn config window start
  refine ⟨⟨?_, ?_⟩, ?_, ?_⟩
  · rw [hchildren, hall]
  · rw [hrecorded.tally, hrecordedAll.tally]
  · rw [hout, houtAll]
  · rw [hfollows.tally, hfollowsAll.tally]

/-- A quotation that goes on behind its fourth character at every level, with empty texts right
there. -/
def digression : Node :=
  wrapperOf "blockquote" [
    wrapperOf "paragraph" [
      leafOf "text" "ab", wrapperOf "emphasis" [leafOf "text" "cd", leafOf "text" ""],
      leafOf "text" "", leafOf "text" "ef"],
    bare [("type", .str "thematicBreak")],
    wrapperOf "paragraph" [leafOf "text" "gh"]]

/-- The window ends with the fourth character, where loops at three levels stop. -/
theorem newChildren_eq_newChildrenFully_digression :
    let progress : Progress := { meter := (({} : Meter).measure (.root 0) digression).2 }
    progress.meter.Sound (.ofTree 0 digression) ∧
      (Forest.ofTree 0 digression).node? (.root 0) = some digression ∧
      (digression.newChildren {} ⟨-9, -6⟩ (.root 0) (-10) progress).1 =
        (digression.newChildrenFully {} ⟨-9, -6⟩ (.root 0) (-10) progress).1 ∧
      (digression.newChildrenFully {} ⟨-9, -6⟩ (.root 0) (-10) progress).1 =
        [wrapperOf "paragraph" [leafOf "text" "b", wrapperOf "emphasis" [leafOf "text" "cd"]]] ∧
      (digression.newChildrenFully {} ⟨-9, -6⟩ (.root 0) (-10) progress).2.tally =
        ⟨2, ["text"]⟩ := by
  intro progress
  have hn := Forest.node?_ofTree_root 0 digression
  have hs : progress.meter.Sound (.ofTree 0 digression) :=
    ((Meter.sound_fresh _).measure hn).2
  obtain ⟨⟨hchildren, htally⟩, -, -⟩ :=
    newChildren_eq_newChildrenFully hs hn {} ⟨-9, -6⟩ (-10)
  exact ⟨hs, hn, hchildren, hchildren.symm.trans rfl, htally.symm.trans rfl⟩

/-- A length below zero that a meter believes in leads back into the window, but only behind the
place where the loop stops. -/
example :
    let texts := [leafOf "text" "ab", leafOf "text" "cd", leafOf "text" "ef"]
    let paragraph := wrapperOf "paragraph" texts
    let progress : Progress := { meter := ({} : Meter).remember ⟨0, [1]⟩ (-2) }
    (paragraph.newChildren {} ⟨0, 2⟩ (.root 0) 0 progress).1.map text = ["ab"] ∧
      (paragraph.newChildrenFully {} ⟨0, 2⟩ (.root 0) 0 progress).1.map text = ["abef"] := by
  decide

end Node
end MarkdownExcerpt
