import MarkdownExcerpt.Cut
import MarkdownExcerpt.Proofs.Meter.Sound

/-! Cutting without a meter. What comes out of a node, and what is recorded on the way, is a
function of the tree alone; children beyond the window need no test of their own, since nothing
comes out of them and nothing is recorded. -/
namespace MarkdownExcerpt

namespace Node

/-- The span of a node that starts at an offset. -/
def spanFrom (start : Int) (node : Node) : Span := .ofLength start node.length

@[simp] theorem start_spanFrom (start : Int) (node : Node) :
    (node.spanFrom start).start = start := rfl

@[simp] theorem stop_spanFrom (start : Int) (node : Node) :
    (node.spanFrom start).stop = start + node.length := rfl

def decision (config : Config) (window : Span) (start : Int) (node : Node) : Decision :=
  .of config window (node.spanFrom start) node

end Node

mutual

/-- What comes out of a node that starts at an offset. -/
def Node.outcome (config : Config) (window : Span) (start : Int) (node : Node) : Outcome :=
  let treatment := (node.decision config window start).treatment
  match node with
  | .bare attributes => treatment.emit (.bare attributes) []
  | .parent attributes children =>
    treatment.emit (.parent attributes children)
      (Outcome.assemble config.text.mergeAdjacentText
        (Child.outcomes config window start children))

/-- What comes out of children, the first of which starts at an offset. -/
def Child.outcomes (config : Config) (window : Span) (start : Int) : List Child → List Outcome
  | [] => []
  | .stray _ :: rest => Child.outcomes config window start rest
  | .node child :: rest =>
    child.outcome config window start ::
      Child.outcomes config window (start + child.length) rest

end

mutual

/-- The decisions on a node and on the nodes in it that are visited, in order. -/
def Node.decisions (config : Config) (window : Span) (start : Int) (node : Node) :
    List Decision :=
  let decision := node.decision config window start
  match node with
  | .bare _ => [decision]
  | .parent _ children =>
    decision ::
      if decision.treatment.descends then Child.decisions config window start children else []

def Child.decisions (config : Config) (window : Span) (start : Int) :
    List Child → List Decision
  | [] => []
  | .stray _ :: rest => Child.decisions config window start rest
  | .node child :: rest =>
    child.decisions config window start ++
      Child.decisions config window (start + child.length) rest

end

namespace Node

/-- What comes out of siblings, the first of which starts at an offset. -/
def outcomes (config : Config) (window : Span) (start : Int) : List Node → List Outcome
  | [] => []
  | node :: rest =>
    node.outcome config window start :: outcomes config window (start + node.length) rest

/-- The children that a node gets, whatever becomes of the node itself. -/
def rebuilt (config : Config) (window : Span) (start : Int) (node : Node) : List Node :=
  Outcome.assemble config.text.mergeAdjacentText (outcomes config window start node.childNodes)

end Node

variable {config : Config} {window : Span}

lemma Child.outcomes_eq (start : Int) (children : List Child) :
    Child.outcomes config window start children =
      Node.outcomes config window start (Child.nodes children) := by
  induction children generalizing start with
  | nil => rfl
  | cons child rest ih => cases child <;> simp [Child.outcomes, Node.outcomes, ih]

/-- Treatments that need no new children do not look at them. -/
lemma Treatment.emit_of_not_descends {treatment : Treatment} (h : treatment.descends = false)
    (first second : List Node) (node : Node) :
    treatment.emit node first = treatment.emit node second := by
  cases treatment with
  | rebuild evenEmpty => simp [descends] at h
  | splice isolated => simp [descends] at h
  | _ => rfl

/-- A leaf is never taken apart, whatever span it is said to have. -/
lemma Decision.bearsText_of_descends {span : Span} {node : Node}
    (h : (Decision.of config window span node).treatment.descends = true) :
    node.bearsText = false := by
  cases hleaf : node.bearsText with
  | false => rfl
  | true =>
    obtain ⟨kind, hkind⟩ := Node.exists_kind_of_bearsText hleaf
    simp only [of, ofPartial, Treatment.whole, hkind] at h
    split at h
    · cases h
    · split at h
      · cases h
      · split at h
        · cases h
        · split at h <;> cases h

namespace Node

/-- What comes out of a node is its treatment, carried out with its new children. -/
theorem outcome_eq (start : Int) (node : Node) :
    node.outcome config window start =
      (node.decision config window start).treatment.emit node
        (node.rebuilt config window start) := by
  cases node with
  | bare attributes => simp [outcome, rebuilt, outcomes]
  | parent attributes children => rw [outcome, Child.outcomes_eq]; rfl

@[simp] theorem outcomes_append (start : Int) (first second : List Node) :
    outcomes config window start (first ++ second) =
      outcomes config window start first ++
        outcomes config window (start + lengthOf first) second := by
  induction first generalizing start with
  | nil => simp [outcomes]
  | cons node rest ih => simp [outcomes, ih, Int.add_assoc]

/-- What comes out of siblings, in terms of their places. -/
lemma outcomes_eq_map_seats (index : Nat) (start : Int) (children : List Child) :
    outcomes config window start (Child.nodes children) =
      (Child.seats index start children).map fun seat =>
        seat.node.outcome config window seat.start := by
  induction children generalizing index start with
  | nil => rfl
  | cons child rest ih =>
    cases child with
    | stray value => exact ih _ _
    | node child =>
      simp only [Child.nodes_node, outcomes, Child.seats, List.map_cons, ih (index + 1)]

/-- A node outside the window is dropped without record. -/
lemma decision_of_misses {start : Int} {node : Node}
    (h : (node.spanFrom start).misses window = true) :
    node.decision config window start = ⟨.drop, false, none⟩ := by
  simp [decision, Decision.of, h]

theorem outcome_of_misses {start : Int} {node : Node}
    (h : (node.spanFrom start).misses window = true) :
    node.outcome config window start = .nothing := by
  rw [outcome_eq, decision_of_misses h]
  rfl

/-- From the end of the window on, nothing comes out. -/
lemma eq_nothing_of_beyond {start : Int} (h : window.stop ≤ start) {nodes : List Node}
    {outcome : Outcome} (ho : outcome ∈ outcomes config window start nodes) :
    outcome = .nothing := by
  induction nodes generalizing start with
  | nil => simp [outcomes] at ho
  | cons node rest ih =>
    rcases List.mem_cons.mp ho with rfl | ho
    · exact outcome_of_misses (by simp [Span.misses, h])
    · exact ih (by omega) ho

/-- The decisions on a node and, if its new children are needed, on its children. -/
theorem decisions_eq (start : Int) (node : Node) :
    node.decisions config window start =
      node.decision config window start ::
        if (node.decision config window start).treatment.descends then
          Child.decisions config window start node.children
        else [] := by
  cases node <;> simp [decisions, Node.children, Child.decisions]

end Node

lemma Outcome.runs_of_nothing {outcomes : List Outcome} (h : ∀ o ∈ outcomes, o = .nothing) :
    runs outcomes = ([], []) := by
  induction outcomes with
  | nil => rfl
  | cons outcome rest ih =>
    obtain rfl : outcome = .nothing := h outcome (by simp)
    simp [runs, ih fun o ho => h o (by simp [ho]), isIsolated, nodes]

lemma Outcome.assemble_congr {first second : List Outcome} (h : runs first = runs second)
    (join : Bool) : assemble join first = assemble join second := by
  simp only [assemble, h]

/-- Decisions that drop without record change no tally. -/
lemma Child.foldl_decisions_of_beyond {start : Int} (h : window.stop ≤ start)
    (children : List Child) (tally : Tally) :
    (Child.decisions config window start children).foldl Tally.record tally = tally := by
  induction children generalizing start with
  | nil => rfl
  | cons child rest ih =>
    cases child with
    | stray value => exact ih h
    | node child =>
      have hmiss : (child.spanFrom start).misses window = true := by simp [Span.misses, h]
      rw [Child.decisions, Node.decisions_eq, Node.decision_of_misses hmiss]
      simpa [Treatment.descends, Tally.record] using
        ih (show window.stop ≤ start + child.length by omega)

/-- What a run of cutting has carried along after some decisions. -/
structure Progress.Follows (forest : Forest) (before : Tally) (decisions : List Decision)
    (after : Progress) : Prop where
  sound : after.meter.Sound forest
  tally : after.tally = decisions.foldl Tally.record before

lemma Progress.Follows.append {forest : Forest} {before : Tally} {first second : List Decision}
    {mid after : Progress} (hfirst : mid.Follows forest before first)
    (hsecond : after.Follows forest mid.tally second) :
    after.Follows forest before (first ++ second) :=
  ⟨hsecond.sound, by rw [List.foldl_append, ← hfirst.tally, hsecond.tally]⟩

/-- A sound meter gives a node its true span. -/
lemma Progress.span_of_sound {forest : Forest} {id : NodeId} {node : Node} {progress : Progress}
    (hs : progress.meter.Sound forest) (hn : forest.node? id = some node) (start : Int) :
    progress.span id start node =
      (node.spanFrom start, { progress with meter := (progress.meter.measure id node).2 }) := by
  simp [Progress.span, Node.spanFrom, (hs.measure hn).1]

/-- Cutting the node wherever it stands gives its outcome and records its decisions. -/
def Node.CutsRight (forest : Forest) (config : Config) (window : Span) (node : Node) : Prop :=
  ∀ (id : NodeId) (start : Int) (progress : Progress), progress.meter.Sound forest →
    forest.node? id = some node →
    (node.cut config window id (node.spanFrom start) progress).1 =
        node.outcome config window start ∧
      (node.cut config window id (node.spanFrom start) progress).2.Follows forest progress.tally
        (node.decisions config window start)

/-- The loop over children stops at the end of the window, which loses nothing. -/
lemma Child.cutList_eq {forest : Forest} {id : NodeId} {children : List Child}
    (hright : ∀ child ∈ Child.nodes children, child.CutsRight forest config window)
    {index : Nat} (start : Int) (progress : Progress) (hs : progress.meter.Sound forest)
    (hc : forest.Holds id index children) :
    Outcome.runs (Child.cutList config window id index start progress children).1 =
        Outcome.runs (Child.outcomes config window start children) ∧
      (Child.cutList config window id index start progress children).2.Follows forest
        progress.tally (Child.decisions config window start children) := by
  induction children generalizing index start progress with
  | nil => exact ⟨rfl, hs, rfl⟩
  | cons child rest ih =>
    cases child with
    | stray value => exact ih hright start progress hs hc.tail
    | node child =>
      by_cases hstop : window.stop ≤ start
      · rw [cutList, if_pos hstop]
        refine ⟨?_, hs, (foldl_decisions_of_beyond hstop _ _).symm⟩
        rw [outcomes_eq]
        exact (Outcome.runs_of_nothing fun o ho => Node.eq_nothing_of_beyond hstop ho).symm
      · obtain ⟨hout, hfollows⟩ := hright child (by simp) (id.child index) start
          { progress with meter := (progress.meter.measure (id.child index) child).2 }
          (hs.measure hc.head).2 hc.head
        obtain ⟨hruns, hlast⟩ := ih (fun c hm => hright c (by simp [hm]))
          (start + child.length) _ hfollows.sound hc.tail
        rw [cutList, if_neg hstop, Progress.span_of_sound hs hc.head]
        refine ⟨?_, hfollows.append hlast⟩
        simp only [outcomes, Outcome.runs, hout]
        rw [Node.stop_spanFrom, hruns]

/-- A node comes out right if a loop over its children does. -/
lemma Node.emit_of_loop {forest : Forest} {node : Node} {start : Int} {progress : Progress}
    (hs : progress.meter.Sound forest) {loop : List Outcome × Progress}
    (hruns : Outcome.runs loop.1 =
      Outcome.runs (Child.outcomes config window start node.children))
    (hfollows : loop.2.Follows forest (progress.tally.record (node.decision config window start))
      (Child.decisions config window start node.children)) :
    let decision := node.decision config window start
    let cut : Outcome × Progress :=
      if decision.treatment.descends then
        (decision.treatment.emit node
          (Outcome.assemble config.text.mergeAdjacentText loop.1), loop.2)
      else (decision.treatment.emit node [], progress.record decision)
    cut.1 = node.outcome config window start ∧
      cut.2.Follows forest progress.tally (node.decisions config window start) := by
  intro decision cut
  rw [outcome_eq, decisions_eq]
  cases hd : (node.decision config window start).treatment.descends with
  | true =>
    simp only [cut, decision, hd, if_true]
    refine ⟨?_, hfollows.sound, hfollows.tally⟩
    rw [rebuilt, childNodes_eq, ← Child.outcomes_eq,
      Outcome.assemble_congr hruns config.text.mergeAdjacentText]
  | false =>
    simp only [cut, decision, hd, Bool.false_eq_true, if_false]
    exact ⟨Treatment.emit_of_not_descends hd _ _ _, hs, rfl⟩

/-- With a sound meter, cutting gives the outcome and records the decisions. -/
theorem Node.cutsRight (forest : Forest) (config : Config) (window : Span) (node : Node) :
    node.CutsRight forest config window := by
  induction node using Node.inductionOn with
  | step node ih =>
    intro id start progress hs hn
    obtain ⟨hruns, hfollows⟩ := Child.cutList_eq ih start
      (progress.record (node.decision config window start)) hs (forest.holds_children hn)
    rw [cut_eq]
    exact emit_of_loop hs hruns hfollows

/-- With a sound meter, that is so for a node that has yet to be measured. -/
theorem Node.cutAt_of_sound {forest : Forest} {id : NodeId} {node : Node} {progress : Progress}
    (hs : progress.meter.Sound forest) (hn : forest.node? id = some node) (config : Config)
    (window : Span) (start : Int) :
    (node.cutAt config window id start progress).1 = node.outcome config window start ∧
      (node.cutAt config window id start progress).2.Follows forest progress.tally
        (node.decisions config window start) := by
  rw [cutAt, Progress.span_of_sound hs hn]
  exact node.cutsRight forest config window id start
    { progress with meter := (progress.meter.measure id node).2 } (hs.measure hn).2 hn

/-- So are the new children of the node, whatever becomes of the node itself. -/
theorem Node.newChildren_of_sound {forest : Forest} {id : NodeId} {node : Node}
    {progress : Progress} (hs : progress.meter.Sound forest) (hn : forest.node? id = some node)
    (config : Config) (window : Span) (start : Int) :
    (node.newChildren config window id start progress).1 = node.rebuilt config window start ∧
      (node.newChildren config window id start progress).2.Follows forest progress.tally
        (Child.decisions config window start node.children) := by
  obtain ⟨hruns, hfollows⟩ := Child.cutList_eq
    (fun child _ => child.cutsRight forest config window) start progress hs
    (forest.holds_children hn)
  refine ⟨?_, hfollows⟩
  rw [rebuilt, childNodes_eq, ← Child.outcomes_eq]
  exact Outcome.assemble_congr hruns config.text.mergeAdjacentText

end MarkdownExcerpt
