import MarkdownExcerpt.Proofs.Agreement
import MarkdownExcerpt.Proofs.Joining
import MarkdownExcerpt.Proofs.LeftOut

/-! Excerpts of whole documents. Nothing is cut, so the policies for cut nodes play no part. What
comes out is settled: nodes without characters at the edges of the document and emptied containers
are gone and text leaves are joined at the first go, so cutting once more changes nothing. -/
namespace MarkdownExcerpt

/-- The configuration with other policies for cut nodes and for the blanks of cut text. -/
def Config.withPolicies (behavior : Behavior) (whitespace : WhitespacePolicy) (config : Config) :
    Config :=
  { config with behavior, text := { config.text with whitespace } }

namespace Range

/-- The range starts with the document and does not end before it does. -/
def Covers (range : Range) (node : Node) : Prop :=
  range.start = 0 ∧ ∀ stop ∈ range.stop, node.length ≤ stop

lemma Covers.stopWithin_eq {range : Range} {node : Node} (h : range.Covers node) :
    range.stopWithin node.length = node.length := by
  unfold stopWithin
  split
  · rfl
  · next stop hstop => exact Nat.min_eq_right (h.2 stop hstop)

end Range

namespace Node

/-- Siblings, the first of which starts at an offset, lie in the window. -/
def LieIn (window : Span) (start : Int) (nodes : List Node) : Prop :=
  window.start ≤ start ∧ start + lengthOf nodes ≤ window.stop

variable {config : Config} {window : Span} {start : Int} {node : Node} {rest : List Node}

lemma LieIn.head (h : LieIn window start (node :: rest)) :
    (node.spanFrom start).isWithin window = true := by
  obtain ⟨hstart, hstop⟩ := h
  rw [lengthOf_cons] at hstop
  rw [Span.isWithin_iff, start_spanFrom, stop_spanFrom]
  omega

lemma LieIn.tail (h : LieIn window start (node :: rest)) :
    LieIn window (start + node.length) rest := by
  obtain ⟨hstart, hstop⟩ := h
  rw [lengthOf_cons] at hstop
  exact ⟨by omega, by omega⟩

lemma lieIn_childNodes (hleaf : node.bearsText = false)
    (hin : (node.spanFrom start).isWithin window = true) : LieIn window start node.childNodes := by
  rw [Span.isWithin_iff, start_spanFrom, stop_spanFrom, length_of_not_bearsText hleaf] at hin
  exact hin

/-- A node that is covered is dropped without record or comes out whole. -/
lemma decision_of_isWithin (hin : (node.spanFrom start).isWithin window = true) :
    node.decision config window start =
      if (node.spanFrom start).misses window || config.leavesOut node.type? then
        ⟨.drop, false, none⟩
      else ⟨.whole config node, false, none⟩ := by
  simp only [decision, Decision.of, hin, if_true]
  cases (node.spanFrom start).misses window <;> cases config.leavesOut node.type? <;> rfl

/-- Nothing is recorded where nothing is cut. -/
def RecordsNothing (config : Config) (window : Span) (node : Node) : Prop :=
  ∀ (start : Int) (tally : Tally), (node.spanFrom start).isWithin window = true →
    (node.decisions config window start).foldl Tally.record tally = tally

end Node

lemma Child.foldl_decisions_of_lieIn {config : Config} {window : Span} {children : List Child}
    (hquiet : ∀ child ∈ Child.nodes children, child.RecordsNothing config window) {start : Int}
    (hin : Node.LieIn window start (Child.nodes children)) (tally : Tally) :
    (Child.decisions config window start children).foldl Tally.record tally = tally := by
  induction children generalizing start tally with
  | nil => rfl
  | cons child rest ih =>
    cases child with
    | stray value => exact ih hquiet hin tally
    | node child =>
      rw [Child.decisions, List.foldl_append, hquiet child (by simp) start tally hin.head]
      exact ih (fun c hm => hquiet c (by simp [hm])) hin.tail tally

namespace Node

variable {config : Config} {window : Span} {start : Int} {node : Node}

theorem recordsNothing (config : Config) (window : Span) (node : Node) :
    node.RecordsNothing config window := by
  induction node using Node.inductionOn with
  | step node ih =>
    intro start tally hin
    have hself : tally.record (node.decision config window start) = tally := by
      rw [decision_of_isWithin hin]
      split <;> rfl
    rw [decisions_eq, List.foldl_cons, hself]
    split
    · next hdescends =>
      exact Child.foldl_decisions_of_lieIn ih
        (lieIn_childNodes (bearsText_of_descends hdescends) hin) tally
    · rfl

/-- Where nothing is cut, other policies make no difference. -/
def IgnoresPolicies (config : Config) (behavior : Behavior) (whitespace : WhitespacePolicy)
    (window : Span) (node : Node) : Prop :=
  ∀ start : Int, (node.spanFrom start).isWithin window = true →
    node.outcome (config.withPolicies behavior whitespace) window start =
      node.outcome config window start

variable {behavior : Behavior} {whitespace : WhitespacePolicy}

lemma isWithin_of_mem_spansFrom (hin : (node.spanFrom start).isWithin window = true)
    {entry : Node × Span} (he : entry ∈ node.spansFrom start) :
    (entry.1.spanFrom entry.2.start).isWithin window = true := by
  obtain ⟨hspan, hstart, hstop⟩ := span_bounds he
  rw [Span.isWithin_iff, start_spanFrom, stop_spanFrom] at hin
  rw [← hspan, Span.isWithin_iff]
  omega

lemma decision_withPolicies (hin : (node.spanFrom start).isWithin window = true) :
    node.decision (config.withPolicies behavior whitespace) window start =
      node.decision config window start := by
  rw [decision_of_isWithin hin, decision_of_isWithin hin]
  rfl

theorem ignoresPolicies (config : Config) (behavior : Behavior) (whitespace : WhitespacePolicy)
    (window : Span) (node : Node) : node.IgnoresPolicies config behavior whitespace window := by
  intro start hin
  have halike : DecidesAlike config (config.withPolicies behavior whitespace) window window 0
      (node.spansFrom start) := by
    intro entry he
    rw [Int.add_zero]
    exact decision_withPolicies (isWithin_of_mem_spansFrom hin he)
  have hjoin : config.text.mergeAdjacentText =
      (config.withPolicies behavior whitespace).text.mergeAdjacentText := rfl
  have hsame := outcome_congr hjoin halike
  rwa [Int.add_zero] at hsame

/-- No text is lost with the types that are left out: such nodes have no characters. -/
def LeavesOutNoText (config : Config) (node : Node) : Prop :=
  node.Throughout fun n => config.leavesOut n.type? = true → n.length = 0

/-- The node comes out of itself. -/
def Settled (config : Config) (window : Span) (start : Int) (node : Node) : Prop :=
  node.outcome config window start = .one node

/-- Siblings, the first of which starts at an offset, come out of themselves. -/
def AllSettled (config : Config) (window : Span) (start : Int) : List Node → Prop
  | [] => True
  | node :: rest =>
    node.Settled config window start ∧ AllSettled config window (start + node.length) rest

lemma outcomes_of_allSettled {nodes : List Node} (h : AllSettled config window start nodes) :
    outcomes config window start nodes = nodes.map .one := by
  induction nodes generalizing start with
  | nil => rfl
  | cons node rest ih => rw [outcomes, h.1, ih h.2, List.map_cons]

lemma misses_of_settled (h : node.Settled config window start) :
    (node.spanFrom start).misses window = false := by
  cases hseen : (node.spanFrom start).misses window with
  | false => rfl
  | true =>
    rw [Settled, outcome_of_misses hseen] at h
    cases h

/-- A text leaf that is covered and not outside is settled. -/
lemma settled_of_isText (htext : node.isText = true)
    (hin : (node.spanFrom start).isWithin window = true)
    (hseen : (node.spanFrom start).misses window = false) : node.Settled config window start := by
  have hout : config.leavesOut node.type? = false :=
    leavesOut_of_bearsText (bearsText_of_isText htext)
  have hwhole : Treatment.whole config node = .keep := by
    simp only [Treatment.whole, kind_of_isText htext]
  rw [Settled, outcome_eq, decision_of_isWithin hin, hseen, hout]
  simp [hwhole, Treatment.emit]

lemma length_joinText {first second : Node} (hf : first.isText = true)
    (hs : second.isText = true) :
    (first.joinText second).length = first.length + second.length := by
  rw [← length_characters, characters_joinText hf hs, List.length_append, length_characters,
    length_characters]

lemma lengthOf_eq_of_characters {first second : List Node}
    (h : first.flatMap characters = second.flatMap characters) :
    lengthOf first = lengthOf second := by
  rw [← length_flatMap_characters, h, length_flatMap_characters]

/-- Two settled text leaves are settled as one. -/
lemma settled_joinText {next : Node} (hn : node.isText = true) (ht : next.isText = true)
    (h : node.Settled config window start)
    (h' : next.Settled config window (start + node.length))
    (hin : LieIn window start [node, next]) : (node.joinText next).Settled config window start := by
  have hseen := misses_of_settled h
  have hseen' := misses_of_settled h'
  obtain ⟨hstart, hstop⟩ := hin
  rw [Span.misses_eq_false_iff, stop_spanFrom, start_spanFrom] at hseen hseen'
  simp only [lengthOf_cons, lengthOf_nil] at hstop
  refine settled_of_isText (by simpa using hn) ?_ ?_
  · rw [Span.isWithin_iff, start_spanFrom, stop_spanFrom, length_joinText hn ht]
    omega
  · rw [Span.misses_eq_false_iff, start_spanFrom, stop_spanFrom, length_joinText hn ht]
    omega

lemma allSettled_push {siblings : List Node} (h : node.Settled config window start)
    (hs : AllSettled config window (start + node.length) siblings)
    (hin : LieIn window start (node :: siblings)) :
    AllSettled config window start (push node siblings) := by
  cases siblings with
  | nil => exact ⟨h, trivial⟩
  | cons next rest =>
    by_cases hjoins : (node.isText && next.isText) = true
    · obtain ⟨hn, ht⟩ := Bool.and_eq_true_iff.mp hjoins
      have hpair : LieIn window start [node, next] := by
        obtain ⟨hstart, hstop⟩ := hin
        simp only [lengthOf_cons] at hstop
        refine ⟨hstart, ?_⟩
        simp only [lengthOf_cons, lengthOf_nil]
        omega
      rw [push_of_joins hn ht]
      refine ⟨settled_joinText hn ht h hs.1 hpair, ?_⟩
      rw [length_joinText hn ht, Int.natCast_add, ← Int.add_assoc]
      exact hs.2
    · rw [push_of_not_joins (by simpa using hjoins)]
      exact ⟨h, hs⟩

/-- Joining leaves siblings settled. -/
lemma allSettled_joinTexts {nodes : List Node} (h : AllSettled config window start nodes)
    (hin : LieIn window start nodes) : AllSettled config window start (joinTexts nodes) := by
  induction nodes generalizing start with
  | nil => exact h
  | cons node rest ih =>
    have hlength : lengthOf (joinTexts rest) = lengthOf rest :=
      lengthOf_eq_of_characters (characters_joinTexts rest)
    rw [joinTexts_cons]
    refine allSettled_push h.1 (ih h.2 hin.tail) ?_
    obtain ⟨hstart, hstop⟩ := hin
    rw [lengthOf_cons] at hstop
    exact ⟨hstart, by rwa [lengthOf_cons, hlength]⟩

/-- What comes out of a node that is covered: nothing if the node has no characters, or else a
settled node with the same characters. -/
inductive Settles (config : Config) (window : Span) (start : Int) (node : Node) : Outcome → Prop
  | nothing (h : node.length = 0) : Settles config window start node .nothing
  | one {next : Node} (hsettled : next.Settled config window start)
      (htext : next.characters = node.characters) : Settles config window start node (.one next)

namespace Settles

variable {outcome : Outcome}

lemma isIsolated (h : node.Settles config window start outcome) : outcome.isIsolated = false := by
  cases h <;> rfl

lemma characters_eq (h : node.Settles config window start outcome) :
    outcome.characters = node.characters := by
  cases h with
  | nothing hzero =>
    exact (List.eq_nil_of_length_eq_zero (by rw [length_characters, hzero])).symm
  | one hsettled htext => rw [characters_one, htext]

lemma allSettled_append (h : node.Settles config window start outcome) {others : List Node}
    (ho : AllSettled config window (start + node.length) others) :
    AllSettled config window start (outcome.nodes ++ others) := by
  cases h with
  | nothing hzero => simpa [Outcome.nodes, hzero] using ho
  | @one next hsettled htext =>
    refine ⟨hsettled, ?_⟩
    rwa [length_eq_of_characters htext]

end Settles

/-- What comes out of a covered node is settled, wherever the node starts. -/
def SettlesCovered (config : Config) (window : Span) (node : Node) : Prop :=
  ∀ start : Int, (node.spanFrom start).isWithin window = true →
    node.Settles config window start (node.outcome config window start)

lemma allSettled_pieces {nodes : List Node}
    (h : ∀ node ∈ nodes, node.SettlesCovered config window) (hin : LieIn window start nodes) :
    AllSettled config window start (pieces config window start nodes) ∧
      (pieces config window start nodes).flatMap characters = nodes.flatMap characters := by
  induction nodes generalizing start with
  | nil => exact ⟨trivial, rfl⟩
  | cons node rest ih =>
    have hnode := h node (by simp) start hin.head
    obtain ⟨hsettled, htext⟩ := ih (fun n hm => h n (by simp [hm])) hin.tail
    rw [pieces_cons]
    refine ⟨hnode.allSettled_append hsettled, ?_⟩
    rw [List.flatMap_append, List.flatMap_cons, htext, ← hnode.characters_eq]
    rfl

lemma isIsolated_of_settlesCovered {nodes : List Node}
    (h : ∀ node ∈ nodes, node.SettlesCovered config window) (hin : LieIn window start nodes)
    {outcome : Outcome} (ho : outcome ∈ outcomes config window start nodes) :
    outcome.isIsolated = false := by
  induction nodes generalizing start with
  | nil => cases ho
  | cons node rest ih =>
    rcases List.mem_cons.mp ho with rfl | ho
    · exact (h node (by simp) start hin.head).isIsolated
    · exact ih (fun n hm => h n (by simp [hm])) hin.tail ho

lemma assemble_map_one (join : Bool) (nodes : List Node) :
    Outcome.assemble join (nodes.map .one) = if join then joinTexts nodes else nodes := by
  have hnodes : (nodes.map Outcome.one).flatMap Outcome.nodes = nodes := by
    rw [List.flatMap_map]
    exact List.flatMap_singleton' nodes
  cases join with
  | false => rw [Outcome.assemble_false, hnodes, if_neg Bool.false_ne_true]
  | true =>
    have hapart : ∀ outcome ∈ nodes.map Outcome.one, outcome.isIsolated = false := by
      intro outcome ho
      obtain ⟨node, -, rfl⟩ := List.mem_map.mp ho
      rfl
    rw [Outcome.assemble_true_of_not_isIsolated hapart, hnodes, if_pos rfl]

lemma joinTexts_joinTexts (nodes : List Node) : joinTexts (joinTexts nodes) = joinTexts nodes := by
  simpa using joinTexts_joinTexts_between [] nodes []

/-- The new children of a covered node are settled, have its characters, and are put together as
they are. -/
lemma allSettled_rebuilt (hleaf : node.bearsText = false)
    (hin : (node.spanFrom start).isWithin window = true)
    (h : ∀ child ∈ node.childNodes, child.SettlesCovered config window) :
    AllSettled config window start (node.rebuilt config window start) ∧
      (node.rebuilt config window start).flatMap characters = node.characters ∧
      Outcome.assemble config.text.mergeAdjacentText
        ((node.rebuilt config window start).map .one) = node.rebuilt config window start := by
  have hchildren := lieIn_childNodes hleaf hin
  obtain ⟨hsettled, htext⟩ := allSettled_pieces h hchildren
  rw [← characters_of_not_bearsText hleaf] at htext
  have hlength : lengthOf (pieces config window start node.childNodes) =
      lengthOf node.childNodes := by
    rw [characters_of_not_bearsText hleaf] at htext
    exact lengthOf_eq_of_characters htext
  rw [assemble_map_one]
  cases hjoin : config.text.mergeAdjacentText with
  | false => simpa [rebuilt_eq_pieces hjoin] using ⟨hsettled, htext⟩
  | true =>
    have hrebuilt : node.rebuilt config window start =
        joinTexts (pieces config window start node.childNodes) := by
      rw [rebuilt, hjoin]
      exact Outcome.assemble_true_of_not_isIsolated fun o ho =>
        isIsolated_of_settlesCovered h hchildren ho
    rw [hrebuilt, if_pos rfl]
    refine ⟨allSettled_joinTexts hsettled ⟨hchildren.1, ?_⟩, ?_, joinTexts_joinTexts _⟩
    · rw [hlength]
      exact hchildren.2
    · rw [characters_joinTexts, htext]

/-- A node that comes out around new children would do so with other children. -/
lemma whole_withChildren (h : (Treatment.whole config node).descends = true)
    (children : List Node) :
    Treatment.whole config (node.withChildren children) = Treatment.whole config node := by
  have hloose : Treatment.descends (.ofContainer config node) = true →
      Treatment.ofContainer config (node.withChildren children) = .ofContainer config node := by
    cases hparent : node.isParent with
    | false => simp [Treatment.ofContainer, hparent, Treatment.descends]
    | true => simp [Treatment.ofContainer, hparent]
  simp only [Treatment.whole, kind_withChildren] at h ⊢
  cases hkind : node.kind <;> simp only [hkind] at h ⊢ <;> exact hloose h

lemma settled_withChildren {evenEmpty : Bool} {children : List Node}
    (hin : (node.spanFrom start).isWithin window = true)
    (htreatment : (node.decision config window start).treatment = .rebuild evenEmpty)
    (hsettled : AllSettled config window start children)
    (htext : children.flatMap characters = node.characters)
    (hassemble : Outcome.assemble config.text.mergeAdjacentText (children.map .one) = children)
    (hstays : (children.isEmpty && !evenEmpty) = false) :
    (node.withChildren children).Settled config window start := by
  have hleaf := bearsText_of_descends (by rw [htreatment]; rfl)
  have hchars : (node.withChildren children).characters = node.characters := by
    rw [characters_of_not_bearsText (by simpa using hleaf), childNodes_withChildren, htext]
  have hspan : (node.withChildren children).spanFrom start = node.spanFrom start := by
    rw [spanFrom, spanFrom, length_eq_of_characters hchars]
  have hrebuilt : (node.withChildren children).rebuilt config window start = children := by
    rw [rebuilt, childNodes_withChildren, outcomes_of_allSettled hsettled, hassemble]
  have hdecision : (node.withChildren children).decision config window start =
      node.decision config window start := by
    rw [decision_of_isWithin hin] at htreatment ⊢
    rw [decision_of_isWithin (by rwa [hspan]), hspan, type?_withChildren]
    split at htreatment
    · cases htreatment
    · have hdescends := congrArg Treatment.descends htreatment
      rw [whole_withChildren hdescends]
  rw [Settled, outcome_eq, hdecision, htreatment, hrebuilt, Treatment.emit, hstays,
    if_neg Bool.false_ne_true, withChildren_withChildren]

/-- A covered node is settled when it comes out, and has its characters. -/
theorem settlesCovered (window : Span) (node : Node) (hout : node.LeavesOutNoText config) :
    node.SettlesCovered config window := by
  induction node using Node.inductionOn with
  | step node ih =>
    intro start hin
    have hkeep (h : node.outcome config window start = .one node) :
        node.Settles config window start (node.outcome config window start) := by
      rw [h]
      exact .one h rfl
    cases hseen : (node.spanFrom start).misses window with
    | true =>
      rw [outcome_of_misses hseen]
      rw [Span.misses_iff, stop_spanFrom, start_spanFrom] at hseen
      rw [Span.isWithin_iff, start_spanFrom, stop_spanFrom] at hin
      exact .nothing (by omega)
    | false =>
      have hrebuild (hleaf : node.bearsText = false) {evenEmpty : Bool}
          (htreatment : (node.decision config window start).treatment = .rebuild evenEmpty) :
          node.Settles config window start (node.outcome config window start) := by
        obtain ⟨hsettled, htext, hassemble⟩ := allSettled_rebuilt hleaf hin fun child hm =>
          ih child hm (hout.child hleaf hm)
        rw [outcome_eq, htreatment, Treatment.emit]
        cases hstays : (node.rebuilt config window start).isEmpty && !evenEmpty with
        | true =>
          rw [Bool.and_eq_true, List.isEmpty_iff] at hstays
          rw [hstays.1, List.flatMap_nil] at htext
          exact .nothing (by rw [← length_characters, ← htext, List.length_nil])
        | false =>
          refine .one (settled_withChildren hin htreatment hsettled htext hassemble hstays) ?_
          rw [characters_of_not_bearsText (by simpa using hleaf), childNodes_withChildren, htext]
      have htreated := node.treated config hseen
      have hcut : ¬node.IsPartial window start :=
        fun hpart => Bool.noConfusion (hin.symm.trans hpart.2)
      generalize htreatment : (node.decision config window start).treatment = treatment at htreated
      cases htreated with
      | leftOut h =>
        rw [outcome_eq, htreatment]
        exact .nothing (hout.self h)
      | excluded hpart => exact absurd hpart hcut
      | leaf => exact hkeep (by rw [outcome_eq, htreatment]; rfl)
      | cut hkind hpart => exact absurd hpart hcut
      | atomic => exact hkeep (by rw [outcome_eq, htreatment]; rfl)
      | bare => exact hkeep (by rw [outcome_eq, htreatment]; rfl)
      | list hkind => exact hrebuild (bearsText_of_list hkind) htreatment
      | container hleaf => exact hrebuild hleaf htreatment
      | spliced hpart => exact absurd hpart hcut

/-- The spans of a tree lie in the window of a range that covers it. -/
lemma isWithin_of_covers {range : Range} (h : range.Covers node) :
    (node.spanFrom 0).isWithin ⟨range.start, range.stopWithin node.length⟩ = true := by
  rw [h.stopWithin_eq, h.1, Span.isWithin_iff, start_spanFrom, stop_spanFrom]
  simp

/-- Nothing is cut off a document that is covered, whatever else is left out of it. -/
lemma info_excerptAlone {range : Range} (h : range.Covers node) :
    (node.excerptAlone config range).info.hasPartialNodes = false ∧
      (node.excerptAlone config range).info.modifiedNodeTypes = [] := by
  have htally : node.tallyOf config ⟨range.start, range.stopWithin node.length⟩ = {} :=
    node.recordsNothing config _ 0 {} (isWithin_of_covers h)
  simp only [excerptAlone, htally]
  split
  · split <;> exact ⟨rfl, rfl⟩
  · split <;> exact ⟨rfl, rfl⟩

lemma excerptAlone_withPolicies {range : Range} (h : range.Covers node) :
    node.excerptAlone (config.withPolicies behavior whitespace) range =
      node.excerptAlone config range := by
  have hin := isWithin_of_covers h
  have htally (other : Config) :
      node.tallyOf other ⟨range.start, range.stopWithin node.length⟩ = {} :=
    node.recordsNothing other _ 0 {} hin
  have houtcome := node.ignoresPolicies config behavior whitespace _ 0 hin
  simp only [excerptAlone, htally, houtcome]

/-- A document that is covered comes out settled, with its text. -/
lemma exists_node_excerptAlone {range : Range} (h : range.Covers node)
    (hout : node.LeavesOutNoText config) :
    ∃ next, (node.excerptAlone config range).node = some next ∧
      next.characters = node.characters ∧
      (0 < node.length → next.Settled config ⟨0, node.length⟩ 0) := by
  by_cases hzero : node.length = 0
  · refine ⟨node, ?_, rfl, by omega⟩
    rw [node_excerptAlone_of_le (by rw [h.stopWithin_eq]; omega), if_pos ⟨hzero, h.1⟩]
  · have hsettles := node.settlesCovered _ hout 0 (isWithin_of_covers h)
    rw [node_excerptAlone (by rw [h.stopWithin_eq, h.1]; omega)]
    rw [h.stopWithin_eq, h.1] at hsettles ⊢
    generalize node.outcome config _ 0 = outcome at hsettles ⊢
    cases hsettles with
    | nothing h => exact absurd h hzero
    | one hsettled htext => exact ⟨_, rfl, htext, fun _ => hsettled⟩

/-- A range that covers a document cuts nothing. Its excerpt does not depend on the policies for cut
nodes and cut blanks; if no text is left out, it is the text of the document in a tree that is its
own excerpt. -/
theorem excerpt_covered (config : Config) (number : Nat) {range : Range} {node : Node}
    (hcovers : range.Covers node) :
    ∃ excerpt, (node.excerpt config number range {}).1 = .ok excerpt ∧
      excerpt.info.hasPartialNodes = false ∧ excerpt.info.modifiedNodeTypes = [] ∧
      (∀ behavior whitespace,
        (node.excerpt (config.withPolicies behavior whitespace) number range {}).1 = .ok excerpt) ∧
      (node.LeavesOutNoText config → ∃ tree, excerpt.node = some tree ∧
        tree.length = node.length ∧ (Document.tree tree).text = (Document.tree node).text ∧
        ∀ again : Range, again.Covers tree →
          ∃ second, (tree.excerpt config number again {}).1 = .ok second ∧
            second.node = some tree) := by
  obtain ⟨hpartial, hmodified⟩ := info_excerptAlone hcovers
  refine ⟨_, excerpt_fresh config number range node, hpartial, hmodified, ?_, fun hout => ?_⟩
  · intro behavior whitespace
    rw [excerpt_fresh, excerptAlone_withPolicies hcovers]
  · obtain ⟨tree, htree, htext, hsettled⟩ := exists_node_excerptAlone hcovers hout
    have hlength := length_eq_of_characters htext
    refine ⟨tree, htree, hlength, by simp only [Document.text, htext], fun again hagain => ?_⟩
    refine ⟨_, excerpt_fresh config number again tree, ?_⟩
    by_cases hzero : tree.length = 0
    · rw [node_excerptAlone_of_le (by rw [hagain.stopWithin_eq]; omega), if_pos ⟨hzero, hagain.1⟩]
    · have hown := hsettled (by omega)
      rw [node_excerptAlone (by rw [hagain.stopWithin_eq, hagain.1]; omega), hagain.stopWithin_eq,
        hagain.1, hlength]
      rw [Settled] at hown
      simp [hown, Outcome.tree?]

/-- Nodes without characters at both edges and between text leaves, one of them of a type that can
be left out, and a list of nothing. -/
def draft : Node :=
  wrapperOf "root" [leafOf "text" "", wrapperOf "paragraph" [leafOf "text" "ab",
      wrapperOf "emphasis" [], leafOf "html" "<hr>", leafOf "text" "cd"],
    wrapperOf "list" [wrapperOf "listItem" []], leafOf "code" "ef", bare [("type", .str "break")]]

/-- Policies by which raw markup and emptied containers go. -/
def tidy : Config where
  behavior := { text := .excludeFull, block := .unwrap }
  content := { html := false }
  preserveEmptyBlocks := false

theorem excerpt_covered_draft :
    Range.Covers ⟨0, some 9, by decide⟩ draft ∧ draft.LeavesOutNoText tidy ∧
      ∃ excerpt, (draft.excerpt tidy 0 ⟨0, some 9, by decide⟩ {}).1 = .ok excerpt ∧
        excerpt.info.hasPartialNodes = false ∧ excerpt.info.modifiedNodeTypes = [] ∧
        (draft.excerpt (tidy.withPolicies {} .preserve) 0 ⟨0, some 9, by decide⟩ {}).1 =
          .ok excerpt ∧
        excerpt.node = some (wrapperOf "root" [wrapperOf "paragraph" [leafOf "text" "abcd"],
          leafOf "code" "ef"]) ∧
        ∃ second, ((wrapperOf "root" [wrapperOf "paragraph" [leafOf "text" "abcd"],
            leafOf "code" "ef"]).excerpt tidy 0 ⟨0, none, by simp⟩ {}).1 = .ok second ∧
          second.node = excerpt.node := by
  have hcovers : Range.Covers ⟨0, some 9, by decide⟩ draft := by
    refine ⟨rfl, fun stop hstop => ?_⟩
    obtain rfl := Option.some.inj hstop
    decide
  have hout : draft.LeavesOutNoText tidy := by
    unfold LeavesOutNoText Throughout
    decide
  obtain ⟨excerpt, hexcerpt, hpartial, hmodified, hpolicies, htree⟩ :=
    excerpt_covered tidy 0 hcovers
  obtain ⟨tree, hnode, -, -, hagain⟩ := htree hout
  have hshape : excerpt.node = some (wrapperOf "root" [wrapperOf "paragraph"
      [leafOf "text" "abcd"], leafOf "code" "ef"]) := by
    obtain rfl := Except.ok.inj (hexcerpt.symm.trans (excerpt_fresh _ _ _ _))
    rfl
  obtain rfl := Option.some.inj (hshape.symm.trans hnode)
  obtain ⟨second, hsecond, hsame⟩ := hagain ⟨0, none, by simp⟩ ⟨rfl, by simp⟩
  exact ⟨hcovers, hout, excerpt, hexcerpt, hpartial, hmodified, hpolicies {} .preserve, hshape,
    second, hsecond, by rw [hsame, hnode]⟩

end Node
end MarkdownExcerpt
