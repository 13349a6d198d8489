import MarkdownExcerpt.Proofs.FullRange

/-! Nodes in the interior of a window. What comes out of such a node depends neither on the window,
nor on where the node starts, nor on any policy; a cut makes itself felt only along the two edges. -/
namespace MarkdownExcerpt

/-- The span lies in the window and does not come up to its edges. -/
def Span.IsInside (span window : Span) : Prop :=
  window.start < span.start ∧ span.stop < window.stop

namespace Node

variable {config other : Config} {window second : Span} {start offset : Int} {node : Node}

/-- Whatever lies inside is covered, and it is seen even without characters. -/
lemma isWithin_of_isInside (h : (node.spanFrom start).IsInside window) :
    (node.spanFrom start).isWithin window = true := by
  rw [Span.IsInside, start_spanFrom, stop_spanFrom] at h
  rw [Span.isWithin_iff, start_spanFrom, stop_spanFrom]
  omega

lemma misses_of_isInside (h : (node.spanFrom start).IsInside window) :
    (node.spanFrom start).misses window = false := by
  rw [Span.IsInside, start_spanFrom, stop_spanFrom] at h
  rw [Span.misses_eq_false_iff, start_spanFrom, stop_spanFrom]
  omega

/-- The decision on a node that lies inside looks neither at the window nor at the offset. -/
lemma decision_of_isInside (h : (node.spanFrom start).IsInside window) :
    node.decision config window start =
      if config.leavesOut node.type? then ⟨.drop, false, none⟩
      else ⟨.whole config node, false, none⟩ := by
  rw [decision_of_isWithin (isWithin_of_isInside h), misses_of_isInside h, Bool.false_or]

lemma isInside_of_mem_spansFrom (h : (node.spanFrom (start + offset)).IsInside window)
    {entry : Node × Span} (he : entry ∈ node.spansFrom start) :
    (entry.1.spanFrom (entry.2.start + offset)).IsInside window := by
  obtain ⟨hspan, hstart, hstop⟩ := span_bounds he
  have hend := congrArg Span.stop hspan
  simp only [Span.IsInside, start_spanFrom, stop_spanFrom] at h hend ⊢
  omega

/-- Two runs decide alike on all nodes of a tree that lies inside their windows. -/
lemma decidesAlike_of_isInside (h : config.AgreesUncut other)
    (hin : (node.spanFrom start).IsInside window)
    (hsecond : (node.spanFrom (start + offset)).IsInside second) :
    DecidesAlike config other window second offset (node.spansFrom start) := by
  intro entry he
  have hfirst : (entry.1.spanFrom entry.2.start).IsInside window := by
    rw [← Int.add_zero start] at hin
    simpa using isInside_of_mem_spansFrom hin he
  rw [decision_of_isInside (isInside_of_mem_spansFrom hsecond he), decision_of_isInside hfirst,
    h.leavesOut, h.whole]

/-- Inside a window no node gives way to its content. -/
lemma nothing_or_one_of_isInside (h : (node.spanFrom start).IsInside window) :
    node.outcome config window start = .nothing ∨
      ∃ next, node.outcome config window start = .one next := by
  cases houtcome : node.outcome config window start with
  | nothing => exact .inl rfl
  | one next => exact .inr ⟨next, rfl⟩
  | many nodes isolated =>
    have hcut := (splices_of_treatment (treatment_of_many houtcome)).1.2
    rw [isWithin_of_isInside h] at hcut
    exact Bool.noConfusion hcut

/-- If nothing is left out of a node inside a window, its text comes out. -/
lemma text_of_isInside (h : (node.spanFrom start).IsInside window)
    (hshows : ¬node.ShowsLeftOut config) :
    (node.outcome config window start = .nothing → node.length = 0) ∧
      ∀ next, node.outcome config window start = .one next →
        (Document.tree next).text = (Document.tree node).text := by
  have hout : node.LeavesOutNoText config :=
    fun entry he hleft => absurd ⟨entry, he, hleft⟩ hshows
  have hsettles := node.settlesCovered window hout start (isWithin_of_isInside h)
  generalize node.outcome config window start = outcome at hsettles
  cases hsettles with
  | nothing hzero => exact ⟨fun _ => hzero, nofun⟩
  | one _ htext =>
    refine ⟨nofun, fun next hone => ?_⟩
    obtain rfl := Outcome.one.inj hone
    simp only [Document.text, htext]

/-- One outcome is that of a node in the interior of any window, wherever the node starts and by
whatever policies: nothing or a single node, with all the text of the node if no type is left out.
Nothing is recorded on the way. -/
theorem exists_outcome_inside (config : Config) (node : Node) :
    ∃ outcome : Outcome,
      (outcome = .nothing ∨ ∃ next, outcome = .one next) ∧
      (¬node.ShowsLeftOut config → (outcome = .nothing → node.length = 0) ∧
        ∀ next, outcome = .one next → (Document.tree next).text = (Document.tree node).text) ∧
      ∀ (other : Config) (window : Span) (start : Int) (forest : Forest) (id : NodeId)
        (progress : Progress), config.AgreesUncut other → (node.spanFrom start).IsInside window →
        forest.node? id = some node → progress.meter.Sound forest →
          (node.cutAt other window id start progress).1 = outcome ∧
            (node.cutAt other window id start progress).2.tally = progress.tally := by
  have hwide : (node.spanFrom 0).IsInside ⟨-1, node.length + 1⟩ := by
    simp only [Span.IsInside, start_spanFrom, stop_spanFrom]
    omega
  refine ⟨node.outcome config ⟨-1, node.length + 1⟩ 0, nothing_or_one_of_isInside hwide,
    text_of_isInside hwide, fun other window start forest id progress hagrees hin hn hs => ?_⟩
  obtain ⟨hout, hfollows⟩ := cutAt_of_sound hs hn other window start
  rw [← Int.zero_add start] at hin
  have halike := decidesAlike_of_isInside hagrees hwide hin
  refine ⟨?_, ?_⟩
  · rw [hout, ← outcome_congr hagrees.join halike, Int.zero_add]
  · rw [Int.zero_add] at hin
    rw [hfollows.tally]
    exact node.recordsNothing other window start progress.tally (isWithin_of_isInside hin)

/-- Text between things without characters. -/
def passage : Node :=
  wrapperOf "paragraph" [leafOf "text" "", wrapperOf "emphasis" [], leafOf "text" "ab",
    bare [("type", .str "break")]]

/-- The passage comes out as it is, also under policies by which it would be gone if it were cut. -/
theorem exists_outcome_inside_passage :
    let config : Config :=
      { behavior := { text := .excludeFull, formatting := .exclude, block := .exclude } }
    (passage.spanFrom 0).IsInside ⟨-1, 3⟩ ∧ (passage.spanFrom 7).IsInside ⟨4, 20⟩ ∧
      (passage.cutAt {} ⟨-1, 3⟩ (.root 0) 0 {}).1 = .one passage ∧
      (passage.cutAt config ⟨4, 20⟩ (.root 0) 7 {}).1 = .one passage ∧
      (passage.cutAt config ⟨4, 20⟩ (.root 0) 7 {}).2.tally = {} := by
  intro config
  have hfirst : (passage.spanFrom 0).IsInside ⟨-1, 3⟩ := by
    unfold Span.IsInside
    decide
  have hsecond : (passage.spanFrom 7).IsInside ⟨4, 20⟩ := by
    unfold Span.IsInside
    decide
  obtain ⟨outcome, -, -, hruns⟩ := exists_outcome_inside {} passage
  obtain ⟨hone, -⟩ := hruns {} ⟨-1, 3⟩ 0 _ (.root 0) {} ⟨rfl, rfl, rfl⟩ hfirst
    (Forest.node?_ofTree_root 0 passage) (Meter.sound_fresh _)
  obtain ⟨hother, htally⟩ := hruns config ⟨4, 20⟩ 7 _ (.root 0) {} ⟨rfl, rfl, rfl⟩ hsecond
    (Forest.node?_ofTree_root 0 passage) (Meter.sound_fresh _)
  obtain rfl : outcome = .one passage := hone.symm.trans rfl
  exact ⟨hfirst, hsecond, hone, hother, htally⟩

end Node
end MarkdownExcerpt
