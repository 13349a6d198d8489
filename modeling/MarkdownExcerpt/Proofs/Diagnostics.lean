import Mathlib.Data.List.Basic
import MarkdownExcerpt.Proofs.Admission
import MarkdownExcerpt.Proofs.Excerpt
import MarkdownExcerpt.Proofs.Substring

/-! What is told about a cut besides the excerpt: how many nodes were covered only in part, and the
types of those that a policy changed. Both can be read off the walk of the tree, without cutting. -/
namespace MarkdownExcerpt

/-- The decision leaves a trace in the tally. -/
def Decision.isRecorded (decision : Decision) : Bool :=
  decision.isPartial || decision.modifiedType.isSome

namespace Tally

lemma record_of_not_isRecorded {decision : Decision} (h : decision.isRecorded = false)
    (tally : Tally) : tally.record decision = tally := by
  simp only [Decision.isRecorded, Bool.or_eq_false_iff, Option.isSome_eq_false_iff,
    Option.isNone_iff_eq_none] at h
  simp [record, h.1, h.2]

/-- Decisions without a trace might as well not have been made. -/
lemma foldl_record_filter (decisions : List Decision) (tally : Tally) :
    (decisions.filter Decision.isRecorded).foldl record tally = decisions.foldl record tally := by
  induction decisions generalizing tally with
  | nil => rfl
  | cons decision rest ih =>
    cases h : decision.isRecorded with
    | true => rw [List.filter_cons_of_pos h, List.foldl_cons, List.foldl_cons, ih]
    | false =>
      rw [List.filter_cons_of_neg (by simp [h]), List.foldl_cons, record_of_not_isRecorded h, ih]

lemma addType_eraseDups (count : Nat) (types : List String) (type : String) :
    (⟨count, types.eraseDups⟩ : Tally).addType type = ⟨count, (types ++ [type]).eraseDups⟩ := by
  rw [List.eraseDups_append]
  by_cases h : type ∈ types <;>
    simp [addType, List.removeAll, List.eraseDups_cons, h]

lemma record_eraseDups (count : Nat) (types : List String) (decision : Decision) :
    (⟨count, types.eraseDups⟩ : Tally).record decision =
      ⟨count + if decision.isPartial then 1 else 0,
        (types ++ decision.modifiedType.toList).eraseDups⟩ := by
  cases htype : decision.modifiedType <;> cases hpart : decision.isPartial <;>
    simp [record, htype, hpart, addType_eraseDups]

/-- The tally counts the nodes that are covered in part, and lists the types that are changed, each
where it is met first. -/
theorem foldl_record (decisions : List Decision) (count : Nat) (types : List String) :
    decisions.foldl record ⟨count, types.eraseDups⟩ =
      ⟨count + decisions.countP Decision.isPartial,
        (types ++ decisions.filterMap Decision.modifiedType).eraseDups⟩ := by
  induction decisions generalizing count types with
  | nil => simp
  | cons decision rest ih =>
    rw [List.foldl_cons, record_eraseDups, ih, List.countP_cons, List.append_assoc]
    cases htype : decision.modifiedType <;> simp [htype, Nat.add_assoc, Nat.add_comm]

end Tally

/-- Nodes that are covered in part are changed under the policy, or do not come out at all. -/
def Policy.alters : Policy → Bool
  | leaf policy => policy == .truncate || policy == .excludeFull
  | formatting policy => policy == .strip || policy == .exclude
  | media policy => policy == .strip || policy == .contentOnly
  | block policy => policy == .exclude || policy == .unwrap

/-- The policy for the type of the node alters it if the window covers it in part. -/
def Config.alters (config : Config) (node : Node) : Bool :=
  match config.behavior.effectivePolicy node.type? node.category with
  | .ok (some policy) => policy.alters
  | _ => false

lemma Config.alters_eq (config : Config) (node : Node) :
    config.alters node = (config.behavior.kindPolicy? node.kind).any Policy.alters := by
  rw [alters, Node.effectivePolicy_type?]
  cases config.behavior.kindPolicy? node.kind <;> rfl

namespace Decision

lemma modifiedType_ofPartial (config : Config) (window span : Span) (node : Node) :
    (ofPartial config window span node).modifiedType =
      if config.alters node then node.type? else none := by
  have hname := @Node.type?_eq_name? node
  rw [Config.alters_eq]
  cases hkind : node.kind with
  | leaf kind =>
    rw [hname (by simp [hkind]), hkind]
    cases hpolicy : config.behavior.leafPolicy kind <;>
      simp [ofPartial, Behavior.kindPolicy?, Policy.alters, hkind, hpolicy, NodeKind.name?]
  | formatting kind =>
    rw [hname (by simp [hkind]), hkind]
    cases hpolicy : config.behavior.formattingPolicy kind <;>
      simp [ofPartial, Behavior.kindPolicy?, Policy.alters, hkind, hpolicy, NodeKind.name?]
  | media kind =>
    rw [hname (by simp [hkind]), hkind]
    cases hpolicy : config.behavior.mediaPolicy kind <;>
      simp [ofPartial, Behavior.kindPolicy?, Policy.alters, hkind, hpolicy, NodeKind.name?]
  | block kind =>
    rw [hname (by simp [hkind]), hkind]
    cases hpolicy : config.behavior.blockPolicy kind <;>
      simp [ofPartial, Behavior.kindPolicy?, Policy.alters, hkind, hpolicy, NodeKind.name?]
  | _ => simp [ofPartial, Behavior.kindPolicy?, hkind]

end Decision

namespace Visit

/-- What stands in the node is not looked at: its type is left out, it is a break, or the window
cuts it and a policy drops such nodes. -/
def hides (config : Config) (window : Span) (visit : Visit) : Bool :=
  config.leavesOut visit.node.type? || visit.node.category == .atomic ||
    (visit.span.isCut window && config.drops visit.node.kind)

/-- A cut comes to the node: the window does not miss it, its type is not left out, and no node that
it stands in hides it. -/
def Met (config : Config) (window : Span) (visits : List Visit) (visit : Visit) : Prop :=
  visit.span.misses window = false ∧ config.leavesOut visit.node.type? = false ∧
    ∀ above ∈ visits, above.path <+: visit.path → above.path ≠ visit.path →
      above.hides config window = false

instance (config : Config) (window : Span) (visits : List Visit) (visit : Visit) :
    Decidable (visit.Met config window visits) :=
  inferInstanceAs (Decidable (_ = false ∧ _ = false ∧
    ∀ above ∈ visits, above.path <+: visit.path → above.path ≠ visit.path → _ = false))

end Visit

namespace Node

/-- The nodes that a cut comes to and that the window covers only in part, in the order of the
walk. -/
def cutVisits (config : Config) (window : Span) (node : Node) : List Visit :=
  let visits := (node.walk 0 {}).1.map Step.visit
  visits.filter fun visit => visit.span.isCut window && visit.Met config window visits

/-- Those of them that are walked from a node on. -/
def cutVisitsFrom (config : Config) (window : Span) (path : List Nat) (start : Int)
    (node : Node) : List Visit :=
  (node.visits path start).filter fun visit =>
    visit.span.isCut window && visit.Met config window (node.visits path start)

lemma cutVisits_eq (config : Config) (window : Span) (node : Node) :
    node.cutVisits config window = node.cutVisitsFrom config window [] 0 := by
  rw [cutVisits, walk_fresh, cutVisitsFrom]

variable {config : Config} {window : Span} {path : List Nat} {start : Int} {node : Node}

lemma isCut_iff : (node.spanFrom start).isCut window = true ↔ node.IsPartial window start := by
  simp [Span.isCut, IsPartial]

lemma misses_of_mem_visits (h : (node.spanFrom start).misses window = true) {visit : Visit}
    (hv : visit ∈ node.visits path start) : visit.span.misses window = true := by
  obtain ⟨-, -, hstart, hstop⟩ := visit_bounds hv
  rw [Span.misses_iff, start_spanFrom, stop_spanFrom] at h
  rw [Span.misses_iff]
  omega

/-- The first node of a walk is met unless it is missed or left out. -/
lemma met_self_iff :
    Visit.Met config window (node.visits path start) ⟨path, node, node.spanFrom start⟩ ↔
      (node.spanFrom start).misses window = false ∧ config.leavesOut node.type? = false := by
  refine ⟨fun h => ⟨h.1, h.2.1⟩, fun h => ⟨h.1, h.2, fun above ha habove hne => ?_⟩⟩
  exact absurd (path_eq_of_isPrefix ha habove) hne

lemma not_met_of_hides (h : Visit.hides config window ⟨path, node, node.spanFrom start⟩ = true)
    {seat : Seat} {visit : Visit}
    (hv : visit ∈ seat.node.visits (path ++ [seat.index]) seat.start) :
    ¬visit.Met config window (node.visits path start) := by
  have hbelow := (visit_bounds hv).1
  rintro ⟨-, -, hshown⟩
  have hself := hshown _ (mem_visits.mpr (.inl rfl)) ((List.prefix_append _ _).trans hbelow)
    fun hpath => Seat.not_isPrefix (hpath ▸ hbelow)
  rw [h] at hself
  exact Bool.noConfusion hself

/-- Below a node that hides nothing, what is met is met on the walk of a child. -/
lemma met_iff_of_seat (hleaf : node.bearsText = false)
    (h : Visit.hides config window ⟨path, node, node.spanFrom start⟩ = false) {seat : Seat}
    (hseat : seat ∈ Child.seats 0 start node.children) {visit : Visit}
    (hv : visit ∈ seat.node.visits (path ++ [seat.index]) seat.start) :
    visit.Met config window (node.visits path start) ↔
      visit.Met config window (seat.node.visits (path ++ [seat.index]) seat.start) :=
  and_congr_right fun _ => and_congr_right fun _ =>
    forall_above_iff_of_seat (fun _ => h) hleaf hseat hv

lemma cutVisitsFrom_of_misses (h : (node.spanFrom start).misses window = true) :
    node.cutVisitsFrom config window path start = [] := by
  rw [cutVisitsFrom, List.filter_eq_nil_iff]
  intro visit hv
  simp [Span.isCut, misses_of_mem_visits h hv]

lemma isCut_and_met_self :
    ((node.spanFrom start).isCut window && decide
        (Visit.Met config window (node.visits path start) ⟨path, node, node.spanFrom start⟩)) =
      ((node.spanFrom start).isCut window && !config.leavesOut node.type?) := by
  cases hmiss : (node.spanFrom start).misses window <;> simp [Span.isCut, met_self_iff, hmiss]

/-- Of the nodes in one that hides them, or in a leaf, none is met. -/
lemma cutVisitsFrom_of_closed
    (h : Visit.hides config window ⟨path, node, node.spanFrom start⟩ = true ∨
      node.bearsText = true) :
    node.cutVisitsFrom config window path start =
      if (node.spanFrom start).isCut window && !config.leavesOut node.type? then
        [⟨path, node, node.spanFrom start⟩] else [] := by
  rw [cutVisitsFrom, filter_visits, isCut_and_met_self, List.append_right_eq_self]
  rcases h with hhides | hleaf
  · split
    · rfl
    · rw [List.flatMap_eq_nil_iff]
      intro seat hseat
      rw [List.filter_eq_nil_iff]
      intro visit hv
      simp [not_met_of_hides hhides hv]
  · rw [if_pos hleaf]

/-- In a node that hides nothing, those are met that are met on the walks of its children. -/
lemma cutVisitsFrom_of_open (hleaf : node.bearsText = false)
    (h : Visit.hides config window ⟨path, node, node.spanFrom start⟩ = false) :
    node.cutVisitsFrom config window path start =
      (if (node.spanFrom start).isCut window && !config.leavesOut node.type? then
        [⟨path, node, node.spanFrom start⟩] else []) ++
        (Child.seats 0 start node.children).flatMap fun seat =>
          seat.node.cutVisitsFrom config window (path ++ [seat.index]) seat.start := by
  rw [cutVisitsFrom, filter_visits, isCut_and_met_self, hleaf, if_neg Bool.false_ne_true]
  congr 1
  refine List.flatMap_congr fun seat hseat => List.filter_congr fun visit hv => ?_
  simp only [met_iff_of_seat hleaf h hseat hv]

/-- A node leaves a trace if the window cuts it and its type is not left out. -/
lemma isRecorded_decision :
    (node.decision config window start).isRecorded =
      ((node.spanFrom start).isCut window && !config.leavesOut node.type?) := by
  simp only [decision, Decision.of, Span.isCut]
  cases (node.spanFrom start).misses window with
  | true => rfl
  | false =>
    cases config.leavesOut node.type? with
    | true => simp [Decision.isRecorded]
    | false =>
      cases (node.spanFrom start).isWithin window with
      | true => rfl
      | false => simp [Decision.isRecorded, Decision.isPartial_ofPartial]

/-- Besides nodes that are dropped, breaks hide what is in them. -/
lemma category_of_hides (h : Visit.hides config window ⟨path, node, node.spanFrom start⟩ = true)
    (hopen : Visit.isBarred config window ⟨path, node, node.spanFrom start⟩ = false) :
    node.category = .atomic := by
  simp only [Visit.isBarred, Bool.or_eq_false_iff] at hopen
  obtain ⟨⟨-, hstays⟩, hkept⟩ := hopen
  simp only [Visit.hides, hstays, Bool.false_or, Bool.or_eq_true, beq_iff_eq, Bool.and_eq_true,
    Span.isCut] at h
  rcases h with hatomic | ⟨⟨-, hcut⟩, hdrops⟩
  · exact hatomic
  · simp [hcut, hdrops] at hkept

/-- What hides the nodes in it needs no new children, and neither do leaves. -/
lemma not_descends_of_closed
    (h : Visit.hides config window ⟨path, node, node.spanFrom start⟩ = true ∨
      node.bearsText = true) :
    (node.decision config window start).treatment.descends = false := by
  rw [← Bool.not_eq_true]
  intro hdescends
  have hseen := misses_of_descends hdescends
  have hleaf := bearsText_of_descends hdescends
  have hbarred : Visit.isBarred config window ⟨path, node, node.spanFrom start⟩ = false := by
    rw [← Bool.not_eq_true, ← treatment_eq_drop_iff]
    intro hdrop
    rw [hdrop] at hdescends
    cases hdescends
  have hatomic := category_of_hides (h.resolve_right (by simp [hleaf])) hbarred
  have htreated := node.treated config hseen
  generalize (node.decision config window start).treatment = treatment at hdescends htreated
  cases htreated with
  | list hkind => simp [category, hkind, NodeKind.category] at hatomic
  | container _ _ hother => exact hother hatomic
  | spliced _ hsplice =>
    cases hkind : node.kind <;>
      simp_all [category, NodeKind.category, Config.splices]
  | _ => cases hdescends

/-- A node that hides nothing gets new children if it has children at all. -/
lemma children_of_open (hseen : (node.spanFrom start).misses window = false)
    (hleaf : node.bearsText = false)
    (h : Visit.hides config window ⟨path, node, node.spanFrom start⟩ = false)
    (hkept : (node.decision config window start).treatment.descends = false) :
    node.children = [] := by
  simp only [Visit.hides, Bool.or_eq_false_iff] at h
  obtain ⟨⟨hstays, hatomic⟩, hdrops⟩ := h
  have htreated := node.treated config hseen
  generalize (node.decision config window start).treatment = treatment at hkept htreated
  cases htreated with
  | leftOut hout => simp [hout] at hstays
  | excluded hpart hdrop => simp [isCut_iff.mpr hpart, hdrop] at hdrops
  | leaf hbears => simp [hleaf] at hbears
  | cut hkind => simp [bearsText_of_leaf hkind] at hleaf
  | atomic hkind => simp [category, hkind, NodeKind.category] at hatomic
  | bare _ hbare =>
    cases node with
    | bare attributes => rfl
    | parent attributes children => cases hbare
  | _ => cases hkept

end Node

lemma Child.decisions_eq_flatMap {config : Config} {window : Span} (index : Nat) (start : Int)
    (children : List Child) :
    Child.decisions config window start children =
      (seats index start children).flatMap fun seat =>
        seat.node.decisions config window seat.start := by
  induction children generalizing index start with
  | nil => rfl
  | cons child rest ih =>
    cases child with
    | stray value => exact ih _ _
    | node child => rw [decisions, seats, List.flatMap_cons, ih (index + 1)]

namespace Node

variable {config : Config} {window : Span} {path : List Nat} {start : Int} {node : Node}

lemma decisions_of_open (hseen : (node.spanFrom start).misses window = false)
    (hleaf : node.bearsText = false)
    (h : Visit.hides config window ⟨path, node, node.spanFrom start⟩ = false) :
    node.decisions config window start =
      node.decision config window start ::
        (Child.seats 0 start node.children).flatMap fun seat =>
          seat.node.decisions config window seat.start := by
  rw [decisions_eq, ← Child.decisions_eq_flatMap]
  cases hdescends : (node.decision config window start).treatment.descends with
  | true => rfl
  | false =>
    rw [children_of_open hseen hleaf h hdescends]
    rfl

/-- The decisions that leave a trace are those on the nodes that are met and cut. -/
theorem recorded_decisions (config : Config) (window : Span) (path : List Nat) (start : Int)
    (node : Node) :
    (node.decisions config window start).filter Decision.isRecorded =
      (node.cutVisitsFrom config window path start).map (Visit.decision config window) := by
  induction node using Node.inductionOn generalizing path start with
  | step node ih =>
    cases hseen : (node.spanFrom start).misses window with
    | true =>
      rw [cutVisitsFrom_of_misses hseen, decisions_eq, decision_of_misses hseen]
      rfl
    | false =>
      by_cases hclosed : Visit.hides config window ⟨path, node, node.spanFrom start⟩ = true ∨
          node.bearsText = true
      · rw [cutVisitsFrom_of_closed hclosed, decisions_eq, not_descends_of_closed hclosed,
          if_neg Bool.false_ne_true, List.filter_cons, isRecorded_decision]
        split <;> rfl
      · simp only [not_or, Bool.not_eq_true] at hclosed
        rw [cutVisitsFrom_of_open hclosed.2 hclosed.1,
          decisions_of_open hseen hclosed.2 hclosed.1, List.filter_cons, isRecorded_decision,
          List.filter_flatMap, List.map_append, List.map_flatMap,
          List.flatMap_congr fun seat hseat =>
            ih seat.node (Child.mem_nodes_of_mem_seats hseat) (path ++ [seat.index]) seat.start]
        split <;> rfl

/-- What is recorded about a node that is met and cut. -/
lemma decision_of_mem_cutVisitsFrom {visit : Visit}
    (h : visit ∈ node.cutVisitsFrom config window path start) :
    visit.decision config window = .ofPartial config window visit.span visit.node := by
  obtain ⟨hv, hcut⟩ := List.mem_filter.mp h
  rw [Bool.and_eq_true, decide_eq_true_eq] at hcut
  obtain ⟨hcut, hseen, hstays, -⟩ := hcut
  have hpart : visit.span.isWithin window = false := by simpa [Span.isCut, hseen] using hcut
  rw [Visit.decision, decision, ← (visit_bounds hv).2.1, Decision.of]
  simp [hseen, hstays, hpart]

/-- The tally is that of the nodes that are met and cut. -/
theorem tallyOf_eq (config : Config) (window : Span) (node : Node) :
    node.tallyOf config window =
      ⟨(node.cutVisits config window).length,
        (((node.cutVisits config window).filter fun visit =>
          config.alters visit.node).filterMap fun visit => visit.node.type?).eraseDups⟩ := by
  have hfresh : ({} : Tally) = ⟨0, ([] : List String).eraseDups⟩ := rfl
  rw [tallyOf, ← Tally.foldl_record_filter, recorded_decisions config window [] 0, hfresh,
    Tally.foldl_record, cutVisits_eq, Nat.zero_add, List.nil_append, List.countP_map,
    List.filterMap_map, List.filterMap_filter]
  congr 2
  · rw [List.countP_eq_length]
    intro visit hv
    simp [decision_of_mem_cutVisitsFrom hv, Decision.isPartial_ofPartial]
  · refine List.filterMap_congr fun visit hv => ?_
    rw [Function.comp_apply, decision_of_mem_cutVisitsFrom hv, Decision.modifiedType_ofPartial]

/-- A node that stays is met first of all, and if it is not cut, nothing in it is. -/
lemma cutVisitsFrom_eq_nil_iff (hstays : config.leavesOut node.type? = false) :
    node.cutVisitsFrom config window path start = [] ↔
      (node.spanFrom start).isCut window = false := by
  rw [cutVisitsFrom, List.filter_eq_nil_iff]
  constructor
  · intro hnone
    have hself := hnone _ (mem_visits.mpr (.inl rfl))
    rw [isCut_and_met_self] at hself
    simpa [hstays] using hself
  · intro hself visit hv
    obtain ⟨-, -, hstart, hstop⟩ := visit_bounds hv
    have hnot : visit.span.isCut window = false := by
      simp only [Span.isCut, Bool.and_eq_false_iff, Bool.not_eq_false', Span.misses_iff,
        Span.isWithin_iff, start_spanFrom, stop_spanFrom] at hself ⊢
      omega
    simp [hnot]

/-- A tree that stays is cut if the range does not select all of it. -/
lemma length_cutVisits_pos_iff {range : Range} (hstays : config.leavesOut node.type? = false)
    (hrange : range.start < range.stopWithin node.length) :
    0 < (node.cutVisits config (range.window node)).length ↔
      0 < range.start ∨ range.stopWithin node.length < node.length := by
  have hstop := range.stopWithin_le node.length
  rw [List.length_pos_iff, ne_eq, cutVisits_eq, cutVisitsFrom_eq_nil_iff hstays,
    Bool.not_eq_false, isCut_iff, IsPartial, Span.misses_eq_false_iff, Span.isWithin_eq_false_iff]
  simp only [Range.window, start_spanFrom, stop_spanFrom]
  omega

/-- What is told about a cut is what the walk of the tree says about the nodes that are met and cut:
how many there are, and the types of those that a policy alters, each once and in order. -/
theorem diagnostics_excerpt {range : Range} {node : Node}
    (hrange : range.start < range.stopWithin node.length) (config : Config) (number : Nat) :
    ∃ excerpt meter, node.excerpt config number range {} = (.ok excerpt, meter) ∧
      let cut := node.cutVisits config (range.window node)
      let types := ((cut.filter fun visit => config.alters visit.node).filterMap fun visit =>
        visit.node.type?).eraseDups
      meter.log.getLast? = some (.sliced range.start (range.stopWithin node.length) node.length
        excerpt.info.slicedLength cut.length types) ∧
      (excerpt.info.hasPartialNodes = true ↔ 0 < cut.length) ∧
      excerpt.info.modifiedNodeTypes = types ∧
      (config.leavesOut node.type? = false → (excerpt.info.hasPartialNodes = true ↔
        0 < range.start ∨ range.stopWithin node.length < node.length)) := by
  obtain ⟨hpartial, htypes⟩ := info_excerptAlone_of_lt hrange config
  have hlast := getLast?_log_excerpt hrange config number
  rw [tallyOf_eq] at hpartial htypes hlast
  refine ⟨_, _, Prod.ext (excerpt_fresh config number range node) rfl, hlast, ?_, htypes,
    fun hstays => ?_⟩
  · rw [hpartial, decide_eq_true_eq]
  · rw [hpartial, decide_eq_true_eq, length_cutVisits_pos_iff hstays hrange]

/-- Besides the root, both texts are cut and the two wrappers around the second one. -/
theorem diagnostics_excerpt_article :
    let range : Range := ⟨1, some 4, by decide⟩
    range.start < range.stopWithin article.length ∧
      ∃ excerpt meter, article.excerpt plainPolicies 0 range {} = (.ok excerpt, meter) ∧
        meter.log.getLast? = some (.sliced 1 4 9 3 5 ["text", "emphasis", "paragraph"]) ∧
        excerpt.info.hasPartialNodes = true ∧
        excerpt.info.modifiedNodeTypes = ["text", "emphasis", "paragraph"] := by
  intro range
  have hrange : range.start < range.stopWithin article.length := by decide
  obtain ⟨excerpt, meter, hexcerpt, hlast, -, htypes, hpartial⟩ :=
    diagnostics_excerpt hrange plainPolicies 0
  have hfresh := (congrArg Prod.fst hexcerpt).symm.trans (excerpt_fresh plainPolicies 0 range _)
  obtain rfl := Except.ok.inj hfresh
  exact ⟨hrange, _, meter, hexcerpt, hlast.trans (by decide), (hpartial rfl).mpr (by decide),
    htypes.trans (by decide)⟩

end Node
end MarkdownExcerpt
