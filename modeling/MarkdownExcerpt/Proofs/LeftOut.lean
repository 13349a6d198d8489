import MarkdownExcerpt.Proofs.Admission
import MarkdownExcerpt.Proofs.Excerpt
import MarkdownExcerpt.Proofs.Pieces

/-! Where nodes of a type that is left out are still in an excerpt. Every node that is cut is left
out if its type says so, but two kinds of nodes come out unseen: those of a document without
characters, which is returned as it is, and those below a break, which is never taken apart. -/
namespace MarkdownExcerpt

/-- Types that can be left out are those of footnotes, and of nodes without a rule of their own. -/
lemma Config.kind_of_leavesOut {config : Config} {type : Option String}
    (h : config.leavesOut type = true) :
    NodeKind.ofType type = .unknown ∨ NodeKind.ofType type = .block .footnoteDefinition := by
  simp only [leavesOut, Option.any_eq_true, Inclusion.leftOutTypes, List.contains_eq_mem,
    List.mem_append, decide_eq_true_eq] at h
  obtain ⟨name, rfl, (hname | hname) | hname⟩ := h <;> split at hname
  all_goals simp only [List.not_mem_nil, List.mem_singleton] at hname
  · exact .inl (hname ▸ by decide)
  · exact .inr (hname ▸ by decide)
  · exact .inl (hname ▸ by decide)

namespace Node

/-- A node of a type that is left out is on the walk of the node. -/
def ShowsLeftOut (config : Config) (node : Node) : Prop :=
  ∃ entry ∈ node.spans, config.leavesOut entry.1.type? = true

variable {config : Config} {window : Span} {path : List Nat} {start : Int} {node : Node}

lemma leavesOut_of_bearsText (h : node.bearsText = true) :
    config.leavesOut node.type? = false := by
  cases hout : config.leavesOut node.type? with
  | false => rfl
  | true =>
    rcases Config.kind_of_leavesOut hout with hkind | hkind <;>
      simp [bearsText, kind, hkind, NodeKind.isLeaf] at h

lemma exists_mem_spansOf (property : Node → Prop) (start : Int) (nodes : List Node) :
    (∃ entry ∈ spansOf start nodes, property entry.1) ↔
      ∃ node ∈ nodes, ∃ entry ∈ node.spans, property entry.1 := by
  induction nodes generalizing start with
  | nil => simp [spansOf]
  | cons node rest ih =>
    have hnode : (∃ entry ∈ node.spansFrom start, property entry.1) ↔
        ∃ entry ∈ node.spans, property entry.1 := by
      have hmem : ∀ entries : List (Node × Span), (∃ entry ∈ entries, property entry.1) ↔
          ∃ n ∈ entries.map Prod.fst, property n := by simp
      rw [spans_eq, hmem, hmem, map_fst_spansFrom node start 0]
    simp only [spansOf, List.mem_append, or_and_right, exists_or, hnode, ih, List.mem_cons,
      exists_eq_left]

/-- What a node shows is its own type and what its children show. -/
theorem showsLeftOut_iff :
    node.ShowsLeftOut config ↔ config.leavesOut node.type? = true ∨
      node.bearsText = false ∧ ∃ child ∈ node.childNodes, child.ShowsLeftOut config := by
  rw [ShowsLeftOut, spans_eq, spansFrom_eq]
  cases hleaf : node.bearsText with
  | true => simp
  | false =>
    have hbelow := exists_mem_spansOf (fun n => config.leavesOut n.type? = true) 0 node.childNodes
    simp only [Bool.false_eq_true, if_false, List.mem_cons, or_and_right, exists_or,
      exists_eq_left, hbelow, true_and]
    rfl

lemma not_showsLeftOut_of_bearsText (h : node.bearsText = true) : ¬node.ShowsLeftOut config := by
  rw [showsLeftOut_iff, leavesOut_of_bearsText h, h]
  simp

/-- What a walked node shows, the node that it stands in shows. -/
lemma showsLeftOut_of_mem_visits {visit : Visit} (hv : visit ∈ node.visits path start)
    (h : visit.node.ShowsLeftOut config) : node.ShowsLeftOut config := by
  induction node using Node.inductionOn generalizing path start with
  | step node ih =>
    rcases mem_visits.mp hv with rfl | ⟨hleaf, seat, hseat, hv⟩
    · exact h
    · have hchild := Child.mem_nodes_of_mem_seats hseat
      exact showsLeftOut_iff.mpr (.inr ⟨hleaf, seat.node, hchild, ih _ hchild hv⟩)

/-- Joining text moves no other node. -/
lemma mem_push_of_not_isText {next : Node} (h : next.isText = false) (siblings : List Node) :
    next ∈ push node siblings ↔ next = node ∨ next ∈ siblings := by
  have hne : ∀ {other : Node}, other.isText = true → next ≠ other := by
    rintro other hother rfl
    rw [h] at hother
    exact Bool.noConfusion hother
  cases siblings with
  | nil => simp [push]
  | cons first rest =>
    by_cases hjoins : (node.isText && first.isText) = true
    · obtain ⟨hn, hf⟩ := Bool.and_eq_true_iff.mp hjoins
      rw [push_of_joins hn hf]
      simp [hne hn, hne hf, hne (show (node.joinText first).isText = true by simpa using hn)]
    · rw [push_of_not_joins (by simpa using hjoins), List.mem_cons]

lemma mem_joinTexts_of_not_isText {next : Node} (h : next.isText = false) (nodes : List Node) :
    next ∈ joinTexts nodes ↔ next ∈ nodes := by
  induction nodes with
  | nil => simp [joinTexts]
  | cons node rest ih => rw [joinTexts_cons, mem_push_of_not_isText h, ih, List.mem_cons]

end Node

lemma Outcome.mem_assemble_of_not_isText {node : Node} (h : node.isText = false) (join : Bool)
    (outcomes : List Outcome) : node ∈ assemble join outcomes ↔ node ∈ outcomes.flatMap nodes := by
  have hrun (run : List Node) : node ∈ (if join then Node.joinTexts run else run) ↔ node ∈ run := by
    cases join with
    | true => exact Node.mem_joinTexts_of_not_isText h run
    | false => rfl
  rw [← flatten_runs, ← List.flatten_cons, List.mem_flatten]
  simp only [assemble, List.mem_flatMap, hrun]

/-- An admitted break with nodes of a type that is left out below it. -/
def Visit.LetsThrough (config : Config) (window : Span) (visits : List Visit) (visit : Visit) :
    Prop :=
  visit.node.category = .atomic ∧ visit.Admitted config window visits ∧
    visit.node.ShowsLeftOut config

namespace Node

variable {config : Config} {window : Span} {path : List Nat} {start : Int} {node : Node}

/-- A break with nodes to be left out below it is on the walk, and nothing bars the way to it. -/
def HasGap (config : Config) (window : Span) (path : List Nat) (start : Int) (node : Node) :
    Prop :=
  ∃ visit ∈ node.visits path start, visit.LetsThrough config window (node.visits path start)

lemma not_hasGap_of_barred
    (h : Visit.isBarred config window ⟨path, node, node.spanFrom start⟩ = true) :
    ¬node.HasGap config window path start := by
  rintro ⟨visit, hv, -, hadmitted, -⟩
  exact not_admitted_of_barred hv h hadmitted

/-- A break is a gap itself if there are nodes to be left out below it. -/
lemma hasGap_of_atomic (hatomic : node.category = .atomic)
    (h : Visit.isBarred config window ⟨path, node, node.spanFrom start⟩ = false) :
    node.HasGap config window path start ↔ node.ShowsLeftOut config := by
  constructor
  · rintro ⟨visit, hv, -, -, hshows⟩
    exact showsLeftOut_of_mem_visits hv hshows
  · intro hshows
    exact ⟨⟨path, node, node.spanFrom start⟩, mem_visits.mpr (.inl rfl), hatomic,
      admitted_self_iff.mpr h, hshows⟩

lemma not_hasGap_of_bearsText (hleaf : node.bearsText = true) :
    ¬node.HasGap config window path start := by
  rintro ⟨visit, hv, hatomic, -, -⟩
  rcases mem_visits.mp hv with rfl | ⟨hnot, -⟩
  · rw [bearsText_of_atomic hatomic] at hleaf
    exact Bool.noConfusion hleaf
  · rw [hnot] at hleaf
    exact Bool.noConfusion hleaf

/-- Any other node has the gaps that its children have. -/
lemma hasGap_iff_of_not_atomic (hleaf : node.bearsText = false) (hatomic : node.category ≠ .atomic)
    (h : Visit.isBarred config window ⟨path, node, node.spanFrom start⟩ = false) :
    node.HasGap config window path start ↔
      ∃ seat ∈ Child.seats 0 start node.children,
        seat.node.HasGap config window (path ++ [seat.index]) seat.start := by
  constructor
  · rintro ⟨visit, hv, hbreak, hadmitted, hshows⟩
    rcases mem_visits.mp hv with rfl | ⟨-, seat, hseat, hv⟩
    · exact absurd hbreak hatomic
    · exact ⟨seat, hseat, visit, hv, hbreak, (admitted_iff_of_seat hleaf h hseat hv).mp hadmitted,
        hshows⟩
  · rintro ⟨seat, hseat, visit, hv, hbreak, hadmitted, hshows⟩
    exact ⟨visit, mem_visits.mpr (.inr ⟨hleaf, seat, hseat, hv⟩), hbreak,
      (admitted_iff_of_seat hleaf h hseat hv).mpr hadmitted, hshows⟩

/-- Nodes to be left out are in what comes out of a node exactly if the node has a gap. -/
def LeavesGaps (config : Config) (window : Span) (node : Node) : Prop :=
  ∀ (path : List Nat) (start : Int),
    (∃ next ∈ (node.outcome config window start).nodes, next.ShowsLeftOut config) ↔
      node.HasGap config window path start

lemma exists_showsLeftOut_rebuilt
    (hchildren : ∀ child ∈ node.childNodes, child.LeavesGaps config window)
    (hleaf : node.bearsText = false) (hatomic : node.category ≠ .atomic)
    (h : Visit.isBarred config window ⟨path, node, node.spanFrom start⟩ = false) :
    (∃ next ∈ node.rebuilt config window start, next.ShowsLeftOut config) ↔
      node.HasGap config window path start := by
  have hmem (next : Node) (hshows : next.ShowsLeftOut config) :
      next ∈ node.rebuilt config window start ↔
        ∃ seat ∈ Child.seats 0 start node.children,
          next ∈ (seat.node.outcome config window seat.start).nodes := by
    have htext : next.isText = false := by
      cases htext : next.isText with
      | false => rfl
      | true => exact absurd hshows (not_showsLeftOut_of_bearsText (bearsText_of_isText htext))
    rw [rebuilt, Outcome.mem_assemble_of_not_isText htext, childNodes_eq, outcomes_eq_map_seats 0,
      List.flatMap_map, List.mem_flatMap]
  rw [hasGap_iff_of_not_atomic hleaf hatomic h]
  constructor
  · rintro ⟨next, hnext, hshows⟩
    obtain ⟨seat, hseat, hin⟩ := (hmem next hshows).mp hnext
    exact ⟨seat, hseat, (hchildren _ (Child.mem_nodes_of_mem_seats hseat) _ _).mp
      ⟨next, hin, hshows⟩⟩
  · rintro ⟨seat, hseat, hgap⟩
    obtain ⟨next, hin, hshows⟩ :=
      (hchildren _ (Child.mem_nodes_of_mem_seats hseat) _ _).mpr hgap
    exact ⟨next, (hmem next hshows).mpr ⟨seat, hseat, hin⟩, hshows⟩

lemma exists_showsLeftOut_emit_rebuild (hleaf : node.bearsText = false)
    (hout : config.leavesOut node.type? = false) (children : List Node) (evenEmpty : Bool) :
    (∃ next ∈ (Treatment.emit node children (.rebuild evenEmpty)).nodes,
        next.ShowsLeftOut config) ↔
      ∃ next ∈ children, next.ShowsLeftOut config := by
  have hself : (node.withChildren children).ShowsLeftOut config ↔
      ∃ next ∈ children, next.ShowsLeftOut config := by
    rw [showsLeftOut_iff]
    simp [hleaf, hout]
  simp only [Treatment.emit]
  split
  · next hempty =>
    have hnil : children = [] := by simp_all
    simp [hnil, Outcome.nodes]
  · simpa [Outcome.nodes] using hself

/-- Whatever comes out of a node, it shows nodes to be left out exactly where a break lets them
through. -/
theorem leavesGaps (config : Config) (window : Span) (node : Node) :
    node.LeavesGaps config window := by
  induction node using Node.inductionOn with
  | step node ih =>
    intro path start
    cases hbarred : Visit.isBarred config window ⟨path, node, node.spanFrom start⟩ with
    | true =>
      rw [outcome_eq, treatment_eq_drop_iff.mpr hbarred]
      simp [Treatment.emit, Outcome.nodes, not_hasGap_of_barred hbarred]
    | false =>
      have hseen := misses_of_not_barred hbarred
      have hout := leavesOut_of_not_barred hbarred
      have hdrop := treatment_ne_drop hbarred
      have htreated := node.treated config hseen
      rw [outcome_eq]
      generalize (node.decision config window start).treatment = treatment at htreated hdrop
      cases htreated with
      | leftOut h => exact absurd rfl hdrop
      | excluded hpart h => exact absurd rfl hdrop
      | leaf hleaf h =>
        simp [Treatment.emit, Outcome.nodes, not_showsLeftOut_of_bearsText hleaf,
          not_hasGap_of_bearsText hleaf]
      | cut hkind hpart h =>
        have hleaf : node.bearsText = true := bearsText_of_leaf hkind
        simp only [Treatment.emit, not_hasGap_of_bearsText hleaf, iff_false]
        split
        · simp [Outcome.nodes]
        · simp [Outcome.nodes, not_showsLeftOut_of_bearsText, hleaf]
      | atomic hkind =>
        have hatomic : node.category = .atomic := by simp [category, hkind, NodeKind.category]
        simp [Treatment.emit, Outcome.nodes, hasGap_of_atomic hatomic hbarred]
      | bare hkind hbare =>
        have hleaf := bearsText_of_isLoose hkind
        have hatomic : node.category ≠ .atomic := by
          cases hk : node.kind <;> simp_all [category, NodeKind.category, NodeKind.isLoose]
        rw [hasGap_iff_of_not_atomic hleaf hatomic hbarred]
        cases node with
        | bare attributes =>
          have hshows : ¬(bare attributes).ShowsLeftOut config := by
            rw [showsLeftOut_iff, hout]
            simp
          simp [Treatment.emit, Outcome.nodes, hshows, Node.children, Child.seats]
        | parent attributes children => simp [isParent] at hbare
      | list hkind =>
        have hleaf : node.bearsText = false := bearsText_of_list hkind
        have hatomic : node.category ≠ .atomic := by simp [category, hkind, NodeKind.category]
        rw [exists_showsLeftOut_emit_rebuild hleaf hout,
          exists_showsLeftOut_rebuilt ih hleaf hatomic hbarred]
      | container hleaf hlist hatomic hparent h =>
        rw [exists_showsLeftOut_emit_rebuild hleaf hout,
          exists_showsLeftOut_rebuilt ih hleaf hatomic hbarred]
      | spliced hpart h =>
        have hatomic : node.category ≠ .atomic := by
          cases hk : node.kind <;> simp_all [category, NodeKind.category, Config.splices]
        rw [← exists_showsLeftOut_rebuilt ih (bearsText_of_splices h) hatomic hbarred]
        simp [Treatment.emit]

/-- Making a root of what comes out of a tree adds no node to be left out. -/
lemma exists_showsLeftOut_tree? (outcome : Outcome) :
    (∃ tree ∈ outcome.tree?, tree.ShowsLeftOut config) ↔
      ∃ next ∈ outcome.nodes, next.ShowsLeftOut config := by
  cases outcome with
  | many nodes isolated =>
    have hroot : config.leavesOut (rootOf nodes).type? = false := by
      cases hout : config.leavesOut (rootOf nodes).type? with
      | false => rfl
      | true => rcases Config.kind_of_leavesOut hout with hkind | hkind <;> cases hkind
    have hshows : (rootOf nodes).ShowsLeftOut config ↔
        ∃ next ∈ nodes, next.ShowsLeftOut config := by
      rw [showsLeftOut_iff, hroot, childNodes_rootOf]
      simp [bearsText, NodeKind.isLeaf]
    simp [Outcome.tree?, Outcome.nodes, hshows]
  | _ => simp [Outcome.tree?, Outcome.nodes]

/-- An excerpt shows a node of a type that is left out in two cases only: the document has no
characters and is returned as it is, or a break comes out with such a node below it. -/
theorem showsLeftOut_excerpt_iff (config : Config) (number : Nat) (range : Range) (node : Node) :
    ∃ excerpt, (node.excerpt config number range {}).1 = .ok excerpt ∧
      ((∃ tree ∈ excerpt.node, tree.ShowsLeftOut config) ↔
        (node.length = 0 ∧ range.start = 0 ∧ node.ShowsLeftOut config) ∨
          ∃ visit ∈ (node.walk number {}).1.map Step.visit,
            visit.LetsThrough config (range.window node)
              ((node.walk number {}).1.map Step.visit)) := by
  refine ⟨_, excerpt_fresh config number range node, ?_⟩
  have hgaps : (∃ next ∈ (node.outcome config (range.window node) 0).nodes,
      next.ShowsLeftOut config) ↔ node.HasGap config (range.window node) [] 0 :=
    node.leavesGaps config (range.window node) [] 0
  rw [walk_fresh]
  by_cases hstart : range.start < range.stopWithin node.length
  · have hle := range.stopWithin_le node.length
    have hlength : node.length ≠ 0 := by omega
    rw [node_excerptAlone hstart, exists_showsLeftOut_tree?]
    simp only [hlength, false_and, false_or]
    exact hgaps
  · have hle := Nat.le_of_not_lt hstart
    have hnone : ¬node.HasGap config (range.window node) [] 0 := by
      rw [← hgaps, outcome_of_stopWithin_le hle]
      simp [Outcome.nodes]
    have hbreaks : ¬∃ visit ∈ node.visits [] 0,
        visit.LetsThrough config (range.window node) (node.visits [] 0) := hnone
    rw [node_excerptAlone_of_le hle, or_iff_left hbreaks]
    split
    · next hempty => simp [hempty]
    · next hcut =>
      have hnot : ¬(node.length = 0 ∧ range.start = 0 ∧ node.ShowsLeftOut config) :=
        fun h => hcut ⟨h.1, h.2.1⟩
      simp [hnot]

/-- Raw markup is to be left out. -/
def withoutMarkup : Config where
  content := { html := false }

/-- A document of raw markup, which has no characters. -/
def markup : Node := wrapperOf "root" [leafOf "html" "<hr>"]

/-- A break with raw markup below it. -/
def brokenLine : Node :=
  wrapperOf "root" [leafOf "text" "ab", wrapperOf "break" [leafOf "html" "<hr>"],
    leafOf "text" "cd"]

/-- Markup that is to be left out is in the excerpt of a document without characters, and in that
of a document with a break around it. -/
theorem markup_showsLeftOut :
    withoutMarkup.leavesOut (some "html") = true ∧
      (∃ excerpt, (markup.excerpt withoutMarkup 0 ⟨0, some 1, by decide⟩ {}).1 = .ok excerpt ∧
        ∃ tree ∈ excerpt.node, ∃ entry ∈ tree.spans, entry.1.type? = some "html") ∧
      ∃ excerpt, (brokenLine.excerpt withoutMarkup 0 ⟨0, some 4, by decide⟩ {}).1 = .ok excerpt ∧
        ∃ tree ∈ excerpt.node, ∃ entry ∈ tree.spans, entry.1.type? = some "html" := by
  refine ⟨by decide, ⟨_, excerpt_fresh _ _ _ _, markup, rfl, ?_⟩,
    ⟨_, excerpt_fresh _ _ _ _, brokenLine, rfl, ?_⟩⟩
  · decide
  · decide

end Node
end MarkdownExcerpt
