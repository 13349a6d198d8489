import MarkdownExcerpt.Proofs.Pieces

/-! Which nodes are in an excerpt. Under policies that keep every character, join no text and leave
no container out, the walk of an excerpt is the walk of the document without the nodes that do not
survive, and the spans are cut to the window. -/
namespace MarkdownExcerpt

mutual

/-- Whether a node that starts at an offset is in the excerpt: the window meets it, it does not give
way to its content, and it is no list without characters that has no such child. -/
def Node.survives (config : Config) (window : Span) (start : Int) (node : Node) : Bool :=
  let span := node.spanFrom start
  !span.misses window && (span.isWithin window || !config.splices node.kind) &&
    (!(node.kind == .list && node.length == 0) ||
      match node with
      | .bare _ => false
      | .parent _ children => Child.anySurvives config window start children)

/-- Whether one of the children is in the excerpt. -/
def Child.anySurvives (config : Config) (window : Span) (start : Int) : List Child → Bool
  | [] => false
  | .stray _ :: rest => Child.anySurvives config window start rest
  | .node child :: rest =>
    child.survives config window start ||
      Child.anySurvives config window (start + child.length) rest

end

namespace Span

/-- The part of a span in the window, counted from the start of the window. -/
def overlap (window span : Span) : Span :=
  ⟨max span.start window.start - window.start, min span.stop window.stop - window.start⟩

lemma clipped_eq_overlap {window span : Span} (hwindow : window.start < window.stop)
    (hseen : span.misses window = false) : window.clipped span = window.overlap span := by
  rw [misses_eq_false_iff] at hseen
  simp only [clipped, overlap, clip]
  congr 1 <;> omega

end Span

namespace Node

/-- The attributes of a node beside its children. -/
def label (node : Node) : Fields := Assoc.erase "children" node.attributes

/-- The attributes beside the children, the value of a leaf as far as the window shows it. -/
def visibleLabel (window : Span) (start : Int) (node : Node) : Fields :=
  if node.bearsText then (node.visible window start).label else node.label

/-- The labels and spans in a walk. -/
def labels (entries : List (Node × Span)) : List (Fields × Span) :=
  entries.map fun entry => (entry.1.label, entry.2)

/-- The labels and spans of a walk as they are in the excerpt. -/
def survivors (config : Config) (window : Span) (entries : List (Node × Span)) :
    List (Fields × Span) :=
  (entries.filter fun entry => entry.1.survives config window entry.2.start).map
    fun entry => (entry.1.visibleLabel window entry.2.start, window.overlap entry.2)

/-- Whether one of the siblings, the first of which starts at an offset, is in the excerpt. -/
def anySurvives (config : Config) (window : Span) (start : Int) : List Node → Bool
  | [] => false
  | node :: rest =>
    node.survives config window start || anySurvives config window (start + node.length) rest

variable {config : Config} {window : Span} {start : Int} {node : Node}

lemma anySurvives_eq (start : Int) (children : List Child) :
    Child.anySurvives config window start children =
      anySurvives config window start (Child.nodes children) := by
  induction children generalizing start with
  | nil => rfl
  | cons child rest ih => cases child <;> simp [Child.anySurvives, anySurvives, ih]

lemma survives_eq (config : Config) (window : Span) (start : Int) (node : Node) :
    node.survives config window start =
      (!(node.spanFrom start).misses window &&
        ((node.spanFrom start).isWithin window || !config.splices node.kind) &&
        (!(node.kind == .list && node.length == 0) ||
          anySurvives config window start node.childNodes)) := by
  cases node with
  | bare attributes => simp [survives, anySurvives]
  | parent attributes children => rw [survives, anySurvives_eq]; rfl

lemma survives_of_misses (h : (node.spanFrom start).misses window = true) :
    node.survives config window start = false := by
  simp [survives_eq, h]

lemma survives_of_not_list (hseen : (node.spanFrom start).misses window = false)
    (hstays : ¬((node.spanFrom start).isWithin window = false ∧ config.splices node.kind = true))
    (hlist : node.kind ≠ .list) : node.survives config window start = true := by
  cases hin : (node.spanFrom start).isWithin window <;> simp_all [survives_eq]

lemma survives_of_leaf (hseen : (node.spanFrom start).misses window = false)
    (hleaf : node.bearsText = true) : node.survives config window start = true := by
  apply survives_of_not_list hseen
  · rintro ⟨-, hsplice⟩
    simp [bearsText_of_splices hsplice] at hleaf
  · intro hlist
    simp [bearsText, hlist, NodeKind.isLeaf] at hleaf

lemma survives_of_atom (hbreaks : node.BreaksBare)
    (hseen : (node.spanFrom start).misses window = false) (hleaf : node.bearsText = false)
    (hatom : node.isWrapper = false) : node.survives config window start = true := by
  obtain ⟨hbare, hlist⟩ := bare_of_atom hbreaks hleaf hatom
  apply survives_of_not_list hseen _ hlist
  rintro ⟨hcut, -⟩
  exact not_isPartial_of_length_eq_zero (length_of_bare hleaf hbare) ⟨hseen, hcut⟩

@[simp] lemma labels_append (first second : List (Node × Span)) :
    labels (first ++ second) = labels first ++ labels second := List.map_append

@[simp] lemma survivors_append (first second : List (Node × Span)) :
    survivors config window (first ++ second) =
      survivors config window first ++ survivors config window second := by
  simp [survivors]

/-- Nodes outside the window have no survivors below them. -/
lemma survivors_of_misses (hmiss : (node.spanFrom start).misses window = true) :
    survivors config window (node.spansFrom start) = [] := by
  rw [survivors, List.map_eq_nil_iff, List.filter_eq_nil_iff]
  intro entry he
  obtain ⟨visit, hv, rfl⟩ := List.mem_map.mp he
  obtain ⟨-, hspan, hstart, hstop⟩ := visit_bounds hv
  have hgone : (visit.node.spanFrom visit.span.start).misses window = true := by
    rw [Span.misses_iff, stop_spanFrom, start_spanFrom] at hmiss
    rw [← hspan, Span.misses_iff]
    omega
  simp [Visit.entry, survives_of_misses hgone]

/-- If a node does not give way to its content, something comes out of it exactly if it survives. -/
def VanishesRight (config : Config) (window : Span) (node : Node) : Prop :=
  ∀ start : Int,
    ¬((node.spanFrom start).isWithin window = false ∧ config.splices node.kind = true) →
      ((node.outcome config window start).nodes = [] ↔ node.survives config window start = false)

lemma pieces_eq_nil_iff {nodes : List Node}
    (h : ∀ node ∈ nodes, node.length = 0 ∧ node.VanishesRight config window) (start : Int) :
    pieces config window start nodes = [] ↔ anySurvives config window start nodes = false := by
  induction nodes generalizing start with
  | nil => simp [anySurvives]
  | cons node rest ih =>
    obtain ⟨hlength, hright⟩ := h node (by simp)
    have hnode : (node.outcome config window start).nodes = [] ↔
        node.survives config window start = false := by
      cases hseen : (node.spanFrom start).misses window with
      | true => simp [outcome_of_misses hseen, survives_of_misses hseen, Outcome.nodes]
      | false =>
        -- Without characters a node is never covered in part, so it cannot give way.
        refine hright start fun hgives => ?_
        exact not_isPartial_of_length_eq_zero hlength ⟨hseen, hgives.1⟩
    rw [pieces_cons, anySurvives, List.append_eq_nil_iff, Bool.or_eq_false_iff, hnode,
      ih fun n hm => h n (by simp [hm])]

lemma nodes_eq_nil_iff_of_list (hc : config.KeepsPieces) (hwindow : window.start < window.stop)
    (hbreaks : node.BreaksBare) (hseen : (node.spanFrom start).misses window = false)
    (hlist : node.kind = .list)
    (h : ∀ child ∈ node.childNodes, child.VanishesRight config window) :
    (node.outcome config window start).nodes = [] ↔
      node.survives config window start = false := by
  have hleaf : node.bearsText = false := by simp [bearsText, hlist, NodeKind.isLeaf]
  have hwrap : node.isWrapper = true :=
    isWrapper_iff.mpr ⟨hleaf, by simp [category, hlist, NodeKind.category],
      by simp [hlist, NodeKind.isLoose]⟩
  by_cases hlength : node.length = 0
  · have hchildren : ∀ child ∈ node.childNodes, child.length = 0 := by
      rw [length_of_not_bearsText hleaf, lengthOf_eq_zero_iff] at hlength
      exact hlength
    have hsurvives : node.survives config window start =
        anySurvives config window start node.childNodes := by
      simp [survives_eq, hseen, hlist, hlength, Config.splices]
    rw [hsurvives, ← pieces_eq_nil_iff (fun child hm => ⟨hchildren child hm, h child hm⟩),
      outcome_of_wrapper hc hseen hwrap]
    by_cases hnil : pieces config window start node.childNodes = [] <;>
      simp [hlist, Config.splices, Config.keepsEmpty, hnil, Outcome.nodes]
  · have hne := nodes_outcome_ne_nil hc.toKeepsContent hc.whitespace hbreaks.breaksEmpty hwindow
      (Nat.pos_of_ne_zero hlength) hseen
    simp [hne, survives_eq, hseen, hlist, hlength, Config.splices]

theorem vanishesRight (hc : config.KeepsPieces) (hempty : config.preserveEmptyBlocks = true)
    (hwindow : window.start < window.stop) (node : Node) (hbreaks : node.BreaksBare) :
    node.VanishesRight config window := by
  induction node using Node.inductionOn with
  | step node ih =>
    intro start hstays
    cases hseen : (node.spanFrom start).misses window with
    | true => simp [outcome_of_misses hseen, survives_of_misses hseen, Outcome.nodes]
    | false =>
      cases hleaf : node.bearsText with
      | true =>
        simp [outcome_of_leaf hc hwindow hseen hleaf, survives_of_leaf hseen hleaf, Outcome.nodes]
      | false =>
        cases hwrap : node.isWrapper with
        | false =>
          simp [outcome_of_atom hc hseen hleaf hwrap,
            survives_of_atom hbreaks hseen hleaf hwrap, Outcome.nodes]
        | true =>
          by_cases hlist : node.kind = .list
          · exact nodes_eq_nil_iff_of_list hc hwindow hbreaks hseen hlist fun child hm =>
              ih child hm (hbreaks.child hleaf hm)
          · simp [outcome_of_wrapper hc hseen hwrap, hstays, Config.keepsEmpty, hlist, hempty,
              survives_of_not_list hseen hstays hlist, Outcome.nodes]

/-- The walk of what comes out of the node is the walk of what survives in it. -/
def WalksThrough (config : Config) (window : Span) (node : Node) : Prop :=
  ∀ start : Int, labels (spansOf (window.clip start) (node.outcome config window start).nodes) =
    survivors config window (node.spansFrom start)

lemma labels_spansOf_pieces (hc : config.KeepsPieces) (hwindow : window.start < window.stop)
    {nodes : List Node} (hbreaks : ∀ node ∈ nodes, node.BreaksBare)
    (h : ∀ node ∈ nodes, node.WalksThrough config window) (start : Int) :
    labels (spansOf (window.clip start) (pieces config window start nodes)) =
      survivors config window (spansOf start nodes) := by
  induction nodes generalizing start with
  | nil => rfl
  | cons node rest ih =>
    have hnext := clip_add_length hc hwindow (hbreaks node (by simp)) start
    rw [pieces_cons, spansOf_append, labels_append, h node (by simp), hnext,
      ih (fun n hm => hbreaks n (by simp [hm])) fun n hm => h n (by simp [hm])]
    simp [spansOf]

lemma survivors_cons_of_survives (hwindow : window.start < window.stop)
    (rest : List (Node × Span)) (h : node.survives config window start = true) :
    survivors config window ((node, node.spanFrom start) :: rest) =
      (node.visibleLabel window start, window.clipped (node.spanFrom start)) ::
        survivors config window rest := by
  have hseen : (node.spanFrom start).misses window = false := by
    cases hseen : (node.spanFrom start).misses window with
    | true => simp [survives_of_misses hseen] at h
    | false => rfl
  simp [survivors, h, Span.clipped_eq_overlap hwindow hseen]

lemma survivors_cons_of_not_survives (rest : List (Node × Span))
    (h : node.survives config window start = false) :
    survivors config window ((node, node.spanFrom start) :: rest) =
      survivors config window rest := by
  simp [survivors, h]

/-- Where a single node comes out, it is walked first. -/
lemma labels_spansOf_one (hc : config.KeepsPieces) (hwindow : window.start < window.stop)
    (hbreaks : node.BreaksBare) {next : Node}
    (h : node.outcome config window start = .one next) :
    labels (spansOf (window.clip start) (node.outcome config window start).nodes) =
      (next.label, window.clipped (node.spanFrom start)) ::
        labels (if next.bearsText then [] else spansOf (window.clip start) next.childNodes) := by
  have hspan := spanFrom_of_outcome hc hwindow hbreaks h
  rw [h, Outcome.nodes, spansOf, spansOf, List.append_nil, spansFrom_eq, hspan]
  rfl

@[simp] lemma label_withChildren (children : List Node) (node : Node) :
    (node.withChildren children).label = node.label := by
  simp [label, withChildren, attributes]

lemma visibleLabel_of_not_bearsText (hleaf : node.bearsText = false) (window : Span)
    (start : Int) : node.visibleLabel window start = node.label := by
  simp [visibleLabel, hleaf]

/-- A wrapper is walked right if its content is. -/
lemma walksThrough_wrapper (hc : config.KeepsPieces) (hempty : config.preserveEmptyBlocks = true)
    (hwindow : window.start < window.stop) (hbreaks : node.BreaksBare)
    (hseen : (node.spanFrom start).misses window = false) (hwrap : node.isWrapper = true)
    (hcontent : labels (spansOf (window.clip start)
        (pieces config window start node.childNodes)) =
      survivors config window (spansOf start node.childNodes)) :
    labels (spansOf (window.clip start) (node.outcome config window start).nodes) =
      survivors config window (node.spansFrom start) := by
  have hleaf := (isWrapper_iff.mp hwrap).1
  have hout := outcome_of_wrapper hc hseen hwrap
  rw [spansFrom_eq, hleaf]
  by_cases hgives : (node.spanFrom start).isWithin window = false ∧ config.splices node.kind = true
  · have hgone : node.survives config window start = false := by simp [survives_eq, hgives]
    rw [if_pos hgives] at hout
    rw [hout, Outcome.nodes_content, hcontent, survivors_cons_of_not_survives _ hgone]
    rfl
  · have hvanishes := vanishesRight hc hempty hwindow node hbreaks start hgives
    rw [if_neg hgives] at hout
    by_cases hnone : ((pieces config window start node.childNodes).isEmpty &&
        !config.keepsEmpty node.kind) = true
    · rw [if_pos hnone] at hout
      rw [hout, Outcome.nodes] at hvanishes ⊢
      rw [Bool.and_eq_true, List.isEmpty_iff] at hnone
      rw [hnone.1] at hcontent
      rw [survivors_cons_of_not_survives _ (hvanishes.mp rfl)]
      exact hcontent
    · rw [if_neg hnone] at hout
      have hsurvives : node.survives config window start = true := by
        rw [hout] at hvanishes
        simpa [Outcome.nodes] using hvanishes
      rw [labels_spansOf_one hc hwindow hbreaks hout,
        survivors_cons_of_survives hwindow _ hsurvives]
      simp [hleaf, hcontent, visibleLabel_of_not_bearsText hleaf]

/-- The walk of what comes out of a node, wherever it starts, is the walk of its survivors. -/
theorem walksThrough (hc : config.KeepsPieces) (hempty : config.preserveEmptyBlocks = true)
    (hwindow : window.start < window.stop) (node : Node) (hbreaks : node.BreaksBare) :
    node.WalksThrough config window := by
  induction node using Node.inductionOn with
  | step node ih =>
    intro start
    cases hseen : (node.spanFrom start).misses window with
    | true => rw [outcome_of_misses hseen, survivors_of_misses hseen]; rfl
    | false =>
      cases hleaf : node.bearsText with
      | true =>
        rw [labels_spansOf_one hc hwindow hbreaks (outcome_of_leaf hc hwindow hseen hleaf),
          spansFrom_eq, survivors_cons_of_survives hwindow _ (survives_of_leaf hseen hleaf)]
        simp [hleaf, visibleLabel, labels, survivors]
      | false =>
        cases hwrap : node.isWrapper with
        | false =>
          have hnil : node.childNodes = [] := by
            have hbare := (bare_of_atom hbreaks hleaf hwrap).1
            cases node with
            | bare attributes => rfl
            | parent attributes children => simp [isParent] at hbare
          rw [labels_spansOf_one hc hwindow hbreaks (outcome_of_atom hc hseen hleaf hwrap),
            spansFrom_eq, survivors_cons_of_survives hwindow _
              (survives_of_atom hbreaks hseen hleaf hwrap)]
          simp [hleaf, hnil, visibleLabel, labels, survivors, spansOf]
        | true =>
          have hchild : ∀ child ∈ node.childNodes, child.BreaksBare :=
            fun child hm => hbreaks.child hleaf hm
          exact walksThrough_wrapper hc hempty hwindow hbreaks hseen hwrap
            (labels_spansOf_pieces hc hwindow hchild
              (fun child hm => ih child hm (hchild child hm)) start)

/-- The walk of an excerpt, but for a new root, is the walk of the document with the nodes that
survive and with the parts of their spans in the window. -/
theorem spans_excerpt (hc : config.KeepsPieces) (hempty : config.preserveEmptyBlocks = true)
    (hbreaks : node.BreaksBare) (number : Nat) {range : Range}
    (hrange : range.start < range.stopWithin node.length) :
    ∃ excerpt tree, (node.excerpt config number range {}).1 = .ok excerpt ∧
      excerpt.node = some tree ∧
      labels (if (node.spanFrom 0).isWithin (range.window node) = false ∧
          config.splices node.kind = true then tree.spans.tail else tree.spans) =
        survivors config (range.window node) node.spans := by
  have hwindow : (range.window node).start < (range.window node).stop := Int.ofNat_lt.mpr hrange
  have hle := range.stopWithin_le node.length
  have hstart : (range.window node).clip 0 = 0 := by
    simp only [Range.window, Span.clip]
    omega
  have hseen : (node.spanFrom 0).misses (range.window node) = false := by
    rw [Span.misses_eq_false_iff, stop_spanFrom, start_spanFrom]
    simp only [Range.window]
    omega
  have hne := nodes_outcome_ne_nil hc.toKeepsContent hc.whitespace hbreaks.breaksEmpty hwindow
    (by omega) hseen
  have hwalk := walksThrough hc hempty hwindow node hbreaks 0
  have htree : (node.excerptAlone config range).node =
      (node.outcome config (range.window node) 0).tree? := node_excerptAlone hrange
  rw [← spans_eq, hstart] at hwalk
  cases hout : node.outcome config (range.window node) 0 with
  | nothing => simp [hout, Outcome.nodes] at hne
  | one tree =>
    rw [hout] at htree hwalk
    refine ⟨_, tree, excerpt_fresh config number range node, htree, ?_⟩
    rw [if_neg (not_givesWay_of_one hout), ← hwalk]
    simp [Outcome.nodes, spansOf, spans_eq]
  | many nodes isolated =>
    rw [hout] at htree hwalk
    refine ⟨_, rootOf nodes, excerpt_fresh config number range node, htree, ?_⟩
    have hroot : (rootOf nodes).bearsText = false := rfl
    rw [if_pos (givesWay_of_many hc hwindow hout).2, ← hwalk, spans_eq, spansFrom_eq]
    simp [hroot, Outcome.nodes]

theorem spans_excerpt_article :
    piecePolicies.KeepsPieces ∧ piecePolicies.preserveEmptyBlocks = true ∧
      article.BreaksBare ∧
      ∃ excerpt tree, (article.excerpt piecePolicies 0 ⟨1, some 8, by decide⟩ {}).1 = .ok excerpt ∧
        excerpt.node = some tree ∧
        labels tree.spans = survivors piecePolicies ⟨1, 8⟩ article.spans := by
  refine ⟨keepsPieces_piecePolicies, rfl, breaksBare_article, ?_⟩
  exact spans_excerpt keepsPieces_piecePolicies rfl breaksBare_article 0 (by decide)

end Node
end MarkdownExcerpt
