import MarkdownExcerpt.Proofs.Substring

/-! What comes out under policies that keep every character and join no text. Then a node outside
the window gives nothing, a leaf what is visible of it, a break itself, and a wrapper either the
pieces of its content or itself around these pieces. -/
namespace MarkdownExcerpt

/-- Policies under which no character in a window is lost and no text leaf joins another. -/
structure Config.KeepsPieces (config : Config) : Prop extends Config.KeepsContent config where
  whitespace : config.text.whitespace = .preserve
  apart : config.text.mergeAdjacentText = false

namespace Span

/-- Where an offset comes to lie when a window is cut out. -/
def clip (window : Span) (offset : Int) : Int :=
  max window.start (min offset window.stop) - window.start

theorem length_shown (window : Span) (h : window.start < window.stop) (start : Int)
    (cs : List Char) :
    ((window.shown start cs).length : Int) = window.clip (start + cs.length) - window.clip start := by
  rw [shown, Text.length_piece, clip, clip]
  omega

/-- A window of characters that another window cuts out. -/
structure FitsIn (inner outer : Span) : Prop where
  nonneg : 0 ≤ inner.start
  start_lt_stop : inner.start < inner.stop
  stop_le : inner.stop ≤ outer.stop - outer.start

lemma FitsIn.outer_start_lt_stop {inner outer : Span} (h : inner.FitsIn outer) :
    outer.start < outer.stop := by
  have hnonneg := h.nonneg
  have hlt := h.start_lt_stop
  have hle := h.stop_le
  omega

/-- What a second window shows of the characters in a first one. -/
theorem shown_shown {inner outer : Span} (h : inner.FitsIn outer) (start : Int) (cs : List Char) :
    inner.shown (outer.clip start) (outer.shown start cs) =
      (inner.shift outer.start).shown start cs := by
  obtain ⟨hnonneg, hlt, hle⟩ := h
  by_cases hbeyond : outer.stop < start
  · have houter : outer.shown start cs = [] := Text.piece_eq_nil (by omega)
    rw [houter, shown_nil]
    exact (Text.piece_eq_nil (by simp only [shift]; omega)).symm
  · simp only [shown, clip, shift]
    rw [Text.piece_piece _ _ _ _ _ (by omega)]
    congr 1 <;> omega

/-- The span of what comes out of a node, given the span of the node. -/
def clipped (window span : Span) : Span := ⟨window.clip span.start, window.clip span.stop⟩

lemma misses_shift {inner outer span : Span} (h : inner.FitsIn outer)
    (hmiss : span.misses outer = true) : span.misses (inner.shift outer.start) = true := by
  obtain ⟨hnonneg, hlt, hle⟩ := h
  rw [misses_iff] at hmiss ⊢
  simp only [shift]
  omega

lemma isWithin_shift {inner outer span : Span} (h : inner.FitsIn outer)
    (hout : span.isWithin outer = false) : span.isWithin (inner.shift outer.start) = false := by
  obtain ⟨hnonneg, hlt, hle⟩ := h
  rw [isWithin_eq_false_iff] at hout ⊢
  simp only [shift]
  omega

/-- The second window meets what comes out of a node exactly where it meets the node. -/
theorem misses_clipped {inner outer span : Span} (h : inner.FitsIn outer)
    (hseen : span.misses outer = false) :
    (outer.clipped span).misses inner = span.misses (inner.shift outer.start) := by
  obtain ⟨hnonneg, hlt, hle⟩ := h
  rw [misses_eq_false_iff] at hseen
  rw [Bool.eq_iff_iff, misses_iff, misses_iff]
  simp only [clipped, clip, shift]
  omega

theorem isWithin_clipped {inner outer span : Span} (h : inner.FitsIn outer)
    (hseen : span.misses outer = false) (hin : span.isWithin outer = true) :
    (outer.clipped span).isWithin inner = span.isWithin (inner.shift outer.start) := by
  obtain ⟨hnonneg, hlt, hle⟩ := h
  rw [misses_eq_false_iff] at hseen
  rw [isWithin_iff] at hin
  rw [Bool.eq_iff_iff, isWithin_iff, isWithin_iff]
  simp only [clipped, clip, shift]
  omega

end Span

/-- Whether a container of a kind stays when nothing is left in it. -/
def Config.keepsEmpty (config : Config) (kind : NodeKind) : Bool :=
  kind != .list && config.preserveEmptyBlocks

namespace Node

/-- Breaks that are walked have no list of children. -/
def BreaksBare (node : Node) : Prop :=
  node.Throughout fun n => n.category = .atomic → n.isParent = false

lemma bearsText_of_atomic {node : Node} (h : node.category = .atomic) : node.bearsText = false := by
  cases hkind : node.kind with
  | leaf kind => cases kind <;> simp [category, hkind, NodeKind.category, LeafKind.category] at h
  | _ => simp [bearsText, hkind, NodeKind.isLeaf]

lemma BreaksBare.breaksEmpty {node : Node} (h : node.BreaksBare) : node.BreaksEmpty :=
  fun entry he hatomic => length_of_bare (bearsText_of_atomic hatomic) (h entry he hatomic)

/-- Nodes that may be taken apart. -/
def isWrapper (node : Node) : Bool :=
  !node.bearsText && node.category != .atomic && (node.isParent || !node.kind.isLoose)

lemma isWrapper_iff {node : Node} :
    node.isWrapper = true ↔ node.bearsText = false ∧ node.category ≠ .atomic ∧
      (node.kind.isLoose = true → node.isParent = true) := by
  cases hloose : node.kind.isLoose <;> simp [isWrapper, hloose, and_assoc]

lemma isWrapper_withChildren {node : Node} (h : node.isWrapper = true) (children : List Node) :
    (node.withChildren children).isWrapper = true := by
  obtain ⟨hleaf, hatomic, -⟩ := isWrapper_iff.mp h
  exact isWrapper_iff.mpr ⟨by simpa using hleaf, by simpa [category] using hatomic, fun _ => rfl⟩

/-- A node that is neither a leaf nor a wrapper is no list and has no characters. -/
lemma bare_of_atom {node : Node} (hbreaks : node.BreaksBare) (hleaf : node.bearsText = false)
    (hatom : node.isWrapper = false) : node.isParent = false ∧ node.kind ≠ .list := by
  by_cases hatomic : node.category = .atomic
  · refine ⟨hbreaks.self hatomic, fun hlist => ?_⟩
    simp [category, hlist, NodeKind.category] at hatomic
  · have hparent : ¬(node.kind.isLoose = true → node.isParent = true) := fun hparent => by
      simp [isWrapper_iff.mpr ⟨hleaf, hatomic, hparent⟩] at hatom
    refine ⟨by simp_all, fun hlist => hparent (by simp [hlist, NodeKind.isLoose])⟩

variable {config : Config} {window : Span} {start : Int} {node : Node}

/-- What is visible of a leaf. -/
def visible (window : Span) (start : Int) (node : Node) : Node :=
  if (node.spanFrom start).isWithin window then node
  else node.withValue (String.ofList (window.shown start node.text.toList))

@[simp] lemma bearsText_visible (window : Span) (start : Int) (node : Node) :
    (node.visible window start).bearsText = node.bearsText := by
  unfold visible
  split <;> simp

lemma visible_of_isWithin (h : (node.spanFrom start).isWithin window = true) :
    node.visible window start = node := by
  rw [visible, if_pos h]

lemma visible_of_cut (h : (node.spanFrom start).isWithin window = false) :
    node.visible window start =
      node.withValue (String.ofList (window.shown start node.text.toList)) := by
  simp [visible, h]

/-- What comes out of siblings, the first of which starts at an offset. -/
def pieces (config : Config) (window : Span) (start : Int) (nodes : List Node) : List Node :=
  (outcomes config window start nodes).flatMap Outcome.nodes

@[simp] lemma pieces_nil (config : Config) (window : Span) (start : Int) :
    pieces config window start [] = [] := rfl

lemma pieces_cons (node : Node) (rest : List Node) :
    pieces config window start (node :: rest) =
      (node.outcome config window start).nodes ++
        pieces config window (start + node.length) rest := rfl

lemma pieces_append (first second : List Node) :
    pieces config window start (first ++ second) =
      pieces config window start first ++
        pieces config window (start + lengthOf first) second := by
  simp [pieces]

lemma rebuilt_eq_pieces (h : config.text.mergeAdjacentText = false) (start : Int) (node : Node) :
    node.rebuilt config window start = pieces config window start node.childNodes := by
  rw [rebuilt, h, Outcome.assemble_false, pieces]

theorem outcome_of_leaf (hc : config.KeepsPieces) (hwindow : window.start < window.stop)
    (hseen : (node.spanFrom start).misses window = false) (hleaf : node.bearsText = true) :
    node.outcome config window start = .one (node.visible window start) := by
  have htreated := node.treated config hseen
  rw [outcome_eq, visible]
  generalize (node.decision config window start).treatment = treatment at htreated
  cases htreated with
  | leftOut h => simp [hc.leavesOut] at h
  | excluded hpart h => simp [hc.drops] at h
  | leaf hbears h =>
    have hin : ¬node.IsPartial window start := fun hpart => by
      simp [hc.truncates hleaf] at h
      exact h hpart
    rw [if_pos (isWithin_of_not_isPartial hseen hin)]
    rfl
  | cut hkind hpart h =>
    rw [if_neg (by simp [hpart.2]), visibleValue_eq hc.whitespace]
    have hne : window.shown start node.text.toList ≠ [] := by
      rw [← characters_of_bearsText hleaf]
      refine Span.shown_ne_nil ?_ hwindow (by rwa [length_characters])
      rw [length_characters]
      exact hpart.length_pos
    simp [Treatment.emit, hne]
  | atomic hkind => simp [bearsText, hkind, NodeKind.isLeaf] at hleaf
  | bare hkind hbare => simp [bearsText_of_isLoose hkind] at hleaf
  | list hkind => simp [bearsText, hkind, NodeKind.isLeaf] at hleaf
  | container hbears => simp [hleaf] at hbears
  | spliced hpart h => simp [bearsText_of_splices h] at hleaf

/-- A node that is neither a leaf nor a wrapper comes out as it is. -/
theorem outcome_of_atom (hc : config.KeepsPieces)
    (hseen : (node.spanFrom start).misses window = false) (hleaf : node.bearsText = false)
    (hatom : node.isWrapper = false) : node.outcome config window start = .one node := by
  have hnot : ¬(node.category ≠ .atomic ∧ (node.kind.isLoose = true → node.isParent = true)) := by
    intro h
    simp [isWrapper_iff.mpr ⟨hleaf, h⟩] at hatom
  have htreated := node.treated config hseen
  rw [outcome_eq]
  generalize (node.decision config window start).treatment = treatment at htreated
  cases htreated with
  | leftOut h => simp [hc.leavesOut] at h
  | excluded hpart h => simp [hc.drops] at h
  | leaf hbears h => rfl
  | cut hkind hpart h => simp [bearsText, hkind, NodeKind.isLeaf] at hleaf
  | atomic hkind => rfl
  | bare hkind hbare => rfl
  | list hkind => simp [category, hkind, NodeKind.category, NodeKind.isLoose] at hnot
  | container _ _ hatomic hparent _ => exact absurd ⟨hatomic, hparent⟩ hnot
  | spliced hpart h =>
    refine absurd ⟨?_, fun _ => ?_⟩ hnot
    · intro hatomic
      cases hkind : node.kind <;>
        simp_all [category, NodeKind.category, Config.splices, bearsText, NodeKind.isLeaf]
    · cases hparent : node.isParent with
      | true => rfl
      | false =>
        have hpos := hpart.length_pos
        rw [length_of_bare hleaf hparent] at hpos
        exact absurd hpos (Nat.lt_irrefl 0)

/-- What comes out of a wrapper is made of the pieces of its content. -/
theorem outcome_of_wrapper (hc : config.KeepsPieces)
    (hseen : (node.spanFrom start).misses window = false) (hwrap : node.isWrapper = true) :
    node.outcome config window start =
      let content := pieces config window start node.childNodes
      if (node.spanFrom start).isWithin window = false ∧ config.splices node.kind = true then
        .content content node.kind.isBlock
      else if content.isEmpty && !config.keepsEmpty node.kind then .nothing
      else .one (node.withChildren content) := by
  obtain ⟨hleaf, hatomic, hparent⟩ := isWrapper_iff.mp hwrap
  have htreated := node.treated config hseen
  rw [outcome_eq, rebuilt_eq_pieces hc.apart]
  generalize (node.decision config window start).treatment = treatment at htreated
  cases htreated with
  | leftOut h => simp [hc.leavesOut] at h
  | excluded hpart h => simp [hc.drops] at h
  | leaf hbears h => simp [hleaf] at hbears
  | cut hkind hpart h => simp [bearsText, hkind, NodeKind.isLeaf] at hleaf
  | atomic hkind => simp [category, hkind, NodeKind.category] at hatomic
  | bare hkind hbare => simp [hparent hkind] at hbare
  | list hkind => simp [hkind, Config.splices, Config.keepsEmpty, Treatment.emit]
  | container _ hlist _ _ h =>
    have hstay : ¬((node.spanFrom start).isWithin window = false ∧
        config.splices node.kind = true) := by
      rintro ⟨hcut, hsplice⟩
      simp [h ⟨hseen, hcut⟩] at hsplice
    simp [hstay, Config.keepsEmpty, hlist, Treatment.emit]
  | spliced hpart h => simp [hpart.2, h, Treatment.emit]

/-- Only a wrapper that gives way leaves content without itself. -/
lemma givesWay_of_many (hc : config.KeepsPieces)
    (hwindow : window.start < window.stop) {nodes : List Node} {isolated : Bool}
    (h : node.outcome config window start = .many nodes isolated) :
    node.isWrapper = true ∧ (node.spanFrom start).isWithin window = false ∧
      config.splices node.kind = true := by
  cases hseen : (node.spanFrom start).misses window with
  | true => simp [outcome_of_misses hseen] at h
  | false =>
    cases hleaf : node.bearsText with
    | true => simp [outcome_of_leaf hc hwindow hseen hleaf] at h
    | false =>
      cases hwrap : node.isWrapper with
      | false => simp [outcome_of_atom hc hseen hleaf hwrap] at h
      | true =>
        rw [outcome_of_wrapper hc hseen hwrap] at h
        simp only at h
        split at h
        · next hsplice => exact ⟨rfl, hsplice⟩
        · split at h <;> simp at h

/-- From a wrapper outside the window nothing comes out, and from its content neither. -/
lemma pieces_of_misses (hleaf : node.bearsText = false)
    (hmiss : (node.spanFrom start).misses window = true) :
    pieces config window start node.childNodes = [] := by
  rw [Span.misses_iff, stop_spanFrom, start_spanFrom, length_of_not_bearsText hleaf] at hmiss
  generalize node.childNodes = nodes at hmiss
  induction nodes generalizing start with
  | nil => rfl
  | cons child rest ih =>
    rw [lengthOf_cons] at hmiss
    have hchild : (child.spanFrom start).misses window = true := by
      rw [Span.misses_iff, stop_spanFrom, start_spanFrom]
      omega
    rw [pieces_cons, outcome_of_misses hchild, ih (by omega)]
    rfl

lemma length_flatMap_characters (nodes : List Node) :
    (nodes.flatMap characters).length = lengthOf nodes := by
  induction nodes with
  | nil => rfl
  | cons node rest ih => simp [length_characters, ih]

/-- What comes out of a node reaches from where its start comes to lie to where its end does. -/
theorem clip_add_length (hc : config.KeepsPieces) (hwindow : window.start < window.stop)
    (hbreaks : node.BreaksBare) (start : Int) :
    window.clip start + lengthOf (node.outcome config window start).nodes =
      window.clip (start + node.length) := by
  have hshown := node.showsWindow hc.toKeepsContent hc.whitespace window hbreaks.breaksEmpty start
  have hlength := window.length_shown hwindow start node.characters
  rw [← hshown, Outcome.characters, length_flatMap_characters, length_characters] at hlength
  omega

/-- The node that comes out of another one spans what the window shows of it. -/
lemma spanFrom_of_outcome (hc : config.KeepsPieces) (hwindow : window.start < window.stop)
    (hbreaks : node.BreaksBare) {next : Node}
    (h : node.outcome config window start = .one next) :
    next.spanFrom (window.clip start) = window.clipped (node.spanFrom start) := by
  have hlength := clip_add_length hc hwindow hbreaks start
  rw [h] at hlength
  simp only [Outcome.nodes, lengthOf_cons, lengthOf_nil] at hlength
  simp only [spanFrom, Span.clipped, Span.ofLength]
  congr 1

end Node

/-- Policies by which all wrappers but list items give way, and text is not joined. -/
def piecePolicies : Config := { Node.plainPolicies with text := ⟨.preserve, false⟩ }

lemma keepsPieces_piecePolicies : piecePolicies.KeepsPieces :=
  ⟨Node.keepsContent_plainPolicies.withText _, rfl, rfl⟩

lemma Node.breaksBare_article : article.BreaksBare := by
  unfold BreaksBare Throughout
  decide

end MarkdownExcerpt
