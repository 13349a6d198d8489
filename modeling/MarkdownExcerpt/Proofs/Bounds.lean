import MarkdownExcerpt.Proofs.Contribution
import MarkdownExcerpt.Proofs.Joining

/-! How long an excerpt can be. A bound that grows with the offset, and by which no leaf and no break
brings out too much, holds for whole trees: of what is between two offsets no more comes out than the
bound grows by from the one to the other. -/
namespace MarkdownExcerpt

namespace Span

lemma clip_le_clip (window : Span) {first second : Int} (h : first ≤ second) :
    window.clip first ≤ window.clip second := by
  simp only [clip]
  omega

end Span

namespace Node

variable {config : Config} {window : Span} {bound : Int → Int} {start : Int} {node : Node}

/-- No more characters come out of the node, wherever it starts, than the bound grows by over its
span. -/
def StaysWithin (config : Config) (window : Span) (bound : Int → Int) (node : Node) : Prop :=
  ∀ start : Int, ((node.outcome config window start).characters.length : Int) ≤
    bound (start + node.length) - bound start

lemma length_outcomes_le {nodes : List Node}
    (h : ∀ node ∈ nodes, node.StaysWithin config window bound) (start : Int) :
    (((outcomes config window start nodes).flatMap Outcome.characters).length : Int) ≤
      bound (start + lengthOf nodes) - bound start := by
  induction nodes generalizing start with
  | nil => simp [outcomes]
  | cons node rest ih =>
    have hnode := h node (by simp) start
    have hrest := ih (fun n hm => h n (by simp [hm])) (start + node.length)
    rw [Int.add_assoc, ← Int.natCast_add, ← lengthOf_cons] at hrest
    rw [outcomes, List.flatMap_cons, List.length_append]
    omega

/-- From a node that can be taken apart comes nothing or what comes out of its children. -/
lemma characters_outcome_of_not_isSealed (hopen : node.kind.isSealed = false) :
    (node.outcome config window start).characters = [] ∨
      (node.outcome config window start).characters =
        (outcomes config window start node.childNodes).flatMap Outcome.characters := by
  have hleaf := bearsText_of_not_isSealed hopen
  have hrebuilt : (node.rebuilt config window start).flatMap characters =
      (outcomes config window start node.childNodes).flatMap Outcome.characters := by
    rw [rebuilt, Outcome.characters_assemble]
  cases hseen : (node.spanFrom start).misses window with
  | true => exact .inl (by rw [outcome_of_misses hseen]; rfl)
  | false =>
    have htreated := node.treated config hseen
    rw [outcome_eq, ← hrebuilt]
    generalize (node.decision config window start).treatment = treatment at htreated
    cases htreated with
    | leftOut => exact .inl rfl
    | excluded => exact .inl rfl
    | leaf hbears => simp [hleaf] at hbears
    | cut hkind => simp [hkind, NodeKind.isSealed] at hopen
    | atomic hkind => simp [hkind, NodeKind.isSealed] at hopen
    | bare _ hbare =>
      refine .inl ?_
      rw [← characters_of_bare hleaf hbare]
      exact characters_one node
    | list => exact .inr (characters_emit_rebuild hleaf _ _)
    | container => exact .inr (characters_emit_rebuild hleaf _ _)
    | spliced => exact .inr (by simp [Treatment.emit, Outcome.characters])

/-- A tree keeps to a bound if the leaves and the breaks in it do. -/
theorem staysWithin (hmono : ∀ {first second : Int}, first ≤ second → bound first ≤ bound second)
    (hsealed : node.Throughout fun n => n.kind.isSealed = true →
      n.StaysWithin config window bound) : node.StaysWithin config window bound := by
  induction node using Node.inductionOn with
  | step node ih =>
    cases hopen : node.kind.isSealed with
    | true => exact hsealed.self hopen
    | false =>
      intro start
      have hleaf := bearsText_of_not_isSealed hopen
      rcases characters_outcome_of_not_isSealed hopen with hnone | hchildren
      · have hle := hmono (show start ≤ start + node.length by omega)
        rw [hnone, List.length_nil]
        omega
      · rw [hchildren, length_of_not_bearsText hleaf]
        exact length_outcomes_le (fun child hm => ih child hm (hsealed.child hleaf hm)) start

/-- Cleaning makes no text longer, so no more is left of a leaf than the window shows of it. -/
lemma length_visibleValue_le (kind : LeafKind) :
    (Treatment.visibleValue config window (node.spanFrom start) kind node).length ≤
      (window.shown start node.text.toList).length := by
  cases kind with
  | text => exact Text.length_clean_le _ _ _ _
  | _ => exact Nat.le_refl _

/-- What comes out of a leaf is no longer than what the window shows of it, unless such leaves are
taken whole. -/
lemma length_outcome_leaf {kind : LeafKind} (hkind : node.kind = .leaf kind) :
    (node.outcome config window start).characters.length ≤
        (window.shown start node.characters).length ∨
      config.behavior.leafPolicy kind = .includeFull ∧
        (node.outcome config window start).characters = node.characters := by
  have hleaf := bearsText_of_leaf hkind
  rw [outcome_eq]
  simp only [decision, Decision.of]
  split
  · exact .inl (Nat.zero_le _)
  split
  · exact .inl (Nat.zero_le _)
  split
  · next hin =>
    refine .inl ?_
    rw [shown_of_isWithin hin]
    simp [Treatment.whole, hkind, Treatment.emit]
  · simp only [Decision.ofPartial, hkind]
    cases hpolicy : config.behavior.leafPolicy kind with
    | includeFull => exact .inr ⟨rfl, by simp [Treatment.whole, hkind, Treatment.emit]⟩
    | excludeFull => exact .inl (Nat.zero_le _)
    | truncate =>
      refine .inl ?_
      rw [characters_emit_shorten hleaf, characters_of_bearsText hleaf]
      exact length_visibleValue_le kind

/-- Breaks come out as they are or not at all. -/
lemma length_outcome_atomic_le {kind : AtomicKind} (hkind : node.kind = .atomic kind) :
    (node.outcome config window start).characters.length ≤ node.length := by
  cases hseen : (node.spanFrom start).misses window with
  | true => simp [outcome_of_misses hseen, Outcome.characters, Outcome.nodes]
  | false =>
    have htreated := node.treated config hseen
    rw [outcome_eq]
    generalize (node.decision config window start).treatment = treatment at htreated
    cases htreated with
    | leftOut => exact Nat.zero_le _
    | excluded => exact Nat.zero_le _
    | leaf hleaf => simp [bearsText, hkind, NodeKind.isLeaf] at hleaf
    | cut hleaf => simp [hkind] at hleaf
    | atomic => simp [Treatment.emit, length_characters]
    | bare hloose => simp [hkind, NodeKind.isLoose] at hloose
    | list hlist => simp [hkind] at hlist
    | container _ _ hatomic => simp [category, hkind, NodeKind.category] at hatomic
    | spliced _ hsplice => simp [hkind, Config.splices] at hsplice

lemma length_outcome_leaf_le {kind : LeafKind} (hkind : node.kind = .leaf kind) :
    (node.outcome config window start).characters.length ≤ node.length := by
  rw [← length_characters]
  rcases length_outcome_leaf hkind with hle | ⟨-, hsame⟩
  · refine Nat.le_trans hle ?_
    rw [Span.shown, Text.length_piece]
    omega
  · exact Nat.le_of_eq (congrArg List.length hsame)

/-- Under any policies no more comes out of a tree than is in it. -/
theorem length_outcome_le (config : Config) (window : Span) (start : Int) (node : Node) :
    (node.outcome config window start).characters.length ≤ node.length := by
  have hsealed : node.Throughout fun n => n.kind.isSealed = true →
      n.StaysWithin config window fun offset => offset := by
    rintro ⟨n, span⟩ - hsealed start
    have hle : (n.outcome config window start).characters.length ≤ n.length := by
      cases hkind : n.kind with
      | leaf kind => exact length_outcome_leaf_le hkind
      | atomic kind => exact length_outcome_atomic_le hkind
      | _ => simp [hkind, NodeKind.isSealed] at hsealed
    show ((n.outcome config window start).characters.length : Int) ≤ start + n.length - start
    omega
  have hle : ((node.outcome config window start).characters.length : Int) ≤
      start + node.length - start := staysWithin id hsealed start
  omega

/-- If no leaf is taken whole and no break has a list of children, no more comes out of a tree than
the window has room for. -/
theorem length_outcome_le_clip (hwindow : window.start < window.stop)
    (hcut : ∀ kind, config.behavior.leafPolicy kind ≠ .includeFull) (hbreaks : node.BreaksBare)
    (start : Int) : ((node.outcome config window start).characters.length : Int) ≤
      window.clip (start + node.length) - window.clip start := by
  refine staysWithin window.clip_le_clip (fun entry he hsealed => ?_) start
  cases hkind : entry.1.kind with
  | leaf kind =>
    intro start
    have hshown := window.length_shown hwindow start entry.1.characters
    rw [length_characters] at hshown
    rcases length_outcome_leaf hkind with hle | ⟨hfull, -⟩
    · rw [← hshown]
      exact Int.ofNat_le.mpr hle
    · exact absurd hfull (hcut kind)
  | atomic kind =>
    intro start
    have hzero := hbreaks.breaksEmpty entry he (by simp [category, hkind, NodeKind.category])
    have hle : (entry.1.outcome config window start).characters.length ≤ entry.1.length :=
      length_outcome_atomic_le hkind
    rw [hzero] at hle ⊢
    rw [Int.natCast_zero, Int.add_zero]
    omega
  | _ => simp [hkind, NodeKind.isSealed] at hsealed

/-- The lengths that are told with an excerpt are those of the document and of what is left. -/
lemma lengths_excerptAlone (config : Config) (range : Range) (node : Node) :
    (node.excerptAlone config range).info.originalLength = node.length ∧
      (node.excerptAlone config range).info.slicedLength =
        (node.excerptAlone config range).characters.length := by
  have hlength (tree : Option Node) :
      (tree.map length).getD 0 = ((tree.map characters).getD []).length := by
    cases tree with
    | none => rfl
    | some tree => exact tree.length_characters.symm
  rw [Excerpt.characters, ← hlength]
  simp only [excerptAlone]
  split
  · next hzero => split <;> simp [hzero]
  · split <;> exact ⟨rfl, rfl⟩

/-- No excerpt is longer than its document, whatever the policies are. If no leaf is taken whole and
no break has a list of children, none is longer than its range. -/
theorem slicedLength_excerpt_le (config : Config) (number : Nat) (range : Range) (node : Node) :
    ∃ excerpt text, (node.excerpt config number range {}).1 = .ok excerpt ∧
      excerpt.document.text = .ok text ∧ excerpt.info.slicedLength = text.length ∧
      excerpt.info.originalLength = node.length ∧
      excerpt.info.slicedLength ≤ excerpt.info.originalLength ∧
      ((∀ kind, config.behavior.leafPolicy kind ≠ .includeFull) → node.BreaksBare →
        range.start < range.stopWithin node.length →
          excerpt.info.slicedLength ≤ range.stopWithin node.length - range.start) := by
  obtain ⟨horiginal, hsliced⟩ := lengths_excerptAlone config range node
  refine ⟨_, _, excerpt_fresh config number range node, Excerpt.text_document _,
    by simpa using hsliced, horiginal, ?_, fun hcut hbreaks hrange => ?_⟩
  · rw [horiginal, hsliced]
    by_cases h : range.start < range.stopWithin node.length
    · rw [Excerpt.characters, node_excerptAlone h, Outcome.characters_tree?]
      exact node.length_outcome_le config _ 0
    · rw [characters_excerptAlone_of_le (Nat.le_of_not_lt h)]
      exact Nat.zero_le _
  · have hwindow : (range.window node).start < (range.window node).stop := Int.ofNat_lt.mpr hrange
    have hle := length_outcome_le_clip hwindow hcut hbreaks 0
    have hstop := range.stopWithin_le node.length
    rw [hsliced, Excerpt.characters, node_excerptAlone hrange, Outcome.characters_tree?]
    simp only [Range.window, Span.clip] at hle
    omega

/-- Text that is cut is gone, so less comes out than the range has room for. -/
theorem slicedLength_excerpt_le_article :
    let config : Config := { behavior := { text := .excludeFull } }
    (∀ kind, config.behavior.leafPolicy kind ≠ .includeFull) ∧ article.BreaksBare ∧
      ∃ excerpt, (article.excerpt config 0 ⟨1, some 8, by decide⟩ {}).1 = .ok excerpt ∧
        excerpt.document.text = .ok "cdef g" ∧ excerpt.info.originalLength = 9 ∧
        excerpt.info.slicedLength ≤ excerpt.info.originalLength ∧
        excerpt.info.slicedLength ≤ 8 - 1 := by
  intro config
  have hcut : ∀ kind, config.behavior.leafPolicy kind ≠ .includeFull := by
    intro kind
    cases kind <;> decide
  have hlength : article.length = 9 := by decide
  obtain ⟨excerpt, text, hexcerpt, -, -, horiginal, hle, hrange⟩ :=
    slicedLength_excerpt_le config 0 ⟨1, some 8, by decide⟩ article
  rw [hlength] at horiginal hrange
  refine ⟨hcut, breaksBare_article, excerpt, hexcerpt, ?_, horiginal, hle,
    hrange hcut breaksBare_article (by decide)⟩
  obtain rfl := Except.ok.inj (hexcerpt.symm.trans (excerpt_fresh _ _ _ _))
  decide

end Node
end MarkdownExcerpt
