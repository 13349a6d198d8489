import Mathlib.Data.List.Basic
import MarkdownExcerpt.Proofs.Admission
import MarkdownExcerpt.Proofs.Pieces

/-! The text of an excerpt leaf by leaf, under any policies. Each leaf of the document adds its own
piece of text, which depends on the leaf, the window and the nodes that the leaf stands in; what
wrappers are left, and which leaves are joined, makes no difference to the text. -/
namespace MarkdownExcerpt

namespace Visit

/-- The characters that are left of a leaf: all of them if the window covers the leaf or the policy
is to take leaves whole, and otherwise those in the window, cleaned if the leaf is plain text. -/
def kept (config : Config) (window : Span) (visit : Visit) (kind : LeafKind) : List Char :=
  let value := visit.node.text.toList
  if visit.span.isWithin window || config.behavior.leafPolicy kind == .includeFull then value
  else
    let visible := Text.piece value (window.start - visit.span.start).toNat
      (window.stop - visit.span.start).toNat
    if kind = .text then
      Text.clean config.text.whitespace (visit.span.start < window.start)
        (window.stop < visit.span.stop) visible
    else visible

/-- What a walked node itself adds to the text: a leaf that is admitted what is kept of it, and any
other node nothing. -/
def contribution (config : Config) (window : Span) (visits : List Visit) (visit : Visit) :
    List Char :=
  match visit.node.kind with
  | .leaf kind => if visit.Admitted config window visits then visit.kept config window kind else []
  | _ => []

end Visit

namespace Node

/-- The contributions to the text of an excerpt, in the order of the walk. -/
def contributions (config : Config) (window : Span) (node : Node) : List (List Char) :=
  let visits := (node.walk 0 {}).1.map Step.visit
  visits.map (Visit.contribution config window visits)

/-- What the nodes that are walked from a node on add to the text. -/
def contributed (config : Config) (window : Span) (path : List Nat) (start : Int) (node : Node) :
    List Char :=
  (node.visits path start).flatMap (Visit.contribution config window (node.visits path start))

lemma flatten_contributions (config : Config) (window : Span) (node : Node) :
    (node.contributions config window).flatten = node.contributed config window [] 0 := by
  rw [contributions, walk_fresh, contributed, List.flatMap_def]

variable {config : Config} {window : Span} {path : List Nat} {start : Int} {node : Node}

lemma contributed_of_barred
    (h : Visit.isBarred config window ⟨path, node, node.spanFrom start⟩ = true) :
    node.contributed config window path start = [] := by
  rw [contributed, List.flatMap_eq_nil_iff]
  intro visit hv
  unfold Visit.contribution
  split
  · rw [if_neg (not_admitted_of_barred hv h)]
  · rfl

lemma contributed_of_leaf {kind : LeafKind} (hkind : node.kind = .leaf kind)
    (h : Visit.isBarred config window ⟨path, node, node.spanFrom start⟩ = false) :
    node.contributed config window path start =
      Visit.kept config window ⟨path, node, node.spanFrom start⟩ kind := by
  have hleaf : node.bearsText = true := bearsText_of_leaf hkind
  have hvisits : node.visits path start = [⟨path, node, node.spanFrom start⟩] := by
    rw [visits_eq, hleaf]
    rfl
  have hadmitted := admitted_self_iff.mpr h
  rw [hvisits] at hadmitted
  simp [contributed, hvisits, Visit.contribution, hkind, hadmitted]

/-- A node that is no leaf adds what its children add. -/
lemma contributed_of_not_bearsText (hleaf : node.bearsText = false)
    (h : Visit.isBarred config window ⟨path, node, node.spanFrom start⟩ = false) :
    node.contributed config window path start =
      (Child.seats 0 start node.children).flatMap fun seat =>
        seat.node.contributed config window (path ++ [seat.index]) seat.start := by
  have hself : Visit.contribution config window (node.visits path start)
      ⟨path, node, node.spanFrom start⟩ = [] := by
    unfold Visit.contribution
    split
    · next kind hkind =>
      have hkind : node.kind = .leaf kind := hkind
      simp [bearsText, hkind, NodeKind.isLeaf] at hleaf
    · rfl
  have hvisits : node.visits path start = ⟨path, node, node.spanFrom start⟩ ::
      (Child.seats 0 start node.children).flatMap fun seat =>
        seat.node.visits (path ++ [seat.index]) seat.start := by
    rw [visits_eq, hleaf, Child.visits_eq]
    rfl
  have hbelow : node.contributed config window path start =
      ((Child.seats 0 start node.children).flatMap fun seat =>
        seat.node.visits (path ++ [seat.index]) seat.start).flatMap
        (Visit.contribution config window (node.visits path start)) := by
    rw [contributed]
    generalize Visit.contribution config window (node.visits path start) = add at hself ⊢
    rw [hvisits, List.flatMap_cons, hself, List.nil_append]
  rw [hbelow, List.flatMap_assoc]
  refine List.flatMap_congr fun seat hseat => List.flatMap_congr fun visit hv => ?_
  unfold Visit.contribution
  split
  · simp only [admitted_iff_of_seat hleaf h hseat hv]
  · rfl

/-- The characters of what comes out of a node are those that its leaves add. -/
def ContributesRight (config : Config) (window : Span) (node : Node) : Prop :=
  ∀ (path : List Nat) (start : Int), (node.outcome config window start).characters =
    node.contributed config window path start

lemma characters_rebuilt
    (hchildren : ∀ child ∈ node.childNodes, child.ContributesRight config window)
    (hleaf : node.bearsText = false)
    (h : Visit.isBarred config window ⟨path, node, node.spanFrom start⟩ = false) :
    (node.rebuilt config window start).flatMap characters =
      node.contributed config window path start := by
  rw [rebuilt, Outcome.characters_assemble, childNodes_eq, outcomes_eq_map_seats 0,
    List.flatMap_map, contributed_of_not_bearsText hleaf h]
  exact List.flatMap_congr fun seat hseat =>
    hchildren seat.node (Child.mem_nodes_of_mem_seats hseat) _ _

/-- A leaf that is neither cut nor barred is kept whole. -/
lemma kept_of_not_truncates {kind : LeafKind} (hkind : node.kind = .leaf kind)
    (hseen : (node.spanFrom start).misses window = false)
    (hpart : node.IsPartial window start → config.truncates node.kind = false)
    (h : Visit.isBarred config window ⟨path, node, node.spanFrom start⟩ = false) :
    Visit.kept config window ⟨path, node, node.spanFrom start⟩ kind = node.text.toList := by
  cases hin : (node.spanFrom start).isWithin window with
  | true => simp [Visit.kept, hin]
  | false =>
    have hcut := hpart ⟨hseen, hin⟩
    rw [Visit.isBarred, hin, hkind] at h
    rw [hkind] at hcut
    simp only [Config.truncates, beq_eq_false_iff_ne] at hcut
    simp only [Config.drops, Bool.not_false, Bool.true_and, Bool.or_eq_false_iff,
      beq_eq_false_iff_ne] at h
    have hpolicy : config.behavior.leafPolicy kind = .includeFull := by
      cases hp : config.behavior.leafPolicy kind <;> simp_all
    simp [Visit.kept, hpolicy]

/-- A leaf that is cut keeps what is left of its value. -/
lemma kept_of_truncates {kind : LeafKind} (hkind : node.kind = .leaf kind)
    (hpart : node.IsPartial window start) (h : config.truncates node.kind = true) :
    Visit.kept config window ⟨path, node, node.spanFrom start⟩ kind =
      Treatment.visibleValue config window (node.spanFrom start) kind node := by
  have hpolicy : config.behavior.leafPolicy kind = .truncate := by
    simpa [hkind, Config.truncates] using h
  cases kind <;> simp [Visit.kept, Treatment.visibleValue, hpart.2, hpolicy]

/-- What comes out of a leaf that is not barred is what is kept of it. -/
lemma characters_outcome_of_leaf {kind : LeafKind} (hkind : node.kind = .leaf kind)
    (h : Visit.isBarred config window ⟨path, node, node.spanFrom start⟩ = false) :
    (node.outcome config window start).characters =
      Visit.kept config window ⟨path, node, node.spanFrom start⟩ kind := by
  have hseen := misses_of_not_barred h
  have hdrop := treatment_ne_drop h
  have htreated := node.treated config hseen
  rw [outcome_eq]
  generalize (node.decision config window start).treatment = treatment at htreated hdrop
  cases htreated with
  | leftOut => exact absurd rfl hdrop
  | excluded => exact absurd rfl hdrop
  | leaf hleaf hcut =>
    rw [kept_of_not_truncates hkind hseen hcut h, ← characters_of_bearsText hleaf]
    exact characters_one node
  | cut hother hpart htruncates =>
    obtain rfl := NodeKind.leaf.inj (hkind.symm.trans hother)
    rw [kept_of_truncates hkind hpart htruncates]
    exact characters_emit_shorten (bearsText_of_leaf hkind) _ _
  | atomic hother => cases hkind.symm.trans hother
  | bare hloose => simp [hkind, NodeKind.isLoose] at hloose
  | list hother => cases hkind.symm.trans hother
  | container hleaf => simp [bearsText_of_leaf hkind] at hleaf
  | spliced _ hsplices => simp [hkind, Config.splices] at hsplices

/-- A node without a list of children adds nothing, unless it is a leaf. -/
lemma contributed_of_bare (hleaf : node.bearsText = false) (hbare : node.isParent = false)
    (h : Visit.isBarred config window ⟨path, node, node.spanFrom start⟩ = false) :
    node.contributed config window path start = [] := by
  rw [contributed_of_not_bearsText hleaf h]
  cases node with
  | bare attributes => rfl
  | parent attributes children => simp [isParent] at hbare

lemma characters_of_bare (hleaf : node.bearsText = false) (hbare : node.isParent = false) :
    node.characters = [] := by
  apply List.eq_nil_of_length_eq_zero
  rw [length_characters, length_of_bare hleaf hbare]

theorem contributesRight (config : Config) (window : Span) (node : Node)
    (hbreaks : node.BreaksBare) : node.ContributesRight config window := by
  induction node using Node.inductionOn with
  | step node ih =>
    intro path start
    cases hbarred : Visit.isBarred config window ⟨path, node, node.spanFrom start⟩ with
    | true =>
      rw [contributed_of_barred hbarred, outcome_eq, treatment_eq_drop_iff.mpr hbarred]
      rfl
    | false =>
      have hseen := misses_of_not_barred hbarred
      cases hleaf : node.bearsText with
      | true =>
        obtain ⟨kind, hkind⟩ := exists_kind_of_bearsText hleaf
        rw [contributed_of_leaf hkind hbarred, characters_outcome_of_leaf hkind hbarred]
      | false =>
        have hdrop := treatment_ne_drop hbarred
        have hrebuilt : (node.rebuilt config window start).flatMap characters =
            node.contributed config window path start :=
          characters_rebuilt (fun child hm => ih child hm (hbreaks.child hleaf hm)) hleaf hbarred
        have htreated := node.treated config hseen
        rw [outcome_eq]
        generalize (node.decision config window start).treatment = treatment at htreated hdrop
        cases htreated with
        | leftOut => exact absurd rfl hdrop
        | excluded => exact absurd rfl hdrop
        | leaf hbears => simp [hleaf] at hbears
        | cut hkind => simp [bearsText_of_leaf hkind] at hleaf
        | atomic hkind =>
          have hatomic : node.category = .atomic := by simp [category, hkind, NodeKind.category]
          rw [contributed_of_bare hleaf (hbreaks.self hatomic) hbarred,
            ← characters_of_bare hleaf (hbreaks.self hatomic)]
          exact characters_one node
        | bare _ hbare =>
          rw [contributed_of_bare hleaf hbare hbarred, ← characters_of_bare hleaf hbare]
          exact characters_one node
        | list => rw [characters_emit_rebuild hleaf, hrebuilt]
        | container => rw [characters_emit_rebuild hleaf, hrebuilt]
        | spliced =>
          rw [← hrebuilt]
          simp [Treatment.emit, Outcome.characters]

/-- The text of an excerpt of any range, under any policies, is what the leaves contribute. -/
lemma characters_excerptAlone_eq_contributions (hbreaks : node.BreaksBare) (config : Config)
    (range : Range) :
    (node.excerptAlone config range).characters =
      (node.contributions config (range.window node)).flatten := by
  rw [flatten_contributions, ← node.contributesRight config _ hbreaks [] 0]
  by_cases h : range.start < range.stopWithin node.length
  · rw [Excerpt.characters, node_excerptAlone h, Outcome.characters_tree?]
    rfl
  · have hle := Nat.le_of_not_lt h
    rw [characters_excerptAlone_of_le hle, outcome_of_stopWithin_le hle]
    rfl

end Node

/-- Two configurations leave out, drop, cut and clean alike. They may join text, keep emptied
containers and take wrappers away from their content differently. -/
structure Config.SpeaksLike (config other : Config) : Prop where
  content : config.content = other.content
  whitespace : config.text.whitespace = other.text.whitespace
  leaf : ∀ kind, config.behavior.leafPolicy kind = other.behavior.leafPolicy kind
  drops : ∀ kind, config.drops kind = other.drops kind

namespace Node

lemma contributions_congr {config other : Config} (h : config.SpeaksLike other) (window : Span)
    (node : Node) : node.contributions config window = node.contributions other window := by
  have hbarred (visit : Visit) : visit.isBarred config window = visit.isBarred other window := by
    simp only [Visit.isBarred, Config.leavesOut, h.content, h.drops]
  have hkept (visit : Visit) (kind : LeafKind) :
      visit.kept config window kind = visit.kept other window kind := by
    simp only [Visit.kept, h.leaf, h.whitespace]
  have hadmitted (visits : List Visit) (visit : Visit) :
      visit.Admitted config window visits ↔ visit.Admitted other window visits := by
    simp only [Visit.Admitted, hbarred]
  have hcontribution (visits : List Visit) (visit : Visit) :
      visit.contribution config window visits = visit.contribution other window visits := by
    simp only [Visit.contribution, hadmitted, hkept]
  simp only [contributions, List.map_inj_left]
  exact fun visit _ => hcontribution _ visit

/-- The text of an excerpt is the concatenation of what each leaf of the document contributes, and
configurations that leave out, drop, cut and clean alike give the same text. -/
theorem text_excerpt_contributions {node : Node} (hbreaks : node.BreaksBare) (config : Config)
    (number : Nat) (range : Range) :
    ∃ excerpt, (node.excerpt config number range {}).1 = .ok excerpt ∧
      excerpt.document.text =
        .ok (String.ofList (node.contributions config (range.window node)).flatten) ∧
      ∀ other, config.SpeaksLike other →
        ∃ like, (node.excerpt other number range {}).1 = .ok like ∧
          like.document.text = excerpt.document.text := by
  refine ⟨_, excerpt_fresh config number range node, ?_, fun other hlike => ?_⟩
  · rw [Excerpt.text_document, characters_excerptAlone_eq_contributions hbreaks]
  · refine ⟨_, excerpt_fresh other number range node, ?_⟩
    rw [Excerpt.text_document, Excerpt.text_document,
      characters_excerptAlone_eq_contributions hbreaks,
      characters_excerptAlone_eq_contributions hbreaks, contributions_congr hlike]

/-- Text that is cut and cleaned, text of a type that can be left out, code, and text in a wrapper
that a policy can drop. -/
def notice : Node :=
  wrapperOf "root" [leafOf "text" "  ab", wrapperOf "emphasis" [leafOf "text" "cd"],
    wrapperOf "footnoteDefinition" [leafOf "text" "ef"],
    wrapperOf "paragraph" [leafOf "code" "gh ", wrapperOf "strong" [leafOf "text" "ij"]]]

/-- Policies by which no footnotes stay, and wrappers give way or are dropped. -/
def noticePolicies : Config where
  behavior := { formatting := .strip, block := .unwrap, overrides := [.formatting .strong .exclude] }
  content := { footnoteDefinitions := false }

theorem text_excerpt_contributions_notice :
    notice.BreaksBare ∧
      (∃ excerpt, (notice.excerpt noticePolicies 0 ⟨1, some 12, by decide⟩ {}).1 = .ok excerpt ∧
        excerpt.document.text = .ok "abcdgh " ∧
        ∃ like, (notice.excerpt
            { noticePolicies with
              behavior := { overrides := [.formatting .strong .exclude] }
              text := { mergeAdjacentText := false }
              preserveEmptyBlocks := false } 0 ⟨1, some 12, by decide⟩ {}).1 = .ok like ∧
          like.document.text = excerpt.document.text) := by
  have hbreaks : notice.BreaksBare := by
    unfold BreaksBare Throughout
    decide
  obtain ⟨excerpt, hexcerpt, htext, hlike⟩ :=
    text_excerpt_contributions hbreaks noticePolicies 0 ⟨1, some 12, by decide⟩
  refine ⟨hbreaks, excerpt, hexcerpt, htext, hlike _ ⟨rfl, rfl, ?_, ?_⟩⟩
  · intro kind
    cases kind <;> decide
  · intro kind
    cases kind with
    | leaf kind => cases kind <;> decide
    | formatting kind => cases kind <;> decide
    | media kind => cases kind <;> decide
    | block kind => cases kind <;> decide
    | _ => rfl

end Node
end MarkdownExcerpt
