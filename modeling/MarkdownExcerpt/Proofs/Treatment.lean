import MarkdownExcerpt.Config.Effective
import MarkdownExcerpt.Proofs.Outcome
import MarkdownExcerpt.Proofs.Text.Piece

/-! Everything that can become of a node, by its kind, its place and the policies. Results about
cutting split their cases here and never on the policies themselves. -/
namespace MarkdownExcerpt

namespace Config

variable (config : Config)

/-- A node of the kind gives nothing if the window covers it in part. -/
def drops : NodeKind → Bool
  | .leaf kind => config.behavior.leafPolicy kind == .excludeFull
  | .formatting kind => config.behavior.formattingPolicy kind == .exclude
  | .media kind => config.behavior.mediaPolicy kind == .strip
  | .block kind => config.behavior.blockPolicy kind == .exclude
  | _ => false

/-- A node of the kind gives way to its content if the window covers it in part. -/
def splices : NodeKind → Bool
  | .formatting kind => config.behavior.formattingPolicy kind == .strip
  | .media kind => config.behavior.mediaPolicy kind == .contentOnly
  | .block kind => config.behavior.blockPolicy kind == .unwrap
  | _ => false

/-- A leaf of the kind is cut if the window covers it in part. -/
def truncates : NodeKind → Bool
  | .leaf kind => config.behavior.leafPolicy kind == .truncate
  | _ => false

end Config

/-- The window covers the span, but not all of it. -/
def Span.isCut (span window : Span) : Bool := !span.misses window && !span.isWithin window

/-- Blocks are the nodes whose content stays apart from the text around it. -/
def NodeKind.isBlock : NodeKind → Bool
  | block _ => true
  | _ => false

/-- A node of the kind that stays does so without new children, if it has no list of children. -/
def NodeKind.isLoose : NodeKind → Bool
  | media _ => true
  | unknown => true
  | _ => false

namespace Node

/-- The policy for the type and the category of a node is that for its kind. -/
lemma effectivePolicy_type? (behavior : Behavior) (node : Node) :
    behavior.effectivePolicy node.type? node.category = .ok (behavior.kindPolicy? node.kind) := by
  unfold category kind
  cases node.type? with
  | none => rfl
  | some type => exact behavior.effectivePolicy_eq_kindPolicy? type

/-- The window covers the node, but not all of it. -/
def IsPartial (window : Span) (start : Int) (node : Node) : Prop :=
  (node.spanFrom start).misses window = false ∧ (node.spanFrom start).isWithin window = false

/-- What can become of a node that starts at an offset and is not outside the window. -/
inductive Treated (config : Config) (window : Span) (start : Int) (node : Node) :
    Treatment → Prop
  | leftOut (h : config.leavesOut node.type? = true) : Treated config window start node .drop
  | excluded (hpart : node.IsPartial window start) (h : config.drops node.kind = true) :
      Treated config window start node .drop
  | leaf (hleaf : node.bearsText = true)
      (h : node.IsPartial window start → config.truncates node.kind = false) :
      Treated config window start node .keep
  | cut {kind : LeafKind} (hkind : node.kind = .leaf kind) (hpart : node.IsPartial window start)
      (h : config.truncates node.kind = true) :
      Treated config window start node
        (.shorten (Treatment.visibleValue config window (node.spanFrom start) kind node))
  | atomic {kind : AtomicKind} (hkind : node.kind = .atomic kind) :
      Treated config window start node .keep
  | bare (hkind : node.kind.isLoose = true) (hbare : node.isParent = false) :
      Treated config window start node .keep
  | list (hkind : node.kind = .list) : Treated config window start node (.rebuild false)
  | container (hleaf : node.bearsText = false) (hlist : node.kind ≠ .list)
      (hatomic : node.category ≠ .atomic) (hparent : node.kind.isLoose → node.isParent = true)
      (h : node.IsPartial window start → config.splices node.kind = false) :
      Treated config window start node (.rebuild config.preserveEmptyBlocks)
  | spliced (hpart : node.IsPartial window start) (h : config.splices node.kind = true) :
      Treated config window start node (.splice node.kind.isBlock)

variable {config : Config} {window : Span} {start : Int} {node : Node}

lemma treated_rebuild (hleaf : node.kind.isLeaf = false) (hlist : node.kind ≠ .list)
    (hatomic : node.kind.category ≠ .atomic) (hparent : node.kind.isLoose → node.isParent = true)
    (h : node.IsPartial window start → config.splices node.kind = false) :
    node.Treated config window start (.rebuild config.preserveEmptyBlocks) :=
  .container hleaf hlist hatomic hparent h

lemma treated_ofContainer (hloose : node.kind.isLoose = true)
    (h : node.IsPartial window start → config.splices node.kind = false) :
    node.Treated config window start (.ofContainer config node) := by
  unfold Treatment.ofContainer
  split
  · next hparent =>
    apply treated_rebuild _ _ _ (fun _ => hparent) h <;>
      cases hkind : node.kind <;>
      simp_all [NodeKind.isLoose, NodeKind.isLeaf, NodeKind.category]
  · next hbare => exact .bare hloose (by simpa using hbare)

/-- What becomes of a node that is covered or treated as if it were. -/
lemma treated_whole (hsplice : node.IsPartial window start → config.splices node.kind = false)
    (htruncate : node.IsPartial window start → config.truncates node.kind = false) :
    node.Treated config window start (.whole config node) := by
  unfold Treatment.whole
  split
  · next kind hkind => exact .leaf (bearsText_of_leaf hkind) htruncate
  · next kind hkind =>
    apply treated_rebuild _ _ _ _ hsplice <;>
      simp [hkind, NodeKind.isLeaf, NodeKind.isLoose, NodeKind.category]
  · next kind hkind => exact treated_ofContainer (by simp [hkind, NodeKind.isLoose]) hsplice
  · next hkind =>
    apply treated_rebuild _ _ _ _ hsplice <;>
      simp [hkind, NodeKind.isLeaf, NodeKind.isLoose, NodeKind.category]
  · next kind hkind =>
    apply treated_rebuild _ _ _ _ hsplice <;>
      simp [hkind, NodeKind.isLeaf, NodeKind.isLoose, NodeKind.category]
  · next hkind => exact .list hkind
  · next kind hkind => exact .atomic hkind
  · next hkind => exact treated_ofContainer (by simp [hkind, NodeKind.isLoose]) hsplice

lemma treated_splice {isolated : Bool} (hpart : node.IsPartial window start)
    (h : config.splices node.kind = true) (hisolated : node.kind.isBlock = isolated) :
    node.Treated config window start (.splice isolated) := by
  subst hisolated
  exact .spliced hpart h

/-- What becomes of a node that is covered in part. -/
lemma treated_ofPartial (hpart : node.IsPartial window start) :
    node.Treated config window start
      (Decision.ofPartial config window (node.spanFrom start) node).treatment := by
  have hwhole : config.splices node.kind = false → config.truncates node.kind = false →
      node.Treated config window start (.whole config node) :=
    fun hsplice htruncate => treated_whole (fun _ => hsplice) (fun _ => htruncate)
  unfold Decision.ofPartial
  split
  · next kind hkind =>
    split
    · next hpolicy =>
      exact hwhole (by simp [Config.splices, hkind]) (by simp [Config.truncates, hkind, hpolicy])
    · next hpolicy => exact .excluded hpart (by simp [Config.drops, hkind, hpolicy])
    · next hpolicy => exact .cut hkind hpart (by simp [Config.truncates, hkind, hpolicy])
  · next kind hkind =>
    split
    · next hpolicy => exact .excluded hpart (by simp [Config.drops, hkind, hpolicy])
    · next hpolicy =>
      exact treated_splice hpart (by simp [Config.splices, hkind, hpolicy])
        (by simp [hkind, NodeKind.isBlock])
    · next hpolicy =>
      exact hwhole (by simp [Config.splices, hkind, hpolicy]) (by simp [Config.truncates, hkind])
    · next hpolicy =>
      exact hwhole (by simp [Config.splices, hkind, hpolicy]) (by simp [Config.truncates, hkind])
  · next kind hkind =>
    split
    · next hpolicy => exact .excluded hpart (by simp [Config.drops, hkind, hpolicy])
    · next hpolicy =>
      exact treated_splice hpart (by simp [Config.splices, hkind, hpolicy])
        (by simp [hkind, NodeKind.isBlock])
    · next hpolicy =>
      exact hwhole (by simp [Config.splices, hkind, hpolicy]) (by simp [Config.truncates, hkind])
  · next kind hkind =>
    split
    · next hpolicy => exact .excluded hpart (by simp [Config.drops, hkind, hpolicy])
    · next hpolicy =>
      exact treated_splice hpart (by simp [Config.splices, hkind, hpolicy])
        (by simp [hkind, NodeKind.isBlock])
    · next hpolicy =>
      exact hwhole (by simp [Config.splices, hkind, hpolicy]) (by simp [Config.truncates, hkind])
  · next hleaf hformatting hmedia hblock =>
    apply hwhole <;> cases hkind : node.kind <;> simp_all [Config.splices, Config.truncates]

/-- Everything that can become of a node that is not outside the window. -/
theorem treated (config : Config) (hseen : (node.spanFrom start).misses window = false) :
    node.Treated config window start (node.decision config window start).treatment := by
  simp only [decision, Decision.of, hseen, Bool.false_eq_true, if_false]
  split
  · next hout => exact .leftOut hout
  · split
    · next hin =>
      exact treated_whole (fun h => by simp [h.2] at hin) (fun h => by simp [h.2] at hin)
    · next hin => exact treated_ofPartial ⟨hseen, by simpa using hin⟩

lemma bearsText_of_isLoose (h : node.kind.isLoose = true) : node.bearsText = false := by
  cases hkind : node.kind <;> simp_all [bearsText, NodeKind.isLeaf, NodeKind.isLoose]

lemma bearsText_of_splices (h : config.splices node.kind = true) : node.bearsText = false := by
  cases hkind : node.kind <;> simp_all [bearsText, NodeKind.isLeaf, Config.splices]

/-- A node without characters is never covered in part. -/
lemma not_isPartial_of_length_eq_zero (h : node.length = 0) : ¬node.IsPartial window start := by
  rintro ⟨hseen, hin⟩
  rw [Span.misses_eq_false_iff] at hseen
  rw [Span.isWithin_eq_false_iff] at hin
  simp only [start_spanFrom, stop_spanFrom, h] at hseen hin
  omega

/-- A node that is not outside and not covered in part is covered. -/
lemma isWithin_of_not_isPartial (hseen : (node.spanFrom start).misses window = false)
    (h : ¬node.IsPartial window start) : (node.spanFrom start).isWithin window = true := by
  cases hin : (node.spanFrom start).isWithin window with
  | true => rfl
  | false => exact absurd ⟨hseen, hin⟩ h

lemma IsPartial.length_pos (h : node.IsPartial window start) : 0 < node.length :=
  Nat.pos_of_ne_zero fun hzero => not_isPartial_of_length_eq_zero hzero h

/-- What comes out with new children is seen. -/
lemma misses_of_descends (h : (node.decision config window start).treatment.descends = true) :
    (node.spanFrom start).misses window = false := by
  cases hseen : (node.spanFrom start).misses window with
  | true => simp [decision_of_misses hseen, Treatment.descends] at h
  | false => rfl

/-- Leaves get no new children. -/
lemma bearsText_of_descends (h : (node.decision config window start).treatment.descends = true) :
    node.bearsText = false :=
  Decision.bearsText_of_descends h

/-- Only a node that is covered in part and has a policy to that end gives way to its content. -/
lemma splices_of_treatment {isolated : Bool}
    (h : (node.decision config window start).treatment = .splice isolated) :
    node.IsPartial window start ∧ config.splices node.kind = true := by
  have htreated := node.treated config (misses_of_descends (by rw [h]; rfl))
  rw [h] at htreated
  cases htreated with
  | spliced hpart hsplice => exact ⟨hpart, hsplice⟩

/-- A node that is covered in part and has a policy to that end gives way to its content, unless
its type is left out. -/
lemma treatment_of_splices (hpart : node.IsPartial window start)
    (h : config.splices node.kind = true) :
    (node.decision config window start).treatment = .drop ∨
      (node.decision config window start).treatment = .splice node.kind.isBlock := by
  have htreated := node.treated config hpart.1
  have hleaf := bearsText_of_splices h
  generalize (node.decision config window start).treatment = treatment at htreated
  cases htreated with
  | leftOut => exact .inl rfl
  | excluded => exact .inl rfl
  | leaf hbears => simp [hleaf] at hbears
  | cut hkind => simp [Config.splices, hkind] at h
  | atomic hkind => simp [Config.splices, hkind] at h
  | bare hkind hbare =>
    exact absurd hpart (not_isPartial_of_length_eq_zero (length_of_bare hleaf hbare))
  | list hkind => simp [Config.splices, hkind] at h
  | container _ _ _ _ hkept => simp [hkept hpart] at h
  | spliced => exact .inr rfl

/-- A node that comes out has not given way. -/
lemma not_givesWay_of_one {next : Node} (h : node.outcome config window start = .one next) :
    ¬((node.spanFrom start).isWithin window = false ∧ config.splices node.kind = true) := by
  rintro ⟨hcut, hsplice⟩
  cases hseen : (node.spanFrom start).misses window with
  | true => simp [outcome_of_misses hseen] at h
  | false =>
    rw [outcome_eq] at h
    rcases treatment_of_splices ⟨hseen, hcut⟩ hsplice with hdrop | hgives
    · simp [hdrop, Treatment.emit] at h
    · rw [hgives] at h
      exact Outcome.content_ne_one _ _ _ h

/-- Content without the node itself comes out only where the node gives way to it. -/
lemma treatment_of_many {nodes : List Node} {isolated : Bool}
    (h : node.outcome config window start = .many nodes isolated) :
    (node.decision config window start).treatment = .splice isolated := by
  rw [outcome_eq] at h
  cases htreatment : (node.decision config window start).treatment with
  | splice apart =>
    rw [htreatment] at h
    simp only [Treatment.emit, Outcome.content] at h
    split at h
    · cases h
    · cases h
      rfl
  | shorten value =>
    rw [htreatment] at h
    simp only [Treatment.emit] at h
    split at h <;> cases h
  | rebuild evenEmpty =>
    rw [htreatment] at h
    simp only [Treatment.emit] at h
    split at h <;> cases h
  | _ =>
    rw [htreatment] at h
    cases h

end Node
end MarkdownExcerpt
