import MarkdownExcerpt.Proofs.Excerpt
import MarkdownExcerpt.Proofs.Geometry
import MarkdownExcerpt.Proofs.Treatment

/-! Excerpts with every check spelled out. The policy for a cut node is looked up by its word, the
tree is taken out of what was emitted, and each number in the answer is tested for its sign. All of
these checks can fail on values that do not belong together; in an excerpt they never do, and what
is left to refuse are bad ranges. -/
namespace MarkdownExcerpt

/-- Why an excerpt with all its checks fails. -/
inductive Fault where
  | failure (failure : Failure)
  | policy (mismatch : PolicyMismatch)
  /-- One node is asked for where there is none. -/
  | noNode
  deriving DecidableEq, Repr

namespace Fault

def ofPolicy {α : Type} (found : Except PolicyMismatch α) : Except Fault α :=
  found.mapError .policy

def ofValidated {α : Type} (value : Validated α) : Except Fault α :=
  (Failure.ofValidated value).mapError .failure

lemma ok_bind {α β : Type} (value : α) (next : α → Except Fault β) :
    (Except.ok value >>= next) = next value := rfl

end Fault

/-! What is emitted for a node: a label and a list, which need not fit each other. -/

inductive EmissionKind where
  | none | one | many
  deriving DecidableEq, Repr

structure Emission where
  kind : EmissionKind := .none
  nodes : List Node := []
  isolated : Bool := false
  deriving Repr

namespace Emission

def one (node : Node) : Emission := { kind := .one, nodes := [node] }

def many (nodes : List Node) (isolated : Bool) : Emission :=
  if nodes.isEmpty then {} else ⟨.many, nodes, isolated⟩

/-- The emission as one tree. -/
def tree? (emission : Emission) : Except Fault (Option Node) :=
  match emission.kind with
  | .none => .ok none
  | .one =>
    match emission.nodes with
    | [] => .error .noNode
    | node :: _ => .ok (some node)
  | .many => .ok (some (.rootOf emission.nodes))

/-- The new children of a node; the labels of the emissions do not count here. -/
def assemble (join : Bool) (emissions : List Emission) : List Node :=
  Outcome.assemble join (emissions.map fun emission => .many emission.nodes emission.isolated)

def ofOutcome : Outcome → Emission
  | .nothing => {}
  | .one node => .one node
  | .many nodes isolated => ⟨.many, nodes, isolated⟩

/-- Whoever emits one node emits a node. -/
@[simp] theorem tree?_ofOutcome (outcome : Outcome) :
    (ofOutcome outcome).tree? = .ok outcome.tree? := by
  cases outcome <;> rfl

lemma ofOutcome_content (nodes : List Node) (isolated : Bool) :
    ofOutcome (.content nodes isolated) = many nodes isolated := by
  unfold Outcome.content many
  split <;> rfl

end Emission

/-- Runs are made of the nodes and the isolation of outcomes. -/
lemma Outcome.runs_map {change : Outcome → Outcome} (hnodes : ∀ o, (change o).nodes = o.nodes)
    (hisolated : ∀ o, (change o).isIsolated = o.isIsolated) (outcomes : List Outcome) :
    runs (outcomes.map change) = runs outcomes := by
  induction outcomes with
  | nil => rfl
  | cons outcome rest ih => simp only [List.map_cons, runs, ih, hnodes, hisolated]

lemma Emission.assemble_map_ofOutcome (join : Bool) (outcomes : List Outcome) :
    assemble join (outcomes.map ofOutcome) = Outcome.assemble join outcomes := by
  rw [assemble, List.map_map]
  exact Outcome.assemble_congr (Outcome.runs_map (by intro o; cases o <;> rfl)
    (by intro o; cases o <;> rfl) outcomes) join

namespace Treatment

/-- What is emitted for a node with its new children. -/
def emission (node : Node) (children : List Node) : Treatment → Emission
  | drop => {}
  | keep => .one node
  | shorten value => if value.isEmpty then {} else .one (node.withValue (String.ofList value))
  | rebuild evenEmpty =>
    if children.isEmpty && !evenEmpty then {} else .one (node.withChildren children)
  | splice isolated => .many children isolated

lemma emission_eq (node : Node) (children : List Node) (treatment : Treatment) :
    treatment.emission node children = .ofOutcome (treatment.emit node children) := by
  cases treatment with
  | drop => rfl
  | keep => rfl
  | shorten value =>
    simp only [emission, emit]
    split <;> rfl
  | rebuild evenEmpty =>
    simp only [emission, emit]
    split <;> rfl
  | splice isolated => exact (Emission.ofOutcome_content children isolated).symm

end Treatment

namespace Node

/-- A node without a type has the policy of one whose type is the empty word, which is none. -/
lemma effectivePolicy_word (behavior : Behavior) (node : Node) :
    behavior.effectivePolicy (some (node.type?.getD "")) node.category =
      behavior.effectivePolicy node.type? node.category := by
  unfold category kind
  cases node.type? <;> rfl

end Node

namespace Decision

variable (config : Config) (window span : Span) (node : Node)

/-- The decision on a node that the window covers in part, under any policy at all. A policy that is
none of those named here counts as the last one of the node's class. -/
def underPolicy (policy : Option Policy) : Decision :=
  let whole : Decision := ⟨.whole config node, true, none⟩
  let type := node.type?.getD ""
  match node.kind, policy with
  | .leaf _, some (.leaf .includeFull) => whole
  | .leaf _, some (.leaf .excludeFull) => ⟨.drop, true, some type⟩
  | .leaf kind, _ =>
    ⟨.shorten (Treatment.visibleValue config window span kind node), true, some type⟩
  | .formatting _, some (.formatting .exclude) => ⟨.drop, true, some type⟩
  | .formatting _, some (.formatting .strip) => ⟨.splice false, true, some type⟩
  | .media _, some (.media .strip) => ⟨.drop, true, some type⟩
  | .media _, some (.media .contentOnly) => ⟨.splice false, true, some type⟩
  | .block _, some (.block .exclude) => ⟨.drop, true, some type⟩
  | .block _, some (.block .unwrap) => ⟨.splice true, true, some type⟩
  | _, _ => whole

/-- The decision on a node, with the policy looked up by the words of the type and of the
override for it. -/
def checked : Except PolicyMismatch Decision :=
  if span.misses window then .ok ⟨.drop, false, none⟩
  else if config.leavesOut node.type? then .ok ⟨.drop, false, none⟩
  else if span.isWithin window then .ok ⟨.whole config node, false, none⟩
  else
    (config.behavior.effectivePolicy (some (node.type?.getD "")) node.category).map
      (underPolicy config window span node)

lemma underPolicy_kindPolicy? :
    underPolicy config window span node (config.behavior.kindPolicy? node.kind) =
      ofPartial config window span node := by
  have htype := @Node.type?_eq_name? node
  unfold underPolicy ofPartial
  cases hkind : node.kind with
  | leaf kind =>
    rw [htype (by simp [hkind]), hkind]
    simp only [Behavior.kindPolicy?, NodeKind.name?, Option.getD_some]
    cases config.behavior.leafPolicy kind <;> rfl
  | formatting kind =>
    rw [htype (by simp [hkind]), hkind]
    simp only [Behavior.kindPolicy?, NodeKind.name?, Option.getD_some]
    cases config.behavior.formattingPolicy kind <;> rfl
  | media kind =>
    rw [htype (by simp [hkind]), hkind]
    simp only [Behavior.kindPolicy?, NodeKind.name?, Option.getD_some]
    cases config.behavior.mediaPolicy kind <;> rfl
  | block kind =>
    rw [htype (by simp [hkind]), hkind]
    simp only [Behavior.kindPolicy?, NodeKind.name?, Option.getD_some]
    cases config.behavior.blockPolicy kind <;> rfl
  | _ => rfl

/-- No look-up of a policy fails. -/
theorem checked_eq : checked config window span node = .ok (of config window span node) := by
  unfold checked of
  split
  · rfl
  · split
    · rfl
    · split
      · rfl
      · rw [Node.effectivePolicy_word, Node.effectivePolicy_type?]
        exact congrArg _ (underPolicy_kindPolicy? config window span node)

end Decision

mutual

/-- What is emitted for the node at a place, or the check that fails on the way. -/
def Node.cutChecked (config : Config) (window : Span) (id : NodeId) (span : Span)
    (progress : Progress) (node : Node) : Except Fault (Emission × Progress) := do
  let decision ← Fault.ofPolicy (Decision.checked config window span node)
  let progress := progress.record decision
  if decision.treatment.descends then
    match node with
    | .bare attributes => return (decision.treatment.emission (.bare attributes) [], progress)
    | .parent attributes children =>
      let (emissions, progress) ←
        Child.cutListChecked config window id 0 span.start progress children
      return (decision.treatment.emission (.parent attributes children)
        (Emission.assemble config.text.mergeAdjacentText emissions), progress)
  else return (decision.treatment.emission node [], progress)

/-- What is emitted for the children of a node from an index on. -/
def Child.cutListChecked (config : Config) (window : Span) (id : NodeId) (index : Nat)
    (start : Int) (progress : Progress) : List Child → Except Fault (List Emission × Progress)
  | [] => return ([], progress)
  | .stray _ :: rest => Child.cutListChecked config window id (index + 1) start progress rest
  | .node child :: rest =>
    if window.stop ≤ start then return ([], progress)
    else do
      let (span, progress) := progress.span (id.child index) start child
      let (emission, progress) ← child.cutChecked config window (id.child index) span progress
      let (others, progress) ←
        Child.cutListChecked config window id (index + 1) span.stop progress rest
      return (emission :: others, progress)

end

/-- Cutting the node with all checks succeeds, wherever it stands and whatever the meter knows. -/
def Node.PassesChecks (config : Config) (window : Span) (node : Node) : Prop :=
  ∀ (id : NodeId) (span : Span) (progress : Progress),
    node.cutChecked config window id span progress =
      .ok (.ofOutcome (node.cut config window id span progress).1,
        (node.cut config window id span progress).2)

variable {config : Config} {window : Span}

lemma Child.cutListChecked_eq {children : List Child}
    (hpass : ∀ child ∈ Child.nodes children, child.PassesChecks config window) (id : NodeId)
    (index : Nat) (start : Int) (progress : Progress) :
    cutListChecked config window id index start progress children =
      .ok ((cutList config window id index start progress children).1.map .ofOutcome,
        (cutList config window id index start progress children).2) := by
  induction children generalizing index start progress with
  | nil => simp only [cutListChecked, cutList]; rfl
  | cons child rest ih =>
    cases child with
    | stray value => simpa only [cutListChecked, cutList] using ih hpass _ _ _
    | node child =>
      simp only [cutListChecked, cutList]
      split
      · rfl
      · rw [hpass child (by simp)]
        simp only [Fault.ok_bind]
        rw [ih fun c hc => hpass c (by simp [hc])]
        rfl

/-- No check fails while a tree is cut, so cutting with checks is cutting. -/
theorem Node.passesChecks (config : Config) (window : Span) (node : Node) :
    node.PassesChecks config window := by
  induction node using Node.inductionOn with
  | step node ih =>
    intro id span progress
    cases node with
    | bare attributes =>
      simp only [cutChecked, cut, Decision.checked_eq, Fault.ofPolicy, Except.mapError,
        Fault.ok_bind, Treatment.emission_eq]
      split <;> rfl
    | parent attributes children =>
      simp only [cutChecked, cut, Decision.checked_eq, Fault.ofPolicy, Except.mapError,
        Fault.ok_bind, Treatment.emission_eq]
      split
      · have hpass : ∀ child ∈ Child.nodes children, child.PassesChecks config window := ih
        rw [Child.cutListChecked_eq hpass, Fault.ok_bind, Emission.assemble_map_ofOutcome]
        rfl
      · rfl

/-! The whole excerpt, for a fresh meter. -/

namespace Boundaries

/-- The offsets of an answer, unless one is below zero. -/
def ofInts (start stop : Int) : Validated Boundaries :=
  mk <$> (Validated.naturalOfInt start).within (.field "start")
    <*> (Validated.naturalOfInt stop).within (.field "end")

lemma ofInts_ofNat (start stop : Nat) : ofInts start stop = .valid ⟨start, stop⟩ := rfl

end Boundaries

namespace Info

/-- What an answer tells about a cut, unless a length is below zero. -/
def ofInts (original sliced : Int) (tally : Tally) : Validated Info :=
  (fun original sliced => mk original sliced (0 < tally.partialNodes) tally.modifiedTypes)
    <$> (Validated.naturalOfInt original).within (.field "originalLength")
    <*> (Validated.naturalOfInt sliced).within (.field "slicedLength")

lemma ofInts_ofNat (original sliced : Nat) (tally : Tally) :
    ofInts original sliced tally =
      .valid ⟨original, sliced, 0 < tally.partialNodes, tally.modifiedTypes⟩ := rfl

end Info

/-- Where the range ends in a document said to have a length, which may be below zero. -/
def Range.stopWithinInt (range : Range) (length : Int) : Int :=
  match range.stop with
  | none => length
  | some stop => min stop length

lemma Range.stopWithinInt_ofNat (range : Range) (length : Nat) :
    range.stopWithinInt length = range.stopWithin length := by
  unfold stopWithinInt stopWithin
  cases range.stop with
  | none => rfl
  | some stop =>
    show min (stop : Int) length = (min stop length : Nat)
    omega

namespace Node

/-- The length of a tree that comes out, measured anew. -/
def measured : Option Node → Int
  | none => 0
  | some node => (({} : Meter).measure (.root 0) node).1

lemma measured_eq (tree : Option Node) : measured tree = ((tree.map length).getD 0 : Nat) := by
  cases tree with
  | none => rfl
  | some node => exact Meter.measure_fresh 0 node

/-- The excerpt of a tree, or the first check that fails. -/
def excerptChecked (config : Config) (number : Nat) (range : Range) (node : Node) :
    Except Fault Excerpt := do
  let (length, meter) := ({} : Meter).measure (.root number) node
  let stop := range.stopWithinInt length
  if length = 0 then
    if range.start = 0 then
      let boundaries ← Fault.ofValidated (Boundaries.ofInts 0 0)
      return { node := some node, boundaries }
    else
      let boundaries ← Fault.ofValidated (Boundaries.ofInts range.start 0)
      return { boundaries }
  else
    let boundaries ← Fault.ofValidated (Boundaries.ofInts range.start stop)
    if stop ≤ range.start then
      let info ← Fault.ofValidated (Info.ofInts length 0 {})
      return { boundaries, info }
    else
      let (emission, progress) ←
        node.cutChecked config ⟨range.start, stop⟩ (.root number) (.ofLength 0 length) { meter }
      let tree ← emission.tree?
      let info ← Fault.ofValidated (Info.ofInts length (measured tree) progress.tally)
      return { node := tree, boundaries, info }

/-- No check fails on the way to an excerpt, so the excerpt with checks is the excerpt. -/
theorem excerptChecked_eq (config : Config) (number : Nat) (range : Range) (node : Node) :
    node.excerptChecked config number range =
      (node.excerpt config number range {}).1.mapError .failure := by
  have hmeasure : ({} : Meter).measure (.root number) node =
      ((node.length : Int), (({} : Meter).measure (.root number) node).2) :=
    Prod.ext (Meter.measure_fresh number node) rfl
  have hempty : ((node.length : Int) = 0) ↔ node.length = 0 := Int.natCast_eq_zero
  have hbeyond : ((range.stopWithin node.length : Nat) : Int) ≤ range.start ↔
      range.stopWithin node.length ≤ range.start := Int.ofNat_le
  have hanswer (stop : Nat) : Fault.ofValidated (Boundaries.ofInts range.start stop) =
      .ok ⟨range.start, stop⟩ := rfl
  rw [excerptChecked, excerpt, hmeasure]
  simp only [Range.stopWithinInt_ofNat, excerptOfLength, hempty, hbeyond, hanswer]
  split
  · split <;> rfl
  · split
    · rfl
    · simp only [Fault.ok_bind, node.passesChecks _ _ _ _ _, Emission.tree?_ofOutcome, measured_eq,
        Info.ofInts_ofNat, excerptBetween, measureOutput_fst]
      rfl

end Node

namespace Node

/-- Whichever way an excerpt comes about, it tells the range and the length of the tree. -/
lemma boundaries_excerptAlone (config : Config) (range : Range) (node : Node) :
    (node.excerptAlone config range).boundaries = ⟨range.start, range.stopWithin node.length⟩ ∧
      (node.excerptAlone config range).info.originalLength = node.length := by
  have hle := range.stopWithin_le node.length
  simp only [excerptAlone]
  split
  · next hzero =>
    have hstop : range.stopWithin node.length = 0 := by omega
    rw [hstop, hzero]
    split
    · next hstart => exact ⟨by rw [hstart], rfl⟩
    · exact ⟨rfl, rfl⟩
  · split <;> exact ⟨rfl, rfl⟩

end Node

namespace Document

/-- The excerpt of a document, or the first check that fails. -/
def excerptChecked (config : Config) (number : Nat) (start stop : Json) (document : Document) :
    Except Fault Excerpt :=
  match Range.ofJson start stop with
  | .error error => .error (.failure (.range error))
  | .ok range =>
    match document with
    | empty => .ok {}
    | malformed => .error (.failure .notTree)
    | tree node => node.excerptChecked config number range

theorem excerptChecked_eq (config : Config) (number : Nat) (start stop : Json)
    (document : Document) :
    document.excerptChecked config number start stop =
      (document.excerpt config number start stop {}).1.mapError .failure := by
  cases hrange : Range.ofJson start stop with
  | error error =>
    rw [excerptChecked, excerpt, hrange]
    rfl
  | ok range =>
    rw [excerptChecked, excerpt, hrange]
    cases document with
    | empty => rfl
    | malformed => rfl
    | tree node => exact node.excerptChecked_eq config number range

/-- Only a bad range keeps a tree from having an excerpt. All checks on the way pass, and the
excerpt tells the range within the tree and the length of the tree. -/
theorem excerpt_tree_settled (config : Config) (number : Nat) (start stop : Json) (root : Node) :
    (tree root).excerptChecked config number start stop =
        ((tree root).excerpt config number start stop {}).1.mapError .failure ∧
      ((∃ error, ((tree root).excerpt config number start stop {}).1 = .error (.range error)) ↔
        ¬∃ first last, Range.Names start stop first last) ∧
      ∀ first last, Range.Names start stop first last →
        ∃ excerpt, ∃ length : Nat,
          (tree root).excerptChecked config number start stop = .ok excerpt ∧
          ((tree root).excerpt config number start stop {}).1 = .ok excerpt ∧
          ((tree root).length number {}).1 = .ok (length : Int) ∧
          excerpt.boundaries = ⟨first, min (last.getD length) length⟩ ∧
          excerpt.info.originalLength = length := by
  have hchecked := excerptChecked_eq config number start stop (tree root)
  refine ⟨hchecked, ⟨?_, ?_⟩, ?_⟩
  · rintro ⟨error, herror⟩ ⟨first, last, hnames⟩
    obtain ⟨range, hrange, -, -⟩ := Range.exists_ofJson_of_names hnames
    rw [excerpt_tree hrange] at herror
    cases herror
  · intro hbad
    cases hrange : Range.ofJson start stop with
    | error error => exact ⟨error, by rw [excerpt, hrange]⟩
    | ok range => exact absurd ⟨_, _, Range.names_of_ofJson hrange⟩ hbad
  · intro first last hnames
    obtain ⟨range, hrange, rfl, rfl⟩ := Range.exists_ofJson_of_names hnames
    obtain ⟨hboundaries, hlength⟩ := root.boundaries_excerptAlone config range
    refine ⟨root.excerptAlone config range, root.length, ?_, excerpt_tree hrange config number root,
      Node.length_fresh number root, ?_, hlength⟩
    · rw [hchecked, excerpt_tree hrange]
      rfl
    · rw [hboundaries, range.stopWithin_eq_min]

/-- A wrapper with an override for it, a leaf with children and a child that is no node. -/
def ragged : Node :=
  .parent [("type", .str "root")] [.stray .null,
    .node (.wrapperOf "emphasis" [.leafOf "text" "ab"]),
    .node (.parent [("type", .str "text"), ("value", .str "cde")] [.node (.leafOf "text" "x")])]

def stripped : Config := { behavior := { overrides := [.formatting .emphasis .strip] } }

theorem excerpt_tree_settled_ragged :
    Range.Names (.int 1) (.int 99) 1 (some 99) ∧
      (∃ excerpt,
        (tree ragged).excerptChecked stripped 0 (.int 1) (.int 99) = .ok excerpt ∧
        ((tree ragged).excerpt stripped 0 (.int 1) (.int 99) {}).1 = .ok excerpt ∧
        excerpt.boundaries = ⟨1, 5⟩ ∧ excerpt.info.originalLength = 5) ∧
      ∃ error, ((tree ragged).excerpt stripped 0 (.bool true) .null {}).1 =
        .error (.range error) := by
  have hnames : Range.Names (.int 1) (.int 99) 1 (some 99) := .upTo (by decide)
  obtain ⟨-, -, hgood⟩ := excerpt_tree_settled stripped 0 (.int 1) (.int 99) ragged
  obtain ⟨-, hbad, -⟩ := excerpt_tree_settled stripped 0 (.bool true) .null ragged
  obtain ⟨excerpt, length, hchecked, hexcerpt, hlength, hboundaries, horiginal⟩ :=
    hgood 1 (some 99) hnames
  have hfive : ((tree ragged).length 0 {}).1 = .ok 5 := by decide
  have hcast : (5 : Int) = length := Except.ok.inj (hfive.symm.trans hlength)
  obtain rfl : length = 5 := by omega
  refine ⟨hnames, ⟨excerpt, hchecked, hexcerpt, hboundaries, horiginal⟩, hbad.mpr ?_⟩
  rintro ⟨first, last, hnone⟩
  cases hnone

end Document
end MarkdownExcerpt
