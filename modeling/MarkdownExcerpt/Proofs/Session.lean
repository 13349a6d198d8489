import MarkdownExcerpt.Proofs.Excerpt
import MarkdownExcerpt.Proofs.Meter.Faithful

/-! Operations that share a meter. Every operation measures its tree first and nothing after that,
so a shared meter grows by whole trees, and no answer depends on what was asked before. -/
namespace MarkdownExcerpt

lemma Meter.entries_measureOutput (meter : Meter) (tree : Option Node) :
    (meter.measureOutput tree).2.entries = meter.entries := by
  cases tree <;> rfl

namespace Node

variable {number : Nat} {path : List Nat} {meter : Meter} {node : Node}

/-- Nothing is remembered in the course of a cut but what measuring the tree brings. -/
lemma entries_excerpt (h : (meter.measure (.root number) node).2.Covers (.root number) node)
    (config : Config) (range : Range) :
    (node.excerpt config number range meter).2.entries =
      (meter.measure (.root number) node).2.entries := by
  unfold excerpt
  generalize meter.measure (.root number) node = measured at h ⊢
  obtain ⟨length, after⟩ := measured
  cases length with
  | negSucc => rfl
  | ofNat length =>
    simp only [excerptOfLength]
    split
    · split <;> rfl
    · split
      · rfl
      · have hcut := node.cutsAsKnown config ⟨range.start, range.stopWithin length⟩ (.root number)
          (.ofLength 0 length) { meter := after } h
        simp only [excerptBetween, Meter.entries_note, Meter.entries_measureOutput, hcut]

lemma meter_walk (h : (meter.measure (.root number) node).2.Covers (.root number) node) :
    (node.walk number meter).2 = (meter.measure (.root number) node).2 ∧
      ∀ step ∈ (node.walk number meter).1, step.meter = (meter.measure (.root number) node).2 :=
  node.walksAsKnown (.root number) _ _ h

/-- The walk is left with the meter that it began with, wherever it is left. -/
lemma meter_spanAt (h : (meter.measure (.root number) node).2.Covers (.root number) node) :
    (node.spanAt number path meter).2 = (meter.measure (.root number) node).2 := by
  obtain ⟨hfinal, hsteps⟩ := meter_walk h
  unfold spanAt
  cases hfind : (node.walk number meter).1.find? fun step => step.path == path with
  | none => simp only [hfind, hfinal]
  | some step => simp only [hfind, hsteps step (List.mem_of_find?_eq_some hfind)]

end Node

lemma NodeId.LeadsTo.below_eq {documents : List Document} {id : NodeId} {node : Node}
    (h : id.LeadsTo documents node) :
    (documentAt documents id.tree).below id.path = .tree node := by
  obtain ⟨root, hroot, hreach⟩ := iff_reaches.mp h
  have hat := hreach.nodeAt?
  rw [hroot]
  simp only [Node.nodeAt?] at hat
  simp only [Document.below]
  split at hat <;> simp_all

namespace Operation

/-- The operation does not handle the memory of the meter itself, and measures walked nodes only. -/
def KeepsToWalk (documents : List Document) : Operation → Prop
  | length number path => ∀ root, documentAt documents number = .tree root →
    ∃ node, NodeId.LeadsTo documents ⟨number, path⟩ node
  | lookUp _ _ => False
  | remember _ _ _ => False
  | _ => True

/-- The place of the node that the operation is about. -/
def place? : Operation → Option NodeId
  | length number path => some ⟨number, path⟩
  | excerpt number _ _ _ => some (.root number)
  | spans number => some (.root number)
  | position number _ => some (.root number)
  | _ => none

/-- What an operation gives when it is run with a meter that was used before. -/
structure Settled (documents : List Document) (operation : Operation) (before : Meter)
    (ran : Except Failure Answer × Meter) : Prop where
  /-- The answer is that with a fresh meter. -/
  answer : ran.1 = (operation.run documents {}).1
  faithful : ran.2.Faithful documents
  /-- Unless the operation fails, all walked nodes of its tree are remembered afterwards. -/
  covered : ∀ value id, ran.1 = .ok value → operation.place? = some id →
    ∀ path node, (id.below path).LeadsTo documents node → ran.2.Knows (id.below path)
  rejected : ∀ error, ran.1 = .error (.range error) → ran.2 = before
  empty : ∀ id, operation.place? = some id → documentAt documents id.tree = .empty →
    ran.2 = before

variable {documents : List Document} {operation : Operation} {before : Meter}
  {ran : Except Failure Answer × Meter} {id : NodeId}

/-- An operation on a walked node leaves a meter that knows what it knows after measuring the
node. -/
lemma settled_of_measured (h : before.Faithful documents) {node : Node}
    (hid : id.LeadsTo documents node) (hplace : operation.place? = some id)
    (hanswer : ran.1 = (operation.run documents {}).1)
    (hrange : ∀ error, ran.1 ≠ .error (.range error))
    (hentries : ran.2.entries = (before.measure id node).2.entries) :
    operation.Settled documents before ran := by
  obtain ⟨hfaithful, hcovers⟩ := h.measure hid
  have hknows (other : NodeId) (hk : (before.measure id node).2.Knows other) :
      ran.2.Knows other := by
    rwa [Meter.Knows, Meter.known?, hentries]
  refine ⟨hanswer, hfaithful.of_entries hentries, ?_, fun error he => absurd he (hrange error), ?_⟩
  · intro value other _ hother path found hfound
    obtain rfl : id = other := Option.some.inj (hplace.symm.trans hother)
    exact hknows _ (hcovers path found (hid.below_iff.mp hfound))
  · intro other hother hempty
    obtain rfl : id = other := Option.some.inj (hplace.symm.trans hother)
    obtain ⟨root, hroot, -⟩ := hid
    rw [hroot] at hempty
    cases hempty

/-- An operation that fails or finds no tree leaves the meter as it is. -/
lemma settled_of_unmeasured (h : before.Faithful documents) (hplace : operation.place? = some id)
    (htree : ∀ value root, ran.1 = .ok value → documentAt documents id.tree ≠ .tree root)
    (hanswer : ran.1 = (operation.run documents {}).1) (hmeter : ran.2 = before) :
    operation.Settled documents before ran := by
  refine ⟨hanswer, hmeter ▸ h, ?_, fun _ _ => hmeter, fun _ _ _ => hmeter⟩
  rintro value other hvalue hother path node ⟨root, hroot, -⟩
  obtain rfl : id = other := Option.some.inj (hplace.symm.trans hother)
  exact absurd hroot (htree value root hvalue)

lemma settled_length (h : before.Faithful documents) {number : Nat} {path : List Nat}
    (hop : (length number path).KeepsToWalk documents) :
    (length number path).Settled documents before ((length number path).run documents before) := by
  cases hdocument : documentAt documents number with
  | tree root =>
    obtain ⟨node, hid⟩ := hop root hdocument
    have hrun (meter : Meter) : (length number path).run documents meter =
        (.ok (.length (meter.measure ⟨number, path⟩ node).1),
          (meter.measure ⟨number, path⟩ node).2) := by
      simp only [run, hid.below_eq]
    have hfresh := ((Meter.faithful_fresh documents).sound.measure hid.node?).1
    refine settled_of_measured h hid rfl ?_ ?_ ?_
    · rw [hrun, hrun, (h.sound.measure hid.node?).1, hfresh]
    · intro error
      rw [hrun]
      simp
    · rw [hrun]
  | _ =>
    refine settled_of_unmeasured h rfl (by simp [hdocument]) ?_ ?_ <;>
      simp only [run, hdocument, Document.below] <;> cases path.isEmpty <;> rfl

lemma settled_excerpt (h : before.Faithful documents) (number : Nat) (start stop : Json)
    (config : Config) :
    (excerpt number start stop config).Settled documents before
      ((excerpt number start stop config).run documents before) := by
  cases hrange : Range.ofJson start stop with
  | error error =>
    refine settled_of_unmeasured h rfl ?_ ?_ ?_ <;>
      simp [run, Document.excerpt, hrange, Except.map]
  | ok range =>
    cases hdocument : documentAt documents number with
    | tree root =>
      have hid : (NodeId.root number).LeadsTo documents root := .of_root hdocument
      have hfresh := Node.excerpt_of_sound (Meter.faithful_fresh documents).sound hid.node?
      refine settled_of_measured h hid rfl ?_ ?_ ?_
      · simp only [run, Document.excerpt, hrange, hdocument, hfresh,
          Node.excerpt_of_sound h.sound hid.node?]
      · intro error
        simp [run, Document.excerpt, hrange, hdocument, Node.excerpt_of_sound h.sound hid.node?,
          Except.map]
      · simp only [run, Document.excerpt, hrange, hdocument]
        exact Node.entries_excerpt (h.measure hid).2 config range
    | _ =>
      refine settled_of_unmeasured h rfl (by simp [NodeId.root, hdocument]) ?_ ?_ <;>
        simp [run, Document.excerpt, hrange, hdocument]

lemma settled_spans (h : before.Faithful documents) (number : Nat) :
    (spans number).Settled documents before ((spans number).run documents before) := by
  cases hdocument : documentAt documents number with
  | tree root =>
    have hid : (NodeId.root number).LeadsTo documents root := .of_root hdocument
    have hvisits {meter : Meter} (hs : meter.Faithful documents) :
        ((root.walk number meter).1.map fun step => (step.node, step.span)) =
          (root.visits [] 0).map Visit.entry := by
      rw [← Node.walk_of_sound hs.sound hid.node?, List.map_map]
      rfl
    refine settled_of_measured h hid rfl ?_ ?_ ?_
    · simp only [run, Document.walk, hdocument, Except.map, hvisits h,
        hvisits (Meter.faithful_fresh documents)]
    · intro error
      simp [run, Document.walk, hdocument, Except.map]
    · simp only [run, Document.walk, hdocument, (Node.meter_walk (h.measure hid).2).1]
  | _ =>
    refine settled_of_unmeasured h rfl (by simp [NodeId.root, hdocument]) ?_ ?_ <;>
      simp [run, Document.walk, hdocument]

lemma settled_position (h : before.Faithful documents) (number : Nat) (path : List Nat) :
    (position number path).Settled documents before
      ((position number path).run documents before) := by
  cases hdocument : documentAt documents number with
  | tree root =>
    have hid : (NodeId.root number).LeadsTo documents root := .of_root hdocument
    have hspan {meter : Meter} (hs : meter.Faithful documents) :
        (root.spanAt number path meter).1 =
          ((root.visits [] 0).find? fun visit => visit.path == path).map Visit.span := by
      rw [Node.spanAt_fst, Node.walk_of_sound hs.sound hid.node?]
    refine settled_of_measured h hid rfl ?_ ?_ ?_
    · simp only [run, hdocument, Document.position_tree, hspan h,
        hspan (Meter.faithful_fresh documents)]
    · intro error
      simp only [run, hdocument, Document.position_tree]
      cases (root.spanAt number path before).1 with
      | none => simp [Except.map]
      | some span =>
        cases hvalid : (some <$> Position.ofSpan span : Validated (Option Position)) <;>
          simp [hvalid, Failure.ofValidated, Except.map]
    · simp only [run, hdocument, Document.position_tree, Node.meter_spanAt (h.measure hid).2]
  | _ =>
    refine settled_of_unmeasured h rfl (by simp [NodeId.root, hdocument]) ?_ ?_ <;>
      simp [run, Document.position, hdocument]

/-- An operation answers as with a fresh meter, whatever was done with the meter before. -/
theorem settled (h : before.Faithful documents) (hop : operation.KeepsToWalk documents) :
    operation.Settled documents before (operation.run documents before) := by
  cases operation with
  | length number path => exact settled_length h hop
  | lookUp number path => exact hop.elim
  | remember number path count => exact hop.elim
  | clear =>
    refine ⟨rfl, (Meter.faithful_fresh documents).of_entries rfl, ?_, ?_, ?_⟩ <;>
      simp [run, place?]
  | excerpt number start stop config => exact settled_excerpt h number start stop config
  | spans number => exact settled_spans h number
  | position number path => exact settled_position h number path

/-- Operations with one meter, from any that was only used on the documents. -/
theorem runAll_of_faithful {operations : List Operation} (h : before.Faithful documents)
    (hops : ∀ operation ∈ operations, operation.KeepsToWalk documents) :
    (runAll documents before operations).1 =
        operations.map (fun operation => (operation.run documents {}).1) ∧
      (runAll documents before operations).2.Faithful documents := by
  induction operations generalizing before with
  | nil => exact ⟨rfl, h⟩
  | cons operation rest ih =>
    have hsettled := settled h (hops operation (by simp))
    obtain ⟨hanswers, hfaithful⟩ := ih hsettled.faithful fun o ho => hops o (by simp [ho])
    refine ⟨?_, hfaithful⟩
    simp only [runAll, List.map_cons, hanswers, hsettled.answer]

/-- A shared meter is never noticed. After any operations on walked nodes, all answers are those
with a fresh meter, what is remembered is true and complete, and the next operation keeps to
that. -/
theorem runAll_transparent {operations : List Operation}
    (hops : ∀ operation ∈ operations, operation.KeepsToWalk documents) :
    (runAll documents {} operations).1 =
        operations.map (fun operation => (operation.run documents {}).1) ∧
      (runAll documents {} operations).2.Faithful documents ∧
      ∀ next : Operation, next.KeepsToWalk documents →
        next.Settled documents (runAll documents {} operations).2
          (next.run documents (runAll documents {} operations).2) := by
  obtain ⟨hanswers, hfaithful⟩ := runAll_of_faithful (Meter.faithful_fresh documents) hops
  exact ⟨hanswers, hfaithful, fun next hnext => settled hfaithful hnext⟩

/-- A tree, in which a leaf has a node below it that is not walked, and an empty document. -/
def library : List Document :=
  [.tree (.wrapperOf "root"
    [.wrapperOf "paragraph" [.leafOf "text" "ab", .wrapperOf "code" [.leafOf "text" "cd"]],
      .leafOf "text" "ef"]), .empty]

/-- A paragraph is measured, a window is cut out of the whole tree and another is refused. -/
def visitors : List Operation :=
  [.length 0 [0], .excerpt 0 (.int 1) (.int 3) {}, .excerpt 0 (.int 3) (.int 1) {},
    .excerpt 1 (.int 0) .null {}, .position 0 [1]]

theorem runAll_transparent_library :
    (∀ operation ∈ visitors, operation.KeepsToWalk library) ∧
      (runAll library {} visitors).1 =
        visitors.map (fun operation => (operation.run library {}).1) ∧
      (runAll library {} visitors).2.Faithful library ∧
      (runAll library {} visitors).2.size = 5 ∧
      Settled library (.spans 0) (runAll library {} visitors).2
        ((spans 0).run library (runAll library {} visitors).2) := by
  have hparagraph : (length 0 [0]).KeepsToWalk library := by
    intro root hroot
    exact ⟨_, NodeId.LeadsTo.iff_reaches.mpr ⟨_, rfl, .step rfl rfl (.self _)⟩⟩
  have hops : ∀ operation ∈ visitors, operation.KeepsToWalk library := by
    simp only [visitors, List.forall_mem_cons]
    exact ⟨hparagraph, trivial, trivial, trivial, trivial, by simp⟩
  obtain ⟨hanswers, hfaithful, hnext⟩ := runAll_transparent hops
  exact ⟨hops, hanswers, hfaithful, by decide, hnext (.spans 0) trivial⟩

end Operation
end MarkdownExcerpt
