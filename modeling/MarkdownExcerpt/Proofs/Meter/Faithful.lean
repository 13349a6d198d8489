import MarkdownExcerpt.Proofs.Meter.Covers
import MarkdownExcerpt.Session

/-! What a meter remembers of the documents that it is used on. Measuring a walked node keeps three
things as they are: only walked nodes are remembered, each with its true length, and whatever is
walked below a remembered node is remembered as well. -/
namespace MarkdownExcerpt

/-- The walk of one of the documents comes to the node at the place. -/
def NodeId.LeadsTo (documents : List Document) (id : NodeId) (node : Node) : Prop :=
  ∃ root, documentAt documents id.tree = .tree root ∧
    ∃ step ∈ (root.walk id.tree {}).1, step.path = id.path ∧ step.node = node

/-- What a meter remembers of documents is true, and complete below every remembered node. -/
structure Meter.Faithful (documents : List Document) (meter : Meter) : Prop where
  true_lengths : ∀ entry ∈ meter.entries,
    ∃ node, entry.1.LeadsTo documents node ∧ entry.2 = node.length
  closed : ∀ id, meter.Knows id → ∀ path node, (id.below path).LeadsTo documents node →
    meter.Knows (id.below path)

namespace NodeId.LeadsTo

variable {documents : List Document} {id : NodeId} {node found : Node} {path : List Nat}

theorem iff_reaches : id.LeadsTo documents node ↔
    ∃ root, documentAt documents id.tree = .tree root ∧ root.Reaches id.path node := by
  simp only [LeadsTo, Node.exists_step_iff_reaches]

lemma of_root {number : Nat} {root : Node} (h : documentAt documents number = .tree root) :
    (NodeId.root number).LeadsTo documents root :=
  iff_reaches.mpr ⟨root, h, .self root⟩

lemma below_iff (h : id.LeadsTo documents node) :
    (id.below path).LeadsTo documents found ↔ node.Reaches path found := by
  obtain ⟨root, hroot, hreach⟩ := iff_reaches.mp h
  rw [iff_reaches]
  constructor
  · rintro ⟨other, hother, hbelow⟩
    obtain rfl := Document.tree.inj (hroot.symm.trans hother)
    exact hreach.of_append hbelow
  · exact fun hbelow => ⟨root, hroot, hreach.trans hbelow⟩

lemma children (h : id.LeadsTo documents node) (hleaf : node.bearsText = false) :
    Child.EachAt (LeadsTo documents) id 0 node.children := by
  intro i child hchild
  rw [Nat.zero_add, ← below_nil (id.child i), ← below_cons]
  exact h.below_iff.mpr (.step hleaf hchild (.self child))

end NodeId.LeadsTo

/-- The nodes of documents. -/
def Forest.ofDocuments (documents : List Document) : Forest where
  node? id :=
    match documentAt documents id.tree with
    | .tree root => root.nodeAt? id.path
    | _ => none
  node?_child {id node child index} h hchild := by
    simp only [NodeId.child]
    split at h
    · exact Node.nodeAt?_append_singleton h hchild
    · cases h

lemma NodeId.LeadsTo.node? {documents : List Document} {id : NodeId} {node : Node}
    (h : id.LeadsTo documents node) : (Forest.ofDocuments documents).node? id = some node := by
  obtain ⟨root, hroot, hreach⟩ := iff_reaches.mp h
  simp only [Forest.ofDocuments, hroot]
  exact hreach.nodeAt?

namespace Meter

variable {documents : List Document} {meter : Meter} {id : NodeId} {node : Node}

theorem faithful_fresh (documents : List Document) : Faithful documents {} where
  true_lengths := by simp
  closed id hk := by simp [Knows, known?] at hk

/-- What is noted makes no difference. -/
lemma Faithful.of_entries {other : Meter} (h : meter.Faithful documents)
    (hentries : other.entries = meter.entries) : other.Faithful documents := by
  obtain ⟨entries, log⟩ := other
  obtain rfl : entries = meter.entries := hentries
  exact ⟨h.true_lengths, h.closed⟩

theorem Faithful.sound (h : meter.Faithful documents) : meter.Sound (.ofDocuments documents) := by
  intro id node length hn hk
  obtain ⟨found, hfound, hlength⟩ := h.true_lengths (id, length) (Assoc.mem_of_get? hk)
  obtain rfl : found = node := Option.some.inj (hfound.node?.symm.trans hn)
  exact hlength

theorem Faithful.covers (h : meter.Faithful documents) (hid : id.LeadsTo documents node)
    (hk : meter.Knows id) : meter.Covers id node :=
  fun path found hreach => h.closed id hk path found (hid.below_iff.mpr hreach)

lemma knows_remember (meter : Meter) (id other : NodeId) (length : Int) :
    (meter.remember id length).Knows other ↔ id = other ∨ meter.Knows other := by
  rw [Knows, known?_remember, Knows]
  split <;> simp_all

/-- A node can be remembered once everything that is walked below it is. -/
lemma Faithful.remember (h : meter.Faithful documents) (hid : id.LeadsTo documents node)
    (hbelow : node.bearsText = false → Child.EachAt meter.Covers id 0 node.children) :
    (meter.remember id node.length).Faithful documents where
  true_lengths entry he := by
    rcases Assoc.mem_of_mem_set he with rfl | he
    · exact ⟨node, hid, rfl⟩
    · exact h.true_lengths entry he
  closed other hk path found hfound := by
    rw [knows_remember] at hk ⊢
    rcases hk with rfl | hk
    · cases hid.below_iff.mp hfound with
      | self => exact .inl (NodeId.below_nil id).symm
      | @step _ child _ index path hleaf hchild hreach =>
        right
        rw [NodeId.below_cons]
        have hcovers := hbelow hleaf index child hchild
        rw [Nat.zero_add] at hcovers
        exact hcovers path found hreach
    · exact .inr (h.closed other hk path found hfound)

/-- A meter that was used on documents some more. -/
structure Learned (documents : List Document) (before after : Meter) : Prop where
  faithful : after.Faithful documents
  keeps : ∀ id, before.Knows id → after.Knows id

lemma Learned.trans {first second third : Meter} (h : Learned documents first second)
    (h' : Learned documents second third) : Learned documents first third :=
  ⟨h'.faithful, fun id hk => h'.keeps id (h.keeps id hk)⟩

/-- After a walked node is measured, it is remembered, and nothing else is forgotten. -/
def LearnsFrom (documents : List Document) (node : Node) : Prop :=
  ∀ (meter : Meter) (id : NodeId), meter.Faithful documents → id.LeadsTo documents node →
    Learned documents meter (meter.measure id node).2 ∧ (meter.measure id node).2.Knows id

lemma Faithful.measureChildren {children : List Child} {index : Nat}
    (hright : ∀ child ∈ Child.nodes children, LearnsFrom documents child)
    (h : meter.Faithful documents)
    (hids : Child.EachAt (NodeId.LeadsTo documents) id index children) :
    Learned documents meter (meter.measureChildren id index children).2 ∧
      Child.EachAt (meter.measureChildren id index children).2.Covers id index children := by
  induction children generalizing meter index with
  | nil => exact ⟨⟨h, fun _ hk => hk⟩, by simp [Child.EachAt]⟩
  | cons child rest ih =>
    cases child with
    | stray value =>
      obtain ⟨hlearned, hcovers⟩ := ih hright h hids.tail
      exact ⟨hlearned, .cons (by simp) hcovers⟩
    | node child =>
      obtain ⟨hfirst, hknown⟩ := hright child (by simp) meter (id.child index) h hids.head
      obtain ⟨hrest, hcovers⟩ := ih (fun c hm => hright c (by simp [hm])) hfirst.faithful hids.tail
      refine ⟨hfirst.trans hrest, .cons ?_ hcovers⟩
      rintro _ ⟨⟩
      exact hrest.faithful.covers hids.head (hrest.keeps _ hknown)

theorem learnsFrom (documents : List Document) (node : Node) : LearnsFrom documents node := by
  induction node using Node.inductionOn with
  | step node ih =>
    intro meter id h hid
    by_cases hk : meter.Knows id
    · rw [measure_snd_of_knows hk]
      exact ⟨⟨h, fun _ hk => hk⟩, hk⟩
    · have hunknown : meter.known? id = none := by simpa [Knows] using hk
      have hlength := (h.sound.measure hid.node?).1
      rw [measure_of_unknown hunknown] at hlength ⊢
      -- Whatever was measured on the way, the node itself is remembered last.
      have hlast : ∀ measured : Int × Meter, measured.1 = node.length →
          Learned documents meter measured.2 →
          (node.bearsText = false → Child.EachAt measured.2.Covers id 0 node.children) →
          Learned documents meter (measured.2.remember id measured.1) ∧
            (measured.2.remember id measured.1).Knows id := by
        intro measured hmeasured hlearned hbelow
        rw [hmeasured]
        refine ⟨⟨hlearned.faithful.remember hid hbelow, fun other hother => ?_⟩, ?_⟩
        · exact (knows_remember ..).mpr (.inr (hlearned.keeps other hother))
        · exact (knows_remember ..).mpr (.inl rfl)
      cases hleaf : node.bearsText with
      | true =>
        obtain ⟨kind, hkind⟩ := Node.exists_kind_of_bearsText hleaf
        have hentries : (meter.measureLeaf kind node).2.entries = meter.entries := by
          unfold measureLeaf
          split <;> rfl
        have hknows (other : NodeId) (hother : meter.Knows other) :
            (meter.measureLeaf kind node).2.Knows other := by
          rwa [Knows, known?, hentries]
        simp only [hkind] at hlength ⊢
        exact hlast _ hlength ⟨h.of_entries hentries, hknows⟩ (by simp [hleaf])
      | false =>
        have hchildren := h.measureChildren ih (hid.children hleaf)
        cases hkind : node.kind with
        | leaf kind => simp [Node.bearsText, hkind, NodeKind.isLeaf] at hleaf
        | _ =>
          simp only [hkind] at hlength ⊢
          exact hlast _ hlength hchildren.1 fun _ => hchildren.2

theorem Faithful.measure (h : meter.Faithful documents) (hid : id.LeadsTo documents node) :
    (meter.measure id node).2.Faithful documents ∧ (meter.measure id node).2.Covers id node := by
  obtain ⟨hlearned, hknown⟩ := learnsFrom documents node meter id h hid
  exact ⟨hlearned.faithful, hlearned.faithful.covers hid hknown⟩

end Meter
end MarkdownExcerpt
