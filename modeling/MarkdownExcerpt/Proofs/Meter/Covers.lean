import MarkdownExcerpt.Excerpt
import MarkdownExcerpt.Proofs.Reach

/-! Meters that remember every node that is walked from a node on. There is nothing left to be
measured in such a node, so cutting and walking it leave the meter as it is. -/
namespace MarkdownExcerpt

namespace NodeId

/-- The place that a path leads to from a place on. -/
def below (id : NodeId) (path : List Nat) : NodeId := ⟨id.tree, id.path ++ path⟩

@[simp] theorem below_nil (id : NodeId) : id.below [] = id := by simp [below]

theorem below_cons (id : NodeId) (index : Nat) (path : List Nat) :
    id.below (index :: path) = (id.child index).below path := by simp [below, child]

end NodeId

namespace Meter

/-- A length is remembered for the place. -/
def Knows (meter : Meter) (id : NodeId) : Prop := (meter.known? id).isSome = true

/-- Every node that is walked from the node at the place on is remembered. -/
def Covers (meter : Meter) (id : NodeId) (node : Node) : Prop :=
  ∀ path found, node.Reaches path found → meter.Knows (id.below path)

variable {meter : Meter} {id : NodeId} {node : Node}

lemma Covers.self (h : meter.Covers id node) : meter.Knows id := by
  simpa using h [] node (.self node)

lemma Covers.children (h : meter.Covers id node) (hleaf : node.bearsText = false) :
    Child.EachAt meter.Covers id 0 node.children := by
  intro i child hchild path found hreach
  rw [Nat.zero_add, ← NodeId.below_cons]
  exact h (i :: path) found (.step hleaf hchild hreach)

lemma measure_snd_of_knows (h : meter.Knows id) (node : Node) :
    (meter.measure id node).2 = meter := by
  obtain ⟨length, hlength⟩ := Option.isSome_iff_exists.mp h
  rw [measure.eq_def, hlength]

@[simp] theorem entries_note (meter : Meter) (entry : LogEntry) :
    (meter.note entry).entries = meter.entries := rfl

end Meter

namespace Node

/-- Cutting a covered node measures nothing. -/
def CutsAsKnown (config : Config) (window : Span) (node : Node) : Prop :=
  ∀ (id : NodeId) (span : Span) (progress : Progress), progress.meter.Covers id node →
    (node.cut config window id span progress).2.meter = progress.meter

end Node

lemma Child.meter_cutList {config : Config} {window : Span} {id : NodeId} {children : List Child}
    (hchildren : ∀ child ∈ Child.nodes children, child.CutsAsKnown config window) {index : Nat}
    (start : Int) (progress : Progress) (h : Child.EachAt progress.meter.Covers id index children) :
    (Child.cutList config window id index start progress children).2.meter = progress.meter := by
  induction children generalizing index start progress with
  | nil => rfl
  | cons child rest ih =>
    cases child with
    | stray value => exact ih hchildren start progress h.tail
    | node child =>
      rw [cutList]
      split
      · rfl
      · have hknown : (progress.span (id.child index) start child).2.meter = progress.meter :=
          Meter.measure_snd_of_knows h.head.self child
        generalize progress.span (id.child index) start child = measured at hknown
        have hcut := hchildren child (by simp) (id.child index) measured.1 measured.2
          (hknown.symm ▸ h.head)
        rw [hknown] at hcut
        rw [ih (fun c hm => hchildren c (by simp [hm])) _ _ (hcut.symm ▸ h.tail), hcut]

namespace Node

theorem cutsAsKnown (config : Config) (window : Span) (node : Node) :
    node.CutsAsKnown config window := by
  induction node using Node.inductionOn with
  | step node ih =>
    intro id span progress h
    rw [cut_eq]
    cases hd : (Decision.of config window span node).treatment.descends with
    | false => simp [hd, Progress.record]
    | true =>
      have hchildren := h.children (Decision.bearsText_of_descends hd)
      simp only [hd, if_true, newChildren]
      exact Child.meter_cutList ih _ (progress.record _) hchildren

/-- Walking a covered node measures nothing, not even on the way. -/
def WalksAsKnown (node : Node) : Prop :=
  ∀ (id : NodeId) (span : Span) (meter : Meter), meter.Covers id node →
    (node.walkFrom id span meter).2 = meter ∧
      ∀ step ∈ (node.walkFrom id span meter).1, step.meter = meter

end Node

lemma Child.meter_walkList {id : NodeId} {children : List Child}
    (hchildren : ∀ child ∈ Child.nodes children, child.WalksAsKnown) {index : Nat}
    (start : Int) {meter : Meter} (h : Child.EachAt meter.Covers id index children) :
    (Child.walkList id index start meter children).2 = meter ∧
      ∀ step ∈ (Child.walkList id index start meter children).1, step.meter = meter := by
  induction children generalizing index start with
  | nil => simp [walkList]
  | cons child rest ih =>
    cases child with
    | stray value => exact ih hchildren start h.tail
    | node child =>
      have hknown := Meter.measure_snd_of_knows h.head.self child
      have hwalk := fun span => hchildren child (by simp) (id.child index) span meter h.head
      have hrest := fun offset =>
        ih (fun c hm => hchildren c (by simp [hm])) offset h.tail
      simp only [walkList, hknown, (hwalk _).1, (hrest _).1, List.mem_append, true_and]
      rintro step (hstep | hstep)
      · exact (hwalk _).2 step hstep
      · exact (hrest _).2 step hstep

namespace Node

theorem walksAsKnown (node : Node) : node.WalksAsKnown := by
  induction node using Node.inductionOn with
  | step node ih =>
    intro id span meter h
    rw [walkFrom.eq_def]
    cases hleaf : node.bearsText with
    | true => simp
    | false =>
      cases node with
      | bare attributes => simp
      | parent attributes children =>
        have hlist := Child.meter_walkList ih span.start (h.children hleaf)
        simp only [Bool.false_eq_true, if_false]
        refine ⟨hlist.1, ?_⟩
        intro step hstep
        rcases List.mem_cons.mp hstep with rfl | hstep
        · rfl
        · exact hlist.2 step hstep

end Node
end MarkdownExcerpt
