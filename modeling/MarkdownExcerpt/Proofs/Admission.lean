import MarkdownExcerpt.Proofs.Treatment
import MarkdownExcerpt.Proofs.Walk

/-! Which of the walked nodes a cut comes to. Nothing comes out of a barred node, and what stands in
it is not looked at; all other nodes are treated one by one. -/
namespace MarkdownExcerpt

namespace Visit

/-- Nothing comes out of the node, whatever is in it: the window misses it, its type is left out, or
the window covers it in part and a policy drops such nodes. -/
def isBarred (config : Config) (window : Span) (visit : Visit) : Bool :=
  visit.span.misses window || config.leavesOut visit.node.type? ||
    (!visit.span.isWithin window && config.drops visit.node.kind)

/-- Neither the node is barred nor any of the nodes it stands in. -/
def Admitted (config : Config) (window : Span) (visits : List Visit) (visit : Visit) : Prop :=
  ∀ above ∈ visits, above.path <+: visit.path → above.isBarred config window = false

instance (config : Config) (window : Span) (visits : List Visit) (visit : Visit) :
    Decidable (visit.Admitted config window visits) :=
  inferInstanceAs (Decidable (∀ above ∈ visits, above.path <+: visit.path → _ = false))

end Visit

namespace Node

variable {config : Config} {window : Span} {path : List Nat} {start : Int} {node : Node}

lemma treatment_ofPartial_of_drops (h : config.drops node.kind = true) (span : Span) :
    (Decision.ofPartial config window span node).treatment = .drop := by
  cases hkind : node.kind <;> simp_all [Config.drops, Decision.ofPartial]

/-- Barred nodes are those that are dropped. -/
theorem treatment_eq_drop_iff :
    (node.decision config window start).treatment = .drop ↔
      Visit.isBarred config window ⟨path, node, node.spanFrom start⟩ = true := by
  cases hseen : (node.spanFrom start).misses window with
  | true => simp [decision_of_misses hseen, Visit.isBarred, hseen]
  | false =>
    constructor
    · intro hdrop
      have htreated := node.treated config hseen
      rw [hdrop] at htreated
      cases htreated with
      | leftOut h => simp [Visit.isBarred, h]
      | excluded hpart h => simp [Visit.isBarred, hpart.2, h]
    · intro hbarred
      simp only [Visit.isBarred, hseen, Bool.false_or, Bool.or_eq_true, Bool.and_eq_true,
        Bool.not_eq_true'] at hbarred
      simp only [decision, Decision.of, hseen, Bool.false_eq_true, if_false]
      rcases hbarred with hout | ⟨hcut, hdrops⟩
      · rw [if_pos hout]
      · split
        · rfl
        · rw [hcut]
          exact treatment_ofPartial_of_drops hdrops _

/-- What is not barred is seen, is of a type that stays, and is not dropped. -/
lemma misses_of_not_barred
    (h : Visit.isBarred config window ⟨path, node, node.spanFrom start⟩ = false) :
    (node.spanFrom start).misses window = false := by
  simp only [Visit.isBarred, Bool.or_eq_false_iff] at h
  exact h.1.1

lemma leavesOut_of_not_barred
    (h : Visit.isBarred config window ⟨path, node, node.spanFrom start⟩ = false) :
    config.leavesOut node.type? = false := by
  simp only [Visit.isBarred, Bool.or_eq_false_iff] at h
  exact h.1.2

lemma treatment_ne_drop
    (h : Visit.isBarred config window ⟨path, node, node.spanFrom start⟩ = false) :
    (node.decision config window start).treatment ≠ .drop := by
  intro hdrop
  rw [treatment_eq_drop_iff.mp hdrop] at h
  exact Bool.noConfusion h

lemma not_admitted_of_barred {visit : Visit} (hv : visit ∈ node.visits path start)
    (h : Visit.isBarred config window ⟨path, node, node.spanFrom start⟩ = true) :
    ¬visit.Admitted config window (node.visits path start) := by
  intro hadmitted
  have hself := hadmitted _ (mem_visits.mpr (.inl rfl)) (visit_bounds hv).1
  rw [h] at hself
  exact Bool.noConfusion hself

/-- The first node of a walk is admitted if it is not barred itself. -/
lemma admitted_self_iff :
    Visit.Admitted config window (node.visits path start) ⟨path, node, node.spanFrom start⟩ ↔
      Visit.isBarred config window ⟨path, node, node.spanFrom start⟩ = false :=
  forall_above_self_iff

/-- Below a node that is not barred, what is admitted is admitted on the walk of a child. -/
lemma admitted_iff_of_seat (hleaf : node.bearsText = false)
    (h : Visit.isBarred config window ⟨path, node, node.spanFrom start⟩ = false) {seat : Seat}
    (hseat : seat ∈ Child.seats 0 start node.children) {visit : Visit}
    (hv : visit ∈ seat.node.visits (path ++ [seat.index]) seat.start) :
    visit.Admitted config window (node.visits path start) ↔
      visit.Admitted config window (seat.node.visits (path ++ [seat.index]) seat.start) :=
  forall_above_iff_of_seat h hleaf hseat hv

end Node
end MarkdownExcerpt
