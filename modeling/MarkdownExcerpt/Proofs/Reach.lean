import MarkdownExcerpt.Proofs.Walk

/-! The walked nodes by the indices that lead to them. Where in the text they start plays no part. -/
namespace MarkdownExcerpt

/-- The walk of a node comes to another by a path of indices. -/
inductive Node.Reaches : Node → List Nat → Node → Prop
  | self (node : Node) : Reaches node [] node
  | step {node child found : Node} {index : Nat} {path : List Nat}
      (hleaf : node.bearsText = false) (hchild : node.children[index]? = some (.node child))
      (h : Reaches child path found) : Reaches node (index :: path) found

namespace Child

variable {index : Nat} {start : Int} {children : List Child}

lemma getElem?_of_mem_seats {seat : Seat} (h : seat ∈ seats index start children) :
    ∃ i, seat.index = index + i ∧ children[i]? = some (.node seat.node) := by
  induction children generalizing index start with
  | nil => simp [seats] at h
  | cons child rest ih =>
    have hnext : ∀ offset, seat ∈ seats (index + 1) offset rest →
        ∃ i, seat.index = index + i ∧ (child :: rest)[i]? = some (.node seat.node) := by
      intro offset hm
      obtain ⟨i, hindex, hi⟩ := ih hm
      exact ⟨i + 1, by omega, by simpa using hi⟩
    cases child with
    | stray value => exact hnext _ h
    | node child =>
      rcases List.mem_cons.mp h with rfl | hm
      · exact ⟨0, rfl, rfl⟩
      · exact hnext _ hm

lemma exists_mem_seats {i : Nat} {node : Node} (h : children[i]? = some (.node node))
    (index : Nat) (start : Int) :
    ∃ seat ∈ seats index start children, seat.index = index + i ∧ seat.node = node := by
  induction children generalizing i index start with
  | nil => simp at h
  | cons child rest ih =>
    cases i with
    | zero =>
      obtain rfl : child = .node node := by simpa using h
      exact ⟨⟨index, start, node⟩, List.mem_cons_self, rfl, rfl⟩
    | succ i =>
      have hi : rest[i]? = some (.node node) := by simpa using h
      cases child with
      | stray value =>
        obtain ⟨seat, hseat, hindex, hnode⟩ := ih hi (index + 1) start
        exact ⟨seat, hseat, by omega, hnode⟩
      | node child =>
        obtain ⟨seat, hseat, hindex, hnode⟩ := ih hi (index + 1) (start + child.length)
        exact ⟨seat, List.mem_cons_of_mem _ hseat, by omega, hnode⟩

end Child

namespace Node

variable {root node found : Node} {path below : List Nat}

namespace Reaches

theorem trans (h : root.Reaches path node) (h' : node.Reaches below found) :
    root.Reaches (path ++ below) found := by
  induction h with
  | self => exact h'
  | step hleaf hchild _ ih => exact .step hleaf hchild (ih h')

/-- What the walk comes to below a node, it comes to from that node. -/
theorem of_append (h : root.Reaches path node) (h' : root.Reaches (path ++ below) found) :
    node.Reaches below found := by
  induction h with
  | self => exact h'
  | step hleaf hchild _ ih =>
    cases h' with
    | step hleaf' hchild' h' =>
      obtain rfl := Child.node.inj (Option.some.inj (hchild.symm.trans hchild'))
      exact ih h'

theorem nodeAt? (h : root.Reaches path node) : root.nodeAt? path = some node := by
  induction h with
  | self => rfl
  | step hleaf hchild _ ih => rw [nodeAt?_cons hchild, ih]

end Reaches

lemma reaches_of_mem_visits {start : Int} {visit : Visit} (h : visit ∈ node.visits path start) :
    ∃ below, visit.path = path ++ below ∧ node.Reaches below visit.node := by
  induction node using Node.inductionOn generalizing path start with
  | step node ih =>
    rcases mem_visits.mp h with rfl | ⟨hleaf, seat, hseat, hv⟩
    · exact ⟨[], by simp, .self node⟩
    · obtain ⟨below, hpath, hreach⟩ := ih seat.node (Child.mem_nodes_of_mem_seats hseat) hv
      obtain ⟨i, hindex, hchild⟩ := Child.getElem?_of_mem_seats hseat
      rw [Nat.zero_add] at hindex
      exact ⟨i :: below, by simp [hpath, hindex], .step hleaf hchild hreach⟩

lemma Reaches.exists_mem_visits (h : node.Reaches below found) (path : List Nat) (start : Int) :
    ∃ visit ∈ node.visits path start, visit.path = path ++ below ∧ visit.node = found := by
  induction h generalizing path start with
  | self node => exact ⟨⟨path, node, node.spanFrom start⟩, mem_visits.mpr (.inl rfl), by simp⟩
  | step hleaf hchild _ ih =>
    obtain ⟨seat, hseat, hindex, rfl⟩ := Child.exists_mem_seats hchild 0 start
    obtain ⟨visit, hv, hpath, hfound⟩ := ih (path ++ [seat.index]) seat.start
    exact ⟨visit, mem_visits.mpr (.inr ⟨hleaf, seat, hseat, hv⟩), by simp [hpath, hindex], hfound⟩

/-- A path leads to a node exactly if there is a step of the walk at that path. -/
theorem exists_step_iff_reaches (number : Nat) :
    (∃ step ∈ (root.walk number {}).1, step.path = path ∧ step.node = node) ↔
      root.Reaches path node := by
  constructor
  · rintro ⟨step, hstep, rfl, rfl⟩
    have hv := List.mem_map_of_mem (f := Step.visit) hstep
    rw [walk_fresh] at hv
    obtain ⟨below, hpath, hreach⟩ := reaches_of_mem_visits hv
    obtain rfl : step.path = below := hpath
    exact hreach
  · intro h
    obtain ⟨visit, hv, hpath, hnode⟩ := h.exists_mem_visits [] 0
    rw [← walk_fresh number root] at hv
    obtain ⟨step, hstep, rfl⟩ := List.mem_map.mp hv
    exact ⟨step, hstep, hpath, hnode⟩

end Node
end MarkdownExcerpt
