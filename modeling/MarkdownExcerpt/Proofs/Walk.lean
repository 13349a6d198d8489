import MarkdownExcerpt.Proofs.Outcome
import MarkdownExcerpt.Walk

/-! The walk of a tree without a meter: every node that is walked, where it stands and which
characters it spans. -/
namespace MarkdownExcerpt

/-- A step of a walk, without the meter. -/
structure Visit where
  path : List Nat
  node : Node
  span : Span
  deriving Repr

def Step.visit (step : Step) : Visit := ⟨step.path, step.node, step.span⟩

/-- A node with its span. -/
def Visit.entry (visit : Visit) : Node × Span := (visit.node, visit.span)

def Visit.decision (config : Config) (window : Span) (visit : Visit) : Decision :=
  visit.node.decision config window visit.span.start

mutual

/-- The walk of a node at a path that starts at an offset. -/
def Node.visits (path : List Nat) (start : Int) (node : Node) : List Visit :=
  let visit : Visit := ⟨path, node, node.spanFrom start⟩
  if node.bearsText then [visit]
  else
    match node with
    | .bare _ => [visit]
    | .parent _ children => visit :: Child.visits path 0 start children

/-- The walks of the children of a node at a path from an index on. -/
def Child.visits (path : List Nat) (index : Nat) (start : Int) : List Child → List Visit
  | [] => []
  | .stray _ :: rest => Child.visits path (index + 1) start rest
  | .node child :: rest =>
    child.visits (path ++ [index]) start ++
      Child.visits path (index + 1) (start + child.length) rest

end

namespace Node

/-- A node is walked before its children; those of leaves are not walked. -/
theorem visits_eq (path : List Nat) (start : Int) (node : Node) :
    node.visits path start =
      ⟨path, node, node.spanFrom start⟩ ::
        if node.bearsText then [] else Child.visits path 0 start node.children := by
  cases node with
  | bare attributes =>
    by_cases h : (bare attributes).bearsText <;> simp [visits, h, Node.children, Child.visits]
  | parent attributes children =>
    by_cases h : (parent attributes children).bearsText <;> simp [visits, h, Node.children]

end Node

lemma Child.visits_eq (path : List Nat) (index : Nat) (start : Int) (children : List Child) :
    Child.visits path index start children =
      (seats index start children).flatMap fun seat =>
        seat.node.visits (path ++ [seat.index]) seat.start := by
  induction children generalizing index start with
  | nil => rfl
  | cons child rest ih => cases child <;> simp [visits, seats, ih]

/-- Paths to the same place go through the same child. -/
lemma Seat.index_eq_of_isPrefix {path place : List Nat} {i j : Nat} (h : path ++ [i] <+: place)
    (h' : path ++ [j] <+: place) : i = j := by
  have hbelow := List.prefix_of_prefix_length_le h h' (by simp)
  simpa using hbelow.eq_of_length (by simp)

/-- The place of a child is not above that of its parent. -/
lemma Seat.not_isPrefix {path : List Nat} {i : Nat} : ¬path ++ [i] <+: path := by
  intro h
  have hlength := h.length_le
  simp only [List.length_append, List.length_singleton] at hlength
  omega

namespace Node

/-- What is walked is the node itself or lies below one of its children. -/
theorem mem_visits {path : List Nat} {start : Int} {node : Node} {visit : Visit} :
    visit ∈ node.visits path start ↔
      visit = ⟨path, node, node.spanFrom start⟩ ∨
        node.bearsText = false ∧ ∃ seat ∈ Child.seats 0 start node.children,
          visit ∈ seat.node.visits (path ++ [seat.index]) seat.start := by
  rw [visits_eq, List.mem_cons]
  cases hleaf : node.bearsText <;> simp [Child.visits_eq]

/-- What is walked below a node lies below its place and within its span. -/
theorem visit_bounds {path : List Nat} {start : Int} {node : Node} {visit : Visit}
    (h : visit ∈ node.visits path start) :
    path <+: visit.path ∧ visit.span = visit.node.spanFrom visit.span.start ∧
      start ≤ visit.span.start ∧ visit.span.stop ≤ start + node.length := by
  induction node using Node.inductionOn generalizing path start with
  | step node ih =>
    rcases mem_visits.mp h with rfl | ⟨hleaf, seat, hseat, hv⟩
    · simp
    · obtain ⟨hpath, hspan, hstart, hstop⟩ := ih seat.node (Child.mem_nodes_of_mem_seats hseat) hv
      have hbounds := Child.seat_bounds hseat
      rw [Child.lengthOfList_eq, ← childNodes_eq, ← length_of_not_bearsText hleaf] at hbounds
      exact ⟨(List.prefix_append _ _).trans hpath, hspan, by omega, by omega⟩

/-- Nothing that is walked from a node on stands above it. -/
lemma path_eq_of_isPrefix {path : List Nat} {start : Int} {node : Node} {visit : Visit}
    (h : visit ∈ node.visits path start) (habove : visit.path <+: path) : visit.path = path :=
  habove.eq_of_length_le (visit_bounds h).1.length_le

lemma filter_visits {path : List Nat} {start : Int} {node : Node} (test : Visit → Bool) :
    (node.visits path start).filter test =
      (if test ⟨path, node, node.spanFrom start⟩ then [⟨path, node, node.spanFrom start⟩]
        else []) ++
        if node.bearsText then []
        else (Child.seats 0 start node.children).flatMap fun seat =>
          (seat.node.visits (path ++ [seat.index]) seat.start).filter test := by
  rw [visits_eq, List.filter_cons]
  cases node.bearsText <;> split <;> simp [Child.visits_eq, List.filter_flatMap]

/-- What is walked at a place below that of a node is walked on the walk of that node. -/
theorem mem_visits_of_isPrefix {path : List Nat} {start : Int} {node : Node} {visit inner : Visit}
    (h : visit ∈ node.visits path start) (h' : inner ∈ node.visits path start)
    (hbelow : visit.path <+: inner.path) :
    inner ∈ visit.node.visits visit.path visit.span.start := by
  induction node using Node.inductionOn generalizing path start with
  | step node ih =>
    rcases mem_visits.mp h with rfl | ⟨-, seat, hseat, hv⟩
    · exact h'
    · have hseatPath := (visit_bounds hv).1
      rcases mem_visits.mp h' with rfl | ⟨-, other, hother, hi⟩
      · exact absurd (hseatPath.trans hbelow) Seat.not_isPrefix
      · have hindex := Seat.index_eq_of_isPrefix (hseatPath.trans hbelow) (visit_bounds hi).1
        obtain rfl := Child.seats_inj hseat hother hindex
        exact ih seat.node (Child.mem_nodes_of_mem_seats hseat) hv hi

lemma mem_visits_seat {path : List Nat} {start : Int} {node : Node} {seat : Seat}
    (hseat : seat ∈ Child.seats 0 start node.children) {visit : Visit}
    (h : visit ∈ node.visits path start) (hbelow : path ++ [seat.index] <+: visit.path) :
    visit ∈ seat.node.visits (path ++ [seat.index]) seat.start := by
  rcases mem_visits.mp h with rfl | ⟨-, other, hother, hv⟩
  · exact absurd hbelow Seat.not_isPrefix
  · obtain rfl := Child.seats_inj hseat hother
      (Seat.index_eq_of_isPrefix hbelow (visit_bounds hv).1)
    exact hv

/-- What stands above a visit on the walk of a child is, besides the node itself, all that stands
above it. -/
lemma forall_above_iff_of_seat {path : List Nat} {start : Int} {node : Node}
    {property : Visit → Prop} (hself : property ⟨path, node, node.spanFrom start⟩)
    (hleaf : node.bearsText = false) {seat : Seat}
    (hseat : seat ∈ Child.seats 0 start node.children) {visit : Visit}
    (hv : visit ∈ seat.node.visits (path ++ [seat.index]) seat.start) :
    (∀ above ∈ node.visits path start, above.path <+: visit.path → property above) ↔
      ∀ above ∈ seat.node.visits (path ++ [seat.index]) seat.start,
        above.path <+: visit.path → property above := by
  constructor
  · exact fun h above ha => h above (mem_visits.mpr (.inr ⟨hleaf, seat, hseat, ha⟩))
  · intro h above ha habove
    rcases mem_visits.mp ha with rfl | ⟨-, other, hother, ha⟩
    · exact hself
    · have hindex := Seat.index_eq_of_isPrefix ((visit_bounds ha).1.trans habove)
        (visit_bounds hv).1
      obtain rfl := Child.seats_inj hother hseat hindex
      exact h above ha habove

/-- At the place of the first node only that node is walked. -/
lemma eq_of_mem_visits_of_path {path : List Nat} {start : Int} {node : Node} {visit : Visit}
    (h : visit ∈ node.visits path start) (hpath : visit.path = path) :
    visit = ⟨path, node, node.spanFrom start⟩ := by
  rcases mem_visits.mp h with rfl | ⟨-, seat, -, hv⟩
  · rfl
  · have hbelow := (visit_bounds hv).1
    rw [hpath] at hbelow
    exact absurd hbelow Seat.not_isPrefix

lemma forall_above_self_iff {path : List Nat} {start : Int} {node : Node}
    {property : Visit → Prop} :
    (∀ above ∈ node.visits path start, above.path <+: path → property above) ↔
      property ⟨path, node, node.spanFrom start⟩ := by
  constructor
  · exact fun h => h _ (mem_visits.mpr (.inl rfl)) (List.prefix_refl _)
  · intro h above ha habove
    rwa [eq_of_mem_visits_of_path ha (path_eq_of_isPrefix ha habove)]

/-- Every node that is walked below the first is a child of one that is. -/
theorem exists_container {path : List Nat} {start : Int} {node : Node} {visit : Visit}
    (h : visit ∈ node.visits path start) (hne : visit.path ≠ path) :
    ∃ container ∈ node.visits path start, ∃ index, visit.path = container.path ++ [index] := by
  induction node using Node.inductionOn generalizing path start with
  | step node ih =>
    rcases mem_visits.mp h with rfl | ⟨hleaf, seat, hseat, hv⟩
    · exact absurd rfl hne
    · by_cases hchild : visit.path = path ++ [seat.index]
      · exact ⟨⟨path, node, node.spanFrom start⟩, mem_visits.mpr (.inl rfl), seat.index, hchild⟩
      · obtain ⟨container, hc, hindex⟩ :=
          ih seat.node (Child.mem_nodes_of_mem_seats hseat) hv hchild
        exact ⟨container, mem_visits.mpr (.inr ⟨hleaf, seat, hseat, hc⟩), hindex⟩

/-- A walk with a sound meter, from a node that has been measured. -/
def WalksRight (forest : Forest) (node : Node) : Prop :=
  ∀ (meter : Meter) (id : NodeId) (start : Int), meter.Sound forest →
    forest.node? id = some node →
    (node.walkFrom id (node.spanFrom start) meter).1.map Step.visit = node.visits id.path start ∧
      (node.walkFrom id (node.spanFrom start) meter).2.Sound forest

end Node

lemma Child.walkList_eq {forest : Forest} {id : NodeId} {children : List Child}
    (hright : ∀ child ∈ Child.nodes children, child.WalksRight forest) {meter : Meter}
    (h : meter.Sound forest) {index : Nat} (start : Int) (hc : forest.Holds id index children) :
    (Child.walkList id index start meter children).1.map Step.visit =
        Child.visits id.path index start children ∧
      (Child.walkList id index start meter children).2.Sound forest := by
  induction children generalizing meter index start with
  | nil => exact ⟨rfl, h⟩
  | cons child rest ih =>
    cases child with
    | stray value => exact ih hright h start hc.tail
    | node child =>
      obtain ⟨hlength, hmeter⟩ := h.measure hc.head
      have hspan : Span.ofLength start (meter.measure (id.child index) child).1 =
          child.spanFrom start := by rw [hlength]; rfl
      obtain ⟨hsteps, hwalk⟩ := hright child (by simp) _ (id.child index) start hmeter hc.head
      obtain ⟨hothers, hlast⟩ := ih (fun c hm => hright c (by simp [hm])) hwalk
        (start + child.length) hc.tail
      simp only [walkList, hspan, Node.stop_spanFrom]
      refine ⟨?_, hlast⟩
      rw [List.map_append, hsteps, hothers]
      rfl

namespace Node

theorem walksRight (forest : Forest) (node : Node) : node.WalksRight forest := by
  induction node using Node.inductionOn with
  | step node ih =>
    intro meter id start h hn
    obtain ⟨hsteps, hsound⟩ := Child.walkList_eq ih h start (forest.holds_children hn)
    rw [visits_eq]
    by_cases hleaf : node.bearsText
    · rw [walkFrom.eq_def]
      simpa [hleaf, Step.visit] using h
    · cases node with
      | bare attributes =>
        rw [walkFrom.eq_def]
        simpa [hleaf, Step.visit, Node.children, Child.visits] using h
      | parent attributes children =>
        rw [walkFrom.eq_def, if_neg hleaf, if_neg hleaf]
        refine ⟨?_, hsound⟩
        rw [← show _ = Child.visits _ _ _ _ from hsteps]
        rfl

/-- With a sound meter the walk is that of the tree alone. -/
theorem walk_of_sound {forest : Forest} {meter : Meter} (hs : meter.Sound forest) {number : Nat}
    {node : Node} (hn : forest.node? (.root number) = some node) :
    (node.walk number meter).1.map Step.visit = node.visits [] 0 := by
  obtain ⟨hlength, hmeter⟩ := hs.measure hn
  have hspan : Span.ofLength 0 (meter.measure (.root number) node).1 = node.spanFrom 0 := by
    rw [hlength]; rfl
  simp only [walk, hspan]
  exact (node.walksRight _ _ (.root number) 0 hmeter hn).1

theorem walk_fresh (number : Nat) (node : Node) :
    (node.walk number {}).1.map Step.visit = node.visits [] 0 :=
  walk_of_sound (Meter.sound_fresh _) (Forest.node?_ofTree_root number node)

/-- The nodes of a tree that starts at an offset, with their spans. -/
def spansFrom (start : Int) (node : Node) : List (Node × Span) :=
  (node.visits [] start).map Visit.entry

/-- The spans of siblings, the first of which starts at an offset. -/
def spansOf (start : Int) : List Node → List (Node × Span)
  | [] => []
  | node :: rest => node.spansFrom start ++ spansOf (start + node.length) rest

theorem spans_eq (node : Node) : node.spans = node.spansFrom 0 := by
  rw [spans, spansFrom, ← walk_fresh 0 node, List.map_map]
  rfl

lemma entries_childVisits {children : List Child} {first second : List Nat}
    (hsame : ∀ child ∈ Child.nodes children, ∀ (p q : List Nat) (start : Int),
      (child.visits p start).map Visit.entry = (child.visits q start).map Visit.entry)
    (i j : Nat) (start : Int) :
    (Child.visits first i start children).map Visit.entry =
      (Child.visits second j start children).map Visit.entry := by
  induction children generalizing i j start with
  | nil => rfl
  | cons child rest ih =>
    cases child with
    | stray value => exact ih hsame _ _ _
    | node child =>
      simp only [Child.visits, List.map_append]
      rw [hsame child (by simp) _ (second ++ [j]), ih (fun c hm => hsame c (by simp [hm])) _ (j + 1)]

/-- Where a node stands does not matter for the spans in it. -/
theorem entries_visits (node : Node) : ∀ (first second : List Nat) (start : Int),
    (node.visits first start).map Visit.entry = (node.visits second start).map Visit.entry := by
  induction node using Node.inductionOn with
  | step node ih =>
    intro first second start
    rw [visits_eq, visits_eq]
    by_cases hleaf : node.bearsText
    · simp [hleaf, Visit.entry]
    · simpa [hleaf, Visit.entry] using entries_childVisits ih 0 0 start

lemma entries_childVisits_eq (path : List Nat) (index : Nat) (start : Int)
    (children : List Child) :
    (Child.visits path index start children).map Visit.entry =
      spansOf start (Child.nodes children) := by
  induction children generalizing index start with
  | nil => rfl
  | cons child rest ih =>
    cases child with
    | stray value => exact ih _ _
    | node child =>
      simp only [Child.visits, List.map_append, Child.nodes_node, spansOf, ih]
      rw [spansFrom, entries_visits child _ []]

theorem spansFrom_eq (start : Int) (node : Node) :
    node.spansFrom start =
      (node, node.spanFrom start) ::
        if node.bearsText then [] else spansOf start node.childNodes := by
  rw [spansFrom, visits_eq]
  by_cases hleaf : node.bearsText
  · simp [hleaf, Visit.entry]
  · simp [hleaf, Visit.entry, entries_childVisits_eq, childNodes_eq]

/-- The spans of a tree fit their nodes and lie within the span of the tree. -/
lemma span_bounds {start : Int} {node : Node} {entry : Node × Span}
    (h : entry ∈ node.spansFrom start) :
    entry.2 = entry.1.spanFrom entry.2.start ∧ start ≤ entry.2.start ∧
      entry.2.stop ≤ start + node.length := by
  obtain ⟨visit, hv, rfl⟩ := List.mem_map.mp h
  exact (visit_bounds hv).2

@[simp] theorem spansOf_append (start : Int) (first second : List Node) :
    spansOf start (first ++ second) =
      spansOf start first ++ spansOf (start + lengthOf first) second := by
  induction first generalizing start with
  | nil => simp [spansOf]
  | cons node rest ih => simp [spansOf, ih, Int.add_assoc]

lemma map_fst_spansOf {nodes : List Node}
    (hsame : ∀ node ∈ nodes, ∀ s t : Int,
      (node.spansFrom s).map Prod.fst = (node.spansFrom t).map Prod.fst) (s t : Int) :
    (spansOf s nodes).map Prod.fst = (spansOf t nodes).map Prod.fst := by
  induction nodes generalizing s t with
  | nil => rfl
  | cons node rest ih =>
    simp only [spansOf, List.map_append]
    rw [hsame node (by simp) s t, ih (fun n hm => hsame n (by simp [hm])) _ (t + node.length)]

/-- Which nodes are walked does not depend on where the tree starts. -/
theorem map_fst_spansFrom (node : Node) : ∀ s t : Int,
    (node.spansFrom s).map Prod.fst = (node.spansFrom t).map Prod.fst := by
  induction node using Node.inductionOn with
  | step node ih =>
    intro s t
    rw [spansFrom_eq, spansFrom_eq]
    by_cases hleaf : node.bearsText
    · simp [hleaf]
    · simpa [hleaf] using map_fst_spansOf ih s t

/-- Every node that is walked has a property. -/
def Throughout (property : Node → Prop) (node : Node) : Prop :=
  ∀ entry ∈ node.spans, property entry.1

lemma throughout_iff_of_start {property : Node → Prop} {node : Node} (start : Int) :
    node.Throughout property ↔ ∀ entry ∈ node.spansFrom start, property entry.1 := by
  have hmem : ∀ s : Int, (∀ entry ∈ node.spansFrom s, property entry.1) ↔
      ∀ n ∈ (node.spansFrom s).map Prod.fst, property n := by simp
  rw [Throughout, spans_eq, hmem, hmem, map_fst_spansFrom node 0 start]

lemma Throughout.self {property : Node → Prop} {node : Node} (h : node.Throughout property) :
    property node := by
  rw [throughout_iff_of_start 0, spansFrom_eq] at h
  exact h (node, node.spanFrom 0) (by simp)

lemma Throughout.child {property : Node → Prop} {node child : Node}
    (h : node.Throughout property) (hleaf : node.bearsText = false)
    (hc : child ∈ node.childNodes) : child.Throughout property := by
  obtain ⟨before, after, hsplit⟩ := List.append_of_mem hc
  rw [throughout_iff_of_start 0, spansFrom_eq, hleaf, if_neg Bool.false_ne_true, hsplit,
    spansOf_append, spansOf] at h
  rw [throughout_iff_of_start (0 + lengthOf before)]
  intro entry he
  exact h entry (List.mem_cons_of_mem _ (List.mem_append_right _ (List.mem_append_left _ he)))

lemma spanAt_fst (number : Nat) (path : List Nat) (meter : Meter) (node : Node) :
    (node.spanAt number path meter).1 =
      (((node.walk number meter).1.map Step.visit).find? fun visit => visit.path == path).map
        Visit.span := by
  rw [List.find?_map]
  unfold spanAt
  simp only [Function.comp_def, Step.visit]
  cases (node.walk number meter).1.find? fun step => step.path == path <;> rfl

end Node

lemma Document.position_tree (number : Nat) (path : List Nat) (meter : Meter) (node : Node) :
    (Document.tree node).position number path meter =
      (match (node.spanAt number path meter).1 with
        | none => .ok none
        | some span => Failure.ofValidated (some <$> Position.ofSpan span),
        (node.spanAt number path meter).2) := by
  simp only [position]
  generalize node.spanAt number path meter = found
  obtain ⟨span, after⟩ := found
  cases span <;> rfl

end MarkdownExcerpt
