import MarkdownExcerpt.Proofs.Contribution
import MarkdownExcerpt.Proofs.Remnant

/-! Which nodes of a tree come out side by side. The new children of a node that stays are walked
nodes below it: those of which something is left once every node in between has given way. -/
namespace MarkdownExcerpt

namespace Treatment

/-- The node gives way to its content. -/
def isSplice : Treatment → Bool
  | splice _ => true
  | _ => false

lemma isSplice_iff {treatment : Treatment} :
    treatment.isSplice = true ↔ ∃ isolated, treatment = .splice isolated := by
  cases treatment <;> simp [isSplice]

end Treatment

namespace Visit

/-- What comes out of the node itself, if anything does. -/
def remains? (config : Config) (window : Span) (visit : Visit) : Option Node :=
  match visit.node.outcome config window visit.span.start with
  | .one node => some node
  | _ => none

/-- All nodes that the node stands in give way to their content. -/
def Surfaces (config : Config) (window : Span) (visits : List Visit) (visit : Visit) : Prop :=
  ∀ above ∈ visits, above.path <+: visit.path → above.path ≠ visit.path →
    (above.decision config window).treatment.isSplice = true

instance (config : Config) (window : Span) (visits : List Visit) (visit : Visit) :
    Decidable (visit.Surfaces config window visits) :=
  inferInstanceAs (Decidable (∀ above ∈ visits, above.path <+: visit.path →
    above.path ≠ visit.path → _ = true))

/-- A cut goes into the node: new children are needed for it and for all nodes it stands in. -/
def Entered (config : Config) (window : Span) (visits : List Visit) (visit : Visit) : Prop :=
  ∀ above ∈ visits, above.path <+: visit.path →
    (above.decision config window).treatment.descends = true

/-- The new children of the node are siblings in the excerpt: a cut goes into it, and it stays
around them or is the top node, for which a new root stands in. -/
structure Receives (config : Config) (window : Span) (visits : List Visit) (visit : Visit) :
    Prop where
  entered : visit.Entered config window visits
  stays : visit.path = [] ∨ (visit.decision config window).treatment.isSplice = false

end Visit

/-- The nodes that come out in the place of a node, in the order of the walk. -/
def Node.arrivals (config : Config) (window : Span) (path : List Nat) (start : Int)
    (node : Node) : List Visit :=
  (node.visits path start).filter fun visit =>
    (visit.remains? config window).isSome && visit.Surfaces config window (node.visits path start)

namespace Visit

/-- The nodes that come out among the new children of a node. -/
def arrivals (config : Config) (window : Span) (visit : Visit) : List Visit :=
  (Child.seats 0 visit.span.start visit.node.children).flatMap fun seat =>
    seat.node.arrivals config window (visit.path ++ [seat.index]) seat.start

/-- What is left of the content of a node. -/
def content (config : Config) (window : Span) (visit : Visit) : List Remnant :=
  Child.remnants config window visit.path 0 visit.span.start visit.node.children

/-- The place of a node, and what comes out of it. -/
def mark (config : Config) (window : Span) (visit : Visit) : List Nat × Option Node :=
  (visit.path, visit.remains? config window)

end Visit

namespace Remnant

/-- The place that a remnant comes from, and what it is in the excerpt. -/
def mark (remnant : Remnant) : List Nat × Option Node :=
  (remnant.origin.path, some remnant.toNode)

/-- The same for a sibling of which only the origin and the node are known. -/
def entryMark (entry : Origin × Node) : List Nat × Option Node := (entry.1.path, some entry.2)

lemma map_entryMark_entries (remnants : List Remnant) :
    (entries remnants).map entryMark = remnants.map mark := by
  simp [entries_eq, entryMark, mark]

@[simp] lemma mark_within (enclave : Option Nat) (remnant : Remnant) :
    (remnant.within enclave).mark = remnant.mark := by
  simp [mark]

mutual

/-- The lists of siblings in a remnant, at every depth. -/
def contents : Remnant → List (List Remnant)
  | whole _ _ => []
  | rebuilt _ _ content => content :: contentsOf content

def contentsOf : List Remnant → List (List Remnant)
  | [] => []
  | remnant :: rest => remnant.contents ++ contentsOf rest

end

lemma contentsOf_eq (remnants : List Remnant) :
    contentsOf remnants = remnants.flatMap contents := by
  induction remnants with
  | nil => rfl
  | cons remnant rest ih => rw [contentsOf, ih, List.flatMap_cons]

@[simp] lemma contents_within (enclave : Option Nat) (remnant : Remnant) :
    (remnant.within enclave).contents = remnant.contents := by
  cases remnant <;> simp [within, contents]

end Remnant

namespace Treatment

variable {treatment : Treatment} {origin : Origin} {node : Node} {content : List Remnant}

/-- What a treatment leaves is the node, the node around its content, or the content. -/
lemma mem_remnants {remnant : Remnant} (h : remnant ∈ treatment.remnants origin node content) :
    (∃ n, remnant = .whole origin n) ∨
      ((∃ evenEmpty, treatment = .rebuild evenEmpty) ∧
        remnant = .rebuilt origin node content) ∨
      ((∃ isolated, treatment = .splice isolated) ∧ remnant ∈ content) := by
  cases treatment with
  | drop => simp [remnants] at h
  | keep => exact .inl ⟨node, by simpa [remnants] using h⟩
  | shorten value =>
    simp only [remnants] at h
    split at h
    · simp at h
    · exact .inl ⟨_, List.mem_singleton.mp h⟩
  | rebuild evenEmpty =>
    simp only [remnants] at h
    split at h
    · simp at h
    · exact .inr (.inl ⟨⟨evenEmpty, rfl⟩, List.mem_singleton.mp h⟩)
  | splice isolated => exact .inr (.inr ⟨⟨isolated, rfl⟩, h⟩)

/-- Siblings in what a treatment leaves are the content, if the node stays around it, or are further
down in the content. -/
lemma mem_contents_of_mem_remnants {remnant : Remnant} {siblings : List Remnant}
    (h : remnant ∈ treatment.remnants origin node content) (hs : siblings ∈ remnant.contents) :
    treatment.descends = true ∧
      (treatment.isSplice = false ∧ siblings = content ∨
        ∃ inner ∈ content, siblings ∈ inner.contents) := by
  rcases mem_remnants h with ⟨n, rfl⟩ | ⟨⟨evenEmpty, rfl⟩, rfl⟩ | ⟨⟨isolated, rfl⟩, hm⟩
  · simp [Remnant.contents] at hs
  · rw [Remnant.contents, Remnant.contentsOf_eq, List.mem_cons, List.mem_flatMap] at hs
    exact ⟨rfl, hs.imp_left fun heq => ⟨rfl, heq⟩⟩
  · exact ⟨rfl, .inr ⟨remnant, hm, hs⟩⟩

/-- Of a node that does not give way at most one remnant is left. -/
lemma toList_head?_remnants (h : treatment.isSplice = false) :
    (treatment.remnants origin node content).head?.toList =
      treatment.remnants origin node content := by
  cases treatment with
  | splice isolated => cases h
  | shorten value =>
    simp only [remnants]
    split <;> rfl
  | rebuild evenEmpty =>
    simp only [remnants]
    split <;> rfl
  | _ => rfl

/-- With content, a node that needs new children and does not give way is left around it. -/
lemma remnants_of_descends (hdescends : treatment.descends = true)
    (hstays : treatment.isSplice = false) (hne : content ≠ []) :
    treatment.remnants origin node content = [.rebuilt origin node content] := by
  cases treatment with
  | rebuild evenEmpty => simp [remnants, hne]
  | splice isolated => cases hstays
  | _ => cases hdescends

end Treatment

namespace Node

variable {config : Config} {window : Span} {path : List Nat} {start : Int} {node : Node}

lemma mem_childRemnants {children : List Child} {remnant : Remnant} :
    remnant ∈ Child.remnants config window path 0 start children ↔
      ∃ seat ∈ Child.seats 0 start children,
        ∃ inner ∈ seat.node.remnants config window (path ++ [seat.index]) seat.start,
          remnant = inner.within (seat.enclave config window) := by
  rw [Child.remnants_eq]
  simp [eq_comm]

/-- What is left of a node comes from its place or from below it. -/
lemma isPrefix_of_mem_remnants {remnant : Remnant}
    (h : remnant ∈ node.remnants config window path start) : path <+: remnant.origin.path := by
  induction node using Node.inductionOn generalizing path start remnant with
  | step node ih =>
    rw [remnants_eq] at h
    rcases Treatment.mem_remnants h with ⟨n, rfl⟩ | ⟨-, rfl⟩ | ⟨-, hm⟩
    · exact List.prefix_refl _
    · exact List.prefix_refl _
    · obtain ⟨seat, hseat, inner, hinner, rfl⟩ := mem_childRemnants.mp hm
      rw [Remnant.origin_within]
      exact (List.prefix_append _ _).trans (ih _ (Child.mem_nodes_of_mem_seats hseat) hinner)

lemma entered_self_iff :
    Visit.Entered config window (node.visits path start) ⟨path, node, node.spanFrom start⟩ ↔
      (node.decision config window start).treatment.descends = true :=
  forall_above_self_iff

lemma entered_iff_of_seat
    (h : (node.decision config window start).treatment.descends = true) {seat : Seat}
    (hseat : seat ∈ Child.seats 0 start node.children) {visit : Visit}
    (hv : visit ∈ seat.node.visits (path ++ [seat.index]) seat.start) :
    visit.Entered config window (node.visits path start) ↔
      visit.Entered config window (seat.node.visits (path ++ [seat.index]) seat.start) :=
  forall_above_iff_of_seat h (bearsText_of_descends h) hseat hv

/-- Siblings in what is left of a node are the content of a node that stays around it. -/
lemma exists_receiver_of_mem_contents {remnant : Remnant}
    (h : remnant ∈ node.remnants config window path start) {siblings : List Remnant}
    (hs : siblings ∈ remnant.contents) :
    ∃ receiver ∈ node.visits path start,
      receiver.Entered config window (node.visits path start) ∧
        (receiver.decision config window).treatment.isSplice = false ∧
          siblings = receiver.content config window := by
  induction node using Node.inductionOn generalizing path start remnant with
  | step node ih =>
    rw [remnants_eq] at h
    obtain ⟨hdescends, ⟨hstays, rfl⟩ | ⟨inner, hm, hs⟩⟩ :=
      Treatment.mem_contents_of_mem_remnants h hs
    · exact ⟨⟨path, node, node.spanFrom start⟩, mem_visits.mpr (.inl rfl),
        entered_self_iff.mpr hdescends, hstays, rfl⟩
    · obtain ⟨seat, hseat, inner, hinner, rfl⟩ := mem_childRemnants.mp hm
      rw [Remnant.contents_within] at hs
      obtain ⟨receiver, hv, hentered, hstays, heq⟩ :=
        ih _ (Child.mem_nodes_of_mem_seats hseat) hinner hs
      exact ⟨receiver, mem_visits.mpr (.inr ⟨bearsText_of_descends hdescends, seat, hseat, hv⟩),
        (entered_iff_of_seat hdescends hseat hv).mpr hentered, hstays, heq⟩

/-- If anything is left of it, the content of a node that stays is siblings in what is left of a
node further up. -/
lemma exists_mem_contents_of_receiver {receiver : Visit} (hv : receiver ∈ node.visits path start)
    (hentered : receiver.Entered config window (node.visits path start))
    (hstays : (receiver.decision config window).treatment.isSplice = false)
    (hne : receiver.content config window ≠ []) :
    ∃ remnant ∈ node.remnants config window path start,
      receiver.content config window ∈ remnant.contents := by
  induction node using Node.inductionOn generalizing path start with
  | step node ih =>
    rw [remnants_eq]
    rcases mem_visits.mp hv with rfl | ⟨-, seat, hseat, hv⟩
    · have hne : Child.remnants config window path 0 start node.children ≠ [] := hne
      rw [Treatment.remnants_of_descends (entered_self_iff.mp hentered) hstays hne]
      refine ⟨_, List.mem_singleton_self _, ?_⟩
      rw [Remnant.contents]
      exact List.mem_cons_self
    · have hdescends : (node.decision config window start).treatment.descends = true :=
        hentered _ (mem_visits.mpr (.inl rfl)) ((List.prefix_append _ _).trans (visit_bounds hv).1)
      obtain ⟨inner, hinner, hc⟩ := ih _ (Child.mem_nodes_of_mem_seats hseat) hv
        ((entered_iff_of_seat hdescends hseat hv).mp hentered)
      have hm := mem_childRemnants.mpr ⟨seat, hseat, inner, hinner, rfl⟩
      rw [← Remnant.contents_within (seat.enclave config window)] at hc
      cases hsplice : (node.decision config window start).treatment.isSplice with
      | true =>
        obtain ⟨isolated, htreatment⟩ := Treatment.isSplice_iff.mp hsplice
        rw [htreatment]
        exact ⟨_, hm, hc⟩
      | false =>
        rw [Treatment.remnants_of_descends hdescends hsplice (List.ne_nil_of_mem hm)]
        refine ⟨_, List.mem_singleton_self _, ?_⟩
        rw [Remnant.contents, Remnant.contentsOf_eq]
        exact List.mem_cons_of_mem _ (List.mem_flatMap.mpr ⟨_, hm, hc⟩)

/-- Siblings in what is left of a tree are the content of a top node that has given way, under the
new root, or stand where they do without that root. -/
lemma mem_contents_remnant? {remnant : Remnant} (h : remnant ∈ node.remnant? config window)
    {siblings : List Remnant} (hs : siblings ∈ remnant.contents) :
    (node.decision config window 0).treatment.isSplice = true ∧
        siblings = Visit.content config window ⟨[], node, node.spanFrom 0⟩ ∨
      ∃ inner ∈ node.remnants config window [] 0, siblings ∈ inner.contents := by
  unfold remnant? at h
  split at h
  · next isolated hsplice =>
    simp only at h
    split at h
    · simp at h
    · obtain rfl := Option.some.inj h
      rw [Remnant.contents, Remnant.contentsOf_eq, List.mem_cons, List.mem_flatMap] at hs
      rw [remnants_eq, hsplice]
      exact hs.imp_left fun heq => ⟨rfl, heq⟩
  · exact .inr ⟨remnant, List.mem_of_head? h, hs⟩

lemma exists_receives_of_mem_contents {remnant : Remnant}
    (h : remnant ∈ node.remnant? config window) {siblings : List Remnant}
    (hs : siblings ∈ remnant.contents) :
    ∃ receiver ∈ node.visits [] 0, receiver.Receives config window (node.visits [] 0) ∧
      siblings = receiver.content config window := by
  rcases mem_contents_remnant? h hs with ⟨hsplice, rfl⟩ | ⟨inner, hm, hs⟩
  · obtain ⟨isolated, htreatment⟩ := Treatment.isSplice_iff.mp hsplice
    exact ⟨⟨[], node, node.spanFrom 0⟩, mem_visits.mpr (.inl rfl),
      ⟨entered_self_iff.mpr (by rw [htreatment]; rfl), .inl rfl⟩, rfl⟩
  · obtain ⟨receiver, hv, hentered, hstays, heq⟩ := exists_receiver_of_mem_contents hm hs
    exact ⟨receiver, hv, ⟨hentered, .inr hstays⟩, heq⟩

/-- What is left of the content of a node that receives it is siblings in what is left of the
tree. -/
lemma mem_contents_of_receives {remnant : Remnant} (h : remnant ∈ node.remnant? config window)
    {receiver : Visit} (hv : receiver ∈ node.visits [] 0)
    (hreceives : receiver.Receives config window (node.visits [] 0))
    (hne : receiver.content config window ≠ []) :
    receiver.content config window ∈ remnant.contents := by
  obtain ⟨hentered, hstays⟩ := hreceives
  unfold remnant? at h
  split at h
  · next isolated hsplice =>
    simp only at h
    split at h
    · simp at h
    · obtain rfl := Option.some.inj h
      rw [Remnant.contents, Remnant.contentsOf_eq]
      by_cases htop : receiver.path = []
      · obtain rfl := eq_of_mem_visits_of_path hv htop
        exact List.mem_cons_self
      · obtain ⟨inner, hm, hc⟩ :=
          exists_mem_contents_of_receiver hv hentered (hstays.resolve_left htop) hne
        rw [remnants_eq, hsplice] at hm
        exact List.mem_cons_of_mem _ (List.mem_flatMap.mpr ⟨inner, hm, hc⟩)
  · next hother =>
    have hself : (node.decision config window 0).treatment.isSplice = false := by
      rw [← Bool.not_eq_true, Treatment.isSplice_iff]
      rintro ⟨isolated, hsplice⟩
      exact hother isolated hsplice
    have hrest : (receiver.decision config window).treatment.isSplice = false := by
      rcases hstays with htop | hstays
      · rwa [eq_of_mem_visits_of_path hv htop]
      · exact hstays
    obtain ⟨inner, hm, hc⟩ := exists_mem_contents_of_receiver hv hentered hrest hne
    rw [remnants_eq] at h hm
    rw [← Treatment.toList_head?_remnants hself, h, Option.toList_some] at hm
    obtain rfl := List.mem_singleton.mp hm
    exact hc

lemma surfaces_self :
    Visit.Surfaces config window (node.visits path start) ⟨path, node, node.spanFrom start⟩ :=
  fun _ ha habove hne => absurd (path_eq_of_isPrefix ha habove) hne

lemma isSplice_of_surfaces {seat : Seat} {visit : Visit}
    (hv : visit ∈ seat.node.visits (path ++ [seat.index]) seat.start)
    (h : visit.Surfaces config window (node.visits path start)) :
    (node.decision config window start).treatment.isSplice = true := by
  have hbelow := (visit_bounds hv).1
  exact h _ (mem_visits.mpr (.inl rfl)) ((List.prefix_append _ _).trans hbelow)
    fun hpath => Seat.not_isPrefix (hpath ▸ hbelow)

lemma mem_arrivals {visit : Visit} :
    visit ∈ node.arrivals config window path start ↔
      visit ∈ node.visits path start ∧ (visit.remains? config window).isSome = true ∧
        visit.Surfaces config window (node.visits path start) := by
  rw [arrivals, List.mem_filter, Bool.and_eq_true, decide_eq_true_eq]

/-- Nothing in a node that does not give way comes out in its place. -/
lemma arrivals_of_not_isSplice
    (h : (node.decision config window start).treatment.isSplice = false) :
    node.arrivals config window path start =
      if (Visit.remains? config window ⟨path, node, node.spanFrom start⟩).isSome then
        [⟨path, node, node.spanFrom start⟩] else [] := by
  rw [arrivals, filter_visits, decide_eq_true surfaces_self, Bool.and_true,
    List.append_right_eq_self]
  split
  · rfl
  · rw [List.flatMap_eq_nil_iff]
    intro seat hseat
    rw [List.filter_eq_nil_iff]
    intro visit hv hcomes
    rw [Bool.and_eq_true, decide_eq_true_eq] at hcomes
    rw [isSplice_of_surfaces hv hcomes.2] at h
    cases h

lemma arrivals_of_drop (h : (node.decision config window start).treatment = .drop) :
    node.arrivals config window path start = [] := by
  rw [arrivals_of_not_isSplice (by rw [h]; rfl)]
  simp [Visit.remains?, outcome_eq, h, Treatment.emit]

/-- In the place of a node that gives way come out the arrivals among its children. -/
lemma arrivals_of_isSplice (h : (node.decision config window start).treatment.isSplice = true) :
    node.arrivals config window path start =
      Visit.arrivals config window ⟨path, node, node.spanFrom start⟩ := by
  obtain ⟨isolated, hsplice⟩ := Treatment.isSplice_iff.mp h
  have hleaf : node.bearsText = false := bearsText_of_descends (by rw [hsplice]; rfl)
  have hnone : Visit.remains? config window ⟨path, node, node.spanFrom start⟩ = none := by
    simp only [Visit.remains?, start_spanFrom, outcome_eq, hsplice, Treatment.emit,
      Outcome.content]
    cases (node.rebuilt config window start).isEmpty <;> rfl
  rw [arrivals, filter_visits, hnone, Option.isSome_none, Bool.false_and, hleaf,
    if_neg Bool.false_ne_true, if_neg Bool.false_ne_true, List.nil_append]
  refine List.flatMap_congr fun seat hseat => List.filter_congr fun visit hv => ?_
  have hsurfaces : visit.Surfaces config window (node.visits path start) ↔
      visit.Surfaces config window (seat.node.visits (path ++ [seat.index]) seat.start) :=
    forall_above_iff_of_seat (fun _ => h) hleaf hseat hv
  simp only [hsurfaces]

lemma marks_of_not_isSplice (hright : node.JoinsRight config window)
    (h : (node.decision config window start).treatment.isSplice = false) :
    (node.remnants config window path start).map Remnant.mark =
      (Visit.remains? config window ⟨path, node, node.spanFrom start⟩).toList.map fun next =>
        (path, some next) := by
  rw [remnants_eq]
  simp only [Visit.remains?, start_spanFrom, outcome_eq]
  cases htreatment : (node.decision config window start).treatment with
  | drop => rfl
  | keep => rfl
  | shorten value =>
    simp only [Treatment.emit, Treatment.remnants]
    cases value.isEmpty <;> rfl
  | rebuild evenEmpty =>
    simp only [Treatment.emit, Treatment.remnants, hright.isEmpty_rebuilt path]
    split
    · rfl
    · rw [hright path start]
      rfl
  | splice isolated =>
    rw [htreatment] at h
    cases h

/-- What is left of the node is what comes out of the arrivals in its place. -/
def ArrivesRight (config : Config) (window : Span) (node : Node) : Prop :=
  ∀ (path : List Nat) (start : Int), (node.remnants config window path start).map Remnant.mark =
    (node.arrivals config window path start).map (Visit.mark config window)

lemma marks_content {visit : Visit}
    (h : ∀ child ∈ visit.node.childNodes, child.ArrivesRight config window) :
    (visit.content config window).map Remnant.mark =
      (visit.arrivals config window).map (Visit.mark config window) := by
  rw [Visit.content, Child.remnants_eq, List.map_flatMap, Visit.arrivals, List.map_flatMap]
  refine List.flatMap_congr fun seat hseat => ?_
  rw [← h seat.node (Child.mem_nodes_of_mem_seats hseat), List.map_map]
  exact List.map_congr_left fun remnant _ => Remnant.mark_within _ _

theorem arrivesRight (hjoin : config.text.mergeAdjacentText = true) (node : Node) :
    node.ArrivesRight config window := by
  induction node using Node.inductionOn with
  | step node ih =>
    intro path start
    cases hsplice : (node.decision config window start).treatment.isSplice with
    | true =>
      obtain ⟨isolated, htreatment⟩ := Treatment.isSplice_iff.mp hsplice
      rw [arrivals_of_isSplice hsplice, ← marks_content ih, remnants_eq, htreatment]
      rfl
    | false =>
      rw [marks_of_not_isSplice (node.joinsRight hjoin) hsplice, arrivals_of_not_isSplice hsplice]
      cases hremains : Visit.remains? config window ⟨path, node, node.spanFrom start⟩ with
      | none => rfl
      | some next => simp [Visit.mark, hremains]

end Node

namespace Treatment

lemma isText_of_emit {treatment : Treatment} {node next : Node} {children : List Node}
    (h : treatment.emit node children = .one next) : next.isText = node.isText := by
  cases treatment with
  | drop => cases h
  | keep =>
    cases h
    rfl
  | shorten value =>
    simp only [emit] at h
    split at h
    · cases h
    · cases h
      simp [Node.isText]
  | rebuild evenEmpty =>
    simp only [emit] at h
    split at h
    · cases h
    · cases h
      simp [Node.isText]
  | splice isolated => exact absurd h (Outcome.content_ne_one _ _ _)

end Treatment

namespace Visit

variable {config : Config} {window : Span} {next : Node}

lemma remains?_eq_some_iff {visit : Visit} :
    visit.remains? config window = some next ↔
      visit.node.outcome config window visit.span.start = .one next := by
  unfold remains?
  split <;> simp_all

lemma isText_of_remains {visit : Visit} (h : visit.remains? config window = some next) :
    next.isText = visit.node.isText := by
  rw [remains?_eq_some_iff, Node.outcome_eq] at h
  exact Treatment.isText_of_emit h

/-- What comes out of a text leaf has the characters that are kept of it. -/
lemma toList_text_of_remains {visit : Visit}
    (hspan : visit.span = visit.node.spanFrom visit.span.start)
    (h : visit.remains? config window = some next) (htext : visit.node.isText = true) :
    next.text.toList = visit.kept config window .text := by
  have hnext : next.isText = true := (isText_of_remains h).trans htext
  rw [remains?_eq_some_iff] at h
  have hbarred : isBarred config window
      ⟨visit.path, visit.node, visit.node.spanFrom visit.span.start⟩ = false := by
    rw [← Bool.not_eq_true, ← Node.treatment_eq_drop_iff]
    intro hdrop
    rw [Node.outcome_eq, hdrop] at h
    cases h
  have hkept := Node.characters_outcome_of_leaf (Node.kind_of_isText htext) hbarred
  rw [← hspan, h, Node.characters_one, Node.characters_of_isText hnext] at hkept
  exact hkept

lemma span_of_mem_arrivals {receiver visit : Visit} (h : visit ∈ receiver.arrivals config window) :
    visit.span = visit.node.spanFrom visit.span.start := by
  obtain ⟨seat, -, hv⟩ := List.mem_flatMap.mp h
  exact (Node.visit_bounds (Node.mem_arrivals.mp hv).1).2.1

end Visit

namespace Remnant

variable {config : Config} {window : Span} {stretch : List (Origin × Node)} {arrived : List Visit}

/-- What holds of all siblings can be read off the nodes that they are left of. -/
lemma forall_iff_of_marks (h : stretch.map entryMark = arrived.map (Visit.mark config window))
    {P : Origin × Node → Prop} {Q : Visit → Prop}
    (hiff : ∀ entry, ∀ visit ∈ arrived, entry.1.path = visit.path →
      visit.remains? config window = some entry.2 → (P entry ↔ Q visit)) :
    (∀ entry ∈ stretch, P entry) ↔ ∀ visit ∈ arrived, Q visit := by
  constructor
  · intro hall visit hv
    obtain ⟨entry, he, hmark⟩ := List.mem_map.mp (h ▸ List.mem_map_of_mem hv)
    obtain ⟨hpath, hremains⟩ := Prod.mk.inj hmark
    exact (hiff entry visit hv hpath hremains.symm).mp (hall entry he)
  · intro hall entry he
    obtain ⟨visit, hv, hmark⟩ := List.mem_map.mp (h ▸ List.mem_map_of_mem he)
    obtain ⟨hpath, hremains⟩ := Prod.mk.inj hmark
    exact (hiff entry visit hv hpath.symm hremains).mpr (hall visit hv)

lemma exists_iff_of_marks (h : stretch.map entryMark = arrived.map (Visit.mark config window))
    {P : Origin × Node → Prop} {Q : Visit → Prop}
    (hiff : ∀ entry, ∀ visit ∈ arrived, entry.1.path = visit.path →
      visit.remains? config window = some entry.2 → (P entry ↔ Q visit)) :
    (∃ entry ∈ stretch, P entry) ↔ ∃ visit ∈ arrived, Q visit := by
  have hnone := forall_iff_of_marks h fun entry visit hv hpath hremains =>
    not_congr (hiff entry visit hv hpath hremains)
  simpa using not_congr hnone

end Remnant
end MarkdownExcerpt
