import Mathlib.Data.List.Basic
import MarkdownExcerpt.Proofs.Reach
import MarkdownExcerpt.Proofs.Text.Piece

/-! Spans and text. The walk of a tree, the measuring of a node and the text of a document take a
tree apart each in its own way; they agree on which nodes count and where each of them stands. -/
namespace MarkdownExcerpt

/-- Spans that lie one after another, without a gap, from one offset to another. -/
inductive Span.Tiles : Int → List Span → Int → Prop
  | nil (start : Int) : Tiles start [] start
  | cons {span : Span} {rest : List Span} {stop : Int} (h : span.start ≤ span.stop)
      (hrest : Tiles span.stop rest stop) : Tiles span.start (span :: rest) stop

namespace Visit

/-- What the node itself adds to the text of the document. -/
def ownText (visit : Visit) : List Char :=
  if visit.node.bearsText then visit.node.text.toList else []

/-- The visits to the children of the node at a path. -/
def childrenOf (path : List Nat) (visits : List Visit) : List Visit :=
  visits.filter fun visit => path.isPrefixOf visit.path && visit.path.length == path.length + 1

end Visit

namespace Seat

/-- The visit to the node at a seat below a path. -/
def visit (path : List Nat) (seat : Seat) : Visit :=
  ⟨path ++ [seat.index], seat.node, seat.node.spanFrom seat.start⟩

lemma lt_of_isPrefix {path first second : List Nat} {i j : Nat} (hlt : i < j)
    (hi : path ++ [i] <+: first) (hj : path ++ [j] <+: second) : first < second := by
  obtain ⟨a, rfl⟩ := hi
  obtain ⟨b, rfl⟩ := hj
  simp only [List.append_assoc]
  apply List.append_left_lt
  exact List.cons_lt_cons_iff.mpr (.inl hlt)

end Seat

namespace Child

variable {index : Nat} {start : Int} {children : List Child}

lemma map_node_seats (index : Nat) (start : Int) (children : List Child) :
    (seats index start children).map Seat.node = nodes children := by
  induction children generalizing index start with
  | nil => rfl
  | cons child rest ih => cases child <;> simp [seats, ih]

/-- Seats come in the order of their indices. -/
lemma pairwise_seats (index : Nat) (start : Int) (children : List Child) :
    (seats index start children).Pairwise fun first second => first.index < second.index := by
  induction children generalizing index start with
  | nil => exact .nil
  | cons child rest ih =>
    cases child with
    | stray value => exact ih _ _
    | node child =>
      refine .cons (fun seat hseat => ?_) (ih _ _)
      exact index_le_of_mem_seats hseat

lemma tiles_seats (path : List Nat) (index : Nat) (start : Int) (children : List Child) :
    Span.Tiles start (((seats index start children).map (Seat.visit path)).map Visit.span)
      (start + lengthOfList children) := by
  induction children generalizing index start with
  | nil => simpa [seats, lengthOfList] using Span.Tiles.nil start
  | cons child rest ih =>
    cases child with
    | stray value => simpa [seats, lengthOfList, Child.length] using ih (index + 1) start
    | node child =>
      have hrest := ih (index + 1) (start + child.length)
      rw [Int.add_assoc] at hrest
      have hle : (child.spanFrom start).start ≤ (child.spanFrom start).stop := by
        rw [Node.start_spanFrom, Node.stop_spanFrom]
        omega
      exact .cons hle (by simpa [lengthOfList, Child.length] using hrest)

/-- What is before a child and what is after it, in the text of all children. -/
lemma exists_text_around {seat : Seat} (h : seat ∈ seats index start children) :
    ∃ before after, charactersOfList children = before ++ seat.node.characters ++ after ∧
      start + before.length = seat.start := by
  induction children generalizing index start with
  | nil => simp [seats] at h
  | cons child rest ih =>
    cases child with
    | stray value =>
      obtain ⟨before, after, htext, hlength⟩ := ih h
      exact ⟨before, after, by simpa [charactersOfList, characters] using htext, hlength⟩
    | node child =>
      rcases List.mem_cons.mp h with rfl | hm
      · exact ⟨[], charactersOfList rest, by simp [charactersOfList, characters], by simp⟩
      · obtain ⟨before, after, htext, hlength⟩ := ih hm
        refine ⟨child.characters ++ before, after, ?_, ?_⟩
        · simp [charactersOfList, characters, htext]
        · rw [List.length_append, child.length_characters]
          omega

end Child

namespace Node

variable {path : List Nat} {start : Int} {node : Node} {visit : Visit}

lemma visits_of_bearsText (hleaf : node.bearsText = true) (path : List Nat) (start : Int) :
    node.visits path start = [⟨path, node, node.spanFrom start⟩] := by
  rw [visits_eq, if_pos hleaf]

lemma visits_of_not_bearsText (hleaf : node.bearsText = false) (path : List Nat) (start : Int) :
    node.visits path start = ⟨path, node, node.spanFrom start⟩ ::
      (Child.seats 0 start node.children).flatMap fun seat =>
        seat.node.visits (path ++ [seat.index]) seat.start := by
  rw [visits_eq, hleaf, Child.visits_eq]
  rfl

/-- The walk is in the order of places: parents first, and of two children the earlier one with
all that is in it. -/
theorem pairwise_visits (node : Node) : ∀ (path : List Nat) (start : Int),
    (node.visits path start).Pairwise fun first second => first.path < second.path := by
  induction node using Node.inductionOn with
  | step node ih =>
    intro path start
    cases hleaf : node.bearsText with
    | true =>
      rw [visits_of_bearsText hleaf]
      exact List.pairwise_singleton _ _
    | false =>
      rw [visits_of_not_bearsText hleaf, List.pairwise_cons, List.pairwise_flatMap]
      refine ⟨fun visit hv => ?_, fun seat hseat => ?_, ?_⟩
      · obtain ⟨seat, -, hv⟩ := List.mem_flatMap.mp hv
        obtain ⟨below, hbelow⟩ := (visit_bounds hv).1
        rw [← hbelow, List.append_assoc]
        simpa using List.append_left_lt (List.nil_lt_cons seat.index below)
      · exact ih seat.node (Child.mem_nodes_of_mem_seats hseat) _ _
      · refine (Child.pairwise_seats 0 start node.children).imp fun hlt visit hv other ho => ?_
        exact Seat.lt_of_isPrefix hlt (visit_bounds hv).1 (visit_bounds ho).1

/-- What is before a walked node and what is after it, in the text of the node where the walk
starts. -/
theorem exists_text_around (h : visit ∈ node.visits path start) :
    ∃ before after, node.characters = before ++ visit.node.characters ++ after ∧
      start + before.length = visit.span.start := by
  induction node using Node.inductionOn generalizing path start with
  | step node ih =>
    rcases mem_visits.mp h with rfl | ⟨hleaf, seat, hseat, hv⟩
    · exact ⟨[], [], by simp, by simp⟩
    · obtain ⟨before, after, htext, hlength⟩ := Child.exists_text_around hseat
      obtain ⟨inner, outer, hinner, hstart⟩ :=
        ih seat.node (Child.mem_nodes_of_mem_seats hseat) hv
      refine ⟨before ++ inner, outer ++ after, ?_, ?_⟩
      · rw [characters_eq, hleaf, if_neg Bool.false_ne_true, htext, hinner]
        simp
      · rw [List.length_append]
        omega

/-- The text of a node is what the walk gathers from the leaves. -/
theorem flatMap_ownText (node : Node) : ∀ (path : List Nat) (start : Int),
    (node.visits path start).flatMap Visit.ownText = node.characters := by
  induction node using Node.inductionOn with
  | step node ih =>
    intro path start
    cases hleaf : node.bearsText with
    | true => simp [visits_of_bearsText hleaf, Visit.ownText, hleaf, characters_of_bearsText hleaf]
    | false =>
      have hself : Visit.ownText ⟨path, node, node.spanFrom start⟩ = [] := by
        simp [Visit.ownText, hleaf]
      rw [visits_of_not_bearsText hleaf, List.flatMap_cons, hself, List.nil_append,
        List.flatMap_assoc, characters_of_not_bearsText hleaf, childNodes_eq,
        ← Child.map_node_seats 0 start, List.flatMap_map]
      exact List.flatMap_congr fun seat hseat => ih _ (Child.mem_nodes_of_mem_seats hseat) _ _

/-- On the walk of a child only the child itself is a child of the node. -/
lemma childrenOf_visits_seat (path : List Nat) (seat : Seat) :
    Visit.childrenOf path (seat.node.visits (path ++ [seat.index]) seat.start) =
      [seat.visit path] := by
  have hbelow : Visit.childrenOf path ((seat.node.visits (path ++ [seat.index]) seat.start).tail) =
      [] := by
    rw [Visit.childrenOf, List.filter_eq_nil_iff]
    intro visit hv
    cases hleaf : seat.node.bearsText with
    | true => simp [visits_of_bearsText hleaf] at hv
    | false =>
      rw [visits_of_not_bearsText hleaf, List.tail_cons] at hv
      obtain ⟨inner, -, hv⟩ := List.mem_flatMap.mp hv
      have hlength := (visit_bounds hv).1.length_le
      simp only [List.length_append, List.length_singleton] at hlength
      have hne : visit.path.length ≠ path.length + 1 := by omega
      simp [hne]
  rw [visits_eq] at hbelow ⊢
  rw [List.tail_cons] at hbelow
  rw [Visit.childrenOf] at hbelow ⊢
  rw [List.filter_cons_of_pos (by simp), hbelow]
  rfl

/-- The children of the node where the walk starts are visited in order; those of a leaf are not. -/
lemma childrenOf_visits_self (path : List Nat) (start : Int) (node : Node) :
    Visit.childrenOf path (node.visits path start) =
      if node.bearsText then [] else (Child.seats 0 start node.children).map (Seat.visit path) := by
  cases hleaf : node.bearsText with
  | true => simp [visits_of_bearsText hleaf, Visit.childrenOf]
  | false =>
    rw [visits_of_not_bearsText hleaf, Visit.childrenOf, List.filter_cons_of_neg (by simp),
      List.filter_flatMap, if_neg Bool.false_ne_true, ← List.flatMap_pure_eq_map]
    exact List.flatMap_congr fun seat _ => childrenOf_visits_seat path seat

/-- What is visited below a child of a node is visited on the walk of that child. -/
lemma childrenOf_visits_of_seat (hleaf : node.bearsText = false) {seat : Seat}
    (hseat : seat ∈ Child.seats 0 start node.children) {place : List Nat}
    (hbelow : path ++ [seat.index] <+: place) :
    Visit.childrenOf place (node.visits path start) =
      Visit.childrenOf place (seat.node.visits (path ++ [seat.index]) seat.start) := by
  have hnone (other : Seat) (hother : other.index ≠ seat.index) :
      Visit.childrenOf place (other.node.visits (path ++ [other.index]) other.start) = [] := by
    rw [Visit.childrenOf, List.filter_eq_nil_iff]
    intro visit hv hchild
    simp only [Bool.and_eq_true, List.isPrefixOf_iff_prefix] at hchild
    exact hother (Seat.index_eq_of_isPrefix (visit_bounds hv).1 (hbelow.trans hchild.1))
  have hself : ¬place <+: path := fun hprefix => Seat.not_isPrefix (hbelow.trans hprefix)
  obtain ⟨front, behind, hsplit⟩ := List.append_of_mem hseat
  have hpairwise := Child.pairwise_seats 0 start node.children
  rw [hsplit, List.pairwise_append, List.pairwise_cons] at hpairwise
  obtain ⟨-, ⟨hafter, -⟩, hbefore⟩ := hpairwise
  have hfront : front.flatMap (fun other => Visit.childrenOf place
      (other.node.visits (path ++ [other.index]) other.start)) = [] :=
    List.flatMap_eq_nil_iff.mpr fun other ho =>
      hnone other (Nat.ne_of_lt (hbefore other ho seat (by simp)))
  have hbehind : behind.flatMap (fun other => Visit.childrenOf place
      (other.node.visits (path ++ [other.index]) other.start)) = [] :=
    List.flatMap_eq_nil_iff.mpr fun other ho => hnone other (Nat.ne_of_gt (hafter other ho))
  rw [visits_of_not_bearsText hleaf, Visit.childrenOf, List.filter_cons_of_neg (by simp [hself]),
    List.filter_flatMap, hsplit, List.flatMap_append, List.flatMap_cons]
  simp only [Visit.childrenOf] at hfront hbehind ⊢
  rw [hfront, hbehind, List.nil_append, List.append_nil]

/-- The children of any walked node are visited in order; those of a leaf are not. -/
theorem childrenOf_visits (h : visit ∈ node.visits path start) :
    Visit.childrenOf visit.path (node.visits path start) =
      if visit.node.bearsText then []
      else (Child.seats 0 visit.span.start visit.node.children).map (Seat.visit visit.path) := by
  induction node using Node.inductionOn generalizing path start with
  | step node ih =>
    rcases mem_visits.mp h with rfl | ⟨hleaf, seat, hseat, hv⟩
    · exact childrenOf_visits_self path start node
    · rw [childrenOf_visits_of_seat hleaf hseat (visit_bounds hv).1]
      exact ih seat.node (Child.mem_nodes_of_mem_seats hseat) hv

/-- The children of a walked node that is no leaf are all visited, and their spans tile its span. -/
theorem tiles_childrenOf (h : visit ∈ node.visits path start)
    (hleaf : visit.node.bearsText = false) :
    (Visit.childrenOf visit.path (node.visits path start)).map Visit.node = visit.node.childNodes ∧
      Span.Tiles visit.span.start
        ((Visit.childrenOf visit.path (node.visits path start)).map Visit.span)
        visit.span.stop := by
  obtain ⟨-, hspan, -, -⟩ := visit_bounds h
  rw [childrenOf_visits h, hleaf, if_neg Bool.false_ne_true]
  refine ⟨?_, ?_⟩
  · rw [List.map_map, childNodes_eq, ← Child.map_node_seats 0 visit.span.start]
    rfl
  · have htiles := Child.tiles_seats visit.path 0 visit.span.start visit.node.children
    rwa [Child.lengthOfList_eq, ← childNodes_eq, ← length_of_not_bearsText hleaf,
      ← stop_spanFrom visit.span.start, ← hspan] at htiles

/-- The visit that is found at the place of a visit is that visit. -/
lemma find?_visits (h : visit ∈ node.visits path start) :
    ((node.visits path start).find? fun other => other.path == visit.path) = some visit := by
  obtain ⟨front, behind, hsplit⟩ := List.append_of_mem h
  have hpairwise := node.pairwise_visits path start
  rw [hsplit, List.pairwise_append] at hpairwise
  have hfront : (front.find? fun other => other.path == visit.path) = none := by
    rw [List.find?_eq_none]
    intro other ho hpath
    have hlt := hpairwise.2.2 other ho visit (by simp)
    rw [beq_iff_eq.mp hpath] at hlt
    exact List.lt_irrefl _ hlt
  rw [hsplit, List.find?_append, hfront]
  simp

variable {leaf other : Node} {span place window : Span}

lemma start_le_of_mem_spansOf {nodes : List Node} {entry : Node × Span}
    (h : entry ∈ spansOf start nodes) : start ≤ entry.2.start := by
  induction nodes generalizing start with
  | nil => simp [spansOf] at h
  | cons node rest ih =>
    rcases List.mem_append.mp h with hhead | hrest
    · exact (span_bounds hhead).2.1
    · have hstart := ih hrest
      omega

/-- The second node does not start before the end of the first, if that is a leaf. -/
def LeafBefore (first second : Node × Span) : Prop :=
  first.1.bearsText = true → first.2.stop ≤ second.2.start

lemma pairwise_spansOf {nodes : List Node}
    (h : ∀ node ∈ nodes, ∀ start : Int, (node.spansFrom start).Pairwise LeafBefore) (start : Int) :
    (spansOf start nodes).Pairwise LeafBefore := by
  induction nodes generalizing start with
  | nil => exact .nil
  | cons node rest ih =>
    rw [spansOf, List.pairwise_append]
    refine ⟨h node (by simp) start, ih (fun n hm => h n (by simp [hm])) _, ?_⟩
    intro first hfirst second hsecond _
    have hstop := (span_bounds hfirst).2.2
    have hstart := start_le_of_mem_spansOf hsecond
    omega

/-- In the order of the walk, no node after a leaf starts before the leaf ends. -/
lemma pairwise_spansFrom (node : Node) : ∀ start : Int,
    (node.spansFrom start).Pairwise LeafBefore := by
  induction node using Node.inductionOn with
  | step node ih =>
    intro start
    rw [spansFrom_eq, List.pairwise_cons]
    cases hleaf : node.bearsText with
    | true => simp
    | false => exact ⟨fun entry _ h => by simp [hleaf] at h, pairwise_spansOf ih start⟩

/-- Two leaves of a tree are the same or lie apart. -/
theorem leaf_eq_or_apart (h : (leaf, span) ∈ node.spans) (h' : (other, place) ∈ node.spans)
    (hleaf : leaf.bearsText = true) (hother : other.bearsText = true) :
    (leaf, span) = (other, place) ∨ span.stop ≤ place.start ∨ place.stop ≤ span.start := by
  rw [spans_eq] at h h'
  obtain ⟨front, back, hsplit⟩ := List.append_of_mem h
  have hpairwise := node.pairwise_spansFrom 0
  rw [hsplit, List.pairwise_append, List.pairwise_cons] at hpairwise
  rw [hsplit] at h'
  rcases List.mem_append.mp h' with hfront | hback
  · exact .inr (.inr (hpairwise.2.2 _ hfront _ List.mem_cons_self hother))
  · rcases List.mem_cons.mp hback with hself | hback
    · exact .inl hself.symm
    · exact .inr (.inl (hpairwise.2.1.1 _ hback hleaf))

lemma stop_of_mem_spans (h : (leaf, span) ∈ node.spans) :
    span.stop = span.start + leaf.characters.length := by
  rw [spans_eq] at h
  have hspan := congrArg Span.stop (span_bounds h).1
  rwa [stop_spanFrom, ← length_characters] at hspan

/-- A window within the span of a walked node shows of the whole text what it shows of the node. -/
lemma shown_of_mem_spans (h : (leaf, span) ∈ node.spans) (hstart : span.start ≤ window.start)
    (hstop : window.stop ≤ span.stop) :
    window.shown 0 node.characters = window.shown span.start leaf.characters := by
  rw [spans_eq] at h
  obtain ⟨visit, hv, hentry⟩ := List.mem_map.mp h
  obtain ⟨rfl, rfl⟩ := Prod.mk.inj hentry
  obtain ⟨before, after, htext, hlength⟩ := exists_text_around hv
  have hspan := (visit_bounds hv).2.1
  have hbefore : window.shown 0 before = [] :=
    Span.shown_of_misses (Span.misses_iff.mpr (.inl (by simp only [Span.stop_ofLength]; omega)))
  have hafter : window.shown (0 + (before ++ visit.node.characters).length) after = [] := by
    apply Span.shown_of_misses
    rw [Span.misses_iff, Span.start_ofLength, List.length_append, length_characters]
    have hend := congrArg Span.stop hspan
    rw [stop_spanFrom] at hend
    omega
  rw [htext, Span.shown_append, hafter, List.append_nil, Span.shown_append, hbefore,
    List.nil_append, hlength]

end Node

/-- What the walk of a tree has to do with the text of the tree. -/
structure Node.Charted (number : Nat) (root : Node) (length : Int) (text : String)
    (visits : List Visit) : Prop where
  /-- No place is visited twice. Parents are visited before their children, and of two children the
  earlier one before the later one, each with all that is in it. -/
  ordered : visits.Pairwise fun first second => first.path < second.path
  /-- The walk comes to all children, but to those of leaves. -/
  complete : ∀ path node,
    (∃ visit ∈ visits, visit.path = path ∧ visit.node = node) ↔ root.Reaches path node
  bounds : ∀ visit ∈ visits,
    0 ≤ visit.span.start ∧ visit.span.start ≤ visit.span.stop ∧ visit.span.stop ≤ length
  /-- A walked node is as long as its span. -/
  lengths : ∀ visit ∈ visits, ((Document.tree visit.node).length number {}).1 =
    .ok (visit.span.stop - visit.span.start)
  /-- The text of a walked node is the piece of the text that its span names. -/
  texts : ∀ visit ∈ visits, (Document.tree visit.node).text =
    .ok (String.ofList (Text.piece text.toList visit.span.start.toNat visit.span.stop.toNat))
  gathered : text.toList = visits.flatMap Visit.ownText
  /-- The spans of the children of a walked node lie in its span without gap and overlap. -/
  tiled : ∀ visit ∈ visits, visit.node.bearsText = false →
    (Visit.childrenOf visit.path visits).map Visit.node = visit.node.childNodes ∧
      Span.Tiles visit.span.start ((Visit.childrenOf visit.path visits).map Visit.span)
        visit.span.stop
  /-- A walked node has the position that the walk gives it. -/
  positions : ∀ visit ∈ visits, ((Document.tree root).position number visit.path {}).1 =
    .ok (some ⟨visit.span.start.toNat, visit.span.stop.toNat⟩)
  /-- What the walk does not come to has no position. -/
  nowhere : ∀ path, (∀ visit ∈ visits, visit.path ≠ path) →
    ((Document.tree root).position number path {}).1 = .ok none

namespace Node

variable {root : Node} {visit : Visit}

/-- A tree that is measured afresh has its true length. -/
lemma length_fresh (number : Nat) (node : Node) :
    ((Document.tree node).length number {}).1 = .ok (node.length : Int) := by
  simp only [Document.length, Meter.measure_fresh]

lemma position_fresh (number : Nat) (path : List Nat) (root : Node) :
    ((Document.tree root).position number path {}).1 =
      match ((root.visits [] 0).find? fun visit => visit.path == path).map Visit.span with
      | none => .ok none
      | some span => Failure.ofValidated (some <$> Position.ofSpan span) := by
  have hspan : (root.spanAt number path {}).1 =
      ((root.visits [] 0).find? fun visit => visit.path == path).map Visit.span := by
    rw [spanAt_fst, walk_fresh]
  cases hfound : ((root.visits [] 0).find? fun visit => visit.path == path).map Visit.span <;>
    simp only [Document.position_tree, hspan, hfound]

/-- The characters of a walked node stand in the text at its span. -/
lemma characters_of_mem_visits (h : visit ∈ root.visits [] 0) :
    visit.node.characters =
      Text.piece root.characters visit.span.start.toNat visit.span.stop.toNat := by
  obtain ⟨before, after, htext, hlength⟩ := exists_text_around h
  have hspan := (visit_bounds h).2.1
  have hstart : visit.span.start.toNat = before.length := by omega
  have hstop : visit.span.stop.toNat = before.length + visit.node.characters.length := by
    rw [length_characters, hspan, stop_spanFrom]
    omega
  rw [htext, hstart, hstop]
  simp [Text.piece]

/-- The spans of a walk address the text of the document. -/
theorem charted_walk (number : Nat) (root : Node) :
    ∃ steps length text, ((Document.tree root).walk number {}).1 = .ok steps ∧
      ((Document.tree root).length number {}).1 = .ok length ∧
      (Document.tree root).text = .ok text ∧ length = text.length ∧
      root.Charted number length text (steps.map Step.visit) := by
  refine ⟨(root.walk number {}).1, _, _, rfl, length_fresh number root, rfl,
    by simp [length_characters], ?_⟩
  rw [walk_fresh]
  have hbounds : ∀ visit ∈ root.visits [] 0,
      visit.span.stop = visit.span.start + visit.node.length ∧
        0 ≤ visit.span.start ∧ visit.span.stop ≤ root.length := by
    intro visit hv
    obtain ⟨-, hspan, hstart, hstop⟩ := visit_bounds hv
    exact ⟨congrArg Span.stop hspan, hstart, by omega⟩
  constructor
  case ordered => exact root.pairwise_visits [] 0
  case complete =>
    intro path node
    rw [← exists_step_iff_reaches number, ← walk_fresh number]
    simp [Step.visit]
  case bounds =>
    intro visit hv
    obtain ⟨hlength, hstart, hstop⟩ := hbounds visit hv
    exact ⟨hstart, by omega, hstop⟩
  case lengths =>
    intro visit hv
    have hlength := (hbounds visit hv).1
    rw [length_fresh, show visit.span.stop - visit.span.start = visit.node.length by omega]
  case texts =>
    intro visit hv
    rw [String.toList_ofList, ← characters_of_mem_visits hv]
    rfl
  case gathered => rw [String.toList_ofList, flatMap_ownText]
  case tiled => exact fun visit hv hleaf => tiles_childrenOf hv hleaf
  case positions =>
    intro visit hv
    obtain ⟨hlength, hstart, -⟩ := hbounds visit hv
    have hstart : (visit.span.start.toNat : Int) = visit.span.start := Int.toNat_of_nonneg hstart
    have hstop : (visit.span.stop.toNat : Int) = visit.span.stop := Int.toNat_of_nonneg (by omega)
    have hposition := Position.ofSpan_ofNat visit.span.start.toNat visit.span.stop.toNat
    rw [hstart, hstop] at hposition
    rw [position_fresh, find?_visits hv, Option.map_some]
    exact congrArg (fun position => Failure.ofValidated (some <$> position)) hposition
  case nowhere =>
    intro path hnone
    have hfind : ((root.visits [] 0).find? fun visit => visit.path == path) = none := by
      rw [List.find?_eq_none]
      exact fun visit hv hpath => hnone visit hv (beq_iff_eq.mp hpath)
    rw [position_fresh, hfind]
    rfl

end Node
end MarkdownExcerpt
