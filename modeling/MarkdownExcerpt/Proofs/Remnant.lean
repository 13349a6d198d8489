import MarkdownExcerpt.Proofs.Excerpt
import MarkdownExcerpt.Proofs.Node.Runs
import MarkdownExcerpt.Proofs.Treatment

/-! Where the nodes of an excerpt come from. Remnants are what is left of the nodes of a tree, each
with its place in that tree and not joined yet; joining neighbours group by group gives the
excerpt, so that every text leaf in it is known by the group of leaves that it is made of. -/
namespace MarkdownExcerpt

/-- Where a remnant comes from. -/
structure Origin where
  path : List Nat
  /-- The isolated child, among those of the container in which the remnant comes out, to whose
  content it belongs. -/
  enclave : Option Nat := none
  deriving DecidableEq, Repr

/-- What is left of a node. -/
inductive Remnant where
  /-- The node as it is or with less of its text. -/
  | whole (origin : Origin) (node : Node)
  /-- The node around what is left of its content. -/
  | rebuilt (origin : Origin) (node : Node) (content : List Remnant)
  deriving Repr

namespace Node

/-- Leaves of a run as one leaf. -/
def unite? : List Node → Option Node
  | [] => none
  | node :: rest => some (rest.foldl joinText node)

end Node

namespace Remnant

/-- Text joins text that belongs to the same enclave, or like it to none. -/
def joins (first second : Origin × Node) : Bool :=
  first.2.isText && second.2.isText && first.1.enclave == second.1.enclave

/-- The siblings in groups that become one node each. -/
def groups (entries : List (Origin × Node)) : List (List (Origin × Node)) := entries.splitBy joins

/-- The siblings after joining, one node for each group. -/
def joined (entries : List (Origin × Node)) : List Node :=
  (groups entries).filterMap fun group => Node.unite? (group.map Prod.snd)

def origin : Remnant → Origin
  | whole origin _ => origin
  | rebuilt origin _ _ => origin

/-- The remnant as content of an enclave, or of none. -/
def within (enclave : Option Nat) : Remnant → Remnant
  | whole origin node => whole { origin with enclave } node
  | rebuilt origin node content => rebuilt { origin with enclave } node content

mutual

/-- The node that a remnant is in the excerpt if it joins no other. -/
def toNode : Remnant → Node
  | whole _ node => node
  | rebuilt _ node content => node.withChildren (joined (entries content))

def entries : List Remnant → List (Origin × Node)
  | [] => []
  | remnant :: rest => (remnant.origin, remnant.toNode) :: entries rest

end

end Remnant

/-- What is left of a node with what is left of its content. -/
def Treatment.remnants (origin : Origin) (node : Node) (content : List Remnant) :
    Treatment → List Remnant
  | drop => []
  | keep => [.whole origin node]
  | shorten value =>
    if value.isEmpty then [] else [.whole origin (node.withValue (String.ofList value))]
  | rebuild evenEmpty =>
    if content.isEmpty && !evenEmpty then [] else [.rebuilt origin node content]
  | splice _ => content

mutual

/-- What is left of a node at a path that starts at an offset. -/
def Node.remnants (config : Config) (window : Span) (path : List Nat) (start : Int)
    (node : Node) : List Remnant :=
  let treatment := (node.decision config window start).treatment
  match node with
  | .bare attributes => treatment.remnants ⟨path, none⟩ (.bare attributes) []
  | .parent attributes children =>
    treatment.remnants ⟨path, none⟩ (.parent attributes children)
      (Child.remnants config window path 0 start children)

/-- What is left of the children of a node at a path from an index on. -/
def Child.remnants (config : Config) (window : Span) (path : List Nat) (index : Nat)
    (start : Int) : List Child → List Remnant
  | [] => []
  | .stray _ :: rest => Child.remnants config window path (index + 1) start rest
  | .node child :: rest =>
    let isolated := (child.decision config window start).treatment = .splice true
    (child.remnants config window (path ++ [index]) start).map
        (Remnant.within (if isolated then some index else none)) ++
      Child.remnants config window path (index + 1) (start + child.length) rest

end

namespace Remnant

/-- What stands behind a first node in a chain of joining nodes is text like it and of its
enclave. -/
lemma of_isChain {first : Origin × Node} {rest : List (Origin × Node)}
    (h : (first :: rest).IsChain fun x y => joins x y = true) {entry : Origin × Node}
    (hm : entry ∈ rest) :
    first.2.isText = true ∧ entry.2.isText = true ∧ entry.1.enclave = first.1.enclave := by
  induction rest generalizing first with
  | nil => simp at hm
  | cons second rest ih =>
    obtain ⟨hjoins, htail⟩ := List.isChain_cons_cons.mp h
    simp only [joins, Bool.and_eq_true, beq_iff_eq] at hjoins
    obtain ⟨⟨hfirst, hsecond⟩, henclave⟩ := hjoins
    rcases List.mem_cons.mp hm with rfl | hm
    · exact ⟨hfirst, hsecond, henclave.symm⟩
    · obtain ⟨-, hentry, hsame⟩ := ih htail hm
      exact ⟨hfirst, hentry, hsame.trans henclave.symm⟩

/-- Joining a group gives one node. -/
lemma joinTexts_group {group : List (Origin × Node)}
    (h : group.IsChain fun x y => joins x y = true) :
    Node.joinTexts (group.map Prod.snd) = (Node.unite? (group.map Prod.snd)).toList := by
  match group with
  | [] => rfl
  | [entry] => rfl
  | first :: second :: rest =>
    have hfirst := (of_isChain h (List.mem_cons_self ..)).1
    rw [List.map_cons, Node.joinTexts, Node.joinFrom_of_isText hfirst]
    · rfl
    · intro node hm
      obtain ⟨entry, hentry, rfl⟩ := List.mem_map.mp hm
      exact (of_isChain h hentry).2.1

lemma joined_eq_flatMap (entries : List (Origin × Node)) :
    joined entries = (groups entries).flatMap fun group => Node.joinTexts (group.map Prod.snd) := by
  rw [joined, List.filterMap_eq_flatMap_toList]
  exact List.flatMap_congr fun group hg =>
    (joinTexts_group (List.isChain_of_mem_splitBy hg)).symm

/-- What joining by groups gives can still be joined with what follows. -/
lemma joinsLike_joined (entries : List (Origin × Node)) :
    Node.JoinsLike (joined entries) (entries.map Prod.snd) := by
  have hgroups : ∀ groups : List (List (Origin × Node)),
      Node.JoinsLike (groups.flatMap fun group => Node.joinTexts (group.map Prod.snd))
        (groups.flatten.map Prod.snd) := by
    intro groups
    induction groups with
    | nil => exact fun _ => rfl
    | cons group rest ih =>
      rw [List.flatMap_cons, List.flatten_cons, List.map_append]
      exact (Node.joinsLike_joinTexts _).append ih
  have h := hgroups (groups entries)
  rwa [← joined_eq_flatMap, groups, List.flatten_splitBy] at h

lemma joined_append {first second : List (Origin × Node)}
    (h : ∀ x ∈ first.getLast?, ∀ y ∈ second.head?, x.1.enclave ≠ y.1.enclave) :
    joined (first ++ second) = joined first ++ joined second := by
  rw [joined, groups, List.splitBy_append, List.filterMap_append]
  · rfl
  · intro x hx y hy
    simp [joins, h x hx y hy]

/-- Groups of one enclave that do not meet in text are joined apart. -/
lemma joinTexts_flatten {enclave : Option Nat} {groups : List (List (Origin × Node))}
    (hne : [] ∉ groups) (hsame : ∀ group ∈ groups, ∀ entry ∈ group, entry.1.enclave = enclave)
    (h : groups.IsChain fun a b => ∃ ha hb, joins (a.getLast ha) (b.head hb) = false) :
    Node.joinTexts (groups.flatten.map Prod.snd) =
      groups.flatMap fun group => Node.joinTexts (group.map Prod.snd) := by
  rw [List.map_flatten, Node.joinTexts_flatten, List.flatMap_map]
  · intro nodes hnodes
    obtain ⟨group, hgroup, rfl⟩ := List.mem_map.mp hnodes
    rw [Ne, List.map_eq_nil_iff]
    rintro rfl
    exact hne hgroup
  · refine (List.isChain_map _).mpr (h.imp_of_mem_imp ?_)
    rintro first next hfirst hnext ⟨ha, hb, hjoins⟩ x hx y hy
    rw [List.getLast?_map, List.getLast?_eq_some_getLast ha] at hx
    rw [List.head?_map, List.head?_eq_some_head hb] at hy
    obtain rfl : (first.getLast ha).2 = x := by simpa using hx
    obtain rfl : (next.head hb).2 = y := by simpa using hy
    simpa [joins, Node.bothText, hsame first hfirst _ (List.getLast_mem ha),
      hsame next hnext _ (List.head_mem hb)] using hjoins

/-- Where all are of one enclave, joining by groups is joining. -/
lemma joined_of_enclave {entries : List (Origin × Node)} {enclave : Option Nat}
    (h : ∀ entry ∈ entries, entry.1.enclave = enclave) :
    joined entries = Node.joinTexts (entries.map Prod.snd) := by
  have hflatten := List.flatten_splitBy joins entries
  rw [joined_eq_flatMap, groups, ← joinTexts_flatten (List.nil_notMem_splitBy _ _) _
    (List.isChain_getLast_head_splitBy _ _), hflatten]
  · exact enclave
  · intro group hg entry hm
    exact h entry (hflatten ▸ List.mem_flatten_of_mem hg hm)

@[simp] lemma joined_eq_nil_iff (entries : List (Origin × Node)) :
    joined entries = [] ↔ entries = [] := by
  rw [← Node.joinTexts_eq_nil_iff, (joinsLike_joined entries).joinTexts_eq,
    Node.joinTexts_eq_nil_iff, List.map_eq_nil_iff]

lemma entries_eq (remnants : List Remnant) :
    entries remnants = remnants.map fun remnant => (remnant.origin, remnant.toNode) := by
  induction remnants with
  | nil => rfl
  | cons remnant rest ih => rw [entries, ih, List.map_cons]

@[simp] lemma entries_append (first second : List Remnant) :
    entries (first ++ second) = entries first ++ entries second := by
  simp [entries_eq]

@[simp] lemma entries_eq_nil_iff (remnants : List Remnant) :
    entries remnants = [] ↔ remnants = [] := by
  simp [entries_eq]

@[simp] lemma toNode_within (enclave : Option Nat) (remnant : Remnant) :
    (remnant.within enclave).toNode = remnant.toNode := by
  cases remnant <;> simp [within, toNode]

@[simp] lemma origin_within (enclave : Option Nat) (remnant : Remnant) :
    (remnant.within enclave).origin = ⟨remnant.origin.path, enclave⟩ := by
  cases remnant <;> rfl

lemma map_snd_entries_within (enclave : Option Nat) (remnants : List Remnant) :
    (entries (remnants.map (within enclave))).map Prod.snd =
      (entries remnants).map Prod.snd := by
  simp [entries_eq]

lemma enclave_entries_within {enclave : Option Nat} {remnants : List Remnant}
    {entry : Origin × Node} (hm : entry ∈ entries (remnants.map (within enclave))) :
    entry.1.enclave = enclave := by
  simp only [entries_eq, List.mem_map] at hm
  obtain ⟨-, ⟨remnant, -, rfl⟩, rfl⟩ := hm
  simp

end Remnant

namespace Node

variable {config : Config} {window : Span}

/-- What a node leaves depends on its children only. -/
theorem remnants_eq (path : List Nat) (start : Int) (node : Node) :
    node.remnants config window path start =
      (node.decision config window start).treatment.remnants ⟨path, none⟩ node
        (Child.remnants config window path 0 start node.children) := by
  cases node <;> simp [remnants, Node.children, Child.remnants]

end Node

/-- The enclave that a child makes of itself, if it is isolated. -/
def Seat.enclave (config : Config) (window : Span) (seat : Seat) : Option Nat :=
  if (seat.node.decision config window seat.start).treatment = .splice true then some seat.index
  else none

lemma Seat.enclave_eq_some_iff {seat : Seat} {i : Nat} :
    seat.enclave config window = some i ↔
      (seat.node.decision config window seat.start).treatment = .splice true ∧ seat.index = i := by
  rw [enclave, Option.ite_none_right_eq_some, Option.some.injEq]

lemma Child.remnants_eq (path : List Nat) (index : Nat) (start : Int) (children : List Child) :
    Child.remnants config window path index start children =
      (seats index start children).flatMap fun seat =>
        (seat.node.remnants config window (path ++ [seat.index]) seat.start).map
          (Remnant.within (seat.enclave config window)) := by
  induction children generalizing index start with
  | nil => rfl
  | cons child rest ih => cases child <;> simp [remnants, seats, Seat.enclave, ih]

namespace Node

/-- What is left of the content of the node makes its new children when it is joined by groups. -/
def JoinsRight (config : Config) (window : Span) (node : Node) : Prop :=
  ∀ (path : List Nat) (start : Int), node.rebuilt config window start =
    Remnant.joined (Remnant.entries (Child.remnants config window path 0 start node.children))

lemma JoinsRight.isEmpty_rebuilt {node : Node} (h : node.JoinsRight config window)
    (path : List Nat) (start : Int) :
    (node.rebuilt config window start).isEmpty =
      (Child.remnants config window path 0 start node.children).isEmpty := by
  rw [Bool.eq_iff_iff, List.isEmpty_iff, List.isEmpty_iff, h path start]
  simp

/-- What comes out of a node joins with its siblings like what is left of it. -/
lemma JoinsRight.joinsLike {node : Node} (h : node.JoinsRight config window) (path : List Nat)
    (start : Int) :
    JoinsLike (node.outcome config window start).nodes
      ((Remnant.entries (node.remnants config window path start)).map Prod.snd) := by
  have hjoined := h path start
  rw [outcome_eq, remnants_eq]
  cases (node.decision config window start).treatment with
  | drop => exact fun _ => rfl
  | keep => exact fun _ => rfl
  | shorten value =>
    simp only [Treatment.emit, Treatment.remnants]
    split <;> exact fun _ => rfl
  | rebuild evenEmpty =>
    simp only [Treatment.emit, Treatment.remnants, h.isEmpty_rebuilt path]
    split
    · exact fun _ => rfl
    · rw [hjoined]
      exact fun _ => rfl
  | splice isolated =>
    simp only [Treatment.emit, Treatment.remnants, Outcome.nodes_content, hjoined]
    exact Remnant.joinsLike_joined _

lemma JoinsRight.isIsolated {node : Node} (h : node.JoinsRight config window) (path : List Nat)
    (start : Int) :
    (node.outcome config window start).isIsolated = true ↔
      (node.decision config window start).treatment = .splice true ∧
        node.remnants config window path start ≠ [] := by
  have hjoined := h path start
  rw [outcome_eq, remnants_eq]
  cases (node.decision config window start).treatment with
  | splice isolated =>
    simp only [Treatment.emit, Treatment.remnants, Outcome.content, hjoined]
    split <;> simp_all [Outcome.isIsolated]
  | shorten value =>
    simp only [Treatment.emit]
    split <;> simp [Outcome.isIsolated]
  | rebuild evenEmpty =>
    simp only [Treatment.emit]
    split <;> simp [Outcome.isIsolated]
  | _ => simp [Treatment.emit, Outcome.isIsolated]

end Node

namespace Remnant

/-- The siblings from an index on as runs that join apart: `front` up to the first isolated child,
and `behind` from there on. -/
structure Parted (index : Nat) (front behind : List (Origin × Node))
    (runs : List Node × List (List Node)) : Prop where
  free : ∀ entry ∈ front, entry.1.enclave = none
  like : Node.JoinsLike runs.1 (front.map Prod.snd)
  joined : Remnant.joined behind = runs.2.flatMap Node.joinTexts
  enclosed : ∀ entry ∈ behind.head?, entry.1.enclave ≠ none
  later : ∀ entry ∈ behind, ∀ i, entry.1.enclave = some i → index ≤ i

namespace Parted

variable {index : Nat} {front behind entries : List (Origin × Node)} {nodes : List Node}
  {runs : List Node × List (List Node)}

lemma joined_append (h : Parted index front behind runs) :
    Remnant.joined (front ++ behind) =
      Node.joinTexts runs.1 ++ runs.2.flatMap Node.joinTexts := by
  rw [Remnant.joined_append, joined_of_enclave h.free, h.like.joinTexts_eq, h.joined]
  intro x hx y hy
  rw [h.free x (List.mem_of_getLast? hx)]
  exact (h.enclosed y hy).symm

/-- A child that is not isolated goes in front of the siblings after it. -/
lemma prepend (h : Parted (index + 1) front behind runs)
    (hfree : ∀ entry ∈ entries, entry.1.enclave = none)
    (hlike : Node.JoinsLike nodes (entries.map Prod.snd)) :
    Parted index (entries ++ front) behind (nodes ++ runs.1, runs.2) where
  free entry hm := (List.mem_append.mp hm).elim (hfree entry) (h.free entry)
  like := by
    rw [List.map_append]
    exact hlike.append h.like
  joined := h.joined
  enclosed := h.enclosed
  later entry hm i hi := Nat.le_of_succ_le (h.later entry hm i hi)

/-- An isolated child stands apart from the siblings after it. -/
lemma isolate (h : Parted (index + 1) front behind runs)
    (hsame : ∀ entry ∈ entries, entry.1.enclave = some index) (hne : entries ≠ [])
    (hlike : Node.JoinsLike nodes (entries.map Prod.snd)) :
    Parted index [] (entries ++ (front ++ behind)) ([], nodes :: runs.1 :: runs.2) where
  free := by simp
  like := fun _ => rfl
  joined := by
    rw [Remnant.joined_append, h.joined_append, joined_of_enclave hsame, ← hlike.joinTexts_eq]
    · rfl
    · intro x hx y hy
      rw [hsame x (List.mem_of_getLast? hx)]
      rcases List.mem_append.mp (List.mem_of_head? hy) with hm | hm
      · rw [h.free y hm]
        simp
      · intro heq
        have hlater := h.later y hm index heq.symm
        omega
  enclosed entry hentry := by
    rw [List.head?_append_of_ne_nil _ hne] at hentry
    rw [hsame entry (List.mem_of_head? hentry)]
    simp
  later entry hm i hi := by
    rcases List.mem_append.mp hm with hm | hm
    · have heq := (hsame entry hm).symm.trans hi
      simp only [Option.some.injEq] at heq
      omega
    · rcases List.mem_append.mp hm with hm | hm
      · simp [h.free entry hm] at hi
      · have hlater := h.later entry hm i hi
        omega

end Parted
end Remnant

variable {config : Config} {window : Span}

/-- The remnants of children fall apart as their outcomes do. -/
lemma Child.parted_remnants {children : List Child}
    (hright : ∀ child ∈ Child.nodes children, child.JoinsRight config window) (path : List Nat)
    (index : Nat) (start : Int) :
    ∃ front behind, Remnant.entries (Child.remnants config window path index start children) =
        front ++ behind ∧
      Remnant.Parted index front behind
        (Outcome.runs (Child.outcomes config window start children)) := by
  induction children generalizing index start with
  | nil =>
    refine ⟨[], [], rfl, by simp, fun _ => rfl, rfl, by simp, by simp⟩
  | cons child rest ih =>
    cases child with
    | stray value =>
      obtain ⟨front, behind, heq, h⟩ := ih hright (index + 1) start
      exact ⟨front, behind, heq, h.free, h.like, h.joined, h.enclosed,
        fun entry hm i hi => Nat.le_of_succ_le (h.later entry hm i hi)⟩
    | node child =>
      obtain ⟨front, behind, heq, h⟩ :=
        ih (fun c hm => hright c (by simp [hm])) (index + 1) (start + child.length)
      have hchild := hright child (by simp)
      have hlike := hchild.joinsLike (path ++ [index]) start
      have hisolated := hchild.isIsolated (path ++ [index]) start
      simp only [remnants, Remnant.entries_append, heq, outcomes, Outcome.runs]
      by_cases hiso : (child.outcome config window start).isIsolated = true
      · obtain ⟨htreatment, hne⟩ := hisolated.mp hiso
        rw [if_pos htreatment, if_pos hiso]
        refine ⟨[], _, (List.nil_append _).symm, h.isolate ?_ ?_ ?_⟩
        · exact fun entry hm => Remnant.enclave_entries_within hm
        · simpa using hne
        · rwa [Remnant.map_snd_entries_within]
      · rw [if_neg hiso, ← List.append_assoc]
        refine ⟨_, _, rfl, h.prepend ?_ ?_⟩
        · intro entry hm
          rw [Remnant.enclave_entries_within hm]
          split
          · next htreatment =>
            -- An isolated child of which nothing is left has no entry either.
            have hnil : child.remnants config window (path ++ [index]) start = [] := by
              by_contra hne
              exact hiso (hisolated.mpr ⟨htreatment, hne⟩)
            simp [hnil, Remnant.entries] at hm
          · rfl
        · rwa [Remnant.map_snd_entries_within]

/-- Joining at every level on the way up is joining what is left by groups. -/
theorem Node.joinsRight (hjoin : config.text.mergeAdjacentText = true) (node : Node) :
    node.JoinsRight config window := by
  induction node using Node.inductionOn with
  | step node ih =>
    intro path start
    obtain ⟨front, behind, heq, h⟩ := Child.parted_remnants ih path 0 start
    rw [rebuilt, childNodes_eq, ← Child.outcomes_eq, heq, h.joined_append, hjoin]
    rfl

namespace Node

/-- What the excerpt in a window is left of, under a new root if the node itself is gone. -/
def remnant? (config : Config) (window : Span) (node : Node) : Option Remnant :=
  match (node.decision config window 0).treatment with
  | .splice _ =>
    let content := Child.remnants config window [] 0 0 node.children
    if content.isEmpty then none else some (.rebuilt ⟨[], none⟩ (rootOf []) content)
  | _ => (node.remnants config window [] 0).head?

/-- The tree that comes out is what is left of the node, joined by groups. -/
theorem tree?_outcome (hjoin : config.text.mergeAdjacentText = true) (node : Node) :
    (node.outcome config window 0).tree? = (node.remnant? config window).map Remnant.toNode := by
  have hright : node.JoinsRight config window := node.joinsRight hjoin
  have hjoined := hright [] 0
  have hempty := hright.isEmpty_rebuilt [] 0
  rw [outcome_eq, remnant?, remnants_eq]
  cases (node.decision config window 0).treatment with
  | drop => rfl
  | keep => rfl
  | shorten value =>
    simp only [Treatment.emit, Treatment.remnants]
    split <;> rfl
  | rebuild evenEmpty =>
    simp only [Treatment.emit, Treatment.remnants, hempty]
    split
    · rfl
    · rw [hjoined]
      rfl
  | splice isolated =>
    simp only [Treatment.emit, Outcome.content, hempty]
    split
    · rfl
    · rw [hjoined]
      rfl

end Node

end MarkdownExcerpt
