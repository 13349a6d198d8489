import Mathlib.Data.List.SplitBy
import MarkdownExcerpt.Proofs.Node.Join

/-! Siblings as runs of text leaves and single other nodes. Joining looks at one neighbour at a
time, and the leaf that it compares with has grown already; what it comes to is one leaf for each run
that is as long as can be. -/
namespace MarkdownExcerpt.Node

/-- What joining makes of a run. A longer one becomes its first leaf without the position and with
all the text; a node by itself stays what it is. -/
def ofRun : List Node → List Node
  | first :: second :: rest =>
    [(first.withValue (String.join ((first :: second :: rest).map text))).without "position"]
  | run => run

/-- Siblings that go together: text leaves only, or one node of any kind. -/
def IsRun (run : List Node) : Prop := (∀ node ∈ run, node.isText = true) ∨ ∃ node, run = [node]

/-- A list of siblings cut into runs of text leaves and single other nodes, none of which could be
longer. -/
structure AreRuns (nodes : List Node) (runs : List (List Node)) : Prop where
  flatten_eq : runs.flatten = nodes
  ne_nil : ∀ run ∈ runs, run ≠ []
  isRun : ∀ run ∈ runs, IsRun run
  /-- Of two runs that follow each other one is no text. -/
  apart : runs.IsChain fun run next => ¬∀ node ∈ run ++ next, node.isText = true

def bothText (first second : Node) : Bool := first.isText && second.isText

/-- A run of text leaves becomes one leaf. -/
lemma joinFrom_of_isText {current : Node} {rest : List Node} (hc : current.isText = true)
    (h : ∀ node ∈ rest, node.isText = true) :
    joinFrom current rest = [rest.foldl joinText current] := by
  induction rest generalizing current with
  | nil => rfl
  | cons next rest ih =>
    have hn : next.isText = true := h next (by simp)
    simp only [joinFrom, hc, hn, Bool.and_true, if_true, List.foldl_cons]
    exact ih (by simpa using hc) fun node hm => h node (by simp [hm])

/-- Groups of siblings that do not meet in text are joined apart. -/
lemma joinTexts_flatten {groups : List (List Node)} (hne : ∀ group ∈ groups, group ≠ [])
    (h : groups.IsChain fun a b => ∀ x ∈ a.getLast?, ∀ y ∈ b.head?, bothText x y = false) :
    joinTexts groups.flatten = groups.flatMap joinTexts := by
  induction groups with
  | nil => rfl
  | cons group rest ih =>
    rw [List.flatten_cons, List.flatMap_cons, joinTexts_append_of_not_joins,
      ih (fun g hg => hne g (by simp [hg])) h.tail]
    intro x hx y hy
    cases rest with
    | nil => simp at hy
    | cons next others =>
      obtain ⟨hmeet, -⟩ := List.isChain_cons_cons.mp h
      have hnext : next ≠ [] := hne next (by simp)
      rw [List.flatten_cons, List.head?_append_of_ne_nil _ hnext] at hy
      exact hmeet x hx y hy

/-- A leaf that has grown already grows like the leaf that it was at first. -/
lemma without_withValue_joinText (first second : Node) (value : String) :
    ((first.joinText second).withValue value).without "position" =
      (first.withValue value).without "position" := by
  simp only [joinText, withValue, without, mapAttributes_mapAttributes]
  congr 1
  funext attributes
  have hne : "value" ≠ "position" := by decide
  simp [Assoc.erase_set hne]

lemma foldl_joinText (first second : Node) (rest : List Node) :
    (second :: rest).foldl joinText first =
      (first.withValue (String.join ((first :: second :: rest).map text))).without "position" := by
  induction rest generalizing first second with
  | nil => simp [joinText, String.join]
  | cons third rest ih =>
    rw [List.foldl_cons, ih, without_withValue_joinText]
    simp only [List.map_cons, text_joinText, String.join_cons, String.append_assoc]

/-- Joining a run by itself. -/
lemma joinTexts_run {run : List Node} (h : IsRun run) : joinTexts run = ofRun run := by
  match run, h with
  | [], _ => rfl
  | [_], _ => rfl
  | first :: second :: rest, .inl htext =>
    obtain ⟨hfirst, hrest⟩ := List.forall_mem_cons.mp htext
    rw [joinTexts, joinFrom_of_isText hfirst hrest, foldl_joinText]
    rfl

namespace AreRuns

variable {nodes : List Node} {runs : List (List Node)}

/-- A text leaf stands among text leaves only. -/
lemma isText_of_mem {run : List Node} (h : IsRun run) {leaf : Node} (hm : leaf ∈ run)
    (hleaf : leaf.isText = true) : ∀ node ∈ run, node.isText = true := by
  rcases h with h | ⟨node, rfl⟩
  · exact h
  · obtain rfl := List.mem_singleton.mp hm
    simpa using hleaf

lemma not_bothText (h : AreRuns nodes runs) :
    runs.IsChain fun a b => ∀ x ∈ a.getLast?, ∀ y ∈ b.head?, bothText x y = false := by
  obtain ⟨-, -, hruns, hapart⟩ := h
  refine hapart.imp_of_mem_imp ?_
  intro a b ha hb hnot x hx y hy
  by_contra hboth
  simp only [bothText, Bool.not_eq_false, Bool.and_eq_true] at hboth
  refine hnot fun node hm => ?_
  rcases List.mem_append.mp hm with hm | hm
  · exact isText_of_mem (hruns a ha) (List.mem_of_getLast? hx) hboth.1 node hm
  · exact isText_of_mem (hruns b hb) (List.mem_of_head? hy) hboth.2 node hm

/-- Joining siblings is joining each of their runs. -/
theorem joinTexts_eq (h : AreRuns nodes runs) : joinTexts nodes = runs.flatMap ofRun := by
  rw [← h.flatten_eq, joinTexts_flatten h.ne_nil h.not_bothText]
  exact List.flatMap_congr fun run hm => joinTexts_run (h.isRun run hm)

end AreRuns

/-- What follows a text leaf in a chain of neighbouring text is text. -/
lemma isText_of_isChain {first : Node} {rest : List Node}
    (h : (first :: rest).IsChain fun x y => bothText x y = true) :
    ∀ node ∈ rest, node.isText = true := by
  induction rest generalizing first with
  | nil => simp
  | cons second rest ih =>
    obtain ⟨hboth, htail⟩ := List.isChain_cons_cons.mp h
    simp only [bothText, Bool.and_eq_true] at hboth
    exact List.forall_mem_cons.mpr ⟨hboth.2, ih htail⟩

lemma isRun_of_isChain {run : List Node} (h : run.IsChain fun x y => bothText x y = true) :
    IsRun run := by
  match run with
  | [] => exact .inl (by simp)
  | [node] => exact .inr ⟨node, rfl⟩
  | first :: second :: rest =>
    have hboth := (List.isChain_cons_cons.mp h).1
    simp only [bothText, Bool.and_eq_true] at hboth
    exact .inl (List.forall_mem_cons.mpr ⟨hboth.1, isText_of_isChain h⟩)

/-- Any siblings can be cut into such runs. -/
theorem areRuns_splitBy (nodes : List Node) : AreRuns nodes (nodes.splitBy bothText) where
  flatten_eq := List.flatten_splitBy bothText nodes
  ne_nil _ hm := List.ne_nil_of_mem_splitBy hm
  isRun _ hm := isRun_of_isChain (List.isChain_of_mem_splitBy hm)
  apart := by
    refine (List.isChain_getLast_head_splitBy bothText nodes).imp ?_
    rintro run next ⟨hrun, hnext, hmeet⟩ htext
    have hlast := htext _ (List.mem_append_left _ (List.getLast_mem hrun))
    have hhead := htext _ (List.mem_append_right _ (List.head_mem hnext))
    rw [bothText, hlast, hhead] at hmeet
    exact Bool.noConfusion hmeet

lemma text_rootOf (nodes : List Node) :
    (Document.tree (rootOf nodes)).text = .ok (String.ofList (nodes.flatMap characters)) := by
  have hroot : (rootOf nodes).bearsText = false := rfl
  rw [Document.text, characters_of_not_bearsText hroot, childNodes_rootOf]

/-- Joining siblings makes one leaf of each run, whichever way they are cut into runs, and they can
be cut so. It leaves what it gives as it is, keeps the text, gives nothing for nothing only, and may
be done early for some of the siblings. -/
theorem joinTexts_by_runs (nodes : List Node) :
    (∃ runs, AreRuns nodes runs) ∧
      (∀ runs, AreRuns nodes runs → joinTexts nodes = runs.flatMap ofRun) ∧
      joinTexts (joinTexts nodes) = joinTexts nodes ∧
      (Document.tree (rootOf (joinTexts nodes))).text = (Document.tree (rootOf nodes)).text ∧
      (joinTexts nodes = [] ↔ nodes = []) ∧
      ∀ before after : List Node,
        joinTexts (before ++ joinTexts nodes ++ after) = joinTexts (before ++ nodes ++ after) := by
  refine ⟨⟨_, areRuns_splitBy nodes⟩, fun _ h => h.joinTexts_eq, ?_, ?_, joinTexts_eq_nil_iff nodes,
    fun before after => joinTexts_joinTexts_between before nodes after⟩
  · simpa using joinTexts_joinTexts_between [] nodes []
  · rw [text_rootOf, text_rootOf, characters_joinTexts]

end MarkdownExcerpt.Node
