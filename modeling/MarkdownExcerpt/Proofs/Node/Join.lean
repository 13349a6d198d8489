import MarkdownExcerpt.Outcome
import MarkdownExcerpt.Proofs.Node.Children

/-! Joining text leaves among siblings. It keeps the characters, and it is one fold from the right,
so siblings that were joined before can be joined again with more siblings around them. -/
namespace MarkdownExcerpt

namespace Node

theorem kind_of_isText {node : Node} (h : node.isText = true) : node.kind = .leaf .text := by
  rw [kind, show node.type? = some "text" by simpa [isText] using h]
  decide

theorem bearsText_of_isText {node : Node} (h : node.isText = true) : node.bearsText = true := by
  rw [bearsText, kind_of_isText h]
  rfl

@[simp] theorem isText_joinText (first second : Node) :
    (first.joinText second).isText = first.isText := by simp [isText]

theorem characters_of_isText {node : Node} (h : node.isText = true) :
    node.characters = node.text.toList :=
  characters_of_bearsText (bearsText_of_isText h)

theorem characters_joinText {first second : Node} (hf : first.isText = true)
    (hs : second.isText = true) :
    (first.joinText second).characters = first.characters ++ second.characters := by
  rw [characters_of_isText hf, characters_of_isText hs, characters_of_isText (by simpa using hf)]
  simp

lemma characters_joinFrom (current : Node) (rest : List Node) :
    (joinFrom current rest).flatMap characters =
      current.characters ++ rest.flatMap characters := by
  induction rest generalizing current with
  | nil => simp [joinFrom]
  | cons next rest ih =>
    unfold joinFrom
    split
    · next h =>
      simp only [Bool.and_eq_true] at h
      rw [ih, characters_joinText h.1 h.2, List.flatMap_cons, List.append_assoc]
    · rw [List.flatMap_cons, ih, List.flatMap_cons]

theorem characters_joinTexts (nodes : List Node) :
    (joinTexts nodes).flatMap characters = nodes.flatMap characters := by
  cases nodes with
  | nil => rfl
  | cons node rest => exact characters_joinFrom node rest

@[simp] theorem mapAttributes_mapAttributes (f g : Fields → Fields) (node : Node) :
    (node.mapAttributes f).mapAttributes g = node.mapAttributes (g ∘ f) := by
  cases node <;> rfl

/-- Which two of three leaves join first makes no difference, not even to their attributes. -/
theorem joinText_assoc (first second third : Node) :
    (first.joinText second).joinText third = first.joinText (second.joinText third) := by
  have htext : (first.joinText second).text ++ third.text =
      first.text ++ (second.joinText third).text := by
    simp [String.append_assoc]
  rw [joinText, htext]
  simp only [joinText, withValue, without, mapAttributes_mapAttributes]
  congr 1
  funext attributes
  have hne : "value" ≠ "position" := by decide
  simp [Assoc.erase_set hne]

/-- Puts a node in front of siblings, joined to the first of them if both are text. -/
def push (node : Node) : List Node → List Node
  | [] => [node]
  | next :: rest =>
    if node.isText && next.isText then node.joinText next :: rest else node :: next :: rest

lemma push_of_joins {node next : Node} (hn : node.isText = true) (ht : next.isText = true)
    (rest : List Node) : push node (next :: rest) = node.joinText next :: rest := by
  simp [push, hn, ht]

lemma push_of_not_joins {node next : Node} (h : (node.isText && next.isText) = false)
    (rest : List Node) : push node (next :: rest) = node :: next :: rest := by
  simp [push, h]

/-- What is put in front first shows its own kind. -/
lemma push_eq_cons (node : Node) (siblings : List Node) :
    ∃ first rest, push node siblings = first :: rest ∧ first.isText = node.isText := by
  cases siblings with
  | nil => exact ⟨node, [], rfl, rfl⟩
  | cons next rest =>
    by_cases h : (node.isText && next.isText) = true
    · exact ⟨node.joinText next, rest, by simp only [push, h, if_true], by simp⟩
    · exact ⟨node, next :: rest, push_of_not_joins (by simpa using h) rest, rfl⟩

lemma push_of_not_joins_push {node next : Node} (h : (node.isText && next.isText) = false)
    (siblings : List Node) : push node (push next siblings) = node :: push next siblings := by
  obtain ⟨first, rest, heq, htext⟩ := push_eq_cons next siblings
  rw [heq, push_of_not_joins (by rwa [htext])]

/-- Two leaves that join can be put in front as one. -/
lemma push_joinText {node next : Node} (hn : node.isText = true) (ht : next.isText = true)
    (siblings : List Node) :
    push (node.joinText next) siblings = push node (push next siblings) := by
  cases siblings with
  | nil => simp [push, hn, ht]
  | cons first rest =>
    by_cases hf : first.isText = true
    · simp [push, hn, ht, hf, joinText_assoc]
    · simp [push, hn, ht, hf]

lemma joinFrom_eq_push (current : Node) (rest : List Node) :
    joinFrom current rest = push current (joinTexts rest) := by
  induction rest generalizing current with
  | nil => rfl
  | cons next rest ih =>
    rw [joinTexts, ih next]
    unfold joinFrom
    split
    · next h =>
      simp only [Bool.and_eq_true] at h
      rw [ih, push_joinText h.1 h.2]
    · next h => rw [ih, push_of_not_joins_push (by simpa using h)]

theorem joinTexts_cons (node : Node) (rest : List Node) :
    joinTexts (node :: rest) = push node (joinTexts rest) := joinFrom_eq_push node rest

theorem joinTexts_append (first second : List Node) :
    joinTexts (first ++ second) = first.foldr push (joinTexts second) := by
  induction first with
  | nil => rfl
  | cons node rest ih => rw [List.cons_append, joinTexts_cons, ih, List.foldr_cons]

lemma foldr_push_push (node : Node) (siblings after : List Node) :
    (push node siblings).foldr push after = push node (siblings.foldr push after) := by
  cases siblings with
  | nil => rfl
  | cons next rest =>
    by_cases h : (node.isText && next.isText) = true
    · have h' := h
      simp only [Bool.and_eq_true] at h'
      rw [push_of_joins h'.1 h'.2, List.foldr_cons, List.foldr_cons, push_joinText h'.1 h'.2]
    · rw [push_of_not_joins (by simpa using h)]
      rfl

lemma foldr_push_joinTexts (siblings after : List Node) :
    (joinTexts siblings).foldr push after = siblings.foldr push after := by
  induction siblings with
  | nil => rfl
  | cons node rest ih => rw [joinTexts_cons, foldr_push_push, ih, List.foldr_cons]

/-- Two lists of siblings that give the same when they are joined with what follows. -/
def JoinsLike (first second : List Node) : Prop :=
  ∀ after : List Node, first.foldr push after = second.foldr push after

lemma joinTexts_eq_foldr (nodes : List Node) : joinTexts nodes = nodes.foldr push [] := by
  have h := joinTexts_append nodes []
  rwa [List.append_nil] at h

lemma joinsLike_joinTexts (nodes : List Node) : JoinsLike (joinTexts nodes) nodes :=
  fun after => foldr_push_joinTexts nodes after

lemma JoinsLike.append {first second third fourth : List Node} (h : JoinsLike first second)
    (h' : JoinsLike third fourth) : JoinsLike (first ++ third) (second ++ fourth) := by
  intro after
  rw [List.foldr_append, List.foldr_append, h' after, h]

lemma JoinsLike.joinTexts_eq {first second : List Node} (h : JoinsLike first second) :
    joinTexts first = joinTexts second := by
  rw [joinTexts_eq_foldr, joinTexts_eq_foldr, h]

/-- Siblings that were joined before join with what is around them as if they had not been. -/
theorem joinTexts_joinTexts_between (before siblings after : List Node) :
    joinTexts (before ++ joinTexts siblings ++ after) = joinTexts (before ++ siblings ++ after) := by
  simp only [List.append_assoc, joinTexts_append, foldr_push_joinTexts]

lemma push_append {siblings : List Node} (h : siblings ≠ []) (node : Node) (after : List Node) :
    push node (siblings ++ after) = push node siblings ++ after := by
  cases siblings with
  | nil => exact absurd rfl h
  | cons next rest => by_cases hj : (node.isText && next.isText) = true <;> simp [push, hj]

/-- Siblings that do not meet in text are joined apart. -/
theorem joinTexts_append_of_not_joins {first second : List Node}
    (h : ∀ x ∈ first.getLast?, ∀ y ∈ second.head?, (x.isText && y.isText) = false) :
    joinTexts (first ++ second) = joinTexts first ++ joinTexts second := by
  induction first with
  | nil => rfl
  | cons node rest ih =>
    rw [List.cons_append, joinTexts_cons, joinTexts_cons]
    cases rest with
    | nil =>
      cases second with
      | nil => rfl
      | cons next others =>
        obtain ⟨front, behind, heq, htext⟩ := push_eq_cons next (joinTexts others)
        have hmeet := h node (by simp) next (by simp)
        rw [List.nil_append, joinTexts_cons, heq, push_of_not_joins (by rwa [htext])]
        rfl
    | cons next others =>
      rw [ih fun x hx => h x (by simpa using hx), push_append (by simp)]

end Node

namespace Outcome

/-- The document text in what comes out. -/
def characters (outcome : Outcome) : List Char := outcome.nodes.flatMap Node.characters

/-- New children have the text of the outcomes, joined or not. -/
theorem characters_assemble (join : Bool) (outcomes : List Outcome) :
    (assemble join outcomes).flatMap Node.characters = outcomes.flatMap characters := by
  have hrun : ∀ run : List Node, (if join then Node.joinTexts run else run).flatMap
      Node.characters = run.flatMap Node.characters := by
    intro run
    cases join
    · rfl
    · exact Node.characters_joinTexts run
  calc (assemble join outcomes).flatMap Node.characters
      = ((runs outcomes).1 :: (runs outcomes).2).flatMap
          fun run => run.flatMap Node.characters := by
        simp only [assemble, List.flatMap_assoc, hrun]
    _ = ((runs outcomes).1 ++ (runs outcomes).2.flatten).flatMap Node.characters := by
        rw [← List.flatten_cons, ← List.flatMap_id, List.flatMap_assoc]
        rfl
    _ = outcomes.flatMap characters := by
        rw [flatten_runs, List.flatMap_assoc]
        rfl

end Outcome
end MarkdownExcerpt
