import MarkdownExcerpt.Node

/-! Joining text leaves that follow one another among siblings. -/

namespace MarkdownExcerpt.Node

/-- A text leaf followed by another, as one. It keeps the attributes of the first, but for the
position, which is no longer right. -/
def joinText (first second : Node) : Node :=
  (first.withValue (first.text ++ second.text)).without "position"

/-- Joins what can be joined to a node and what follows in the rest. -/
def joinFrom (current : Node) : List Node → List Node
  | [] => [current]
  | next :: rest =>
    if current.isText && next.isText then joinFrom (current.joinText next) rest
    else current :: joinFrom next rest

/-- One leaf for each run of text leaves. -/
def joinTexts : List Node → List Node
  | [] => []
  | node :: rest => joinFrom node rest

@[simp] theorem type?_joinText (first second : Node) :
    (first.joinText second).type? = first.type? := by
  simp [joinText, type?, attribute?_without, attribute?_withValue]

@[simp] theorem text_joinText (first second : Node) :
    (first.joinText second).text = first.text ++ second.text := by
  simp [joinText, text, attribute?_without, attribute?_withValue, Json.text?]

theorem joinFrom_ne_nil (current : Node) (rest : List Node) : joinFrom current rest ≠ [] := by
  induction rest generalizing current with
  | nil => simp [joinFrom]
  | cons next rest ih =>
    unfold joinFrom
    split
    · exact ih _
    · simp

@[simp] theorem joinTexts_eq_nil_iff (nodes : List Node) : joinTexts nodes = [] ↔ nodes = [] := by
  cases nodes <;> simp [joinTexts, joinFrom_ne_nil]

example : joinTexts [.bare [("type", .str "text"), ("value", .str "a")],
      .bare [("type", .str "text"), ("value", .str "b")], .bare [("type", .str "break")]] =
    [.bare [("type", .str "text"), ("value", .str "ab")], .bare [("type", .str "break")]] := rfl

end MarkdownExcerpt.Node
