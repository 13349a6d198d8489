import MarkdownExcerpt.Document
import MarkdownExcerpt.Excerpt
import MarkdownExcerpt.Meter

/-! The text of a document and where a piece of text occurs in it. -/

namespace MarkdownExcerpt

mutual

/-- The values of the leaves that bear text, in order, as one text. -/
def Node.characters (node : Node) : List Char :=
  if node.bearsText then node.text.toList
  else
    match node with
    | .bare _ => []
    | .parent _ children => Child.charactersOfList children

def Child.characters : Child → List Char
  | .node node => node.characters
  | .stray _ => []

def Child.charactersOfList : List Child → List Char
  | [] => []
  | child :: rest => child.characters ++ Child.charactersOfList rest

end

/-- The text of a node is its own text, or else that of its children. -/
theorem Node.characters_eq (node : Node) :
    node.characters =
      if node.bearsText then node.text.toList else Child.charactersOfList node.children := by
  cases node <;> simp [Node.characters, Node.children, Child.charactersOfList]

mutual

/-- The length of a node counts the characters of its text. -/
theorem Node.length_characters : (node : Node) → node.characters.length = node.length
  | .bare attributes => by
    rw [Node.characters_eq, Node.length_eq]
    by_cases h : (Node.bare attributes).bearsText
    · simp [h, String.length_toList]
    · simp [h, Node.children, Child.charactersOfList, Child.lengthOfList]
  | .parent attributes children => by
    rw [Node.characters_eq, Node.length_eq]
    by_cases h : (Node.parent attributes children).bearsText
    · simp [h, String.length_toList]
    · simp [h, Node.children, Child.length_charactersOfList children]

theorem Child.length_characters : (child : Child) → child.characters.length = child.length
  | .node node => node.length_characters
  | .stray _ => rfl

theorem Child.length_charactersOfList :
    (children : List Child) →
      (Child.charactersOfList children).length = Child.lengthOfList children
  | [] => rfl
  | child :: rest => by
    simp [Child.charactersOfList, Child.lengthOfList, child.length_characters,
      Child.length_charactersOfList rest]

end

/-- The first offset at which a piece of text starts, counted from the offset of the first
character. -/
def Text.first? (needle : List Char) (offset : Nat) : List Char → Option Nat
  | [] => none
  | c :: rest =>
    if needle.isPrefixOf (c :: rest) then some offset else first? needle (offset + 1) rest

theorem Text.first?_bounds {needle cs : List Char} {offset found : Nat}
    (h : first? needle offset cs = some found) : offset ≤ found ∧ found < offset + cs.length := by
  induction cs generalizing offset with
  | nil => cases h
  | cons c rest ih =>
    simp only [first?] at h
    rw [List.length_cons]
    split at h
    · obtain rfl := Option.some.inj h
      omega
    · have hrest := ih h
      omega

/-- The offsets from a given one on at which a piece of text starts. The search goes on one
character after what it found, so occurrences may overlap. -/
def Text.occurrences (needle text : List Char) (start : Nat) : List Nat :=
  match h : first? needle start (text.drop start) with
  | none => []
  | some found => found :: occurrences needle text (found + 1)
termination_by text.length - start
decreasing_by
  have hfound := first?_bounds h
  rw [List.length_drop] at hfound
  omega

namespace Document

def text : Document → Except Failure String
  | empty => .ok ""
  | malformed => .error .notTree
  | tree node => .ok (String.ofList node.characters)

/-- The offsets at which a value occurs as text. Nothing given is found nowhere, whatever the
document is. -/
def find (needle : Json) (document : Document) : Except Failure (List Nat) :=
  if needle.isVacuous then .ok []
  else
    match document.text with
    | .error failure => .error failure
    | .ok text =>
      match needle with
      | .str needle => .ok (Text.occurrences needle.toList text.toList 0)
      | _ => .error .notText

end Document

example : Text.occurrences ['a', 'a'] ['a', 'a', 'a', 'a'] 0 = [0, 1, 2] := by cbv

end MarkdownExcerpt
