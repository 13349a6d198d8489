import MarkdownExcerpt.Assoc
import MarkdownExcerpt.Json
import MarkdownExcerpt.Text.Blank

/-! Closed sets of policy words. A word is read with some freedom: blank edges, letter case,
underscores for hyphens and older words of the set do not matter. It is written in one way. -/

namespace MarkdownExcerpt

/-- A closed set of policies with the words for its members. -/
class Vocabulary (α : Type) where
  /-- The name of the set in messages. -/
  label : String
  /-- The members, in the alphabetical order of their words. -/
  members : List α
  word : α → String
  /-- Older words and the members that they stand for. -/
  aliases : List (String × α)

/-- Why a value is no policy. -/
inductive PolicyError where
  | notText (kind : String)
  | unsupported (label raw : String) (allowed : List String)
  deriving DecidableEq, Repr

namespace PolicyError

def quoted (text : String) : String := "'" ++ text ++ "'"

def message : PolicyError → String
  | notText kind => "Policy must be a string, got " ++ kind
  | unsupported label raw allowed =>
    "Unsupported " ++ label ++ " " ++ quoted raw ++ ". Allowed values: [" ++
      ", ".intercalate (allowed.map quoted) ++ "]"

end PolicyError

namespace Vocabulary

/-- Lower case, with hyphens for underscores. No policy word holds a letter that a capital outside
ASCII turns into, so ASCII letters are all that has to be changed. -/
def plainChar (c : Char) : Char := if c = '_' then '-' else c.toLower

def plain (raw : String) : String := String.ofList ((Text.trim raw).toList.map plainChar)

variable {α : Type} [Vocabulary α]

def ofWord? (text : String) : Option α := (members : List α).find? fun p => word p == text

/-- The policy that a text names; an older word counts before a present one. -/
def ofText? (raw : String) : Option α :=
  match Assoc.get? (plain raw) (aliases : List (String × α)) with
  | some policy => some policy
  | none => ofWord? (plain raw)

def ofText (raw : String) : Except PolicyError α :=
  match ofText? raw with
  | some policy => .ok policy
  | none => .error (.unsupported (label α) raw ((members : List α).map word))

def ofJson : Json → Except PolicyError α
  | .str raw => ofText raw
  | value => .error (.notText value.kindName)

theorem ofText_eq_ok_iff {raw : String} {policy : α} :
    ofText raw = .ok policy ↔ ofText? raw = some policy := by
  unfold ofText
  cases (ofText? raw : Option α) <;> simp

end Vocabulary

/-- Sets in which each member is found by its own word and hidden by no older word. -/
class LawfulVocabulary (α : Type) [Vocabulary α] : Prop where
  ofWord?_word (policy : α) : Vocabulary.ofWord? (Vocabulary.word policy) = some policy
  ofText?_word (policy : α) : Vocabulary.ofText? (Vocabulary.word policy) = some policy

theorem Vocabulary.ofJson_word {α : Type} [Vocabulary α] [LawfulVocabulary α] (policy : α) :
    ofJson (.str (word policy)) = .ok policy :=
  ofText_eq_ok_iff.mpr (LawfulVocabulary.ofText?_word policy)

end MarkdownExcerpt
