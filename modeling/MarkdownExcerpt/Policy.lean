import MarkdownExcerpt.Node.Kind
import MarkdownExcerpt.Policy.Vocabulary

/-! The policies for nodes that a range covers only in part, one set of them for each class of
kinds, and the policy for blank characters at the edges of cut text. -/

namespace MarkdownExcerpt

inductive LeafPolicy where
  | truncate | includeFull | excludeFull
  deriving DecidableEq, Repr

inductive FormattingPolicy where
  | preserve | strip | extend | exclude
  deriving DecidableEq, Repr

inductive MediaPolicy where
  | preserve | strip | contentOnly
  deriving DecidableEq, Repr

inductive BlockPolicy where
  | include | exclude | unwrap
  deriving DecidableEq, Repr

inductive WhitespacePolicy where
  | trim | normalize | preserve
  deriving DecidableEq, Repr

instance : Vocabulary LeafPolicy where
  label := "LeafPolicy"
  members := [.excludeFull, .includeFull, .truncate]
  word
    | .truncate => "truncate"
    | .includeFull => "include-full"
    | .excludeFull => "exclude-full"
  aliases := [("trim", .truncate), ("preserve", .includeFull), ("exclude", .excludeFull)]

instance : Vocabulary FormattingPolicy where
  label := "FormattingPolicy"
  members := [.exclude, .extend, .preserve, .strip]
  word
    | .preserve => "preserve"
    | .strip => "strip"
    | .extend => "extend"
    | .exclude => "exclude"
  aliases := [("trim", .strip), ("content", .preserve)]

instance : Vocabulary MediaPolicy where
  label := "MediaPolicy"
  members := [.contentOnly, .preserve, .strip]
  word
    | .preserve => "preserve"
    | .strip => "strip"
    | .contentOnly => "content-only"
  aliases := [("content", .preserve), ("trim", .contentOnly), ("exclude", .strip)]

instance : Vocabulary BlockPolicy where
  label := "BlockPolicy"
  members := [.exclude, .include, .unwrap]
  word
    | .include => "include"
    | .exclude => "exclude"
    | .unwrap => "unwrap"
  aliases := []

instance : Vocabulary WhitespacePolicy where
  label := "WhitespacePolicy"
  members := [.normalize, .preserve, .trim]
  word
    | .trim => "trim"
    | .normalize => "normalize"
    | .preserve => "preserve"
  aliases := []

/-- The sets of policies, by name. -/
inductive PolicyClass where
  | leaf | formatting | media | block | whitespace
  deriving DecidableEq, Repr

namespace PolicyClass

def label : PolicyClass → String
  | leaf => Vocabulary.label LeafPolicy
  | formatting => Vocabulary.label FormattingPolicy
  | media => Vocabulary.label MediaPolicy
  | block => Vocabulary.label BlockPolicy
  | whitespace => Vocabulary.label WhitespacePolicy

def ofLabel? (text : String) : Option PolicyClass :=
  [leaf, formatting, media, block, whitespace].find? fun c => c.label == text

/-- The word in present use for a value that names a policy of the class. -/
def normalize (value : Json) : PolicyClass → Except PolicyError String
  | leaf => (Vocabulary.ofJson value : Except _ LeafPolicy).map Vocabulary.word
  | formatting => (Vocabulary.ofJson value : Except _ FormattingPolicy).map Vocabulary.word
  | media => (Vocabulary.ofJson value : Except _ MediaPolicy).map Vocabulary.word
  | block => (Vocabulary.ofJson value : Except _ BlockPolicy).map Vocabulary.word
  | whitespace => (Vocabulary.ofJson value : Except _ WhitespacePolicy).map Vocabulary.word

end PolicyClass

/-- A policy of any class that kinds of nodes have. -/
inductive Policy where
  | leaf (policy : LeafPolicy)
  | formatting (policy : FormattingPolicy)
  | media (policy : MediaPolicy)
  | block (policy : BlockPolicy)
  deriving DecidableEq, Repr

def Policy.word : Policy → String
  | leaf policy => Vocabulary.word policy
  | formatting policy => Vocabulary.word policy
  | media policy => Vocabulary.word policy
  | block policy => Vocabulary.word policy

instance : LawfulVocabulary LeafPolicy where
  ofWord?_word policy := by cases policy <;> decide
  ofText?_word policy := by cases policy <;> decide

instance : LawfulVocabulary FormattingPolicy where
  ofWord?_word policy := by cases policy <;> decide
  ofText?_word policy := by cases policy <;> decide

instance : LawfulVocabulary MediaPolicy where
  ofWord?_word policy := by cases policy <;> decide
  ofText?_word policy := by cases policy <;> decide

instance : LawfulVocabulary BlockPolicy where
  ofWord?_word policy := by cases policy <;> decide
  ofText?_word policy := by cases policy <;> decide

instance : LawfulVocabulary WhitespacePolicy where
  ofWord?_word policy := by cases policy <;> decide
  ofText?_word policy := by cases policy <;> decide

example : Vocabulary.ofText? " Include_Full\n" = some LeafPolicy.includeFull := by decide

example : Vocabulary.ofText? "trim" = some MediaPolicy.contentOnly := by decide

end MarkdownExcerpt
