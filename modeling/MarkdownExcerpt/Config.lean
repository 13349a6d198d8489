import MarkdownExcerpt.Policy
import MarkdownExcerpt.Validation.Scalar

/-! What to do with nodes that a range covers only in part, how to clean cut text, and which
auxiliary content to leave out. -/

namespace MarkdownExcerpt

/-- A policy for one type of nodes in place of the one for its category. -/
inductive Override where
  | leaf (kind : LeafKind) (policy : LeafPolicy)
  | formatting (kind : FormattingKind) (policy : FormattingPolicy)
  | media (kind : MediaKind) (policy : MediaPolicy)
  | block (kind : BlockKind) (policy : BlockPolicy)
  deriving DecidableEq, Repr

namespace Override

/-- The type of node that the override is for. -/
def type : Override → String
  | leaf kind _ => kind.name
  | formatting kind _ => kind.name
  | media kind _ => kind.name
  | block kind _ => kind.name

def policy : Override → Policy
  | leaf _ policy => .leaf policy
  | formatting _ policy => .formatting policy
  | media _ policy => .media policy
  | block _ policy => .block policy

def leafPolicy? (kind : LeafKind) : Override → Option LeafPolicy
  | leaf other policy => if other = kind then some policy else none
  | _ => none

def formattingPolicy? (kind : FormattingKind) : Override → Option FormattingPolicy
  | formatting other policy => if other = kind then some policy else none
  | _ => none

def mediaPolicy? (kind : MediaKind) : Override → Option MediaPolicy
  | media other policy => if other = kind then some policy else none
  | _ => none

def blockPolicy? (kind : BlockKind) : Override → Option BlockPolicy
  | block other policy => if other = kind then some policy else none
  | _ => none

end Override

/-- Policies for partly covered nodes, by category and, before that, by type. -/
structure Behavior where
  text : LeafPolicy := .truncate
  inlineCode : LeafPolicy := .truncate
  code : LeafPolicy := .truncate
  formatting : FormattingPolicy := .preserve
  media : MediaPolicy := .preserve
  block : BlockPolicy := .include
  overrides : List Override := []
  deriving DecidableEq, Repr

/-- How cut text is cleaned and whether neighbouring text leaves become one. -/
structure TextCleanup where
  whitespace : WhitespacePolicy := .trim
  mergeAdjacentText : Bool := true
  deriving DecidableEq, Repr

/-- Which auxiliary nodes stay. -/
structure Inclusion where
  html : Bool := true
  definitions : Bool := true
  footnoteDefinitions : Bool := true
  deriving DecidableEq, Repr

structure Config where
  behavior : Behavior := {}
  text : TextCleanup := {}
  content : Inclusion := {}
  /-- Whether containers whose children are all gone stay; lists never do. -/
  preserveEmptyBlocks : Bool := true
  deriving DecidableEq, Repr

/-- A word that names no policy of the class it is asked for. -/
structure PolicyMismatch where
  word : String
  label : String
  deriving DecidableEq, Repr

def PolicyMismatch.message (mismatch : PolicyMismatch) : String :=
  PolicyError.quoted mismatch.word ++ " is not a valid " ++ mismatch.label

namespace Category

/-- The class of policies that nodes of a category have. -/
def policyClass? : Category → Option PolicyClass
  | text => some .leaf
  | inlineCode => some .leaf
  | codeBlock => some .leaf
  | formatting => some .formatting
  | media => some .media
  | block => some .block
  | _ => none

end Category

/-- The policy of a class that a word in present use names. -/
def Policy.ofWord? (word : String) : PolicyClass → Option Policy
  | .leaf => (Vocabulary.ofWord? word).map .leaf
  | .formatting => (Vocabulary.ofWord? word).map .formatting
  | .media => (Vocabulary.ofWord? word).map .media
  | .block => (Vocabulary.ofWord? word).map .block
  | .whitespace => none

namespace Behavior

/-- The policy for a kind of leaves: the first override for it, or that of its category. -/
def leafPolicy (behavior : Behavior) (kind : LeafKind) : LeafPolicy :=
  (behavior.overrides.findSome? (Override.leafPolicy? kind)).getD <|
    match kind with
    | .text => behavior.text
    | .inlineCode => behavior.inlineCode
    | .code => behavior.code

def formattingPolicy (behavior : Behavior) (kind : FormattingKind) : FormattingPolicy :=
  (behavior.overrides.findSome? (Override.formattingPolicy? kind)).getD behavior.formatting

def mediaPolicy (behavior : Behavior) (kind : MediaKind) : MediaPolicy :=
  (behavior.overrides.findSome? (Override.mediaPolicy? kind)).getD behavior.media

def blockPolicy (behavior : Behavior) (kind : BlockKind) : BlockPolicy :=
  (behavior.overrides.findSome? (Override.blockPolicy? kind)).getD behavior.block

/-- The policy of a category without regard to overrides. -/
def categoryPolicy? (behavior : Behavior) : Category → Option Policy
  | .text => some (.leaf behavior.text)
  | .inlineCode => some (.leaf behavior.inlineCode)
  | .codeBlock => some (.leaf behavior.code)
  | .formatting => some (.formatting behavior.formatting)
  | .media => some (.media behavior.media)
  | .block => some (.block behavior.block)
  | _ => none

def override? (behavior : Behavior) (type : String) : Option Override :=
  behavior.overrides.find? fun override => override.type == type

/-- The policy for a type taken as one of a category. An override for the type goes before the
category's policy, by its word, so the word has to name a policy of the category's class. -/
def effectivePolicy (behavior : Behavior) (type : Option String) (category : Category) :
    Except PolicyMismatch (Option Policy) :=
  match category.policyClass? with
  | none => .ok none
  | some policyClass =>
    match type.bind behavior.override? with
    | none => .ok (behavior.categoryPolicy? category)
    | some override =>
      match Policy.ofWord? override.policy.word policyClass with
      | some policy => .ok (some policy)
      | none => .error ⟨override.policy.word, policyClass.label⟩

end Behavior

/-- The types of nodes that are left out, in alphabetical order. -/
def Inclusion.leftOutTypes (content : Inclusion) : List String :=
  (if content.definitions then [] else ["definition"]) ++
    (if content.footnoteDefinitions then [] else ["footnoteDefinition"]) ++
    (if content.html then [] else ["html"])

/-- Whether nodes of a type are left out. -/
def Config.leavesOut (config : Config) (type : Option String) : Bool :=
  type.any fun name => config.content.leftOutTypes.contains name

example : ({ overrides := [.formatting .emphasis .strip] } : Behavior).effectivePolicy
    (some "emphasis") .block = .error ⟨"strip", "BlockPolicy"⟩ := rfl

end MarkdownExcerpt
