/-! The kinds of Markdown nodes, their type names and the categories by which the slicing rules
treat them. -/

namespace MarkdownExcerpt

/-- Leaves whose value is document text. -/
inductive LeafKind where
  | text | inlineCode | code
  deriving DecidableEq, Repr

/-- Wrappers that only mark up their content. -/
inductive FormattingKind where
  | emphasis | strong | delete
  deriving DecidableEq, Repr

inductive MediaKind where
  | link | linkReference | image | imageReference
  deriving DecidableEq, Repr

inductive BlockKind where
  | paragraph | heading | blockquote | listItem | table | tableRow | tableCell | footnoteDefinition
  deriving DecidableEq, Repr

/-- Nodes that are never taken apart. -/
inductive AtomicKind where
  | lineBreak | thematicBreak
  deriving DecidableEq, Repr

/-- What the slicing rules know of a node's type; a type without a rule of its own is unknown. -/
inductive NodeKind where
  | leaf (kind : LeafKind)
  | formatting (kind : FormattingKind)
  | media (kind : MediaKind)
  | root
  | block (kind : BlockKind)
  | list
  | atomic (kind : AtomicKind)
  | unknown
  deriving DecidableEq, Repr

inductive Category where
  | text | inlineCode | codeBlock | formatting | media | root | block | list | atomic | unknown
  deriving DecidableEq, Repr

namespace LeafKind

def name : LeafKind → String
  | text => "text"
  | inlineCode => "inlineCode"
  | code => "code"

def category : LeafKind → Category
  | text => .text
  | inlineCode => .inlineCode
  | code => .codeBlock

end LeafKind

def FormattingKind.name : FormattingKind → String
  | emphasis => "emphasis"
  | strong => "strong"
  | delete => "delete"

def MediaKind.name : MediaKind → String
  | link => "link"
  | linkReference => "linkReference"
  | image => "image"
  | imageReference => "imageReference"

def BlockKind.name : BlockKind → String
  | paragraph => "paragraph"
  | heading => "heading"
  | blockquote => "blockquote"
  | listItem => "listItem"
  | table => "table"
  | tableRow => "tableRow"
  | tableCell => "tableCell"
  | footnoteDefinition => "footnoteDefinition"

def AtomicKind.name : AtomicKind → String
  | lineBreak => "break"
  | thematicBreak => "thematicBreak"

namespace Category

def name : Category → String
  | text => "text"
  | inlineCode => "inline-code"
  | codeBlock => "code-block"
  | formatting => "formatting"
  | media => "media"
  | root => "root"
  | block => "block"
  | list => "list"
  | atomic => "atomic"
  | unknown => "unknown"

def all : List Category :=
  [text, inlineCode, codeBlock, formatting, media, root, block, list, atomic, unknown]

def ofName? (word : String) : Option Category := all.find? fun c => c.name == word

end Category

namespace NodeKind

/-- The type name of a kind; an unknown kind has no single one. -/
def name? : NodeKind → Option String
  | leaf kind => some kind.name
  | formatting kind => some kind.name
  | media kind => some kind.name
  | root => some "root"
  | block kind => some kind.name
  | list => some "list"
  | atomic kind => some kind.name
  | unknown => none

/-- Every kind that has a type name. -/
def named : List NodeKind :=
  [leaf .text, leaf .inlineCode, leaf .code,
    formatting .emphasis, formatting .strong, formatting .delete,
    media .link, media .linkReference, media .image, media .imageReference,
    root,
    block .paragraph, block .heading, block .blockquote, block .listItem, block .table,
    block .tableRow, block .tableCell, block .footnoteDefinition,
    list,
    atomic .lineBreak, atomic .thematicBreak]

/-- The kind of a type name, letter for letter. -/
def ofName (type : String) : NodeKind :=
  (named.find? fun kind => kind.name? == some type).getD unknown

/-- A node without a type name is of unknown kind. -/
def ofType (type : Option String) : NodeKind := (type.map ofName).getD unknown

def category : NodeKind → Category
  | leaf kind => kind.category
  | formatting _ => .formatting
  | media _ => .media
  | root => .root
  | block _ => .block
  | list => .list
  | atomic _ => .atomic
  | unknown => .unknown

def isLeaf : NodeKind → Bool
  | leaf _ => true
  | _ => false

@[simp] theorem ofType_none : ofType none = unknown := rfl

@[simp] theorem ofType_some (type : String) : ofType (some type) = ofName type := rfl

/-- A name determines its kind: the kind of a kind's own name is that kind. -/
theorem ofName_of_name? {kind : NodeKind} {type : String} (h : kind.name? = some type) :
    ofName type = kind := by
  cases kind with
  | leaf k => cases k <;> cases h <;> decide
  | formatting k => cases k <;> cases h <;> decide
  | media k => cases k <;> cases h <;> decide
  | block k => cases k <;> cases h <;> decide
  | atomic k => cases k <;> cases h <;> decide
  | unknown => cases h
  | _ => cases h; decide

/-- Only the name of a kind is read as that kind. -/
theorem name?_ofName {type : String} (h : ofName type ≠ unknown) :
    (ofName type).name? = some type := by
  unfold ofName at h ⊢
  cases hf : named.find? fun kind => kind.name? == some type with
  | none => simp [hf] at h
  | some kind => simpa using List.find?_some hf

end NodeKind

/-- The category of a value that may or may not be a type name. -/
def Category.ofType (type : Option String) : Category := (NodeKind.ofType type).category

end MarkdownExcerpt
