import MarkdownExcerpt.Config
import MarkdownExcerpt.Outcome
import MarkdownExcerpt.Span
import MarkdownExcerpt.Text.Piece

/-! What to do with a node, given the window that is cut out, the span of the node and the policies.
This looks at no child, so the rules can be read one by one. -/

namespace MarkdownExcerpt

inductive Treatment where
  /-- Nothing comes out. -/
  | drop
  /-- The node comes out as it is, with whatever is in it. -/
  | keep
  /-- The leaf comes out with another value, unless that is empty. -/
  | shorten (value : List Char)
  /-- The node comes out around its new children. -/
  | rebuild (evenEmpty : Bool)
  /-- The new children come out without the node. -/
  | splice (isolated : Bool)
  deriving DecidableEq, Repr

/-- A treatment, and what is to be recorded about it. -/
structure Decision where
  treatment : Treatment
  /-- The window covers the node only in part. -/
  isPartial : Bool := false
  /-- The type of node that a policy changes or drops. -/
  modifiedType : Option String := none
  deriving DecidableEq, Repr

namespace Treatment

/-- Whether new children are needed. -/
def descends : Treatment → Bool
  | rebuild _ => true
  | splice _ => true
  | _ => false

/-- What comes out of a node with its new children. -/
def emit (node : Node) (children : List Node) : Treatment → Outcome
  | drop => .nothing
  | keep => .one node
  | shorten value =>
    if value.isEmpty then .nothing else .one (node.withValue (String.ofList value))
  | rebuild evenEmpty =>
    if children.isEmpty && !evenEmpty then .nothing else .one (node.withChildren children)
  | splice isolated => .content children isolated

/-- Wrappers stay around their new children if they have children at all. -/
def ofContainer (config : Config) (node : Node) : Treatment :=
  if node.isParent then .rebuild config.preserveEmptyBlocks else .keep

/-- The treatment of a node of which nothing is cut off. -/
def whole (config : Config) (node : Node) : Treatment :=
  match node.kind with
  | .leaf _ => .keep
  | .formatting _ => .rebuild config.preserveEmptyBlocks
  | .media _ => .ofContainer config node
  | .root => .rebuild config.preserveEmptyBlocks
  | .block _ => .rebuild config.preserveEmptyBlocks
  | .list => .rebuild false
  | .atomic _ => .keep
  | .unknown => .ofContainer config node

/-- The part of a leaf's value that is in the window. Blanks are cleaned in plain text only; code
stays as it is. -/
def visibleValue (config : Config) (window span : Span) (kind : LeafKind) (node : Node) :
    List Char :=
  let visible := Text.piece node.text.toList (window.start - span.start).toNat
    (window.stop - span.start).toNat
  match kind with
  | .text =>
    Text.clean config.text.whitespace (span.start < window.start) (window.stop < span.stop) visible
  | _ => visible

end Treatment

namespace Decision

/-- The decision on a node that the window covers in part. Where no policy says otherwise, the node
is treated like one that is covered. -/
def ofPartial (config : Config) (window span : Span) (node : Node) : Decision :=
  let whole : Decision := ⟨.whole config node, true, none⟩
  match node.kind with
  | .leaf kind =>
    match config.behavior.leafPolicy kind with
    | .includeFull => whole
    | .excludeFull => ⟨.drop, true, some kind.name⟩
    | .truncate =>
      ⟨.shorten (Treatment.visibleValue config window span kind node), true, some kind.name⟩
  | .formatting kind =>
    match config.behavior.formattingPolicy kind with
    | .exclude => ⟨.drop, true, some kind.name⟩
    | .strip => ⟨.splice false, true, some kind.name⟩
    | .preserve => whole
    | .extend => whole
  | .media kind =>
    match config.behavior.mediaPolicy kind with
    | .strip => ⟨.drop, true, some kind.name⟩
    | .contentOnly => ⟨.splice false, true, some kind.name⟩
    | .preserve => whole
  | .block kind =>
    match config.behavior.blockPolicy kind with
    | .exclude => ⟨.drop, true, some kind.name⟩
    | .unwrap => ⟨.splice true, true, some kind.name⟩
    | .include => whole
  | _ => whole

/-- The decision on a node. What is outside the window or of a type left out is dropped without
record. -/
def of (config : Config) (window span : Span) (node : Node) : Decision :=
  if span.misses window then ⟨.drop, false, none⟩
  else if config.leavesOut node.type? then ⟨.drop, false, none⟩
  else if span.isWithin window then ⟨.whole config node, false, none⟩
  else ofPartial config window span node

theorem isPartial_ofPartial (config : Config) (window span : Span) (node : Node) :
    (ofPartial config window span node).isPartial = true := by
  unfold ofPartial
  split <;> (try split) <;> rfl

/-- Only moved together do window and span leave the decision as it is. -/
theorem of_shift (config : Config) (window span : Span) (offset : Int) (node : Node) :
    of config (window.shift offset) (span.shift offset) node = of config window span node := by
  have outside : (span.shift offset).misses (window.shift offset) = span.misses window := by
    simp [Span.misses, Span.shift]
  have inside : (span.shift offset).isWithin (window.shift offset) = span.isWithin window := by
    simp [Span.isWithin, Span.shift]
  have value (kind : LeafKind) :
      Treatment.visibleValue config (window.shift offset) (span.shift offset) kind node =
        Treatment.visibleValue config window span kind node := by
    have h₁ : window.start + offset - (span.start + offset) = window.start - span.start := by omega
    have h₂ : window.stop + offset - (span.start + offset) = window.stop - span.start := by omega
    simp [Treatment.visibleValue, Span.shift, h₁, h₂]
  simp [of, ofPartial, outside, inside, value]

end Decision
end MarkdownExcerpt
