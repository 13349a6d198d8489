import MarkdownExcerpt.Document
import MarkdownExcerpt.Range
import MarkdownExcerpt.Cut
import MarkdownExcerpt.Validation

/-! The excerpt of a document: the tree that a range of its characters cuts out, the offsets of the
cuts, and what happened on the way. -/

namespace MarkdownExcerpt

structure Boundaries where
  start : Nat := 0
  stop : Nat := 0
  deriving DecidableEq, Repr

structure Info where
  originalLength : Nat := 0
  slicedLength : Nat := 0
  hasPartialNodes : Bool := false
  modifiedNodeTypes : List String := []
  deriving DecidableEq, Repr

/-- What a cut gives. A range in which nothing is left gives no node, which is no failure. -/
structure Excerpt where
  node : Option Node := none
  boundaries : Boundaries := {}
  info : Info := {}
  deriving Repr

inductive Failure where
  | range (error : RangeError)
  /-- The document is neither a tree nor null. -/
  | notTree
  /-- What is looked for is no text. -/
  | notText
  /-- Wrong lengths in the meter lead to offsets that cannot be answered. -/
  | offsets (issues : List Issue)
  deriving DecidableEq, Repr

namespace Failure

/-- Offsets that are valid, or else the failure of those that are not. -/
def ofValidated {α : Type} : Validated α → Except Failure α
  | .valid value => .ok value
  | .invalid issues => .error (.offsets issues)

end Failure

/-- Measures the node that comes out without a memory, so that the meter never knows any node but
those of the documents. What a fresh meter notes about the node is kept. -/
def Meter.measureOutput (meter : Meter) : Option Node → Nat × Meter
  | none => (0, meter)
  | some node =>
    let (_, fresh) := ({} : Meter).measure (.root 0) node
    (node.length, { meter with log := meter.log ++ fresh.log })

namespace Node

/-- The excerpt of a tree of positive length, between two offsets in it. -/
def excerptBetween (config : Config) (number length start stop : Nat) (meter : Meter)
    (node : Node) : Excerpt × Meter :=
  let (outcome, progress) :=
    node.cut config ⟨start, stop⟩ (.root number) (.ofLength 0 length) { meter }
  let (slicedLength, meter) := progress.meter.measureOutput outcome.tree?
  let tally := progress.tally
  ({ node := outcome.tree?
     boundaries := ⟨start, stop⟩
     info := ⟨length, slicedLength, 0 < tally.partialNodes, tally.modifiedTypes⟩ },
    meter.note (.sliced start stop length slicedLength tally.partialNodes tally.modifiedTypes))

/-- The excerpt of a tree of a length. An empty tree is returned whole from offset zero. -/
def excerptOfLength (config : Config) (number length : Nat) (range : Range) (meter : Meter)
    (node : Node) : Excerpt × Meter :=
  let stop := range.stopWithin length
  if length = 0 then
    if range.start = 0 then ({ node := some node }, meter)
    else ({ boundaries := ⟨range.start, 0⟩ }, meter)
  else if stop ≤ range.start then
    ({ boundaries := ⟨range.start, stop⟩, info := { originalLength := length } },
      meter.note (.startBeyondEnd range.start length))
  else node.excerptBetween config number length range.start stop meter

/-- The excerpt of a tree. It ends no later than the tree, so there is none of a tree that is said to
end below zero. -/
def excerpt (config : Config) (number : Nat) (range : Range) (meter : Meter) (node : Node) :
    Except Failure Excerpt × Meter :=
  match meter.measure (.root number) node with
  | (.ofNat length, meter) =>
    let (excerpt, meter) := node.excerptOfLength config number length range meter
    (.ok excerpt, meter)
  | (.negSucc _, meter) => (.error (.offsets [⟨[.field "end"], .negative⟩]), meter)

end Node

namespace Document

/-- The excerpt of a document, for bounds that are yet to be checked. -/
def excerpt (config : Config) (number : Nat) (start stop : Json) (meter : Meter)
    (document : Document) : Except Failure Excerpt × Meter :=
  match Range.ofJson start stop with
  | .error error => (.error (.range error), meter)
  | .ok range =>
    match document with
    | empty => (.ok {}, meter)
    | malformed => (.error .notTree, meter)
    | tree node => node.excerpt config number range meter

/-- The length of a document in characters. -/
def length (number : Nat) (meter : Meter) : Document → Except Failure Int × Meter
  | empty => (.ok 0, meter)
  | malformed => (.error .notTree, meter)
  | .tree node =>
    let (length, meter) := meter.measure (.root number) node
    (.ok length, meter)

end Document
end MarkdownExcerpt
