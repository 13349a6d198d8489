import MarkdownExcerpt.Config.Json
import MarkdownExcerpt.Walk

/-! Many operations on a few documents with one meter. -/

namespace MarkdownExcerpt

/-- An operation on the documents of a session, which are numbered from zero. -/
inductive Operation where
  /-- The length of what stands at a path of a document. -/
  | length (number : Nat) (path : List Nat)
  /-- The length that the meter remembers for a place. -/
  | lookUp (number : Nat) (path : List Nat)
  /-- Makes the meter remember a length, right or wrong. -/
  | remember (number : Nat) (path : List Nat) (length : Int)
  | clear
  | excerpt (number : Nat) (start stop : Json) (config : Config)
  | spans (number : Nat)
  | position (number : Nat) (path : List Nat)

inductive Answer where
  | done
  | length (length : Int)
  | remembered (length : Option Int)
  | excerpt (excerpt : Excerpt)
  | spans (spans : List (Node × Span))
  | position (position : Option Position)

/-- The document of a number; there is none beyond the last. -/
def documentAt (documents : List Document) (number : Nat) : Document :=
  (documents[number]?).getD .empty

namespace Operation

/-- Carries out an operation. -/
def run (documents : List Document) (meter : Meter) :
    Operation → Except Failure Answer × Meter
  | length number path =>
    match (documentAt documents number).below path with
    | .empty => (.ok (.length 0), meter)
    | .malformed => (.error .notTree, meter)
    | .tree node =>
      let (count, meter) := meter.measure ⟨number, path⟩ node
      (.ok (.length count), meter)
  | lookUp number path => (.ok (.remembered (meter.known? ⟨number, path⟩)), meter)
  | remember number path count => (.ok .done, meter.remember ⟨number, path⟩ count)
  | clear => (.ok .done, meter.clear)
  | excerpt number start stop config =>
    let (result, meter) := (documentAt documents number).excerpt config number start stop meter
    (result.map .excerpt, meter)
  | spans number =>
    let (result, meter) := (documentAt documents number).walk number meter
    (result.map fun steps => .spans (steps.map fun step => (step.node, step.span)), meter)
  | position number path =>
    let (result, meter) := (documentAt documents number).position number path meter
    (result.map .position, meter)

/-- Carries out operations one after the other; one that fails does not stop the next. -/
def runAll (documents : List Document) (meter : Meter) :
    List Operation → List (Except Failure Answer) × Meter
  | [] => ([], meter)
  | operation :: rest =>
    let (answer, meter) := operation.run documents meter
    let (answers, meter) := runAll documents meter rest
    (answer :: answers, meter)

end Operation
end MarkdownExcerpt
