import MarkdownExcerpt.Span
import MarkdownExcerpt.Validation.Scalar

/-! Positions of nodes, made from spans and read and written as JSON. -/

namespace MarkdownExcerpt

/-- Where a node stands in the document text. -/
structure Position where
  start : Nat
  stop : Nat
  deriving DecidableEq, Repr

namespace Position

/-- The position that a span gives, unless an offset in it is below zero. -/
def ofSpan (span : Span) : Validated Position :=
  mk <$> (Validated.naturalOfInt span.start).within (.field "start")
    <*> (Validated.naturalOfInt span.stop).within (.field "end")

def ofFields (fields : Fields) : Validated Position :=
  mk <$> fields.required "start" Validated.natural
    <*> fields.required "end" Validated.natural
    <* fields.noOthers [["start"], ["end"]]

def ofJson : Json → Validated Position := Validated.model "NodePosition" ofFields

def toJson (position : Position) : Json :=
  .obj [("start", .int position.start), ("end", .int position.stop)]

theorem ofSpan_ofNat (start stop : Nat) : ofSpan ⟨start, stop⟩ = .valid ⟨start, stop⟩ := rfl

theorem ofJson_toJson (position : Position) : ofJson position.toJson = .valid position := rfl

end Position
end MarkdownExcerpt
